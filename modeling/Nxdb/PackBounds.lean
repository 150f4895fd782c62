/-
  Where `packImDrawData` reads and writes: the table of the hashes, and the buffer of `render`.

  Nothing on the way looks at the number of the draw lists or at the room that is left.  What the
  function touches is followed here for every frame, with the memory from the table on in place of the
  table, of which only the first `sMaxDrawLists` entries are the table's.  The list at index `i`
  touches entry `i`, and what is written reaches from the beginning of the buffer to the cursor
  without a gap, so both stay inside if and only if the frame has no more lists than the table
  entries, and takes no more bytes than the buffer has (`staysInside_iff`).

  1. `touched` walks the frame as `packLists` does and notes where it reads and writes (`Touched`),
     with the table as a memory that goes on.
  2. `touched_spec`: the indices touched are those of the lists, and the cursor ends at
     `frameCost`.
  3. The last section connects the walk to `packImDrawData`: where it stays inside, the bytes
     written are the packet, as many as the value returned.
-/
import Nxdb.ImGuiLoop
import Nxdb.Lib.Cursor

namespace Nxdb

open Lib

variable (P : Platform)

/-! ## The code

  `packImDrawData` once more, with a cursor that notes what is written where and a table that goes
  on behind its end.  On frames that fit it is the function of `DrawDataPack` (see below). -/

/-- The indices of `sPrevDrawListHashes` that are read or written, and what is written to `out`. -/
structure Touched where
  indices : List Nat
  cursor : Cursor
deriving DecidableEq

/-- The rest of the loop body for a list that is sent in full: its commands, its vertices, and its
    indices at once. -/
def touchBody (drawList : ImDrawList) (c : Cursor) : Cursor :=
  let c := c.writeEach PackedImDrawCmd.sizeOf drawList.cmdBuffer.length
  let c := c.writeEach PackedImDrawVert.sizeOf drawList.vtxBuffer.length
  c.write (2 * drawList.idxBuffer.length)

/-- The loop over the draw lists from index `cmdListIdx` on, `hashes` being the memory from
    `sPrevDrawListHashes` on. -/
def touchLists : Nat → (Nat → UInt32) → List ImDrawList → Touched → Touched
  | _, _, [], t => t
  | cmdListIdx, hashes, drawList :: rest, t =>
    let hash := hashImDrawList P drawList
    let t := { t with indices := t.indices ++ [cmdListIdx] }
    if hash = hashes cmdListIdx then
      touchLists (cmdListIdx + 1) hashes rest { t with cursor := t.cursor.writeEach 4 3 }
    else
      let t := { t with indices := t.indices ++ [cmdListIdx] }
      touchLists (cmdListIdx + 1) (Function.update hashes cmdListIdx hash) rest
        { t with cursor := touchBody drawList (t.cursor.writeEach 4 3) }

/-- What `packImDrawData` touches. -/
def touched (hashes : Nat → UInt32) (data : ImDrawData) : Touched :=
  touchLists P 0 hashes data.cmdLists ⟨[], Cursor.init.write ImDrawDataPackHeader.sizeOf⟩

/-! ## What should hold, and when it does -/

/-- Every index is one of the table's, and every byte that is written one of the buffer's. -/
structure StaysInside (hashes : Nat → UInt32) (data : ImDrawData) : Prop where
  indices : ∀ i ∈ (touched P hashes data).indices, i < sMaxDrawLists
  bytes : ∀ place, (touched P hashes data).cursor.Written place → place < sDrawDataBufferSize

/-- The bytes a draw list takes: three zeros if its hash is the one that is stored. -/
def listCost (stored : UInt32) (l : ImDrawList) : Nat :=
  if hashImDrawList P l = stored then 12
  else 12 + 12 * l.cmdBuffer.length + 10 * l.vtxBuffer.length + 2 * l.idxBuffer.length

/-- The bytes the lists from index `i` on take. -/
def listsCost : Nat → (Nat → UInt32) → List ImDrawList → Nat
  | _, _, [] => 0
  | i, hashes, l :: rest => listCost P (hashes i) l + listsCost (i + 1) hashes rest

/-- The bytes a frame takes. -/
def frameCost (hashes : Nat → UInt32) (data : ImDrawData) : Nat :=
  ImDrawDataPackHeader.sizeOf + listsCost P 0 hashes data.cmdLists

/-! ## The loop

  What is touched is collected along the loop: index `i` for the list at `i`, and bytes without a
  gap.  So the indices are those below the count, and the bytes those below the cursor, which is the
  sum of what the lists take (`touched_spec`). -/

variable {P}

theorem gapless_touchBody (drawList : ImDrawList) {c : Cursor} (h : c.Gapless) :
    (touchBody drawList c).Gapless :=
  ((h.writeEach _ _).writeEach _ _).write _

theorem pos_touchBody (drawList : ImDrawList) (c : Cursor) :
    (touchBody drawList c).pos = c.pos + 12 * drawList.cmdBuffer.length
      + 10 * drawList.vtxBuffer.length + 2 * drawList.idxBuffer.length := by
  unfold touchBody
  simp only [Cursor.pos_write, Cursor.pos_writeEach, PackedImDrawCmd.sizeOf,
    PackedImDrawVert.sizeOf]

/-- Entries behind the index do not see what is stored at it. -/
theorem listsCost_update (hash : UInt32) (lists : List ImDrawList) : ∀ {i j : Nat} (_ : j < i)
    (hashes : Nat → UInt32),
      listsCost P i (Function.update hashes j hash) lists = listsCost P i hashes lists := by
  induction lists with
  | nil => exact fun _ _ => rfl
  | cons l rest ih =>
    intro i j hij hashes
    rw [listsCost, listsCost, ih (by omega), Function.update_of_ne (by omega)]

/-- **The loop** touches the entries of its indices, one behind the other, and moves the cursor by what
    the lists take. -/
theorem touchLists_spec (lists : List ImDrawList) : ∀ (s : Nat) (hashes : Nat → UInt32) (t : Touched),
    t.cursor.Gapless →
      (touchLists P s hashes lists t).cursor.Gapless ∧
      (touchLists P s hashes lists t).cursor.pos = t.cursor.pos + listsCost P s hashes lists ∧
      ∀ i, i ∈ (touchLists P s hashes lists t).indices ↔
        i ∈ t.indices ∨ (s ≤ i ∧ i < s + lists.length) := by
  induction lists with
  | nil =>
    intro s hashes t ht
    refine ⟨ht, rfl, fun i => ?_⟩
    have hempty : ¬(s ≤ i ∧ i < s + ([] : List ImDrawList).length) := by
      rw [List.length_nil]
      omega
    exact ⟨Or.inl, fun h => h.resolve_right hempty⟩
  | cons l rest ih =>
    intro s hashes t ht
    rw [touchLists, listsCost, listCost]
    by_cases hsame : hashImDrawList P l = hashes s
    · -- the mark alone
      rw [if_pos hsame, if_pos hsame]
      obtain ⟨hgap, hpos, hmem⟩ := ih (s + 1) hashes
        ⟨t.indices ++ [s], t.cursor.writeEach 4 3⟩ (ht.writeEach 4 3)
      refine ⟨hgap, ?_, fun i => ?_⟩
      · rw [hpos, Cursor.pos_writeEach]
        omega
      · rw [hmem, List.mem_append, List.mem_singleton, List.length_cons, or_assoc]
        refine or_congr_right ?_
        omega
    · -- the list in full; the new hash is not looked at again
      rw [if_neg hsame, if_neg hsame]
      obtain ⟨hgap, hpos, hmem⟩ := ih (s + 1) (Function.update hashes s (hashImDrawList P l))
        ⟨t.indices ++ [s] ++ [s], touchBody l (t.cursor.writeEach 4 3)⟩
        (gapless_touchBody l (ht.writeEach 4 3))
      refine ⟨hgap, ?_, fun i => ?_⟩
      · rw [hpos, pos_touchBody, Cursor.pos_writeEach, listsCost_update _ rest (by omega : s < s + 1)]
        omega
      · rw [hmem, List.mem_append, List.mem_append, List.mem_singleton, List.length_cons, or_assoc,
          or_assoc]
        refine or_congr_right ?_
        omega

section Frame

variable (hashes : Nat → UInt32) (data : ImDrawData)

theorem touched_spec : (touched P hashes data).cursor.Gapless ∧
    (touched P hashes data).cursor.pos = frameCost P hashes data ∧
    ∀ i, i ∈ (touched P hashes data).indices ↔ i < data.cmdListsCount := by
  obtain ⟨hgap, hpos, hmem⟩ := touchLists_spec (P := P) data.cmdLists 0 hashes
    ⟨[], Cursor.init.write ImDrawDataPackHeader.sizeOf⟩ (Cursor.gapless_init.write _)
  refine ⟨hgap, ?_, fun i => ?_⟩
  · unfold touched
    rw [hpos, Cursor.pos_write, frameCost]
    exact congrArg (· + _) (Nat.zero_add _)
  · unfold touched
    rw [hmem, ImDrawData.cmdListsCount, Nat.zero_add]
    exact ⟨fun h => (h.resolve_left List.not_mem_nil).2, fun h => Or.inr ⟨Nat.zero_le i, h⟩⟩

/-- The entries touched are in the table if and only if it has one for each list. -/
theorem indices_inside_iff :
    (∀ i ∈ (touched P hashes data).indices, i < sMaxDrawLists) ↔
      data.cmdListsCount ≤ sMaxDrawLists := by
  have hmem := (touched_spec (P := P) hashes data).2.2
  constructor
  · intro h
    by_contra hgt
    exact absurd (h sMaxDrawLists ((hmem _).mpr (by omega))) (Nat.lt_irrefl _)
  · intro h i hi
    have hlt := (hmem i).mp hi
    omega

/-- The bytes written are in the buffer if and only if the frame fits. -/
theorem bytes_inside_iff :
    (∀ place, (touched P hashes data).cursor.Written place → place < sDrawDataBufferSize) ↔
      frameCost P hashes data ≤ sDrawDataBufferSize := by
  obtain ⟨hgap, hpos, -⟩ := touched_spec (P := P) hashes data
  rw [hgap.inside_iff, hpos]

variable (P) in
/-- **Packing stays inside its memory** if and only if the frame has at most 128 lists, and fits. -/
theorem staysInside_iff : StaysInside P hashes data ↔
    data.cmdListsCount ≤ sMaxDrawLists ∧ frameCost P hashes data ≤ sDrawDataBufferSize := by
  rw [← indices_inside_iff (P := P) hashes data, ← bytes_inside_iff]
  exact ⟨fun h => ⟨h.indices, h.bytes⟩, fun h => ⟨h.1, h.2⟩⟩

end Frame

/-! ## What is written is the packet

  The costs of the frame are the length of its packet: the two models say the same of a frame that
  fits. -/

section Packet

variable {st : PackState}

/-- A packed draw list has the size that it costs. -/
theorem length_entryBytes (displaySize : ImVec2) {stored : Option UInt32} {hash : UInt32}
    (h : stored = some hash) (l : ImDrawList) :
    (entryBytes (if stored = some (hashImDrawList P l) then none
      else some (packList P displaySize l))).length = listCost P hash l := by
  subst h
  rw [listCost]
  by_cases hsame : hashImDrawList P l = hash
  · rw [if_pos (congrArg some hsame.symm), if_pos hsame]
    rfl
  · rw [if_neg fun heq => hsame (Option.some.inj heq).symm, if_neg hsame]
    show (packList P displaySize l).bytes.length = _
    rw [PackedList.length_bytes]
    simp only [packList, List.length_map]

/-- The packed draw lists have the size that they cost. -/
theorem length_packEntries_bytes (displaySize : ImVec2) {hashes : Nat → UInt32}
    (lists : List ImDrawList) : ∀ {s : Nat} {t : Delta.Table UInt32},
      (∀ i, i < lists.length → t i = some (hashes (s + i))) →
      ((packEntries P displaySize t lists).flatMap entryBytes).length = listsCost P s hashes lists := by
  induction lists with
  | nil => exact fun _ => rfl
  | cons l rest ih =>
    intro s t h
    have hhead : t 0 = some (hashes s) := h 0 (Nat.succ_pos _)
    have hrest : ∀ i, i < rest.length → t (i + 1) = some (hashes (s + 1 + i)) := by
      intro i hi
      rw [h (i + 1) (Nat.succ_lt_succ hi), show s + (i + 1) = s + 1 + i by omega]
    rw [packEntries_cons, List.flatMap_cons, List.length_append, ih hrest,
      length_entryBytes displaySize hhead, listsCost]

/-- **The value returned** is what the frame costs. -/
theorem length_out (displaySize : ImVec2) (mouseCursor : Int32) (data : ImDrawData)
    (hashes : Nat → UInt32)
    (htable : ∀ i, i < sMaxDrawLists → st.sPrevDrawListHashes[i]? = some (hashes i))
    (hcount : data.cmdListsCount ≤ sMaxDrawLists) :
    ∃ r, packImDrawData P displaySize mouseCursor st data = some r ∧
      r.out.length = (touched P hashes data).cursor.pos := by
  obtain ⟨r, hpack, hout, -, -⟩ := packImDrawData_eq P displaySize mouseCursor st hcount
  refine ⟨r, hpack, ?_⟩
  have hlists : ∀ i, i < data.cmdLists.length →
      tableOf st.sPrevDrawListHashes i = some (hashes (0 + i)) := by
    intro i hi
    rw [Nat.zero_add]
    exact htable i (Nat.lt_of_lt_of_le hi hcount)
  rw [hout, List.length_append, ImDrawDataPackHeader.length_bytes,
    length_packEntries_bytes displaySize data.cmdLists hlists, (touched_spec hashes data).2.1]
  rfl

end Packet

/-! ## Frames that do not fit

  Both ways out of bounds are there: 129 lists of which each is small, and one list that is
  large. -/

theorem ne_add_one (hash : UInt32) : hash ≠ hash + 1 := by
  intro h
  have hone := (UInt32.add_right_inj hash).mp ((UInt32.add_zero hash).trans h)
  exact absurd hone (by decide)

/-- A list with one command and so many indices, all of them `0`. -/
def wideList (count : Nat) : ImDrawList where
  cmdBuffer := [{ clipRect := ⟨0, 0, 1280, 720⟩, textureId := 1, vtxOffset := 0, idxOffset := 0,
                  elemCount := UInt32.ofNat count, userCallback := 0, userCallbackData := 0,
                  userCallbackDataSize := 0, userCallbackDataOffset := 0 }]
  idxBuffer := List.replicate count 0
  vtxBuffer := [⟨⟨512, 256⟩, ⟨0, 0⟩, 1⟩]

theorem listCost_wideList {stored : UInt32} {count : Nat}
    (h : hashImDrawList P (wideList count) ≠ stored) :
    listCost P stored (wideList count) = 34 + 2 * count := by
  rw [listCost, if_neg h, wideList, List.length_replicate]
  show 12 + 12 * 1 + 10 * 1 + 2 * count = _
  omega

/-- A triangle in a list of its own. -/
def oneTriangle : ImDrawData := ⟨3, 3, [triangle 1]⟩

theorem staysInside_oneTriangle : StaysInside Platform.lp64 (fun _ => 0) oneTriangle :=
  (staysInside_iff Platform.lp64 (fun _ => 0) oneTriangle).mpr (by decide +kernel)

/-- So many triangles, each in a list of its own. -/
def manyLists (count : Nat) : ImDrawData := ⟨0, 0, List.replicate count (triangle 1)⟩

/-- One list, with so many indices. -/
def manyIndices (count : Nat) : ImDrawData := ⟨1, Int32.ofNat count, [wideList count]⟩

/-- A list that is sent does not fit if its indices do not. -/
theorem not_bytes_inside {hashes : Nat → UInt32} {count : Nat}
    (hsent : hashImDrawList P (wideList count) ≠ hashes 0)
    (hwide : sDrawDataBufferSize < 50 + 2 * count) : ¬StaysInside P hashes (manyIndices count) := by
  intro h
  have hcost := (bytes_inside_iff hashes (manyIndices count)).mp h.bytes
  rw [frameCost, manyIndices, listsCost, listsCost, listCost_wideList hsent,
    ImDrawDataPackHeader.sizeOf] at hcost
  omega

/-- One list too many for the table, and one that does not fit into the buffer. -/
theorem not_staysInside :
    ¬StaysInside Platform.lp64 (fun _ => 0) (manyLists 129) ∧
      ¬StaysInside Platform.lp64 (fun _ => hashImDrawList Platform.lp64 (wideList 300000) + 1)
        (manyIndices 300000) := by
  constructor
  · intro h
    have hcount := (indices_inside_iff (fun _ => 0) (manyLists 129)).mp h.indices
    rw [ImDrawData.cmdListsCount, manyLists, List.length_replicate] at hcount
    exact absurd hcount (by decide)
  · exact not_bytes_inside (ne_add_one _) (by decide)

end Nxdb
