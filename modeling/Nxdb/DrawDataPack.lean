/-
  `DrawDataPack.cpp`: the server packs a frame.

  `packImDrawData` walks the draw lists with one hash per index of the previous frames in
  `sPrevDrawListHashes`: a list whose hash is the stored one is written as three zero sizes, any
  other list is written in full and its hash stored.  Positions are clamped in place, so the
  function also returns the frame it leaves behind.  Indexing the 128-entry table out of bounds is
  undefined, hence the `Option`.

  The second half reads the bytes back as a syntax: a packed frame is a header and one `Option
  PackedList` for each draw list, `none` for the three zeros.  `packImDrawData_eq` says that the
  bytes are the encoding of exactly that.
-/
import Nxdb.Common
import Nxdb.ImGui
import Nxdb.Lib.Delta

namespace Nxdb

open Lib

/-! ## The code -/

/-- How many lists have their hashes remembered. -/
def sMaxDrawLists : Nat := 128

/-- The static variables of `DrawDataPack.cpp`.  Nothing reads `sNumPrevDrawLists`. -/
structure PackState where
  sPrevDrawListHashes : Vector UInt32 sMaxDrawLists
  sNumPrevDrawLists : Nat

/-- The table of hashes begins with zeros. -/
def PackState.init : PackState where
  sPrevDrawListHashes := Vector.replicate sMaxDrawLists 0
  sNumPrevDrawLists := 0

/-- `std::clamp`. -/
def clamp (v lo hi : ℚ) : ℚ := if v < lo then lo else if hi < v then hi else v

variable (P : Platform)

/-- The hash of an array, by its bytes in memory. -/
def hashBuffer (image : List UInt8) : UInt32 :=
  Hash.hashMurmur image (UInt32.ofNat image.length)

/-- `hashImDrawList`: three hashes, added up.  It is of the raw positions, before any scaling. -/
def hashImDrawList (list : ImDrawList) : UInt32 :=
  let hash := 0
  let hash := hash + hashBuffer (list.vtxBuffer.flatMap P.vertImage)
  let hash := hash + hashBuffer (list.idxBuffer.flatMap fun i => le 2 i.toNat)
  hash + hashBuffer (list.cmdBuffer.flatMap P.cmdImage)

/-- A value on its way into a 12-bit field: converted to `u16`, then cut off. -/
def toField12 (value : ℚ) : BitVec 12 := (P.toU16 value).toBitVec.setWidth 12

/-- The scaling of a clip edge or a position before the conversion. -/
def scale (value size : ℚ) (bound : ℕ) : ℚ := value / size * bound

/-- What is written for a command.  Corners are scaled to the display and cut to 12 bits. -/
def packCmd (displaySize : ImVec2) (srcCmd : ImDrawCmd) : PackedImDrawCmd where
  clipRect :=
    { x1 := toField12 P (scale srcCmd.clipRect.x displaySize.x PackedImDrawCmd.sBoundClip)
      y1 := toField12 P (scale srcCmd.clipRect.y displaySize.y PackedImDrawCmd.sBoundClip)
      x2 := toField12 P (scale srcCmd.clipRect.z displaySize.x PackedImDrawCmd.sBoundClip)
      y2 := toField12 P (scale srcCmd.clipRect.w displaySize.y PackedImDrawCmd.sBoundClip) }
  vtxOffset := srcCmd.vtxOffset.toUInt16
  idxOffset := srcCmd.idxOffset.toUInt16
  elemCount := srcCmd.elemCount.toUInt16

/-- The clamping of a position, which the loop writes back into the draw list. -/
def clampVert (displaySize : ImVec2) (srcVtx : ImDrawVert) : ImDrawVert :=
  { srcVtx with
    pos := ⟨clamp srcVtx.pos.x 0 displaySize.x, clamp srcVtx.pos.y 0 displaySize.y⟩ }

/-- What is written for a vertex.  The list itself is clamped on the way. -/
def packVert (displaySize : ImVec2) (srcVtx : ImDrawVert) : PackedImDrawVert :=
  let srcVtx := clampVert displaySize srcVtx
  { col := srcVtx.col
    posX := toField12 P (scale srcVtx.pos.x displaySize.x PackedImDrawVert.sBoundPos)
    posY := toField12 P (scale srcVtx.pos.y displaySize.y PackedImDrawVert.sBoundPos)
    uvX := toField12 P (srcVtx.uv.x * PackedImDrawVert.sBoundUv)
    uvY := toField12 P (srcVtx.uv.y * PackedImDrawVert.sBoundUv) }

/-- `write(buffer.size())`. -/
def sizeBytes {α : Type} (buffer : List α) : List UInt8 := intBytes (Int32.ofNat buffer.length)

/-- A size takes four bytes. -/
@[simp] theorem length_sizeBytes {α : Type} (buffer : List α) : (sizeBytes buffer).length = 4 :=
  length_intBytes _

/-- An index is sent as it is. -/
def idxBytes (i : UInt16) : List UInt8 := le 2 i.toNat

/-- What the loop writes for a list that is sent in full, after its three sizes. -/
def writeBody (displaySize : ImVec2) (drawList : ImDrawList) : List UInt8 :=
  drawList.cmdBuffer.flatMap (fun srcCmd => (packCmd P displaySize srcCmd).bytes)
    ++ drawList.vtxBuffer.flatMap (fun srcVtx => (packVert P displaySize srcVtx).bytes)
    ++ drawList.idxBuffer.flatMap idxBytes

/-- What packing leaves of the list: its vertices have been clamped. -/
def clampList (displaySize : ImVec2) (drawList : ImDrawList) : ImDrawList :=
  { drawList with vtxBuffer := drawList.vtxBuffer.map (clampVert displaySize) }

/-- The loop over the draw lists from index `cmdListIdx` on: the bytes written, the table and the
    lists it leaves behind. -/
def packLists (displaySize : ImVec2) :
    Nat → Vector UInt32 sMaxDrawLists → List ImDrawList →
      Option (List UInt8 × Vector UInt32 sMaxDrawLists × List ImDrawList)
  | _, hashes, [] => some ([], hashes, [])
  | cmdListIdx, hashes, drawList :: rest => do
    let hash := hashImDrawList P drawList
    let prevHash ← hashes[cmdListIdx]?
    if hash = prevHash then
      let (out, hashes, lists) ← packLists displaySize (cmdListIdx + 1) hashes rest
      return (intBytes 0 ++ intBytes 0 ++ intBytes 0 ++ out, hashes, drawList :: lists)
    else
      let hashes := hashes.setIfInBounds cmdListIdx hash
      let (out, hashes, lists) ← packLists displaySize (cmdListIdx + 1) hashes rest
      return (sizeBytes drawList.cmdBuffer ++ sizeBytes drawList.vtxBuffer
          ++ sizeBytes drawList.idxBuffer ++ writeBody P displaySize drawList ++ out,
        hashes, clampList displaySize drawList :: lists)

/-- What `packImDrawData` leaves behind: the bytes written to `out` (their number is the value it
    returns), its static variables and the draw data with its positions clamped. -/
structure PackResult where
  out : List UInt8
  st : PackState
  data : ImDrawData

/-- `displaySize` and `mouseCursor` are what `ImGui::GetIO()` and `ImGui::GetMouseCursor()` say. -/
def packImDrawData (displaySize : ImVec2) (mouseCursor : Int32) (st : PackState)
    (data : ImDrawData) : Option PackResult := do
  let header : ImDrawDataPackHeader :=
    { curCursor := mouseCursor
      cmdListsCount := Int32.ofNat data.cmdListsCount
      totalVtxCount := data.totalVtxCount
      totalIdxCount := data.totalIdxCount }
  let (out, hashes, lists) ← packLists P displaySize 0 st.sPrevDrawListHashes data.cmdLists
  return { out := header.bytes ++ out
           st := { sPrevDrawListHashes := hashes, sNumPrevDrawLists := data.cmdListsCount }
           data := { data with cmdLists := lists } }

/-! ## The packed frame as a syntax

  The loop is `Delta.encode` with hashes as keys: an entry of the table that is the hash of the list
  gives a mark, any other the list, and the table afterwards has the hashes of the frame.  So what a
  client makes of the packet can be said with `Delta.patch`, without a word about bytes. -/

/-- A draw list as it is sent in full. -/
structure PackedList where
  cmds : List PackedImDrawCmd
  verts : List PackedImDrawVert
  idxs : List UInt16
deriving DecidableEq

namespace PackedList

/-- A list on the wire: three sizes, then commands, vertices and indices. -/
def bytes (l : PackedList) : List UInt8 :=
  sizeBytes l.cmds ++ sizeBytes l.verts ++ sizeBytes l.idxs
    ++ (l.cmds.flatMap PackedImDrawCmd.bytes ++ l.verts.flatMap PackedImDrawVert.bytes
      ++ l.idxs.flatMap idxBytes)

/-- The sizes fit an `int`, and they are not the three zeros of an unchanged list. -/
def Wf (l : PackedList) : Prop :=
  (l.cmds.length < 2 ^ 31 ∧ l.verts.length < 2 ^ 31 ∧ l.idxs.length < 2 ^ 31)
    ∧ ¬ (l.cmds.length = 0 ∧ l.verts.length = 0 ∧ l.idxs.length = 0)

/-- How many bytes a list takes, by its three sizes. -/
theorem length_bytes (l : PackedList) :
    l.bytes.length = 12 + 12 * l.cmds.length + 10 * l.verts.length + 2 * l.idxs.length := by
  have hc : (l.cmds.flatMap PackedImDrawCmd.bytes).length = 12 * l.cmds.length := by
    rw [List.length_flatMap, List.map_congr_left fun c _ => c.length_bytes, List.map_const',
      List.sum_replicate_nat, PackedImDrawCmd.sizeOf, Nat.mul_comm]
  have hv : (l.verts.flatMap PackedImDrawVert.bytes).length = 10 * l.verts.length := by
    rw [List.length_flatMap, List.map_congr_left fun v _ => v.length_bytes, List.map_const',
      List.sum_replicate_nat, PackedImDrawVert.sizeOf, Nat.mul_comm]
  have hi : (l.idxs.flatMap idxBytes).length = 2 * l.idxs.length := by
    rw [List.length_flatMap, List.map_congr_left fun i _ => length_le 2 i.toNat, List.map_const',
      List.sum_replicate_nat, Nat.mul_comm]
  simp only [bytes, List.length_append, length_sizeBytes, hc, hv, hi]
  omega

end PackedList

/-- One draw list of a packed frame: three zeros, or the list in full. -/
def entryBytes : Option PackedList → List UInt8
  | none => intBytes 0 ++ intBytes 0 ++ intBytes 0
  | some l => l.bytes

/-- A list, packed item by item. -/
def packList (displaySize : ImVec2) (drawList : ImDrawList) : PackedList where
  cmds := drawList.cmdBuffer.map (packCmd P displaySize)
  verts := drawList.vtxBuffer.map (packVert P displaySize)
  idxs := drawList.idxBuffer

/-- A list that is not empty and whose sizes are `int`s packs to a well-formed one. -/
theorem packList_wf {displaySize : ImVec2} {drawList : ImDrawList} (hs : drawList.Sized)
    (hne : drawList.NonEmpty) : (packList P displaySize drawList).Wf := by
  simp only [PackedList.Wf, packList, List.length_map]
  exact ⟨hs, hne⟩

/-- The loops that write a list write the bytes of the packed one. -/
theorem bytes_packList (displaySize : ImVec2) (drawList : ImDrawList) :
    (packList P displaySize drawList).bytes =
      sizeBytes drawList.cmdBuffer ++ sizeBytes drawList.vtxBuffer
        ++ sizeBytes drawList.idxBuffer ++ writeBody P displaySize drawList := by
  simp only [PackedList.bytes, packList, writeBody, sizeBytes, List.length_map, List.flatMap_map]

/-- The hash table as a table of keys: no slot from `sMaxDrawLists` on. -/
def tableOf (hashes : Vector UInt32 sMaxDrawLists) : Delta.Table UInt32 := fun i => hashes[i]?

/-- The table at an index that it has ... -/
theorem tableOf_of_lt {hashes : Vector UInt32 sMaxDrawLists} {i : Nat} (h : i < sMaxDrawLists) :
    tableOf hashes i = some hashes[i] := by
  rw [tableOf, Vector.getElem?_eq_getElem h]

/-- ... after a write there ... -/
theorem tableOf_set_self {hashes : Vector UInt32 sMaxDrawLists} {i : Nat} {hash : UInt32}
    (h : i < sMaxDrawLists) : tableOf (hashes.setIfInBounds i hash) i = some hash := by
  rw [tableOf, Vector.getElem?_setIfInBounds_self_of_lt h]

/-- ... and at any other index. -/
theorem tableOf_set_ne {hashes : Vector UInt32 sMaxDrawLists} {i j : Nat} {hash : UInt32}
    (h : j ≠ i) : tableOf (hashes.setIfInBounds i hash) j = tableOf hashes j := by
  rw [tableOf, tableOf, Vector.getElem?_setIfInBounds_ne h.symm]

/-- The draw lists of a packed frame: the delta encoding against the table, each list packed. -/
def packEntries (displaySize : ImVec2) (t : Delta.Table UInt32) (lists : List ImDrawList) :
    List (Option PackedList) :=
  (Delta.encode (hashImDrawList P) t lists).map (Option.map (packList P displaySize))

/-- Packing from index `s` on sees the table from `s` on. -/
theorem packEntries_cons (displaySize : ImVec2) (t : Delta.Table UInt32) (l : ImDrawList)
    (rest : List ImDrawList) :
    packEntries P displaySize t (l :: rest) =
      (if t 0 = some (hashImDrawList P l) then none else some (packList P displaySize l))
        :: packEntries P displaySize (fun i => t (i + 1)) rest := by
  rw [packEntries, Delta.encode, List.mapIdx_cons, List.map_cons]
  congr 1
  split <;> rfl

/-- **The packing loop.**  From index `s` on, with room in the table, it writes the packed draw
    lists, stores their hashes, and leaves the table below `s` alone. -/
theorem packLists_eq (displaySize : ImVec2) :
    ∀ (lists : List ImDrawList) (s : Nat) (hashes : Vector UInt32 sMaxDrawLists),
      s + lists.length ≤ sMaxDrawLists →
      ∃ hashes' lists',
        packLists P displaySize s hashes lists =
          some ((packEntries P displaySize (fun i => tableOf hashes (s + i)) lists).flatMap
            entryBytes, hashes', lists') ∧
        (∀ i, tableOf hashes' (s + i) =
          Delta.store (hashImDrawList P) (fun i => tableOf hashes (s + i)) lists i) ∧
        ∀ i, i < s → tableOf hashes' i = tableOf hashes i := by
  intro lists
  induction lists with
  | nil => exact fun s hashes _ => ⟨hashes, [], rfl, fun _ => rfl, fun _ _ => rfl⟩
  | cons l rest ih =>
    intro s hashes h
    have hs : s < sMaxDrawLists := by rw [List.length_cons] at h; omega
    have hlen : s + 1 + rest.length ≤ sMaxDrawLists := by rw [List.length_cons] at h; omega
    have hprev : hashes[s]? = some hashes[s] := Vector.getElem?_eq_getElem hs
    have hshift : (fun i => tableOf hashes (s + (i + 1))) = fun i => tableOf hashes (s + 1 + i) := by
      funext i
      rw [show s + (i + 1) = s + 1 + i by omega]
    have hslot : tableOf hashes (s + 0) = some hashes[s] := tableOf_of_lt hs
    rw [packLists, hprev, packEntries_cons, hshift, hslot]
    by_cases hsame : hashImDrawList P l = hashes[s]
    · -- unchanged: three zeros, the table keeps its entry
      have hhead : tableOf hashes s = some (hashImDrawList P l) := by rw [tableOf_of_lt hs, hsame]
      obtain ⟨hashes', lists', hpack, htab, hlow⟩ := ih (s + 1) hashes hlen
      obtain ⟨htab', hlow'⟩ := Delta.store_cons_shift hhead (fun _ _ => rfl) htab hlow
      refine ⟨hashes', l :: lists', ?_, htab', hlow'⟩
      rw [if_pos (congrArg some hsame.symm), List.flatMap_cons, entryBytes]
      rw [Option.bind_eq_bind, Option.bind_some, if_pos hsame, hpack]
      rfl
    · -- changed: the list in full, its hash stored
      have hother : ∀ i, i ≠ s →
          tableOf (hashes.setIfInBounds s (hashImDrawList P l)) i = tableOf hashes i :=
        fun i hi => tableOf_set_ne hi
      obtain ⟨hashes', lists', hpack, htab, hlow⟩ := ih (s + 1)
        (hashes.setIfInBounds s (hashImDrawList P l)) hlen
      obtain ⟨htab', hlow'⟩ := Delta.store_cons_shift (tableOf_set_self hs) hother htab hlow
      have hsees : (fun i => tableOf (hashes.setIfInBounds s (hashImDrawList P l)) (s + 1 + i)) =
          fun i => tableOf hashes (s + 1 + i) := funext fun i => hother _ (by omega)
      rw [hsees] at hpack
      refine ⟨hashes', clampList displaySize l :: lists', ?_, htab', hlow'⟩
      rw [if_neg fun heq => hsame (Option.some.inj heq).symm, List.flatMap_cons, entryBytes,
        bytes_packList]
      rw [Option.bind_eq_bind, Option.bind_some, if_neg hsame]
      dsimp only
      rw [hpack]
      rfl

/-- The header of a packed frame. -/
def packHeader (mouseCursor : Int32) (data : ImDrawData) : ImDrawDataPackHeader where
  curCursor := mouseCursor
  cmdListsCount := Int32.ofNat data.cmdListsCount
  totalVtxCount := data.totalVtxCount
  totalIdxCount := data.totalIdxCount

/-- **`packImDrawData` encodes the frame.**  With at most `sMaxDrawLists` lists it writes the header
    and the packed draw lists, and leaves the table with the hashes of the frame stored. -/
theorem packImDrawData_eq (displaySize : ImVec2) (mouseCursor : Int32) (st : PackState)
    {data : ImDrawData} (h : data.cmdListsCount ≤ sMaxDrawLists) :
    ∃ r, packImDrawData P displaySize mouseCursor st data = some r ∧
      r.out = (packHeader mouseCursor data).bytes
        ++ (packEntries P displaySize (tableOf st.sPrevDrawListHashes) data.cmdLists).flatMap
          entryBytes ∧
      tableOf r.st.sPrevDrawListHashes =
        Delta.store (hashImDrawList P) (tableOf st.sPrevDrawListHashes) data.cmdLists ∧
      r.st.sNumPrevDrawLists = data.cmdListsCount := by
  obtain ⟨hashes', lists', hpack, htab, -⟩ := packLists_eq P displaySize data.cmdLists 0
    st.sPrevDrawListHashes (by rw [Nat.zero_add]; exact h)
  simp only [Nat.zero_add] at hpack htab
  refine ⟨_, by rw [packImDrawData, hpack]; rfl, rfl, funext htab, rfl⟩

end Nxdb
