/-
  The index ranges of the commands, through `packImDrawData` and `unpackDrawData`.

  Offsets and counts are 32-bit numbers in an `ImDrawCmd` and 16-bit numbers in a `PackedImDrawCmd`,
  while the index buffer is sent as it is, with however many indices fit into the packet.  A list
  whose commands partition its indices comes back as one that does, with the same ranges, if and only
  if no offset and no count of its commands takes more than 16 bits (`keepsRanges_iff`).
-/
import Nxdb.PackBounds

namespace Nxdb

open Lib

variable (P : Platform)

namespace ImDrawList

/-- The commands cut the indices from `start` to `stop` into pieces, one behind the other. -/
def Cuts : Nat → List ImDrawCmd → Nat → Prop
  | start, [], stop => start = stop
  | start, c :: cs, stop =>
    c.vtxOffset = 0 ∧ c.idxOffset.toNat = start ∧ Cuts (start + c.elemCount.toNat) cs stop

/-- The commands partition the index buffer. -/
def Partitioned (l : ImDrawList) : Prop := Cuts 0 l.cmdBuffer l.idxBuffer.length

/-- The indices that each of the commands draws. -/
def drawn (l : ImDrawList) : List (List UInt16) :=
  l.cmdBuffer.map fun c => (l.idxBuffer.drop c.idxOffset.toNat).take c.elemCount.toNat

/-- The offsets and the counts of the commands fit into 16 bits. -/
def Narrow (l : ImDrawList) : Prop :=
  ∀ c ∈ l.cmdBuffer, c.idxOffset.toNat < 2 ^ 16 ∧ c.elemCount.toNat < 2 ^ 16

end ImDrawList

open ImDrawList

/-- The commands of `dst` have the ranges of those of `src`, and so partition its index buffer, and
    draw the same. -/
structure KeepsRanges (src dst : ImDrawList) : Prop where
  ranges : dst.cmdBuffer.map (fun c => (c.idxOffset, c.elemCount)) =
    src.cmdBuffer.map fun c => (c.idxOffset, c.elemCount)
  partitioned : dst.Partitioned
  drawn : dst.drawn = src.drawn

/-! ## One command

  Of a command only the three numbers count here.  Each is cut to 16 bits and widened again, and so
  comes back iff it was below `2 ^ 16`. -/

/-- A number comes back from 16 bits if and only if it fits. -/
theorem widened_eq_iff {x : UInt32} : x.toUInt16.toUInt32 = x ↔ x.toNat < 2 ^ 16 := by
  rw [← UInt32.toNat_inj, UInt16.toNat_toUInt32, UInt32.toNat_toUInt16]
  omega

variable (displaySize : ImVec2) (io : ClientIo)

theorem unpackCmd_packCmd (c : ImDrawCmd) :
    (unpackCmd io (packCmd P displaySize c)).vtxOffset = c.vtxOffset.toUInt16.toUInt32 ∧
      (unpackCmd io (packCmd P displaySize c)).idxOffset = c.idxOffset.toUInt16.toUInt32 ∧
      (unpackCmd io (packCmd P displaySize c)).elemCount = c.elemCount.toUInt16.toUInt32 :=
  ⟨rfl, rfl, rfl⟩

variable {P displaySize io}

theorem range_unpackCmd_iff (c : ImDrawCmd) :
    ((unpackCmd io (packCmd P displaySize c)).idxOffset,
        (unpackCmd io (packCmd P displaySize c)).elemCount) = (c.idxOffset, c.elemCount) ↔
      c.idxOffset.toNat < 2 ^ 16 ∧ c.elemCount.toNat < 2 ^ 16 := by
  obtain ⟨-, hidx, helem⟩ := unpackCmd_packCmd P displaySize io c
  rw [Prod.mk.injEq, hidx, helem, widened_eq_iff, widened_eq_iff]

/-! ## One list

  In a list that is partitioned the ranges say everything: commands with the same ranges cut the
  same indices (`cuts_map`) and draw the same (`drawn_eq`). -/

section List

variable {l : ImDrawList}

theorem rebuild_cmdBuffer (l : ImDrawList) : (rebuild P displaySize io l).cmdBuffer =
    l.cmdBuffer.map fun c => unpackCmd io (packCmd P displaySize c) := by
  simp [rebuild, unpackPacked, packList]

variable (P displaySize io) in
theorem ranges_rebuild_iff (l : ImDrawList) : (rebuild P displaySize io l).cmdBuffer.map
      (fun c => (c.idxOffset, c.elemCount)) = l.cmdBuffer.map (fun c => (c.idxOffset, c.elemCount)) ↔
    l.Narrow := by
  rw [rebuild_cmdBuffer, List.map_map, List.map_inj_left]
  exact forall_congr' fun c => forall_congr' fun _ => range_unpackCmd_iff c

/-- Commands of the same ranges cut the same indices. -/
theorem cuts_map {g : ImDrawCmd → ImDrawCmd} {cs : List ImDrawCmd} {stop : Nat}
    (hvtx : ∀ c, c.vtxOffset = 0 → (g c).vtxOffset = 0)
    (hrange : ∀ c ∈ cs, ((g c).idxOffset, (g c).elemCount) = (c.idxOffset, c.elemCount)) :
    ∀ {start : Nat}, Cuts start cs stop → Cuts start (cs.map g) stop := by
  induction cs with
  | nil => exact fun h => h
  | cons c cs ih =>
    rintro start ⟨hzero, hidx, hrest⟩
    have hc := hrange c List.mem_cons_self
    rw [Prod.mk.injEq] at hc
    refine ⟨hvtx c hzero, ?_, ?_⟩
    · rw [hc.1, hidx]
    · rw [hc.2]
      exact ih (fun d hd => hrange d (List.mem_cons_of_mem _ hd)) hrest

/-- What is drawn depends on the ranges and on the indices. -/
theorem drawn_eq (l : ImDrawList) :
    l.drawn = (l.cmdBuffer.map fun c => (c.idxOffset, c.elemCount)).map fun range =>
      (l.idxBuffer.drop range.1.toNat).take range.2.toNat := by
  rw [List.map_map]
  rfl

/-- **One list** keeps the ranges of its commands if and only if they are narrow. -/
theorem keepsRanges_rebuild_iff (hpart : l.Partitioned) :
    KeepsRanges l (rebuild P displaySize io l) ↔ l.Narrow := by
  constructor
  · intro h
    exact (ranges_rebuild_iff P displaySize io l).mp h.ranges
  · intro h
    have hranges := (ranges_rebuild_iff P displaySize io l).mpr h
    refine ⟨hranges, ?_, ?_⟩
    · show Cuts 0 (rebuild P displaySize io l).cmdBuffer l.idxBuffer.length
      rw [rebuild_cmdBuffer]
      refine cuts_map (fun c hzero => ?_) (fun c hc => ?_) hpart
      · rw [(unpackCmd_packCmd P displaySize io c).1, hzero]
        rfl
      · exact (range_unpackCmd_iff c).mpr (h c hc)
    · rw [drawn_eq, drawn_eq, hranges, rebuild_idxBuffer]

end List

/-! ## The packet

  What the client has of a list that was sent in full is the rebuilt list, by `lists_packedFrame`;
  so what holds of one list holds of the frame. -/

variable (P) (displaySize) (io)

/-- The list is at index `i` of the frame, and is sent in full: its hash is not the one stored there. -/
def SentAt (st : PackState) (f : Frame) (i : Nat) (l : ImDrawList) : Prop :=
  f.lists[i]? = some l ∧ st.sPrevDrawListHashes[i]? ≠ some (hashImDrawList P l)

/-- The lists that are sent in full come back rebuilt. -/
theorem unpack_sent (st : PackState) (f : Frame) (client : DrawDataStatics) :
    ∃ r, packImDrawData P displaySize f.mouseCursor st f.data = some r ∧
      ∀ m : Mem, m.Holds 0 r.out → ∃ u, unpackDrawData io m r.out.length client = some u ∧
        ∀ i l, SentAt P st f i l →
          u.drawData.cmdLists[i]? = some (rebuild P displaySize io l) := by
  obtain ⟨r, hpack, hout, -, -⟩ := packImDrawData_frame P displaySize st f
  refine ⟨r, hpack, fun m hm => ?_⟩
  rw [hout] at hm
  obtain ⟨u, hunpack, hlists, -⟩ := unpackDrawData_eq io r.out.length client hm
  refine ⟨u, hunpack, fun i l hsent => ?_⟩
  have hne : ¬tableOf st.sPrevDrawListHashes i = some (hashImDrawList P l) := hsent.2
  rw [hlists, lists_packedFrame, Delta.getElem?_receive, hsent.1, Option.map_some, if_neg hne]

/-- **Commands keep their index ranges.**  Whatever the frame, the hash table and the client's
    variables: a list whose commands partition its indices and that is sent in full comes back with
    the ranges of its commands, if and only if they are narrow. -/
theorem keepsRanges_iff (st : PackState) (f : Frame) (client : DrawDataStatics) {i : Nat}
    {l : ImDrawList} (hsent : SentAt P st f i l) (hpart : l.Partitioned) :
    ∃ r, packImDrawData P displaySize f.mouseCursor st f.data = some r ∧
      ∀ m : Mem, m.Holds 0 r.out → ∃ u dst, unpackDrawData io m r.out.length client = some u ∧
        u.drawData.cmdLists[i]? = some dst ∧ (KeepsRanges l dst ↔ l.Narrow) := by
  obtain ⟨r, hpack, hr⟩ := unpack_sent P displaySize io st f client
  refine ⟨r, hpack, fun m hm => ?_⟩
  obtain ⟨u, hunpack, hget⟩ := hr m hm
  exact ⟨u, _, hunpack, hget i l hsent, keepsRanges_rebuild_iff hpart⟩

/-- A triangle of one texture, and one of another that shares a side with it. -/
def twoParts : ImDrawList where
  cmdBuffer :=
    [{ clipRect := ⟨0, 0, 1280, 720⟩, textureId := 1, vtxOffset := 0, idxOffset := 0, elemCount := 3,
       userCallback := 0, userCallbackData := 0, userCallbackDataSize := 0,
       userCallbackDataOffset := 0 },
     { clipRect := ⟨0, 0, 640, 720⟩, textureId := 2, vtxOffset := 0, idxOffset := 3, elemCount := 3,
       userCallback := 0, userCallbackData := 0, userCallbackDataSize := 0,
       userCallbackDataOffset := 0 }]
  idxBuffer := [0, 1, 2, 2, 1, 3]
  vtxBuffer := (triangle 1).vtxBuffer ++ [⟨⟨1536, 768⟩, ⟨1, 1⟩, 1⟩]

/-- The frame of this list. -/
def twoPartsFrame : Frame where
  data := ⟨4, 6, [twoParts]⟩
  mouseCursor := 0
  count_le := one_fits
  sized := by
    intro l hl
    rw [List.mem_singleton.mp hl]
    exact ⟨(by decide : 2 < 2 ^ 31), (by decide : 4 < 2 ^ 31), (by decide : 6 < 2 ^ 31)⟩
  nonEmpty := by
    intro l hl
    rw [List.mem_singleton.mp hl]
    exact fun h => absurd h.1 (by decide : ¬ 2 = 0)

/-- The second command begins behind the indices of the first. -/
theorem keepsRanges_twoParts :
    ∃ r, packImDrawData Platform.lp64 ⟨1280, 720⟩ 0 PackState.init twoPartsFrame.data = some r ∧
      ∀ m : Mem, m.Holds 0 r.out → ∃ u dst,
        unpackDrawData ⟨⟨1280, 720⟩, 1⟩ m r.out.length DrawDataStatics.init = some u ∧
        u.drawData.cmdLists[0]? = some dst ∧ KeepsRanges twoParts dst := by
  obtain ⟨r, hpack, hr⟩ := keepsRanges_iff Platform.lp64 ⟨1280, 720⟩ ⟨⟨1280, 720⟩, 1⟩
    PackState.init twoPartsFrame DrawDataStatics.init (i := 0) (l := twoParts)
    ⟨rfl, by decide +kernel⟩ ⟨rfl, rfl, rfl, rfl, rfl⟩
  refine ⟨r, hpack, fun m hm => ?_⟩
  obtain ⟨u, dst, hunpack, hget, hiff⟩ := hr m hm
  refine ⟨u, dst, hunpack, hget, hiff.mpr ?_⟩
  intro c hc
  rcases List.mem_pair.mp hc with rfl | rfl
  · exact ⟨by decide, by decide⟩
  · exact ⟨by decide, by decide⟩

/-! ## A list of more indices than 16 bits count

  The condition fails for lists of any length from 65536 indices on: where one command draws them
  all and the list is sent in full, the command comes back as one that draws fewer. -/

section Wide

variable {count : Nat}

theorem toNat_elemCount (h : count < 2 ^ 31) : (UInt32.ofNat count).toNat = count := by
  rw [UInt32.toNat_ofNat']
  exact Nat.mod_eq_of_lt (by omega)

/-- The command of the list draws all indices. -/
theorem partitioned_wideList (h : count < 2 ^ 31) : (wideList count).Partitioned := by
  refine ⟨rfl, rfl, ?_⟩
  show 0 + (UInt32.ofNat count).toNat = (List.replicate count (0 : UInt16)).length
  rw [toNat_elemCount h, List.length_replicate, Nat.zero_add]

theorem not_narrow_wideList (h : count < 2 ^ 31) (hwide : 2 ^ 16 ≤ count) :
    ¬(wideList count).Narrow := by
  intro hnarrow
  have hcount := (hnarrow _ List.mem_cons_self).2
  rw [toNat_elemCount h] at hcount
  omega

theorem sized_wideList (h : count < 2 ^ 31) :
    ∀ l ∈ (manyIndices count).cmdLists, l.Sized ∧ l.NonEmpty := by
  intro l hl
  rw [List.mem_singleton.mp hl]
  refine ⟨⟨(by decide : 1 < 2 ^ 31), (by decide : 1 < 2 ^ 31), ?_⟩, fun hempty => ?_⟩
  · show (List.replicate count (0 : UInt16)).length < 2 ^ 31
    rwa [List.length_replicate]
  · exact absurd hempty.1 (by decide : ¬1 = 0)

/-- A frame of one list of so many indices. -/
def wideFrame (count : Nat) (h : count < 2 ^ 31) : Frame where
  data := manyIndices count
  mouseCursor := 0
  count_le := one_fits
  sized := fun l hl => (sized_wideList h l hl).1
  nonEmpty := fun l hl => (sized_wideList h l hl).2

/-- A hash table in which the list is not. -/
def otherTable (l : ImDrawList) : PackState where
  sPrevDrawListHashes := Vector.replicate sMaxDrawLists (hashImDrawList P l + 1)
  sNumPrevDrawLists := 1

variable {P} in
theorem otherTable_get (l : ImDrawList) {i : Nat} (hi : i < sMaxDrawLists) :
    (otherTable P l).sPrevDrawListHashes[i]? = some (hashImDrawList P l + 1) := by
  rw [otherTable, Vector.getElem?_eq_getElem hi, Vector.getElem_replicate]

/-- It is sent, and comes back with another count. -/
theorem not_keepsRanges_of_wide (client : DrawDataStatics) (h : count < 2 ^ 31)
    (hwide : 2 ^ 16 ≤ count) (hfits : 50 + 2 * count ≤ sDrawDataBufferSize) :
    ∃ r, packImDrawData P displaySize 0 (otherTable P (wideList count)) (manyIndices count) =
        some r ∧ r.out.length ≤ sDrawDataBufferSize ∧
      ∀ m : Mem, m.Holds 0 r.out → ∃ u dst, unpackDrawData io m r.out.length client = some u ∧
        u.drawData.cmdLists[0]? = some dst ∧ ¬KeepsRanges (wideList count) dst := by
  have hne : hashImDrawList P (wideList count) ≠ hashImDrawList P (wideList count) + 1 :=
    ne_add_one _
  have hsent : (otherTable P (wideList count)).sPrevDrawListHashes[0]? ≠
      some (hashImDrawList P (wideList count)) := by
    rw [otherTable_get _ (by decide)]
    exact fun heq => hne (Option.some.inj heq).symm
  obtain ⟨r, hpack, hr⟩ := unpack_sent P displaySize io (otherTable P (wideList count))
    (wideFrame count h) client
  obtain ⟨r', hpack', hlen⟩ := length_out (P := P) displaySize 0 (manyIndices count)
    (fun _ => hashImDrawList P (wideList count) + 1) (fun i hi => otherTable_get (wideList count) hi)
    one_fits
  have hrr : r' = r := Option.some.inj (hpack'.symm.trans hpack)
  subst hrr
  refine ⟨r', hpack, ?_, fun m hm => ?_⟩
  · rw [hlen, (touched_spec _ _).2.1, frameCost, manyIndices, listsCost, listsCost,
      listCost_wideList hne, ImDrawDataPackHeader.sizeOf]
    omega
  · obtain ⟨u, hunpack, hget⟩ := hr m hm
    refine ⟨u, _, hunpack, hget 0 (wideList count) ⟨rfl, hsent⟩, fun hkeeps => ?_⟩
    exact not_narrow_wideList h hwide
      ((keepsRanges_rebuild_iff (partitioned_wideList h)).mp hkeeps)

end Wide

/-- A command that draws 65538 indices comes back as one that draws two. -/
theorem not_keepsRanges_wide :
    (wideList 65538).Partitioned ∧
      ∃ r, packImDrawData Platform.lp64 ⟨1280, 720⟩ 0 (otherTable Platform.lp64 (wideList 65538))
          (manyIndices 65538) = some r ∧ r.out.length ≤ sDrawDataBufferSize ∧
        ∀ m : Mem, m.Holds 0 r.out → ∃ u dst,
          unpackDrawData ⟨⟨1280, 720⟩, 1⟩ m r.out.length DrawDataStatics.init = some u ∧
          u.drawData.cmdLists[0]? = some dst ∧ ¬KeepsRanges (wideList 65538) dst :=
  ⟨partitioned_wideList (by decide),
    not_keepsRanges_of_wide Platform.lp64 ⟨1280, 720⟩ ⟨⟨1280, 720⟩, 1⟩ DrawDataStatics.init
      (by decide) (by decide) (by decide)⟩

end Nxdb
