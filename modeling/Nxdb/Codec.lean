/-
  Encoder and decoder together: one frame through `packImDrawData` and `unpackDrawData`.

  A `Frame` is a draw data the server can be asked to pack: at most 128 lists, none of them empty,
  all sizes `int`s.  Two facts follow from the specifications of the two functions:

  * `packImDrawData_frame`: the packet is the packed frame `packedFrame`, encoded;
  * `lists_packedFrame`: what the client builds from it is `Delta.receive` of the frame, with
    `rebuild` as the view (pack a list at the server's size, unpack it at the client's).

  The rest of the file says what `rebuild` keeps: all counts, the indices and the colours exactly,
  and with the same positive display size on both sides every coordinate to within one quantum.

  1. Parsing: what the client builds is determined by the packed frame alone, so encoder and
     decoder meet in `Delta.receive`.
  2. Numbers: `Lib.quantise` for a coordinate between `0` and the display, `clamp` for one that is
     not.
  3. `ListKept` is the bound for one list; `codec_roundTrip` has it for each list of a frame that
     was sent in full, and that all bytes of the packet are read, for every frame.
-/
import Nxdb.DrawData
import Nxdb.Lib.Quantise
import Mathlib.Data.List.Forall2

namespace Nxdb

open Lib

/-- A draw data that is packed, and the mouse cursor at that moment. -/
structure Frame where
  data : ImDrawData
  mouseCursor : Int32
  count_le : data.cmdListsCount ≤ sMaxDrawLists
  sized : ∀ l ∈ data.cmdLists, l.Sized
  nonEmpty : ∀ l ∈ data.cmdLists, l.NonEmpty

namespace Frame

/-- The lists of the frame. -/
def lists (f : Frame) : List ImDrawList := f.data.cmdLists

/-- They all have a place in the table of hashes. -/
theorem length_lists_le (f : Frame) : f.lists.length ≤ sMaxDrawLists := f.count_le

end Frame

/-- One triangle in one colour, with a corner outside of a 1280 by 720 display. -/
def triangle (col : UInt32) : ImDrawList where
  cmdBuffer := [{ clipRect := ⟨0, 0, 1280, 720⟩, textureId := 1, vtxOffset := 0, idxOffset := 0,
                  elemCount := 3, userCallback := 0, userCallbackData := 0,
                  userCallbackDataSize := 0, userCallbackDataOffset := 0 }]
  idxBuffer := [0, 1, 2]
  vtxBuffer := [⟨⟨512, 256⟩, ⟨0, 0⟩, col⟩, ⟨⟨1536, 256⟩, ⟨1, 0⟩, col⟩, ⟨⟨512, 768⟩, ⟨0, 1⟩, col⟩]

theorem one_fits : 1 ≤ sMaxDrawLists := by decide

theorem two_fit : 2 ≤ sMaxDrawLists := by decide

/-- A frame of triangles, one list for each colour. -/
def triangles (cols : List UInt32) (h : cols.length ≤ sMaxDrawLists) : Frame where
  data := ⟨3 * Int32.ofNat cols.length, 3 * Int32.ofNat cols.length, cols.map triangle⟩
  mouseCursor := 0
  count_le := by rwa [ImDrawData.cmdListsCount, List.length_map]
  sized := by
    intro l hl
    obtain ⟨c, -, rfl⟩ := List.mem_map.mp hl
    exact ⟨(by decide : 1 < 2 ^ 31), (by decide : 3 < 2 ^ 31), (by decide : 3 < 2 ^ 31)⟩
  nonEmpty := by
    intro l hl
    obtain ⟨c, -, rfl⟩ := List.mem_map.mp hl
    exact fun h => absurd h.1 (by decide : ¬ 1 = 0)

/-- The lists of the examples. -/
def IsRedOrGreen (l : ImDrawList) : Prop := l = triangle 1 ∨ l = triangle 2

/-- The lists of such a frame are triangles of its colours. -/
theorem mem_triangles {cols : List UInt32} {h : cols.length ≤ sMaxDrawLists} {l : ImDrawList} :
    l ∈ (triangles cols h).lists ↔ ∃ c ∈ cols, triangle c = l :=
  List.mem_map

/-- A frame of red and green triangles. -/
theorem isRedOrGreen_of_mem {cols : List UInt32} {h : cols.length ≤ sMaxDrawLists}
    {l : ImDrawList} (hl : l ∈ (triangles cols h).lists) (hcols : ∀ c ∈ cols, c = 1 ∨ c = 2) :
    IsRedOrGreen l := by
  obtain ⟨c, hc, rfl⟩ := mem_triangles.mp hl
  rcases hcols c hc with rfl | rfl
  · exact Or.inl rfl
  · exact Or.inr rfl

/-- The two lists of the examples have different hashes ... -/
theorem keyInj_redOrGreen : Delta.KeyInj (hashImDrawList Platform.lp64) IsRedOrGreen := by
  intro a b ha hb hkey
  rcases ha with rfl | rfl
  · rcases hb with rfl | rfl
    · rfl
    · exact absurd hkey (by decide +kernel)
  · rcases hb with rfl | rfl
    · exact absurd hkey (by decide +kernel)
    · rfl

/-- ... and neither is the 0 that the table begins with. -/
theorem hash_redOrGreen {l : ImDrawList} (h : IsRedOrGreen l) :
    hashImDrawList Platform.lp64 l ≠ 0 := by
  rcases h with rfl | rfl
  · decide +kernel
  · decide +kernel

variable (P : Platform)

/-- The count in the header is the number of entries ... -/
theorem count_packEntries (displaySize : ImVec2) (t : Delta.Table UInt32) (f : Frame) :
    (packHeader f.mouseCursor f.data).cmdListsCount =
      Int32.ofNat (packEntries P displaySize t f.lists).length := by
  rw [packEntries, List.length_map, Delta.length_encode]
  rfl

/-- ... which is small enough for an `int`. -/
theorem length_packEntries_lt (displaySize : ImVec2) (t : Delta.Table UInt32) (f : Frame) :
    (packEntries P displaySize t f.lists).length < 2 ^ 31 := by
  have h := f.length_lists_le
  rw [packEntries, List.length_map, Delta.length_encode]
  rw [sMaxDrawLists] at h
  omega

/-- What is packed can be read: no size is negative, and no list that is sent is all zeros. -/
theorem packEntries_wf (displaySize : ImVec2) (t : Delta.Table UInt32) (f : Frame)
    (p : PackedList) (hp : some p ∈ packEntries P displaySize t f.lists) : p.Wf := by
  rw [packEntries] at hp
  obtain ⟨e, he, heq⟩ := List.mem_map.mp hp
  obtain ⟨l, rfl, rfl⟩ := Option.map_eq_some_iff.mp heq
  have hmem : l ∈ f.lists := Delta.mem_of_some_mem_encode he
  exact packList_wf P (f.sized l hmem) (f.nonEmpty l hmem)

/-- The packet of a frame, against a hash table. -/
def packedFrame (displaySize : ImVec2) (t : Delta.Table UInt32) (f : Frame) : PackedFrame where
  header := packHeader f.mouseCursor f.data
  entries := packEntries P displaySize t f.lists
  count := count_packEntries P displaySize t f
  count_lt := length_packEntries_lt P displaySize t f
  wf := packEntries_wf P displaySize t f

/-- The entries of the packed frame. -/
theorem packedFrame_entries (displaySize : ImVec2) (t : Delta.Table UInt32) (f : Frame) :
    (packedFrame P displaySize t f).entries = packEntries P displaySize t f.lists := rfl

/-- Each draw list of the packet: a mark if its hash is stored at its index, else the list. -/
theorem getElem?_packedFrame_entries (displaySize : ImVec2) (t : Delta.Table UInt32) (f : Frame)
    {i : Nat} {l : ImDrawList} (h : f.lists[i]? = some l) :
    (packedFrame P displaySize t f).entries[i]? =
      some (if t i = some (hashImDrawList P l) then none else some (packList P displaySize l)) := by
  rw [packedFrame_entries, packEntries, List.getElem?_map, Delta.getElem?_encode, h,
    Option.map_some, Option.map_some]
  congr 1
  split
  · rfl
  · rfl

/-- Packing a frame always succeeds; the bytes, the new table and the new list count. -/
theorem packImDrawData_frame (displaySize : ImVec2) (st : PackState) (f : Frame) :
    ∃ r, packImDrawData P displaySize f.mouseCursor st f.data = some r ∧
      r.out = (packedFrame P displaySize (tableOf st.sPrevDrawListHashes) f).bytes ∧
      tableOf r.st.sPrevDrawListHashes =
        Delta.store (hashImDrawList P) (tableOf st.sPrevDrawListHashes) f.lists ∧
      r.st.sNumPrevDrawLists = f.lists.length :=
  packImDrawData_eq P displaySize f.mouseCursor st f.count_le

/-- A list packed at the server's display size and unpacked on the client. -/
def rebuild (displaySize : ImVec2) (io : ClientIo) (l : ImDrawList) : ImDrawList :=
  unpackPacked io (packList P displaySize l)

/-- **What the client builds from the packet of a frame.** -/
theorem lists_packedFrame (displaySize : ImVec2) (t : Delta.Table UInt32) (f : Frame)
    (io : ClientIo) (prev : List ImDrawList) :
    (packedFrame P displaySize t f).lists io prev =
      Delta.receive (hashImDrawList P) (rebuild P displaySize io) ImDrawList.empty t prev
        f.lists := by
  show Delta.patch ImDrawList.empty prev ((packEntries P displaySize t f.lists).map _) = _
  rw [packEntries, List.map_map, Option.map_comp_map]
  rfl

/-! ## What a rebuilt list keeps

  `rebuild` is `map` over the buffers, so counts and order are kept by themselves, and only the
  coordinates are left to look at. -/

section Rebuild

variable {P} {displaySize : ImVec2} {io : ClientIo} (l : ImDrawList)

/-- Indices come through as they are ... -/
@[simp] theorem rebuild_idxBuffer : (rebuild P displaySize io l).idxBuffer = l.idxBuffer := rfl

/-- ... commands in the same number ... -/
@[simp] theorem length_rebuild_cmdBuffer :
    (rebuild P displaySize io l).cmdBuffer.length = l.cmdBuffer.length := by
  simp [rebuild, unpackPacked, packList]

/-- ... vertices one by one ... -/
theorem rebuild_vtxBuffer :
    (rebuild P displaySize io l).vtxBuffer =
      l.vtxBuffer.map fun v => unpackVert io.displaySize (packVert P displaySize v) := by
  simp [rebuild, unpackPacked, packList]

/-- ... with their colours. -/
@[simp] theorem rebuild_colours :
    (rebuild P displaySize io l).vtxBuffer.map ImDrawVert.col =
      l.vtxBuffer.map ImDrawVert.col := by
  rw [rebuild_vtxBuffer, List.map_map]
  rfl

end Rebuild

/-! ## Clamping and quantising

  On one axis: clamp to the display, scale to `0 .. 4095`, cut off.  The field is the level of the
  coordinate in the sense of `Lib/Quantise`. -/

/-- A clamped value lies on the display. -/
theorem clamp_mem {v hi : ℚ} (h : 0 ≤ hi) : 0 ≤ clamp v 0 hi ∧ clamp v 0 hi ≤ hi := by
  unfold clamp
  split
  · exact ⟨le_rfl, h⟩
  · split
    · exact ⟨h, le_rfl⟩
    · exact ⟨by linarith, by linarith⟩

/-- A value on the display is not changed by clamping. -/
theorem clamp_of_mem {v hi : ℚ} (h0 : 0 ≤ v) (hv : v ≤ hi) : clamp v 0 hi = v := by
  rw [clamp, if_neg (by linarith), if_neg (by linarith)]

/-- In range, the 12-bit field is the value without its fraction. -/
theorem toNat_toField12 {q : ℚ} (h0 : 0 ≤ q) (hq : q ≤ 4095) : (toField12 P q).toNat = ⌊q⌋₊ := by
  have hfloor : ⌊q⌋₊ ≤ 4095 := by
    have h := Nat.floor_le_floor hq
    rwa [show (4095 : ℚ) = ((4095 : ℕ) : ℚ) by norm_num, Nat.floor_natCast] at h
  have hu : (P.toU16 q).toNat = ⌊q⌋₊ := by
    rw [P.toU16_of_mem q (by linarith) (by linarith), Int.floor_toNat]
  rw [toField12, BitVec.toNat_setWidth, UInt16.toNat_toBitVec, hu]
  omega

/-- A position's field is its level on the display. -/
theorem toNat_posField {v s : ℚ} (hs : 0 < s) (h0 : 0 ≤ v) (hv : v ≤ s) :
    (toField12 P (scale v s 4095)).toNat = quantise s 4095 v := by
  obtain ⟨hlo, hhi⟩ := scaled_mem (N := 4095) hs h0 hv
  exact toNat_toField12 P hlo (by exact_mod_cast hhi)

/-! ## With one display size on both sides

  Here the client multiplies by what the server has divided by.  A coordinate loses less than a
  quantum, and only downwards (`WithinBelow`); doing it again to the result changes nothing more.
  Both are shown for one axis (`unscale_posField`, `unscale_uvField`), and from there for a vertex,
  a list and the packet. -/

/-- A decoded coordinate is at most the source's and less than one quantum below it. -/
def WithinBelow (quantum src dst : ℚ) : Prop := dst ≤ src ∧ src < dst + quantum

/-- What becomes of a vertex: the colour exactly, the clamped position and the texture coordinate
    to within a quantum, and quantising the result again changes nothing. -/
structure VertKept (displaySize : ImVec2) (src dst : ImDrawVert) : Prop where
  col : dst.col = src.col
  posX : WithinBelow (displaySize.x / 4095) (clamp src.pos.x 0 displaySize.x) dst.pos.x
  posY : WithinBelow (displaySize.y / 4095) (clamp src.pos.y 0 displaySize.y) dst.pos.y
  uvX : WithinBelow (1 / 4095) src.uv.x dst.uv.x
  uvY : WithinBelow (1 / 4095) src.uv.y dst.uv.y
  requantised : packVert P displaySize dst = packVert P displaySize src

/-- What becomes of a draw list that is sent in full. -/
structure ListKept (displaySize : ImVec2) (src dst : ImDrawList) : Prop where
  cmds : dst.cmdBuffer.length = src.cmdBuffer.length
  idxs : dst.idxBuffer = src.idxBuffer
  verts : List.Forall₂ (VertKept P displaySize) src.vtxBuffer dst.vtxBuffer

/-- Texture coordinates are coordinates of the unit square. -/
def UvInUnit (v : ImDrawVert) : Prop := (0 ≤ v.uv.x ∧ v.uv.x ≤ 1) ∧ (0 ≤ v.uv.y ∧ v.uv.y ≤ 1)

instance (v : ImDrawVert) : Decidable (UvInUnit v) := by unfold UvInUnit; infer_instance

/-- One axis: the coordinate of a position's field, and the field of that coordinate. -/
theorem unscale_posField {s : ℚ} (hs : 0 < s) (v : ℚ) :
    let q := toField12 P (scale (clamp v 0 s) s 4095)
    WithinBelow (s / 4095) (clamp v 0 s) (unscale q 4095 s) ∧
      clamp (unscale q 4095 s) 0 s = unscale q 4095 s ∧
      toField12 P (scale (unscale q 4095 s) s 4095) = q := by
  obtain ⟨h0, h1⟩ := clamp_mem (v := v) hs.le
  have hq := toNat_posField P hs h0 h1
  have hval : unscale (toField12 P (scale (clamp v 0 s) s 4095)) 4095 s =
      dequantise s 4095 (quantise s 4095 (clamp v 0 s)) := by
    rw [unscale, hq, dequantise]
  have hlevel : quantise s 4095 (clamp v 0 s) ≤ 4095 := quantise_le hs h0 h1
  obtain ⟨hd0, hd1⟩ := dequantise_mem hs (by decide : 0 < 4095) hlevel
  intro q
  rw [hval]
  refine ⟨⟨dequantise_quantise_le hs (by decide) h0, ?_⟩, clamp_of_mem hd0 hd1, ?_⟩
  · exact_mod_cast lt_dequantise_quantise_add (x := clamp v 0 s) (N := 4095) hs (by decide)
  · apply BitVec.eq_of_toNat_eq
    rw [toNat_posField P hs hd0 hd1, quantise_dequantise hs (by decide), hq]

/-- The same for a texture coordinate, on `[0, 1]` and without a clamp. -/
theorem unscale_uvField {v : ℚ} (h0 : 0 ≤ v) (h1 : v ≤ 1) :
    let q := toField12 P (v * (4095 : ℕ))
    WithinBelow (1 / 4095) v ((q.toNat : ℚ) / (4095 : ℕ)) ∧
      toField12 P ((q.toNat : ℚ) / (4095 : ℕ) * (4095 : ℕ)) = q := by
  have hscale : ∀ w : ℚ, scale w 1 4095 = w * (4095 : ℕ) := fun w => by rw [scale, div_one]
  have hunscale : ∀ q : BitVec 12, unscale q 4095 1 = (q.toNat : ℚ) / (4095 : ℕ) :=
    fun q => by rw [unscale, mul_one]
  obtain ⟨hwithin, -, hreq⟩ := unscale_posField P one_pos v
  rw [clamp_of_mem h0 h1, hscale, hunscale] at hwithin hreq
  rw [hscale] at hreq
  exact ⟨hwithin, hreq⟩

/-- **One vertex**: position and texture place come back less than a step below, the colour as it
    is. -/
theorem vertKept {displaySize : ImVec2} (hx : 0 < displaySize.x) (hy : 0 < displaySize.y)
    {v : ImDrawVert} (huv : UvInUnit v) :
    VertKept P displaySize v (unpackVert displaySize (packVert P displaySize v)) := by
  obtain ⟨hxin, hxclamp, hxreq⟩ := unscale_posField P hx v.pos.x
  obtain ⟨hyin, hyclamp, hyreq⟩ := unscale_posField P hy v.pos.y
  obtain ⟨huin, hureq⟩ := unscale_uvField P huv.1.1 huv.1.2
  obtain ⟨hvin, hvreq⟩ := unscale_uvField P huv.2.1 huv.2.2
  refine ⟨rfl, hxin, hyin, huin, hvin, ?_⟩
  simp only [packVert, clampVert, unpackVert, PackedImDrawVert.sBoundPos,
    PackedImDrawVert.sBoundUv, hxclamp, hyclamp, hxreq, hyreq, hureq, hvreq]

/-- **A list sent in full is kept.** -/
theorem listKept_rebuild {displaySize : ImVec2} (hx : 0 < displaySize.x) (hy : 0 < displaySize.y)
    {io : ClientIo} (hio : io.displaySize = displaySize) {l : ImDrawList}
    (huv : ∀ v ∈ l.vtxBuffer, UvInUnit v) :
    ListKept P displaySize l (rebuild P displaySize io l) where
  cmds := length_rebuild_cmdBuffer l
  idxs := rebuild_idxBuffer l
  verts := by
    rw [rebuild_vtxBuffer, List.forall₂_map_right_iff, List.forall₂_same, hio]
    exact fun v hv => vertKept P hx hy (huv v hv)

/-- **Codec round trip and byte agreement.**  Whatever the hash table and whatever the client's
    previous frame: from a memory that starts with the bytes of a packed frame, `unpackDrawData`
    consumes exactly these bytes and yields the frame's lists in order.  The draw list at index `i`
    is read from `off i` to `off (i + 1)`; a list whose hash is not the stored one is kept, and a
    list whose hash is takes 12 bytes and becomes the client's previous list at `i` or an empty
    one. -/
theorem codec_roundTrip (displaySize : ImVec2) (hx : 0 < displaySize.x) (hy : 0 < displaySize.y)
    (io : ClientIo) (hio : io.displaySize = displaySize) (st : PackState) (f : Frame)
    (huv : ∀ l ∈ f.lists, ∀ v ∈ l.vtxBuffer, UvInUnit v) (client : DrawDataStatics) :
    ∃ r, packImDrawData P displaySize f.mouseCursor st f.data = some r ∧
      ∀ m : Mem, m.Holds 0 r.out →
        ∃ u, unpackDrawData io m r.out.length client = some u ∧
          u.cursor = r.out.length ∧
          u.st.sDrawData = some u.drawData ∧
          u.drawData.cmdLists.length = f.data.cmdListsCount ∧
          ∃ off : Nat → Nat, off 0 = ImDrawDataPackHeader.sizeOf ∧
            off f.data.cmdListsCount = r.out.length ∧
            ∀ i l, f.lists[i]? = some l → ∃ dst, u.drawData.cmdLists[i]? = some dst ∧
              (readList io client.sDrawDataPrev i).run m (off i) = some (dst, off (i + 1)) ∧
              (st.sPrevDrawListHashes[i]? ≠ some (hashImDrawList P l) →
                ListKept P displaySize l dst) ∧
              (st.sPrevDrawListHashes[i]? = some (hashImDrawList P l) →
                off (i + 1) = off i + 12 ∧
                dst = (client.sDrawDataPrev.getD []).getD i ImDrawList.empty) := by
  obtain ⟨r, hpack, hout, -, -⟩ := packImDrawData_frame P displaySize st f
  refine ⟨r, hpack, fun m hm => ?_⟩
  have hcount : (packedFrame P displaySize (tableOf st.sPrevDrawListHashes) f).entries.length =
      f.data.cmdListsCount := by
    rw [packedFrame_entries, packEntries, List.length_map, Delta.length_encode]; rfl
  rw [hout] at hm ⊢
  obtain ⟨u, hunpack, hlists, -, hst, hcur⟩ := unpackDrawData_eq io
    (packedFrame P displaySize (tableOf st.sPrevDrawListHashes) f).bytes.length client hm
  refine ⟨u, hunpack, hcur, by rw [hst], ?_,
    (packedFrame P displaySize (tableOf st.sPrevDrawListHashes) f).offset,
    PackedFrame.offset_zero _, ?_, fun i l hl => ?_⟩
  · rw [hlists, PackedFrame.length_lists, hcount]
  · rw [← hcount]
    exact PackedFrame.offset_length _
  · have hentry := getElem?_packedFrame_entries P displaySize (tableOf st.sPrevDrawListHashes) f hl
    have hget := PackedFrame.getElem?_lists
      (packedFrame P displaySize (tableOf st.sPrevDrawListHashes) f) io
      (client.sDrawDataPrev.getD []) i
    have hread := readList_run io client.sDrawDataPrev _ hm hentry
    rw [← hlists, hentry, Option.map_some] at hget
    refine ⟨_, hget, hread, fun hne => ?_, fun hsame => ?_⟩
    · -- sent in full
      have hne' : ¬ tableOf st.sPrevDrawListHashes i = some (hashImDrawList P l) := hne
      rw [if_neg hne']
      exact listKept_rebuild P hx hy hio (huv l (List.mem_of_getElem? hl))
    · -- three zeros
      have hsame' : tableOf st.sPrevDrawListHashes i = some (hashImDrawList P l) := hsame
      rw [if_pos hsame'] at hentry ⊢
      exact ⟨PackedFrame.offset_succ _ hentry, rfl⟩

/-- The red and the green triangle against a table that already holds the green one. -/
theorem codec_roundTrip_triangles :
    ∃ r, packImDrawData Platform.lp64 ⟨1280, 720⟩ 0
        ⟨(Vector.replicate sMaxDrawLists 0).set 1 (hashImDrawList Platform.lp64 (triangle 2)), 2⟩
        (triangles [1, 2] two_fit).data = some r ∧
      ∀ m : Mem, m.Holds 0 r.out →
        ∃ u, unpackDrawData ⟨⟨1280, 720⟩, 1⟩ m r.out.length DrawDataStatics.init = some u ∧
          u.cursor = r.out.length ∧
          (∃ dst, u.drawData.cmdLists[0]? = some dst ∧
            ListKept Platform.lp64 ⟨1280, 720⟩ (triangle 1) dst) ∧
          u.drawData.cmdLists[1]? = some ImDrawList.empty := by
  obtain ⟨r, hpack, hr⟩ := codec_roundTrip Platform.lp64 ⟨1280, 720⟩ (by decide) (by decide)
    ⟨⟨1280, 720⟩, 1⟩ rfl
    ⟨(Vector.replicate sMaxDrawLists 0).set 1 (hashImDrawList Platform.lp64 (triangle 2)), 2⟩
    (triangles [1, 2] two_fit) (by decide +kernel) DrawDataStatics.init
  refine ⟨r, hpack, fun m hm => ?_⟩
  obtain ⟨u, hunpack, hcur, -, -, off, -, -, hlists⟩ := hr m hm
  obtain ⟨red, hred, -, hkept, -⟩ := hlists 0 (triangle 1) rfl
  obtain ⟨green, hgreen, -, -, hsame⟩ := hlists 1 (triangle 2) rfl
  refine ⟨u, hunpack, hcur, ⟨red, hred, hkept (by decide +kernel)⟩, ?_⟩
  rw [hgreen, (hsame (by decide +kernel)).2]
  rfl

end Nxdb
