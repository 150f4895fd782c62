/-
  The packed frame is canonical: what has been unpacked packs to the same bytes again.

  `packImDrawData` loses something, which is what `Nxdb.Codec` puts a bound to.  `unpackDrawData`
  loses nothing: every 12-bit field of a packet stands for a coordinate of its own, whatever the
  display size, and is what that coordinate packs to.  So a draw list that came out of a packet goes
  into the next one unchanged, and two packets that show the same lists are the same behind their
  headers.

  The coordinates in between are exact rationals.  The program keeps them in `float`s, and some of them
  do not come back from there: at a width of 1280 the field 1639 comes back as 1638.
-/
import Nxdb.Codec

namespace Nxdb

open Lib

variable (P : Platform)

/-! ## One field

  A field `q` stands for `q / 4095` of the display.  Packed again, that is `q` with nothing to drop,
  so this is where exact quotients are needed. -/

theorem toNat_le_4095 (q : BitVec 12) : q.toNat ≤ 4095 := Nat.le_of_lt_succ q.isLt

/-- The coordinate of a field lies on the display, and packs to that field. -/
theorem toField12_unscale {s : ℚ} (hs : 0 < s) (q : BitVec 12) :
    (0 ≤ unscale q 4095 s ∧ unscale q 4095 s ≤ s) ∧
      toField12 P (scale (unscale q 4095 s) s 4095) = q := by
  have hval : unscale q 4095 s = dequantise s 4095 q.toNat := rfl
  obtain ⟨h0, h1⟩ := dequantise_mem hs (by decide : 0 < 4095) (toNat_le_4095 q)
  rw [hval]
  refine ⟨⟨h0, h1⟩, ?_⟩
  apply BitVec.eq_of_toNat_eq
  rw [toNat_posField P hs h0 h1, quantise_dequantise hs (by decide)]

/-- The same for a texture coordinate. -/
theorem toField12_uv (q : BitVec 12) :
    toField12 P ((q.toNat : ℚ) / (4095 : ℕ) * (4095 : ℕ)) = q := by
  have h := (toField12_unscale P one_pos q).2
  rwa [unscale, mul_one, scale, div_one] at h

/-! ## Vertices, commands, lists

  Everything that is not a field is carried over as it is. -/

theorem packVert_unpackVert {displaySize : ImVec2} (hx : 0 < displaySize.x)
    (hy : 0 < displaySize.y) (v : PackedImDrawVert) :
    packVert P displaySize (unpackVert displaySize v) = v := by
  obtain ⟨⟨hx0, hx1⟩, hposX⟩ := toField12_unscale P hx v.posX
  obtain ⟨⟨hy0, hy1⟩, hposY⟩ := toField12_unscale P hy v.posY
  have huvX := toField12_uv P v.uvX
  have huvY := toField12_uv P v.uvY
  -- the clamp changes nothing on the display
  simp only [packVert, clampVert, unpackVert, PackedImDrawVert.sBoundPos,
    PackedImDrawVert.sBoundUv, clamp_of_mem hx0 hx1, clamp_of_mem hy0 hy1, hposX, hposY, huvX, huvY]

theorem packCmd_unpackCmd {displaySize : ImVec2} (hx : 0 < displaySize.x)
    (hy : 0 < displaySize.y) {io : ClientIo} (hio : io.displaySize = displaySize)
    (c : PackedImDrawCmd) : packCmd P displaySize (unpackCmd io c) = c := by
  have hx1 := (toField12_unscale P hx c.clipRect.x1).2
  have hy1 := (toField12_unscale P hy c.clipRect.y1).2
  have hx2 := (toField12_unscale P hx c.clipRect.x2).2
  have hy2 := (toField12_unscale P hy c.clipRect.y2).2
  simp only [packCmd, unpackCmd, hio, PackedImDrawCmd.sBoundClip, hx1, hy1, hx2, hy2,
    UInt16.toUInt16_toUInt32]

/-- **A list that was unpacked packs to what it was.** -/
theorem packList_unpackPacked {displaySize : ImVec2} (hx : 0 < displaySize.x)
    (hy : 0 < displaySize.y) {io : ClientIo} (hio : io.displaySize = displaySize)
    (l : PackedList) : packList P displaySize (unpackPacked io l) = l := by
  have hcmds : l.cmds.map (packCmd P displaySize ∘ unpackCmd io) = l.cmds := by
    conv_rhs => rw [← List.map_id l.cmds]
    exact List.map_congr_left fun c _ => packCmd_unpackCmd P hx hy hio c
  have hverts : l.verts.map (packVert P displaySize ∘ unpackVert displaySize) = l.verts := by
    conv_rhs => rw [← List.map_id l.verts]
    exact List.map_congr_left fun v _ => packVert_unpackVert P hx hy v
  rw [packList, unpackPacked, List.map_map, List.map_map, hio, hcmds, hverts]

/-! ## The whole packet

  What is left is the choice between a list and a mark.  It goes by the hashes of the lists as
  unpacked, so against a table that has none of them the packet is the one that came. -/

/-- Every draw list of the packet is there in full. -/
def PackedFrame.Full (p : PackedFrame) (ls : List PackedList) : Prop := p.entries = ls.map some

/-- Such a packet shows its own lists, whatever the client has shown before. -/
theorem PackedFrame.Full.lists {p : PackedFrame} {ls : List PackedList} (h : p.Full ls)
    (io : ClientIo) (prev : List ImDrawList) : p.lists io prev = ls.map (unpackPacked io) := by
  apply List.ext_getElem?
  intro i
  rw [p.getElem?_lists, h, List.getElem?_map, List.getElem?_map, Option.map_map]
  rfl

/-- What is written for lists that have been unpacked: a mark for each list whose hash is the stored
    one, and in the place of any other the list that was unpacked. -/
theorem packEntries_unpackPacked {displaySize : ImVec2} (hx : 0 < displaySize.x)
    (hy : 0 < displaySize.y) {io : ClientIo} (hio : io.displaySize = displaySize)
    (t : Delta.Table UInt32) (ls : List PackedList) :
    packEntries P displaySize t (ls.map (unpackPacked io)) = ls.mapIdx fun i l =>
      if t i = some (hashImDrawList P (unpackPacked io l)) then none else some l := by
  apply List.ext_getElem?
  intro i
  rw [packEntries, List.getElem?_map, Delta.getElem?_encode, List.getElem?_map,
    List.getElem?_mapIdx, Option.map_map, Option.map_map]
  congr 1
  funext l
  simp only [Function.comp_apply]
  split
  · rfl
  · rw [Option.map_some, packList_unpackPacked P hx hy hio]

/-- **What was unpacked packs to the same bytes.**  A client that has unpacked a packet with every
    list in full, whatever it has shown before, and packs what it got at the same display size,
    writes the same packet: the cursor and the number of lists in the header, and of every list
    whose hash its table does not hold exactly the bytes it came in. -/
theorem repack_eq {displaySize : ImVec2} (hx : 0 < displaySize.x) (hy : 0 < displaySize.y)
    {io : ClientIo} (hio : io.displaySize = displaySize) {p : PackedFrame} {ls : List PackedList}
    (hfull : p.Full ls) (hlen : ls.length ≤ sMaxDrawLists) (st : PackState)
    (client : DrawDataStatics) {m : Mem} (hm : m.Holds 0 p.bytes) (size : Nat) :
    ∃ r q, unpackDrawData io m size client = some r ∧
      packImDrawData P displaySize r.outCursor st r.drawData = some q ∧
      q.out = { p.header with totalVtxCount := r.drawData.totalVtxCount
                              totalIdxCount := r.drawData.totalIdxCount }.bytes
        ++ (ls.mapIdx fun i l =>
          if st.sPrevDrawListHashes[i]? = some (hashImDrawList P (unpackPacked io l)) then none
          else some l).flatMap entryBytes := by
  obtain ⟨r, hr, hlists, hcursor, -, -⟩ := unpackDrawData_eq io size client hm
  rw [hfull.lists] at hlists
  have hcount : r.drawData.cmdListsCount = ls.length := by
    rw [ImDrawData.cmdListsCount, hlists, List.length_map]
  have hle : r.drawData.cmdListsCount ≤ sMaxDrawLists := by
    rw [hcount]
    exact hlen
  obtain ⟨q, hq, hout, -, -⟩ := packImDrawData_eq P displaySize r.outCursor st hle
  refine ⟨r, q, hr, hq, ?_⟩
  rw [hout, hlists, packEntries_unpackPacked P hx hy hio, packHeader, hcount, hcursor]
  have hheader : Int32.ofNat ls.length = p.header.cmdListsCount := by
    rw [p.count, hfull, List.length_map]
  rw [hheader]
  rfl

/-- Two triangles for a client that has shown nothing yet. -/
def freshTriangles : PackedFrame :=
  packedFrame Platform.lp64 ⟨1280, 720⟩ (fun _ => none) (triangles [1, 2] two_fit)

/-- The two triangles, packed. -/
def packedTriangles : List PackedList :=
  [packList Platform.lp64 ⟨1280, 720⟩ (triangle 1), packList Platform.lp64 ⟨1280, 720⟩ (triangle 2)]

/-- A program that starts with what came out of the packet writes the packet. -/
theorem repack_eq_triangles :
    ∃ r q, unpackDrawData ⟨⟨1280, 720⟩, 1⟩ (Mem.ofList freshTriangles.bytes)
        freshTriangles.bytes.length DrawDataStatics.init = some r ∧
      packImDrawData Platform.lp64 ⟨1280, 720⟩ r.outCursor PackState.init r.drawData = some q ∧
      q.out.drop ImDrawDataPackHeader.sizeOf =
        freshTriangles.bytes.drop ImDrawDataPackHeader.sizeOf := by
  have hfull : freshTriangles.Full packedTriangles := rfl
  have hx : 0 < (⟨1280, 720⟩ : ImVec2).x := by decide
  have hy : 0 < (⟨1280, 720⟩ : ImVec2).y := by decide
  have hio : (⟨⟨1280, 720⟩, 1⟩ : ClientIo).displaySize = ⟨1280, 720⟩ := rfl
  have hmarks : (packedTriangles.mapIdx fun i l =>
      if PackState.init.sPrevDrawListHashes[i]? =
        some (hashImDrawList Platform.lp64 (unpackPacked ⟨⟨1280, 720⟩, 1⟩ l)) then none
      else some l) = freshTriangles.entries := by decide +kernel
  obtain ⟨r, q, hr, hq, hout⟩ := repack_eq Platform.lp64 hx hy hio hfull
    (by decide) PackState.init DrawDataStatics.init (Mem.holds_ofList _) freshTriangles.bytes.length
  refine ⟨r, q, hr, hq, ?_⟩
  rw [hout, List.drop_left' (ImDrawDataPackHeader.length_bytes _), PackedFrame.bytes,
    List.drop_left' (ImDrawDataPackHeader.length_bytes _), hmarks]

end Nxdb
