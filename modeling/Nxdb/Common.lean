/-
  `common.h`: what the two programs agree on.

  The structures are `packed`, so their bytes on the wire are their members one behind the other,
  little-endian, with the four 12-bit fields of a clip rectangle or a vertex sharing six bytes.
  `bytes` is what `write` copies out of a structure, `ofBytes` what `read` makes of the bytes it
  copies into one.
-/
import Nxdb.Lib.Reader

namespace Nxdb

open Lib

/-- The packet types, in the order of the `enum`. -/
inductive PacketType where
  | noPacket
  | hello
  | alive
  | fontTexture
  | drawData
  | updateDisplaySize
  | updateMouse
  | updateKey
  | updateChar
  | setClipboardText
deriving DecidableEq, Repr

/-- The number an enumerator stands for on the wire. -/
def PacketType.code (t : PacketType) : Nat := t.ctorIdx

/-- What precedes the lists of a frame.  The totals are written and read, and used by nobody. -/
structure ImDrawDataPackHeader where
  curCursor : Int32
  cmdListsCount : Int32
  totalVtxCount : Int32
  totalIdxCount : Int32
deriving DecidableEq

namespace ImDrawDataPackHeader

/-- The four numbers on the wire, one behind the other: the structure is packed. -/
def bytes (h : ImDrawDataPackHeader) : List UInt8 :=
  intBytes h.curCursor ++ intBytes h.cmdListsCount ++ intBytes h.totalVtxCount
    ++ intBytes h.totalIdxCount

/-- The header, cast from sixteen bytes. -/
def ofBytes (bs : List UInt8) : ImDrawDataPackHeader where
  curCursor := intVal (bs.take 4)
  cmdListsCount := intVal ((bs.drop 4).take 4)
  totalVtxCount := intVal ((bs.drop 8).take 4)
  totalIdxCount := intVal ((bs.drop 12).take 4)

/-- `sizeof(ImDrawDataPackHeader)`. -/
def sizeOf : Nat := 16

/-- A header takes sixteen bytes. -/
@[simp] theorem length_bytes (h : ImDrawDataPackHeader) : h.bytes.length = sizeOf := by
  simp [bytes, sizeOf]

end ImDrawDataPackHeader

/-- The four quantised edges of a clip rectangle. -/
structure PackedClipRect where
  x1 : BitVec 12
  y1 : BitVec 12
  x2 : BitVec 12
  y2 : BitVec 12
deriving DecidableEq

/-- A command on the wire; the offsets and the count have 16 bits here, and 32 in an `ImDrawCmd`. -/
structure PackedImDrawCmd where
  clipRect : PackedClipRect
  vtxOffset : UInt16
  idxOffset : UInt16
  elemCount : UInt16
deriving DecidableEq

namespace PackedImDrawCmd

/-- The largest value of a 12-bit field. -/
def sBoundClip : ℕ := 4095

/-- A command on the wire: its rectangle in six bytes, and three numbers of two. -/
def bytes (c : PackedImDrawCmd) : List UInt8 :=
  le 6 (quad12 c.clipRect.x1 c.clipRect.y1 c.clipRect.x2 c.clipRect.y2)
    ++ le 2 c.vtxOffset.toNat ++ le 2 c.idxOffset.toNat ++ le 2 c.elemCount.toNat

/-- A command, cast from twelve bytes. -/
def ofBytes (bs : List UInt8) : PackedImDrawCmd :=
  let rect := leVal (bs.take 6)
  { clipRect := ⟨field12 rect 0, field12 rect 1, field12 rect 2, field12 rect 3⟩
    vtxOffset := UInt16.ofNat (leVal ((bs.drop 6).take 2))
    idxOffset := UInt16.ofNat (leVal ((bs.drop 8).take 2))
    elemCount := UInt16.ofNat (leVal ((bs.drop 10).take 2)) }

/-- `sizeof(PackedImDrawCmd)`. -/
def sizeOf : Nat := 12

/-- A command takes twelve bytes. -/
@[simp] theorem length_bytes (c : PackedImDrawCmd) : c.bytes.length = sizeOf := by
  simp [bytes, sizeOf]

end PackedImDrawCmd

/-- A vertex on the wire: four fields of 12 bits, and the colour. -/
structure PackedImDrawVert where
  posX : BitVec 12
  posY : BitVec 12
  uvX : BitVec 12
  uvY : BitVec 12
  col : UInt32
deriving DecidableEq

namespace PackedImDrawVert

/-- The largest value of a field, for positions ... -/
def sBoundPos : ℕ := 4095

/-- ... and for places in the texture. -/
def sBoundUv : ℕ := 4095

/-- A vertex on the wire. -/
def bytes (v : PackedImDrawVert) : List UInt8 :=
  le 6 (quad12 v.posX v.posY v.uvX v.uvY) ++ le 4 v.col.toNat

/-- A vertex, cast from ten bytes. -/
def ofBytes (bs : List UInt8) : PackedImDrawVert :=
  let fields := leVal (bs.take 6)
  { posX := field12 fields 0
    posY := field12 fields 1
    uvX := field12 fields 2
    uvY := field12 fields 3
    col := UInt32.ofNat (leVal ((bs.drop 6).take 4)) }

/-- `sizeof(PackedImDrawVert)`. -/
def sizeOf : Nat := 10

/-- A vertex takes ten bytes. -/
@[simp] theorem length_bytes (v : PackedImDrawVert) : v.bytes.length = sizeOf := by
  simp [bytes, sizeOf]

end PackedImDrawVert

/-! ## The structures survive the wire

  Members are cut off one by one: `take` and `drop` at the sum of the sizes before it. -/

/-- Cutting the first part off a concatenation. -/
theorem take_drop_field (pre mid post : List UInt8) {n w : Nat} (hn : pre.length = n)
    (hw : mid.length = w) : ((pre ++ mid ++ post).drop n).take w = mid := by
  rw [List.append_assoc, List.drop_left' hn, List.take_left' hw]

/-- **Round trip** of a vertex: no field is lost between the two ends. -/
theorem PackedImDrawVert.ofBytes_bytes (v : PackedImDrawVert) : ofBytes v.bytes = v := by
  have hq : leVal (v.bytes.take 6) = quad12 v.posX v.posY v.uvX v.uvY := by
    rw [bytes, List.take_left' (length_le 6 _), leVal_le_of_lt (quad12_lt ..)]
  have hc : leVal ((v.bytes.drop 6).take 4) = v.col.toNat := by
    have h := take_drop_field (le 6 (quad12 v.posX v.posY v.uvX v.uvY)) (le 4 v.col.toNat) []
      (length_le ..) (length_le ..)
    rw [List.append_nil] at h
    rw [bytes, h, leVal_le_of_lt v.col.toNat_lt]
  rw [ofBytes, hq, hc, field12_quad12_0, field12_quad12_1, field12_quad12_2, field12_quad12_3,
    UInt32.ofNat_toNat]

/-- **Round trip** of a command. -/
theorem PackedImDrawCmd.ofBytes_bytes (c : PackedImDrawCmd) : ofBytes c.bytes = c := by
  obtain ⟨⟨x1, y1, x2, y2⟩, vtx, idx, elem⟩ := c
  have hq : leVal ((bytes ⟨⟨x1, y1, x2, y2⟩, vtx, idx, elem⟩).take 6) = quad12 x1 y1 x2 y2 := by
    rw [bytes, List.append_assoc, List.append_assoc, List.take_left' (length_le 6 _),
      leVal_le_of_lt (quad12_lt ..)]
  have hv : leVal (((bytes ⟨⟨x1, y1, x2, y2⟩, vtx, idx, elem⟩).drop 6).take 2) = vtx.toNat := by
    rw [bytes, List.append_assoc, take_drop_field _ _ _ (length_le ..) (length_le ..),
      leVal_le_of_lt vtx.toNat_lt]
  have hi : leVal (((bytes ⟨⟨x1, y1, x2, y2⟩, vtx, idx, elem⟩).drop 8).take 2) = idx.toNat := by
    rw [bytes, take_drop_field _ _ _ (by simp) (length_le ..), leVal_le_of_lt idx.toNat_lt]
  have he : leVal (((bytes ⟨⟨x1, y1, x2, y2⟩, vtx, idx, elem⟩).drop 10).take 2) = elem.toNat := by
    have h := take_drop_field (le 6 (quad12 x1 y1 x2 y2) ++ le 2 vtx.toNat ++ le 2 idx.toNat)
      (le 2 elem.toNat) [] (n := 10) (w := 2) (by simp) (length_le ..)
    rw [List.append_nil] at h
    rw [bytes, h, leVal_le_of_lt elem.toNat_lt]
  rw [ofBytes, hq, hv, hi, he, field12_quad12_0, field12_quad12_1, field12_quad12_2,
    field12_quad12_3, UInt16.ofNat_toNat, UInt16.ofNat_toNat, UInt16.ofNat_toNat]

/-- **Round trip** of a header. -/
theorem ImDrawDataPackHeader.ofBytes_bytes (h : ImDrawDataPackHeader) : ofBytes h.bytes = h := by
  obtain ⟨cur, cnt, vtx, idx⟩ := h
  have h1 : (bytes ⟨cur, cnt, vtx, idx⟩).take 4 = intBytes cur := by
    rw [bytes, List.append_assoc, List.append_assoc, List.take_left' (length_intBytes _)]
  have h2 : ((bytes ⟨cur, cnt, vtx, idx⟩).drop 4).take 4 = intBytes cnt := by
    rw [bytes, List.append_assoc, take_drop_field _ _ _ (by simp) (by simp)]
  have h3 : ((bytes ⟨cur, cnt, vtx, idx⟩).drop 8).take 4 = intBytes vtx := by
    rw [bytes, take_drop_field _ _ _ (by simp) (by simp)]
  have h4 : ((bytes ⟨cur, cnt, vtx, idx⟩).drop 12).take 4 = intBytes idx := by
    have h := take_drop_field (intBytes cur ++ intBytes cnt ++ intBytes vtx) (intBytes idx) []
      (n := 12) (w := 4) (by simp) (by simp)
    rw [List.append_nil] at h
    exact h
  rw [ofBytes, h1, h2, h3, h4, intVal_intBytes, intVal_intBytes, intVal_intBytes, intVal_intBytes]

end Nxdb
