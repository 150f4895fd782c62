/-
  The ImGui data both programs exchange, as far as the draw data path touches it.

  ImGui itself is a git submodule, so its structures are modelled by the members the two programs
  read or write.  Coordinates are exact rationals.  What the ImGui headers, the compiler and the
  machine fix beyond that is a parameter of the development, the structure `Platform`: the byte
  image of a vertex and of a command (which `hashImDrawList` hashes through a cast to `u8*`), and
  the conversion of a floating-point value to `u16`, which the language defines only in range.
-/
import Nxdb.Hash
import Nxdb.Lib.Bytes
import Mathlib.Data.Rat.Floor

namespace Nxdb

open Lib

/-- A point or a size.  The coordinates are exact rationals, where the code has `float`s. -/
structure ImVec2 where
  x : ℚ
  y : ℚ
deriving DecidableEq

/-- A rectangle, by two corners. -/
structure ImVec4 where
  x : ℚ
  y : ℚ
  z : ℚ
  w : ℚ
deriving DecidableEq

/-- A vertex: its position in pixels, its place in the texture, and its colour. -/
structure ImDrawVert where
  pos : ImVec2
  uv : ImVec2
  col : UInt32
deriving DecidableEq

/-- A draw command.  Pointers are addresses, `0` the null pointer. -/
structure ImDrawCmd where
  clipRect : ImVec4
  textureId : Nat
  vtxOffset : UInt32
  idxOffset : UInt32
  elemCount : UInt32
  userCallback : Nat
  userCallbackData : Nat
  userCallbackDataSize : Int32
  userCallbackDataOffset : Int32
deriving DecidableEq

/-- A draw list: `ImDrawIdx` is ImGui's default, `unsigned short`. -/
structure ImDrawList where
  cmdBuffer : List ImDrawCmd
  idxBuffer : List UInt16
  vtxBuffer : List ImDrawVert
deriving DecidableEq

namespace ImDrawList

/-- `ImDrawList(nullptr)`, with nothing in its buffers. -/
def empty : ImDrawList := ⟨[], [], []⟩

/-- The sizes of the three buffers are values of `ImVector`'s `int Size`. -/
def Sized (l : ImDrawList) : Prop :=
  l.cmdBuffer.length < 2 ^ 31 ∧ l.vtxBuffer.length < 2 ^ 31 ∧ l.idxBuffer.length < 2 ^ 31

/-- Not all three buffers are empty: ImGui drops the lists for which this fails. -/
def NonEmpty (l : ImDrawList) : Prop :=
  ¬ (l.cmdBuffer.length = 0 ∧ l.vtxBuffer.length = 0 ∧ l.idxBuffer.length = 0)

instance (l : ImDrawList) : Decidable l.Sized := by unfold Sized; infer_instance

instance (l : ImDrawList) : Decidable l.NonEmpty := by unfold NonEmpty; infer_instance

end ImDrawList

/-- A whole frame.  ImGui keeps `CmdListsCount` equal to `CmdLists.Size`. -/
structure ImDrawData where
  totalVtxCount : Int32
  totalIdxCount : Int32
  cmdLists : List ImDrawList
deriving DecidableEq

/-- `CmdListsCount`, which ImGui keeps equal to the length of the list. -/
def ImDrawData.cmdListsCount (data : ImDrawData) : Nat := data.cmdLists.length

/-- What the ImGui headers, the compiler and the machine fix.  In range, a floating-point value is
    converted to `u16` by dropping its fraction; the language leaves every other value open. -/
structure Platform where
  /-- The object representation of an `ImDrawVert` (`20` bytes). -/
  vertImage : ImDrawVert → List UInt8
  /-- The object representation of an `ImDrawCmd`. -/
  cmdImage : ImDrawCmd → List UInt8
  /-- The conversion `u16(value)`. -/
  toU16 : ℚ → UInt16
  toU16_of_mem : ∀ q : ℚ, -1 < q → q < 65536 → (toU16 q).toNat = ⌊q⌋.toNat

/-! ## A platform

  One platform to run examples on, with a `float`'s bits computed from the rational.  What is proved
  is proved for any. -/

/-- The IEEE single-precision bits of a number: exact on zero and on the normal numbers a `float`
    holds, the fraction cut off elsewhere. -/
def floatBits (q : ℚ) : Nat :=
  if q = 0 then 0
  else
    let n := q.num.natAbs
    let e := n.log2
    (if q < 0 then 2 ^ 31 else 0) + (e + 127 - q.den.log2) * 2 ^ 23 + (n * 2 ^ 23 / 2 ^ e - 2 ^ 23)

/-- A point in memory: two `float`s. -/
def ImVec2.image (v : ImVec2) : List UInt8 := le 4 (floatBits v.x) ++ le 4 (floatBits v.y)

/-- The layout of ImGui's structures for a 64-bit little-endian compiler. -/
def Platform.lp64 : Platform where
  vertImage v := v.pos.image ++ v.uv.image ++ le 4 v.col.toNat
  cmdImage c :=
    le 4 (floatBits c.clipRect.x) ++ le 4 (floatBits c.clipRect.y) ++ le 4 (floatBits c.clipRect.z)
      ++ le 4 (floatBits c.clipRect.w) ++ le 8 c.textureId ++ le 4 c.vtxOffset.toNat
      ++ le 4 c.idxOffset.toNat ++ le 4 c.elemCount.toNat ++ le 4 0 ++ le 8 c.userCallback
      ++ le 8 c.userCallbackData ++ intBytes c.userCallbackDataSize
      ++ intBytes c.userCallbackDataOffset
  toU16 q := UInt16.ofNat ⌊q⌋.toNat
  toU16_of_mem q _ hq := by
    have hlt : ⌊q⌋ < 65536 := Int.floor_lt.mpr (by exact_mod_cast hq)
    rw [UInt16.toNat_ofNat', Nat.mod_eq_of_lt]
    omega

example : floatBits 1280 = 0x44A00000 ∧ floatBits (-3 / 8) = 0xBEC00000 := by decide +kernel

end Nxdb
