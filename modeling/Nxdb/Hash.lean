/-
  The MurmurHash3 of `hash.h` (the sysmodule's and the client's copy are the same code).

  The template parameter `T` of the source only decides how one byte is widened to 32 bits when it
  is read: `u8` is zero-extended, a plain `char` may be sign-extended.  It is the parameter `widen`
  here.  A read past the end of the data reads 0; no caller does it.
-/
import Mathlib.Data.List.Basic

namespace Nxdb.Hash

/-- How `read(data, offset)`, of type `T`, becomes a `u32`. -/
abbrev Widen := UInt8 → UInt32

/-- `T = u8`. -/
def widenU8 : Widen := UInt8.toUInt32

/-- `T = char` where plain `char` is signed. -/
def widenSigned : Widen := fun b => if b < 128 then b.toUInt32 else b.toUInt32 ||| 0xffffff00

/-- `ReadDefault<T>::read`, widened to the `u32` its callers store it in. -/
def read (widen : Widen) (data : List UInt8) (offset : Nat) : UInt32 := widen (data.getD offset 0)

/-- Four bytes, the first in the lowest bits; each is as wide as the reader makes it. -/
def getBlock (widen : Widen) (p : List UInt8) (i : Nat) : UInt32 :=
  let a := read widen p (0 + i * 4)
  let b := read widen p (1 + i * 4)
  let c := read widen p (2 + i * 4)
  let d := read widen p (3 + i * 4)
  a <<< 0 ||| b <<< 8 ||| c <<< 16 ||| d <<< 24

/-- A rotation, written with two shifts. -/
def rotateLeft32 (x r : UInt32) : UInt32 := (x <<< r) ||| (x >>> (32 - r))

/-- The last mix of the value. -/
def finalMix (h : UInt32) : UInt32 :=
  let h := h ^^^ (h >>> 16)
  let h := h * 0x85ebca6b
  let h := h ^^^ (h >>> 13)
  let h := h * 0xc2b2ae35
  h ^^^ (h >>> 16)

/-- The members of `HashMurmurImpl` (its read callback's user data is never used). -/
structure HashMurmurImpl where
  mData : List UInt8
  mLen : UInt32
  mSeed : UInt32
  mHashValue : UInt32

namespace HashMurmurImpl

/-- The first multiplier of a block ... -/
def c1 : UInt32 := 0xcc9e2d51

/-- ... the second ... -/
def c2 : UInt32 := 0x1b873593

/-- ... and what is added behind it. -/
def c3 : UInt32 := 0xe6546b64

/-- How many whole blocks there are. -/
def nblocks (len : UInt32) : Nat := (len / 4).toNat

/-- The constructor. -/
def init (data : List UInt8) (len seed : UInt32) : HashMurmurImpl :=
  { mData := data, mLen := len, mSeed := seed, mHashValue := seed }

/-- The scrambling of one block, the same text in the loops and in the tail. -/
def scramble (k1 : UInt32) : UInt32 := rotateLeft32 (k1 * c1) 15 * c2

/-- One round of the loop body: mix a block into the running value. -/
def mixBlock (hashValue k1 : UInt32) : UInt32 :=
  rotateLeft32 (hashValue ^^^ scramble k1) 13 * 5 + c3

/-- The loop `for (u32 i = start; i < start + n; i++)` over the blocks of `p`. -/
def mixBlocks (widen : Widen) (p : List UInt8) (hashValue : UInt32) : Nat → Nat → UInt32
  | _, 0 => hashValue
  | i, n + 1 => mixBlocks widen p (mixBlock hashValue (getBlock widen p i)) (i + 1) n

/-- `feed`: the blocks of a buffer that is given later.  It counts them from 0. -/
def feed (widen : Widen) (self : HashMurmurImpl) (fedData : List UInt8) (fedLen : UInt32) :
    HashMurmurImpl :=
  { self with mHashValue := mixBlocks widen fedData self.mHashValue 0 (nblocks fedLen) }

/-- `calculateWithCallback`: the blocks of the buffer of the constructor. -/
def calculateWithCallback (widen : Widen) (self : HashMurmurImpl) : HashMurmurImpl :=
  { self with mHashValue := mixBlocks widen self.mData self.mHashValue 0 (nblocks self.mLen) }

/-- The fall-through `switch (mLen & 3)` up to the scrambling of `k1` in its last case. -/
def tailBlock (widen : Widen) (self : HashMurmurImpl) : UInt32 :=
  let tail := (self.mLen - self.mLen % 4).toNat
  let rem := (self.mLen &&& 3).toNat
  let k1 : UInt32 := 0
  let k1 := if rem = 3 then k1 ^^^ (read widen self.mData (tail + 2) <<< 16) else k1
  let k1 := if 2 ≤ rem then k1 ^^^ (read widen self.mData (tail + 1) <<< 8) else k1
  if 1 ≤ rem then k1 ^^^ read widen self.mData (tail + 0) else k1

/-- `finalize`: the bytes behind the last block, the length, and the last mix. -/
def finalize (widen : Widen) (self : HashMurmurImpl) : UInt32 :=
  let h1 := self.mHashValue
  -- case 0 of the switch leaves `h1` alone; the other cases scramble the tail into it
  let h1 := if self.mLen &&& 3 = 0 then h1 else h1 ^^^ scramble (tailBlock widen self)
  finalMix (h1 ^^^ self.mLen)

end HashMurmurImpl

/-- The whole hash, of a buffer and the length that is passed with it. -/
def hashMurmurImpl (widen : Widen) (data : List UInt8) (len seed : UInt32) : UInt32 :=
  let hash := HashMurmurImpl.init data len seed
  let hash := hash.calculateWithCallback widen
  hash.finalize widen

/-- `hashMurmur(const T* data, const u32 len, const u32 seed = 0)` at `T = u8`. -/
def hashMurmur (data : List UInt8) (len : UInt32) (seed : UInt32 := 0) : UInt32 :=
  hashMurmurImpl widenU8 data len seed

/-- `hashMurmur(const char* str, u32 seed = 0)`: the length is `strlen`. -/
def hashMurmurStr (widen : Widen) (str : List UInt8) (seed : UInt32 := 0) : UInt32 :=
  hashMurmurImpl widen str (UInt32.ofNat str.length) seed

-- one of the `static_assert`s of the source: ":333333333" with seed 0xB00B1E5
example : hashMurmurStr widenU8 [58, 51, 51, 51, 51, 51, 51, 51, 51, 51] 0xB00B1E5 = 0x4f39bed5 := by
  decide +kernel

end Nxdb.Hash
