/-
  Little-endian byte strings and byte memory.

  Two things every binary format needs, over nothing but `Nat` and `UInt8`:

  * the little-endian code `le w n` of a number in `w` bytes, its reading `leVal`, and the four
    bytes of an `int` (`intBytes`, `intVal`); and the packing of four 12-bit fields into 48 bits;
  * a byte memory `Mem` (what a pointer gives access to: a byte at every offset, with no end), and
    the statement `Holds m off bs` that a byte string lies in it at an offset.

  A decoder that takes a raw pointer is a function of a `Mem`; that it decodes an encoded value is
  then a statement about every memory that holds the encoding, whatever lies behind it.
-/
import Mathlib.Data.Nat.Basic
import Mathlib.Data.List.Basic
import Mathlib.Tactic.Ring

namespace Nxdb.Lib

/-! ## Little-endian numbers -/

/-- `le w n` = the `w` low bytes of `n`, least significant first. -/
def le : Nat → Nat → List UInt8
  | 0, _ => []
  | w + 1, n => UInt8.ofNat (n % 256) :: le w (n / 256)

/-- The number a little-endian byte string denotes. -/
def leVal : List UInt8 → Nat
  | [] => 0
  | b :: bs => b.toNat + 256 * leVal bs

/-- So many bytes as asked for, whatever the number is. -/
@[simp] theorem length_le (w n : Nat) : (le w n).length = w := by
  induction w generalizing n with
  | zero => rfl
  | succ w ih => rw [le, List.length_cons, ih]

/-- Reading back what `le` wrote: the number modulo the range of `w` bytes. -/
theorem leVal_le (w n : Nat) : leVal (le w n) = n % 256 ^ w := by
  induction w generalizing n with
  | zero => rw [le, leVal, Nat.pow_zero, Nat.mod_one]
  | succ w ih =>
    have hb : (UInt8.ofNat (n % 256)).toNat = n % 256 := by
      rw [UInt8.toNat_ofNat']; omega
    rw [le, leVal, hb, ih, Nat.pow_succ', Nat.mod_mul]

/-- **Round trip**: a number that fits comes back from its bytes. -/
theorem leVal_le_of_lt {w n : Nat} (h : n < 256 ^ w) : leVal (le w n) = n := by
  rw [leVal_le, Nat.mod_eq_of_lt h]

/-- What can be read from so many bytes. -/
theorem leVal_lt (bs : List UInt8) : leVal bs < 256 ^ bs.length := by
  induction bs with
  | nil => exact Nat.one_pos
  | cons b bs ih =>
    have hb : b.toNat < 256 := b.toNat_lt
    rw [leVal, List.length_cons, Nat.pow_succ']
    omega

/-- A byte string is the code of the number it denotes. -/
theorem le_leVal (bs : List UInt8) : le bs.length (leVal bs) = bs := by
  induction bs with
  | nil => rfl
  | cons b bs ih =>
    have hb : b.toNat < 256 := b.toNat_lt
    have hlow : (b.toNat + 256 * leVal bs) % 256 = b.toNat := by omega
    have hhigh : (b.toNat + 256 * leVal bs) / 256 = leVal bs := by omega
    rw [leVal, List.length_cons, le, hlow, hhigh, UInt8.ofNat_toNat, ih]

/-- Two's complement reading of a four-byte string. -/
def intVal (bs : List UInt8) : Int32 := (UInt32.ofNat (leVal bs)).toInt32

/-- The four bytes of a 32-bit `int`. -/
def intBytes (z : Int32) : List UInt8 := le 4 z.toUInt32.toNat

/-- An `int` takes four bytes on the wire. -/
@[simp] theorem length_intBytes (z : Int32) : (intBytes z).length = 4 := length_le 4 _

/-- **Round trip** of an `int`, negative ones included. -/
@[simp] theorem intVal_intBytes (z : Int32) : intVal (intBytes z) = z := by
  rw [intVal, intBytes, leVal_le_of_lt z.toUInt32.toNat_lt, UInt32.ofNat_toNat,
    Int32.toInt32_toUInt32]

/-- Four bytes are a negative `int` when the number they denote takes the highest bit. -/
theorem intVal_nonneg_iff {bs : List UInt8} (h : bs.length = 4) :
    0 ≤ intVal bs ↔ leVal bs < 2 ^ 31 := by
  have hlt : leVal bs < 2 ^ 32 := by
    have hlt := leVal_lt bs
    rw [h] at hlt
    exact hlt
  rw [Int32.le_iff_toInt_le, intVal, UInt32.toInt32_ofNat', Int32.toInt_ofNat', Int32.toInt_zero,
    Int.bmod_def, Int32.size]
  omega

/-! ## Four 12-bit fields in six bytes -/

/-- Four 12-bit fields as one 48-bit number, the first field in the lowest bits (how a
    little-endian compiler lays out consecutive bit-fields). -/
def quad12 (a b c d : BitVec 12) : Nat :=
  a.toNat + 2 ^ 12 * (b.toNat + 2 ^ 12 * (c.toNat + 2 ^ 12 * d.toNat))

/-- Field `i` of a number packed by `quad12`. -/
def field12 (n i : Nat) : BitVec 12 := BitVec.ofNat 12 (n / 2 ^ (12 * i))

/-- Four 12-bit fields fit into six bytes. -/
theorem quad12_lt (a b c d : BitVec 12) : quad12 a b c d < 256 ^ 6 := by
  have ha := a.isLt; have hb := b.isLt; have hc := c.isLt; have hd := d.isLt
  unfold quad12
  omega

/-- The first field comes back: the other three are multiples of `2 ^ 12`. -/
theorem field12_quad12_0 (a b c d : BitVec 12) : field12 (quad12 a b c d) 0 = a := by
  have ha := a.isLt; have hb := b.isLt; have hc := c.isLt; have hd := d.isLt
  apply BitVec.eq_of_toNat_eq
  rw [field12, BitVec.toNat_ofNat, quad12]
  omega

/-- The second field, behind the first. -/
theorem field12_quad12_1 (a b c d : BitVec 12) : field12 (quad12 a b c d) 1 = b := by
  have ha := a.isLt; have hb := b.isLt; have hc := c.isLt; have hd := d.isLt
  apply BitVec.eq_of_toNat_eq
  rw [field12, BitVec.toNat_ofNat, quad12]
  omega

/-- The third field, behind two. -/
theorem field12_quad12_2 (a b c d : BitVec 12) : field12 (quad12 a b c d) 2 = c := by
  have ha := a.isLt; have hb := b.isLt; have hc := c.isLt; have hd := d.isLt
  apply BitVec.eq_of_toNat_eq
  rw [field12, BitVec.toNat_ofNat, quad12]
  omega

/-- The last field, behind three. -/
theorem field12_quad12_3 (a b c d : BitVec 12) : field12 (quad12 a b c d) 3 = d := by
  have ha := a.isLt; have hb := b.isLt; have hc := c.isLt; have hd := d.isLt
  apply BitVec.eq_of_toNat_eq
  rw [field12, BitVec.toNat_ofNat, quad12]
  omega

/-! ## Byte memory

  A memory has a byte at every offset, so reading never fails; what is known of it is what it
  `Holds`. -/

/-- What a byte pointer gives access to: the byte at every offset. -/
abbrev Mem := Nat → UInt8

/-- The `len` bytes at offset `off`. -/
def Mem.slice (m : Mem) (off len : Nat) : List UInt8 := (List.range len).map fun i => m (off + i)

/-- The byte string `bs` lies in `m` at offset `off`. -/
def Mem.Holds (m : Mem) (off : Nat) (bs : List UInt8) : Prop :=
  ∀ i (h : i < bs.length), m (off + i) = bs[i]

/-- A memory that starts with `bs` (and is zero after it). -/
def Mem.ofList (bs : List UInt8) : Mem := fun i => bs.getD i 0

/-- A slice has the length that was asked for: memory never ends. -/
@[simp] theorem Mem.length_slice (m : Mem) (off len : Nat) : (m.slice off len).length = len := by
  rw [Mem.slice, List.length_map, List.length_range]

/-- The memory that is made of a string holds it. -/
theorem Mem.holds_ofList (bs : List UInt8) : (Mem.ofList bs).Holds 0 bs := by
  intro i h
  rw [Nat.zero_add, Mem.ofList, List.getD_eq_getElem?_getD, List.getElem?_eq_getElem h,
    Option.getD_some]

/-- What a string in memory looks like to a reader that takes its length. -/
theorem Mem.Holds.slice {m : Mem} {off : Nat} {bs : List UInt8} (h : m.Holds off bs) :
    m.slice off bs.length = bs := by
  apply List.ext_getElem
  · exact m.length_slice off _
  · intro i _ hi
    rw [List.getElem_of_eq (Mem.slice.eq_1 ..), List.getElem_map, List.getElem_range, h i hi]

/-- A concatenation lies at an offset iff its parts lie one behind the other. -/
theorem Mem.holds_append {m : Mem} {off : Nat} {as bs : List UInt8} :
    m.Holds off (as ++ bs) ↔ m.Holds off as ∧ m.Holds (off + as.length) bs := by
  constructor
  · intro h
    constructor
    · intro i hi
      rw [h i (by rw [List.length_append]; omega), List.getElem_append_left hi]
    · intro i hi
      rw [Nat.add_assoc, h (as.length + i) (by rw [List.length_append]; omega),
        List.getElem_append_right (by omega)]
      congr 1
      omega
  · rintro ⟨ha, hb⟩ i hi
    rw [List.length_append] at hi
    by_cases hlt : i < as.length
    · rw [List.getElem_append_left hlt, ha i hlt]
    · rw [List.getElem_append_right (by omega), ← hb (i - as.length) (by omega)]
      congr 1
      omega

/-! ## Cutting, moving and writing

  A memory that is written to is another memory: the new bytes where they were put, the old ones
  elsewhere. -/

/-- The beginning of a slice is a shorter slice. -/
theorem Mem.take_slice {m : Mem} {off len k : Nat} (h : k ≤ len) :
    (m.slice off len).take k = m.slice off k := by
  apply List.ext_getElem
  · rw [List.length_take, length_slice, length_slice]
    omega
  · intro i _ _
    simp [Mem.slice]

/-- The rest of a slice is a slice further on. -/
theorem Mem.drop_slice (m : Mem) (off len k : Nat) :
    (m.slice off len).drop k = m.slice (off + k) (len - k) := by
  apply List.ext_getElem
  · rw [List.length_drop, length_slice, length_slice]
  · intro i _ _
    simp [Mem.slice, Nat.add_assoc]

/-- The bytes behind a pointer into the memory. -/
theorem Mem.slice_shift (m : Mem) (k off len : Nat) :
    Mem.slice (fun i => m (k + i)) off len = m.slice (k + off) len := by
  simp [Mem.slice, Nat.add_assoc]

/-- `memmove`: the `len` bytes at `src` are copied to `dst`. -/
def Mem.move (m : Mem) (dst src len : Nat) : Mem := fun i =>
  if dst ≤ i ∧ i < dst + len then m (src + (i - dst)) else m i

/-- What `memmove` leaves at the destination, also where the two areas overlap. -/
theorem Mem.slice_move (m : Mem) (dst src len : Nat) :
    (m.move dst src len).slice dst len = m.slice src len := by
  apply List.ext_getElem
  · rw [length_slice, length_slice]
  · intro i hi _
    rw [length_slice] at hi
    simp [Mem.slice, Mem.move, hi]

/-- The bytes `bs` are written at `off`. -/
def Mem.write (m : Mem) (off : Nat) (bs : List UInt8) : Mem := fun i =>
  if off ≤ i then (bs[i - off]?).getD (m i) else m i

/-- Writing at the end of a byte string appends. -/
theorem Mem.slice_write (m : Mem) (n : Nat) (bs : List UInt8) :
    (m.write n bs).slice 0 (n + bs.length) = m.slice 0 n ++ bs := by
  apply List.ext_getElem
  · rw [List.length_append, length_slice, length_slice]
  · intro i hi _
    rw [length_slice] at hi
    by_cases hlt : i < n
    · rw [List.getElem_append_left (by rwa [length_slice])]
      simp [Mem.slice, Mem.write, Nat.not_le_of_lt hlt]
    · have hbs : i - n < bs.length := by omega
      rw [List.getElem_append_right (by rw [length_slice]; omega)]
      simp [Mem.slice, Mem.write, Nat.le_of_not_lt hlt, List.getElem?_eq_getElem hbs]

end Nxdb.Lib
