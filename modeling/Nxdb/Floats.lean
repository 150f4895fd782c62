/-
  `float` values on the wire.

  The model's coordinates are rationals.  `floatBits` gives the four bytes of one, `floatVal` reads
  them back: exactly for the values that a `float` can hold (`IsFloat`).  Input that the desktop
  takes (sizes of its window, places in it, turns of the wheel) is of such values, as the calls of
  GLFW give them; that the conditions the code puts on them come out alike on the rational and on
  the bytes is `floatBits_mod_eq_zero_iff`.
-/
import Nxdb.ImGui
import Mathlib.Tactic.NormNum

namespace Nxdb

open Lib

/-- The number these bits stand for: zero, a subnormal or a normal number. -/
def floatVal (bits : Nat) : ℚ :=
  let sign : ℚ := if 2 ^ 31 ≤ bits % 2 ^ 32 then -1 else 1
  let exponent : Nat := bits / 2 ^ 23 % 2 ^ 8
  let fraction : Nat := bits % 2 ^ 23
  if exponent = 0 then sign * fraction / 2 ^ 149
  else sign * ((2 ^ 23 + fraction : Nat) : ℚ) * 2 ^ exponent / 2 ^ 150

/-- A value of type `float`: its bits are four bytes, and tell what it is. -/
def IsFloat (q : ℚ) : Prop := floatBits q < 2 ^ 32 ∧ floatVal (floatBits q) = q

instance (q : ℚ) : Decidable (IsFloat q) := inferInstanceAs (Decidable (_ ∧ _))

/-- Both coordinates are values of a `float`. -/
def ImVec2.IsFloat (v : ImVec2) : Prop := Nxdb.IsFloat v.x ∧ Nxdb.IsFloat v.y

instance (v : ImVec2) : Decidable v.IsFloat := inferInstanceAs (Decidable (_ ∧ _))

theorem floatVal_zero : floatVal 0 = 0 := by
  rw [floatVal]
  norm_num

theorem isFloat_zero : IsFloat 0 := by
  have hbits : floatBits 0 = 0 := if_pos rfl
  rw [IsFloat, hbits, floatVal_zero]
  exact ⟨by decide, rfl⟩

/-! ## Four bytes

  The sign is the highest bit, so a `float` is zero in a condition iff the other 31 are. -/

/-- A `float` is true in a condition if and only if it is not zero. -/
theorem floatBits_mod_eq_zero_iff {q : ℚ} (h : IsFloat q) : floatBits q % 2 ^ 31 = 0 ↔ q = 0 := by
  constructor
  · intro hzero
    -- what is left is the sign
    have hval : floatVal (floatBits q) = 0 := by
      have hlt := h.1
      have hexp : floatBits q / 2 ^ 23 % 2 ^ 8 = 0 := by omega
      have hfrac : floatBits q % 2 ^ 23 = 0 := by omega
      rw [floatVal]
      simp only [hexp, hfrac, if_true]
      norm_num
    rw [← h.2, hval]
  · rintro rfl
    rfl

end Nxdb
