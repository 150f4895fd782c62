/-
  Truncating quantisation of an interval.

  `quantise s N x` maps a coordinate of the interval `[0, s]` to one of the `N + 1` levels
  `0 .. N` by scaling and dropping the fraction; `dequantise s N q` is the coordinate of a level.
  Over any ordered field with a floor: the way back never overshoots, loses less than one quantum
  `s / N`, and the coordinate of a level quantises to that level again.
-/
import Mathlib.Algebra.Order.Floor.Ring
import Mathlib.Data.Nat.Cast.Order.Field
import Mathlib.Tactic.FieldSimp
import Mathlib.Tactic.Linarith
import Mathlib.Tactic.Ring

namespace Nxdb.Lib

variable {K : Type} [Field K] [LinearOrder K] [IsStrictOrderedRing K] [FloorRing K]

/-- The level of a coordinate: scale `[0, s]` to `[0, N]` and drop the fraction. -/
def quantise (s : K) (N : ℕ) (x : K) : ℕ := ⌊x / s * N⌋₊

/-- The coordinate of a level. -/
def dequantise (s : K) (N : ℕ) (q : ℕ) : K := (q : K) / N * s

variable {s x : K} {N : ℕ}

/-- A coordinate of the interval scales to a number of `[0, N]`. -/
theorem scaled_mem (hs : 0 < s) (h0 : 0 ≤ x) (hx : x ≤ s) : 0 ≤ x / s * N ∧ x / s * N ≤ N := by
  have hN : (0 : K) ≤ N := Nat.cast_nonneg N
  have hdiv0 : 0 ≤ x / s := div_nonneg h0 hs.le
  have hdiv1 : x / s ≤ 1 := (div_le_one hs).mpr hx
  exact ⟨mul_nonneg hdiv0 hN, by nlinarith⟩

/-- A value inside the range is not quantised to more than the number of steps. -/
theorem quantise_le (hs : 0 < s) (h0 : 0 ≤ x) (hx : x ≤ s) : quantise s N x ≤ N := by
  have h := Nat.floor_le_floor (scaled_mem (N := N) hs h0 hx).2
  rwa [Nat.floor_natCast] at h

/-- The way back never overshoots. -/
theorem dequantise_quantise_le (hs : 0 < s) (hN : 0 < N) (h0 : 0 ≤ x) :
    dequantise s N (quantise s N x) ≤ x := by
  have hN' : (0 : K) < N := Nat.cast_pos.mpr hN
  have hfloor : (quantise s N x : K) ≤ x / s * N :=
    Nat.floor_le (mul_nonneg (div_nonneg h0 hs.le) hN'.le)
  calc dequantise s N (quantise s N x) = (quantise s N x : K) * (s / N) := by
        rw [dequantise]; ring
    _ ≤ x / s * N * (s / N) := mul_le_mul_of_nonneg_right hfloor (div_nonneg hs.le hN'.le)
    _ = x := by field_simp

/-- ... and it loses less than one quantum. -/
theorem lt_dequantise_quantise_add (hs : 0 < s) (hN : 0 < N) :
    x < dequantise s N (quantise s N x) + s / N := by
  have hN' : (0 : K) < N := Nat.cast_pos.mpr hN
  have hfloor : x / s * N < (quantise s N x : K) + 1 := Nat.lt_floor_add_one _
  calc x = x / s * N * (s / N) := by field_simp
    _ < ((quantise s N x : K) + 1) * (s / N) :=
        mul_lt_mul_of_pos_right hfloor (div_pos hs hN')
    _ = dequantise s N (quantise s N x) + s / N := by rw [dequantise]; ring

/-- The coordinate of a level quantises to that level. -/
theorem quantise_dequantise (hs : 0 < s) (hN : 0 < N) (q : ℕ) :
    quantise s N (dequantise s N q) = q := by
  have hN' : (0 : K) < N := Nat.cast_pos.mpr hN
  have hscale : dequantise s N q / s * N = q := by rw [dequantise]; field_simp
  rw [quantise, hscale, Nat.floor_natCast]

/-- What comes back lies inside the range. -/
theorem dequantise_mem (hs : 0 < s) (hN : 0 < N) {q : ℕ} (hq : q ≤ N) :
    0 ≤ dequantise s N q ∧ dequantise s N q ≤ s := by
  have hN' : (0 : K) < N := Nat.cast_pos.mpr hN
  have hq' : (q : K) / N ≤ 1 := (div_le_one hN').mpr (Nat.cast_le.mpr hq)
  constructor
  · exact mul_nonneg (div_nonneg (Nat.cast_nonneg q) hN'.le) hs.le
  · rw [dequantise]
    nlinarith

end Nxdb.Lib
