/-
  Writing with a cursor.

  A cursor writes ranges one behind the other, from `0` on, and notes each of them.  Whatever is
  written in between, the places written are exactly those below the cursor (`written_iff`), so all
  of them lie below a bound if and only if the cursor does at the end (`inside_iff`).
-/
import Mathlib.Data.List.Basic

namespace Nxdb.Lib

/-- The position and the ranges written, each with its offset and its size. -/
structure Cursor where
  pos : Nat
  writes : List (Nat × Nat)
deriving DecidableEq

namespace Cursor

/-- The cursor at the beginning of the buffer. -/
def init : Cursor := ⟨0, []⟩

/-- A range of so many places is written at the cursor, which moves behind it. -/
def write (size : Nat) (c : Cursor) : Cursor := ⟨c.pos + size, c.writes ++ [(c.pos, size)]⟩

/-- The same, so many times. -/
def writeEach (size : Nat) : Nat → Cursor → Cursor
  | 0, c => c
  | n + 1, c => writeEach size n (c.write size)

/-- The place has been written. -/
def Written (c : Cursor) (place : Nat) : Prop :=
  ∃ w ∈ c.writes, w.1 ≤ place ∧ place < w.1 + w.2

/-- The places written are those below the cursor. -/
def Gapless (c : Cursor) : Prop := ∀ place, c.Written place ↔ place < c.pos

/-- Nothing has been written, nothing is missing. -/
theorem gapless_init : init.Gapless := by
  intro place
  constructor
  · rintro ⟨w, hw, -⟩
    exact absurd hw List.not_mem_nil
  · intro h
    exact absurd h (Nat.not_lt_zero place)

/-- A write begins where the last one ended. -/
theorem Gapless.write {c : Cursor} (h : c.Gapless) (size : Nat) : (c.write size).Gapless := by
  intro place
  show _ ↔ place < c.pos + size
  constructor
  · rintro ⟨w, hw, hlo, hhi⟩
    rcases List.mem_append.mp hw with hw | hw
    · have hlt := (h place).mp ⟨w, hw, hlo, hhi⟩
      omega
    · rw [List.mem_singleton] at hw
      subst hw
      exact hhi
  · intro hlt
    by_cases hplace : place < c.pos
    · obtain ⟨w, hw, hin⟩ := (h place).mpr hplace
      exact ⟨w, List.mem_append_left _ hw, hin⟩
    · exact ⟨(c.pos, size), List.mem_append_right _ (List.mem_singleton.mpr rfl),
        Nat.le_of_not_lt hplace, hlt⟩

/-- So do all writes of a loop, by induction on their number. -/
theorem Gapless.writeEach (size n : Nat) : ∀ {c : Cursor}, c.Gapless →
    (Cursor.writeEach size n c).Gapless := by
  induction n with
  | zero => exact fun h => h
  | succ n ih => exact fun h => ih (h.write size)

/-- The cursor moves by what is written ... -/
@[simp] theorem pos_write (size : Nat) (c : Cursor) : (c.write size).pos = c.pos + size := rfl

/-- ... so often as it is written. -/
@[simp] theorem pos_writeEach (size n : Nat) : ∀ c : Cursor,
    (writeEach size n c).pos = c.pos + size * n := by
  induction n with
  | zero => exact fun _ => rfl
  | succ n ih =>
    intro c
    rw [writeEach, ih, pos_write, Nat.mul_succ]
    omega

/-- **All below the bound.** -/
theorem Gapless.inside_iff {c : Cursor} (h : c.Gapless) (bound : Nat) :
    (∀ place, c.Written place → place < bound) ↔ c.pos ≤ bound := by
  constructor
  · intro hall
    by_contra hgt
    exact absurd (hall bound ((h bound).mpr (Nat.lt_of_not_le hgt))) (Nat.lt_irrefl bound)
  · intro hle place hplace
    exact Nat.lt_of_lt_of_le ((h place).mp hplace) hle

end Cursor

end Nxdb.Lib
