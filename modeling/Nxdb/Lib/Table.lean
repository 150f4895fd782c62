/-
  Arrays of a fixed size that are filled from the front.

  A `Table α n` is an array of `n` entries of which the first `count` are in use.  `push` changes the
  entry at `count` and moves `count` on; `none` when there is no such entry, that is, where a program
  that does not ask would write behind the array.

  Pushing one item after the other works out as long as there is room for all of them, and then what
  is in use is what was there and the items behind it (`foldlM_push`).  Where the entry depends on what
  was there, that is known as long as the table has been filled once only (`Fresh`).
-/
import Mathlib.Data.List.Basic

namespace Nxdb.Lib

variable {α β ι : Type} {n : Nat}

/-- An array of fixed length that is filled from the front, and how far it is filled. -/
structure Table (α : Type) (n : Nat) where
  count : Nat
  entries : Vector α n

namespace Table

/-- `f` is applied to the entry at `count`, and `count` is moved on. -/
def push (f : α → α) (t : Table α n) : Option (Table α n) :=
  if h : t.count < n then
    some ⟨t.count + 1, t.entries.set t.count (f (t.entries[t.count])) h⟩
  else none

/-- What `g` says of the entries in use. -/
def listed (g : α → β) (t : Table α n) : List β := (t.entries.toList.take t.count).map g

/-- Nothing is listed of an empty table. -/
theorem listed_zero (g : α → β) (entries : Vector α n) : (⟨0, entries⟩ : Table α n).listed g = [] := by
  rw [listed, List.take_zero]
  rfl

/-- A full table takes nothing more. -/
theorem push_eq_none_iff {f : α → α} {t : Table α n} : t.push f = none ↔ n ≤ t.count := by
  unfold push
  split
  next hlt => exact iff_of_false (Option.some_ne_none _) (Nat.not_le_of_lt hlt)
  next hle => exact iff_of_true rfl (Nat.le_of_not_lt hle)

/-- **One item.** -/
theorem push_listed {f : α → α} (g : α → β) {t t' : Table α n} (h : t.push f = some t') :
    ∃ hlt : t.count < n, t'.count = t.count + 1 ∧ t'.entries = t.entries.set t.count
        (f (t.entries[t.count])) hlt ∧ t'.listed g = t.listed g ++ [g (f (t.entries[t.count]))] := by
  unfold push at h
  split at h
  next hlt =>
    rw [Option.some.injEq] at h
    subst h
    refine ⟨hlt, rfl, rfl, ?_⟩
    have hlen : t.count < t.entries.toList.length := by
      rw [Vector.length_toList]
      exact hlt
    rw [listed, Vector.toList_set, List.take_add_one, List.take_set_of_le (Nat.le_refl _),
      List.getElem?_set_self hlen, List.map_append]
    rfl
  next => exact absurd h (Option.some_ne_none _).symm

/-- One item that does not depend on what was there. -/
theorem push_eq_some {f : α → α} {g : α → β} {b : β} {t t' : Table α n} (hf : ∀ a, g (f a) = b)
    (h : t.push f = some t') :
    t.count < n ∧ t'.count = t.count + 1 ∧ t'.listed g = t.listed g ++ [b] := by
  obtain ⟨hlt, hcount, -, hlisted⟩ := push_listed g h
  refine ⟨hlt, hcount, ?_⟩
  rw [hlisted, hf]

/-- **One item after the other**: there is room for all, or some push goes wrong. -/
theorem foldlM_push {f : ι → α → α} {g : α → β} {v : ι → β} (hf : ∀ i a, g (f i a) = v i)
    (is : List ι) : ∀ {t : Table α n}, t.count ≤ n →
      (t.count + is.length ≤ n ∧ ∃ t', is.foldlM (fun t i => t.push (f i)) t = some t' ∧
          t'.count = t.count + is.length ∧ t'.listed g = t.listed g ++ is.map v) ∨
        (n < t.count + is.length ∧ is.foldlM (fun t i => t.push (f i)) t = none) := by
  induction is with
  | nil =>
    intro t ht
    exact Or.inl ⟨ht, t, rfl, rfl, by rw [List.map_nil, List.append_nil]⟩
  | cons i is ih =>
    intro t ht
    rw [List.foldlM_cons, List.length_cons]
    cases hpush : t.push (f i) with
    | none =>
      have hfull := push_eq_none_iff.mp hpush
      exact Or.inr ⟨by omega, rfl⟩
    | some t₁ =>
      obtain ⟨hlt, hcount, hlisted⟩ := push_eq_some (hf i) hpush
      rcases ih (t := t₁) (by omega) with ⟨hroom, t', ht', hcount', hlisted'⟩ | ⟨hfull, hnone⟩
      · refine Or.inl ⟨by omega, t', ht', by omega, ?_⟩
        rw [hlisted', hlisted, List.append_assoc, List.map_cons, List.singleton_append]
      · exact Or.inr ⟨by omega, hnone⟩

/-! ## What is behind the entries in use -/

/-- The entries that are not in use are all `a`. -/
def Fresh (a : α) (t : Table α n) : Prop := ∀ i, t.count ≤ i → ∀ h : i < n, t.entries[i] = a

/-- A table that is all initial is fresh. -/
theorem fresh_replicate (a : α) : (⟨0, Vector.replicate n a⟩ : Table α n).Fresh a := by
  intro i _ h
  exact Vector.getElem_replicate h

/-- **One item** into an entry that has not been in use. -/
theorem Fresh.push {a : α} {f : α → α} (g : α → β) {t t' : Table α n} (ht : t.Fresh a)
    (h : t.push f = some t') : t'.Fresh a ∧ t'.listed g = t.listed g ++ [g (f a)] := by
  obtain ⟨hlt, hcount, hentries, hlisted⟩ := push_listed g h
  constructor
  · intro i hi hin
    have hbehind : t.count ≠ i := by omega
    show t'.entries[i] = a
    simp only [hentries]
    rw [Vector.getElem_set_ne hlt hin hbehind]
    exact ht i (by omega) hin
  · rw [hlisted, ht t.count (Nat.le_refl _) hlt]

/-- **One item after the other** into entries that have not been in use. -/
theorem Fresh.foldlM_push {a : α} {f : ι → α → α} (g : α → β) (is : List ι) :
    ∀ {t t' : Table α n}, t.Fresh a → is.foldlM (fun t i => t.push (f i)) t = some t' →
      t'.listed g = t.listed g ++ is.map fun i => g (f i a) := by
  induction is with
  | nil =>
    intro t t' _ h
    obtain rfl := Option.some.inj h
    rw [List.map_nil, List.append_nil]
  | cons i is ih =>
    intro t t' ht h
    rw [List.foldlM_cons] at h
    obtain ⟨t₁, hpush, hrest⟩ := Option.bind_eq_some_iff.mp h
    obtain ⟨ht₁, hlisted⟩ := ht.push g hpush
    rw [ih ht₁ hrest, hlisted, List.append_assoc, List.map_cons, List.singleton_append]

end Table

end Nxdb.Lib
