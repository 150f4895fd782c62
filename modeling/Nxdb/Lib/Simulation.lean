/-
  Simulations between two systems.

  A concrete system simulates an abstract one along a relation of their states when every concrete
  step is matched by a run of the abstract one, from a related state to a related state: by one step,
  by several, or by none.  What both systems let an observer see (`seen`, `seen'`) must be the same on
  both sides.  Then every run is matched by a run (`Simulates.run`).

  Where both systems are lists of components, the relation is `List.Forall₂` of one between the
  components; the last section has what it takes to look at, to change and to remove one of them.
-/
import Nxdb.Lib.Run
import Mathlib.Data.List.Forall2

namespace Nxdb.Lib

variable {σ τ ι κ ο : Type}

/-- Every step is matched by a run that is seen as the same. -/
structure Simulates (step : σ → ι → Option σ) (step' : τ → κ → Option τ) (seen : ι → List ο)
    (seen' : κ → List ο) (R : σ → τ → Prop) : Prop where
  step : ∀ s t i s', R s t → step s i = some s' →
    ∃ ks t', Lib.run step' t ks = some t' ∧ ks.flatMap seen' = seen i ∧ R s' t'

namespace Simulates

variable {step : σ → ι → Option σ} {step' : τ → κ → Option τ} {seen : ι → List ο}
  {seen' : κ → List ο} {R : σ → τ → Prop}

/-- **Every run is matched by a run.** -/
theorem run (h : Simulates step step' seen seen' R) :
    ∀ (is : List ι) {s s' : σ} {t : τ}, R s t → Lib.run step s is = some s' →
      ∃ ks t', Lib.run step' t ks = some t' ∧ ks.flatMap seen' = is.flatMap seen ∧ R s' t' := by
  intro is
  induction is with
  | nil =>
    intro s s' t hR hrun
    rw [run_nil] at hrun
    exact ⟨[], t, rfl, rfl, Option.some.inj hrun ▸ hR⟩
  | cons i is ih =>
    intro s s' t hR hrun
    obtain ⟨s₁, hstep, hrest⟩ := run_cons.mp hrun
    obtain ⟨ks, t₁, hks, hseen, hR₁⟩ := h.step s t i s₁ hR hstep
    obtain ⟨ls, t', hls, hseen', hR'⟩ := ih hR₁ hrest
    refine ⟨ks ++ ls, t', ?_, ?_, hR'⟩
    · rw [run_append, hks, Option.bind_some, hls]
    · rw [List.flatMap_append, List.flatMap_cons, hseen, hseen']

end Simulates

/-! ## Lists of components -/

section Components

variable {α β : Type} {R : α → β → Prop} {as : List α} {bs : List β}

/-- The components of an index are related. -/
theorem forall₂_getElem? (h : List.Forall₂ R as bs) {i : Nat} {a : α} (ha : as[i]? = some a) :
    ∃ b, bs[i]? = some b ∧ R a b := by
  obtain ⟨hi, rfl⟩ := List.getElem?_eq_some_iff.mp ha
  have hi' : i < bs.length := h.length_eq ▸ hi
  exact ⟨bs[i], List.getElem?_eq_getElem hi', h.get hi hi'⟩

/-- Changing both lists at an index keeps them related ... -/
theorem forall₂_set (h : List.Forall₂ R as bs) {a : α} {b : β} (hab : R a b) (i : Nat) :
    List.Forall₂ R (as.set i a) (bs.set i b) := by
  induction h generalizing i with
  | nil => exact List.Forall₂.nil
  | cons hd tl ih =>
    cases i with
    | zero => exact List.Forall₂.cons hab tl
    | succ i => exact List.Forall₂.cons hd (ih i)

/-- ... and so does erasing at one. -/
theorem forall₂_eraseIdx (h : List.Forall₂ R as bs) (i : Nat) :
    List.Forall₂ R (as.eraseIdx i) (bs.eraseIdx i) := by
  rw [List.eraseIdx_eq_take_drop_succ, List.eraseIdx_eq_take_drop_succ]
  exact List.rel_append (List.forall₂_take i h) (List.forall₂_drop (i + 1) h)

/-- Changing one component, with the others as they were. -/
theorem forall₂_set_left (h : List.Forall₂ R as bs) {i : Nat} {a : α} {b : β}
    (hb : bs[i]? = some b) (hab : R a b) : List.Forall₂ R (as.set i a) bs := by
  have hset := forall₂_set h hab i
  obtain ⟨hi, rfl⟩ := List.getElem?_eq_some_iff.mp hb
  rwa [List.set_getElem_self] at hset

end Components

end Nxdb.Lib
