/-
  Runs of a partial step function.

  A system is a step function `step : σ → ι → Option σ` on explicit states and inputs; `none` says
  that the input is not possible in the state.  `run` folds it over a list of inputs.

  Invariants go through `run_invariant` (one step lemma gives the whole run), the runs that empty a
  queue through `run_drain`, and statements about every step of a run through `Along`, which says
  that a step relation holds at each step.  The rule `along_iff` turns an equivalence between two
  step relations, proved under an invariant that the second one maintains, into an equivalence
  between runs; where they agree only in the long run, one direction is `Along.weaken` and the other
  `Along.of_not_doomed`.  `Throughout` is for steps that may go wrong: it speaks of the states and
  inputs before the steps, and of the last input as well, whether or not it is possible.
-/
import Mathlib.Data.List.Basic

namespace Nxdb.Lib

variable {σ ι : Type}

/-- The state after a list of inputs, `none` when some input is not possible. -/
def run (step : σ → ι → Option σ) : σ → List ι → Option σ
  | s, [] => some s
  | s, i :: is => (step s i).bind fun s' => run step s' is

variable {step : σ → ι → Option σ}

/-- No inputs, no change. -/
@[simp] theorem run_nil (s : σ) : run step s [] = some s := rfl

/-- A run of one more input at the front. -/
theorem run_cons {s t : σ} {i : ι} {is : List ι} :
    run step s (i :: is) = some t ↔ ∃ s', step s i = some s' ∧ run step s' is = some t := by
  rw [run, Option.bind_eq_some_iff]

/-- One run after the other. -/
theorem run_append (is js : List ι) : ∀ s : σ,
    run step s (is ++ js) = (run step s is).bind fun t => run step t js := by
  induction is with
  | nil => exact fun _ => rfl
  | cons i is ih =>
    intro s
    rw [List.cons_append, run, run, Option.bind_assoc]
    exact congrArg _ (funext ih)

/-- A run that is possible is possible up to every point. -/
theorem run_prefix {s t : σ} {is js : List ι} (h : run step s js = some t) (hpre : is <+: js) :
    ∃ s', run step s is = some s' := by
  obtain ⟨rest, rfl⟩ := hpre
  rw [run_append, Option.bind_eq_some_iff] at h
  obtain ⟨s', hs', -⟩ := h
  exact ⟨s', hs'⟩

/-- **Invariant rule.**  What one step preserves, a run preserves. -/
theorem run_invariant {Inv : σ → Prop} (hstep : ∀ s i s', Inv s → step s i = some s' → Inv s') :
    ∀ (is : List ι) {s t : σ}, Inv s → run step s is = some t → Inv t := by
  intro is
  induction is with
  | nil =>
    intro s t hs h
    rw [run_nil] at h
    exact Option.some.inj h ▸ hs
  | cons i is ih =>
    intro s t hs h
    obtain ⟨s', hi, ht⟩ := run_cons.mp h
    exact ih (hstep s i s' hs hi) ht

/-- The invariant rule for runs with inputs of one kind. -/
theorem run_invariant_of {Inv : σ → Prop} {Q : ι → Prop}
    (hstep : ∀ s i s', Q i → Inv s → step s i = some s' → Inv s') :
    ∀ (is : List ι) {s t : σ}, (∀ i ∈ is, Q i) → Inv s → run step s is = some t → Inv t := by
  intro is
  induction is with
  | nil =>
    intro s t _ hs h
    rw [run_nil] at h
    exact Option.some.inj h ▸ hs
  | cons i is ih =>
    intro s t hQ hs h
    obtain ⟨s', hi, ht⟩ := run_cons.mp h
    exact ih (fun j hj => hQ j (List.mem_cons_of_mem _ hj))
      (hstep s i s' (hQ i List.mem_cons_self) hs hi) ht

/-- What every step adds one to counts the inputs. -/
theorem run_counts (count : σ → Nat)
    (hstep : ∀ s i s', step s i = some s' → count s' = count s + 1) :
    ∀ (is : List ι) {s t : σ}, run step s is = some t → count t = count s + is.length := by
  intro is
  induction is with
  | nil =>
    intro s t h
    exact Option.some.inj h ▸ rfl
  | cons i is ih =>
    intro s t h
    obtain ⟨s', hi, ht⟩ := run_cons.mp h
    rw [ih ht, hstep s i s' hi, List.length_cons]
    omega

/-- **Deadline rule.**  If every step leads to what is wanted or brings it closer, and nothing undoes
    it, then more inputs than the distance lead to it, whatever they are. -/
theorem run_within {Near : Nat → σ → Prop} {Done : σ → Prop}
    (hstep : ∀ n s i s', Near n s → step s i = some s' → Done s' ∨ ∃ m, m < n ∧ Near m s')
    (hdone : ∀ s i s', Done s → step s i = some s' → Done s') :
    ∀ (is : List ι) {n : Nat} {s t : σ}, Near n s → run step s is = some t → n < is.length →
      Done t := by
  intro is
  induction is with
  | nil => exact fun _ _ hlen => absurd hlen (Nat.not_lt_zero _)
  | cons i is ih =>
    intro n s t hs h hlen
    obtain ⟨s', hi, ht⟩ := run_cons.mp h
    rcases hstep n s i s' hs hi with hthere | ⟨m, hm, hs'⟩
    · exact run_invariant hdone is hthere ht
    · exact ih hs' ht (Nat.lt_of_lt_of_le hm (Nat.le_of_lt_succ hlen))

/-- **Draining a queue.**  If an input takes the first element of a queue and leaves what the drained
    state is, then so many inputs as there are elements lead to the drained state. -/
theorem run_drain {π : Type} {queue : σ → List π} {drained : σ → σ} {i : ι}
    (hnil : ∀ s, queue s = [] → drained s = s)
    (hcons : ∀ s p rest, queue s = p :: rest →
      ∃ s', step s i = some s' ∧ queue s' = rest ∧ drained s' = drained s) :
    ∀ (ps : List π) (s : σ), queue s = ps →
      run step s (List.replicate ps.length i) = some (drained s) := by
  intro ps
  induction ps with
  | nil =>
    intro s hs
    rw [hnil s hs]
    rfl
  | cons p rest ih =>
    intro s hs
    obtain ⟨s', hstep, hrest, hsame⟩ := hcons s p rest hs
    exact run_cons.mpr ⟨s', hstep, hsame ▸ ih s' hrest⟩

/-! ## Statements about every step of a run

  `Along` is a conjunction over the steps; an equivalence of two relations along runs can be proved
  step by step, provided that the invariant that is used for it is kept by steps of the one. -/

/-- Every step of the run is possible and stands in the relation `P` to its input and result. -/
def Along (step : σ → ι → Option σ) (P : σ → ι → σ → Prop) : σ → List ι → Prop
  | _, [] => True
  | s, i :: is => ∃ s', step s i = some s' ∧ P s i s' ∧ Along step P s' is

instance Along.decidable {P : σ → ι → σ → Prop} [∀ s i s', Decidable (P s i s')] :
    ∀ (s : σ) (is : List ι), Decidable (Along step P s is)
  | _, [] => isTrue trivial
  | s, i :: is =>
    match h : step s i with
    | none => isFalse fun ⟨s', hi, _⟩ => Option.some_ne_none s' (hi.symm.trans h)
    | some s' =>
      have : Decidable (Along step P s' is) := Along.decidable s' is
      decidable_of_iff (P s i s' ∧ Along step P s' is)
        ⟨fun hp => ⟨s', h, hp⟩, fun ⟨_, hi, hp⟩ => Option.some.inj (hi.symm.trans h) ▸ hp⟩

/-- The last step of a run. -/
theorem Along.last {P : σ → ι → σ → Prop} {i : ι} :
    ∀ (is : List ι) {s : σ}, Along step P s (is ++ [i]) →
      ∃ s' t, run step s is = some s' ∧ run step s (is ++ [i]) = some t ∧ P s' i t := by
  intro is
  induction is with
  | nil =>
    rintro s ⟨t, hi, hp, -⟩
    exact ⟨s, t, rfl, run_cons.mpr ⟨t, hi, rfl⟩, hp⟩
  | cons j is ih =>
    rintro s ⟨s₁, hj, -, hrest⟩
    obtain ⟨s', t, hrun, hlast, hp⟩ := ih hrest
    exact ⟨s', t, run_cons.mpr ⟨s₁, hj, hrun⟩, run_cons.mpr ⟨s₁, hj, hlast⟩, hp⟩

/-- **Equivalence rule.**  If under an invariant the relations `P` and `Q` agree on every step, and
    a step in `Q` re-establishes the invariant, then runs along `P` are the runs along `Q`. -/
theorem along_iff {P Q : σ → ι → σ → Prop} (Inv : σ → List ι → Prop)
    (hiff : ∀ s i is s', Inv s (i :: is) → step s i = some s' → (P s i s' ↔ Q s i s'))
    (hstep : ∀ s i is s', Inv s (i :: is) → step s i = some s' → Q s i s' → Inv s' is) :
    ∀ (is : List ι) {s : σ}, Inv s is → (Along step P s is ↔ Along step Q s is) := by
  intro is
  induction is with
  | nil =>
    intro s _
    exact Iff.rfl
  | cons i is ih =>
    intro s hs
    constructor
    · rintro ⟨s', hi, hp, hrest⟩
      have hq := (hiff s i is s' hs hi).mp hp
      exact ⟨s', hi, hq, (ih (hstep s i is s' hs hi hq)).mp hrest⟩
    · rintro ⟨s', hi, hq, hrest⟩
      have hp := (hiff s i is s' hs hi).mpr hq
      exact ⟨s', hi, hp, (ih (hstep s i is s' hs hi hq)).mpr hrest⟩

/-- A run along `Q` ends in a state that the steps in `Q` keep invariant. -/
theorem Along.invariant {Q : σ → ι → σ → Prop} (Inv : σ → Prop)
    (hstep : ∀ s i s', Inv s → step s i = some s' → Q s i s' → Inv s') :
    ∀ (is : List ι) {s t : σ}, Inv s → Along step Q s is → run step s is = some t → Inv t := by
  intro is
  induction is with
  | nil =>
    intro s t hs _ h
    rw [run_nil] at h
    exact Option.some.inj h ▸ hs
  | cons i is ih =>
    rintro s t hs ⟨s', hi, hq, hrest⟩ h
    obtain ⟨s₁, hi₁, ht⟩ := run_cons.mp h
    have heq : s₁ = s' := Option.some.inj (hi₁.symm.trans hi)
    subst heq
    exact ih (hstep s i s₁ hs hi hq) hrest ht

/-- A run along `Q` is one along `P`, if under an invariant every step in `Q` is one in `P` and
    re-establishes the invariant. -/
theorem Along.weaken {P Q : σ → ι → σ → Prop} (Inv : σ → Prop)
    (hstep : ∀ s i s', Inv s → step s i = some s' → Q s i s' → P s i s' ∧ Inv s') :
    ∀ (is : List ι) {s : σ}, Inv s → Along step Q s is → Along step P s is := by
  intro is
  induction is with
  | nil =>
    intro s _ _
    trivial
  | cons i is ih =>
    rintro s hs ⟨s', hi, hq, hrest⟩
    obtain ⟨hp, hs'⟩ := hstep s i s' hs hi hq
    exact ⟨s', hi, hp, ih hs' hrest⟩

/-- A run that is possible, as one along nothing in particular. -/
theorem along_true {t : σ} : ∀ (is : List ι) {s : σ}, run step s is = some t →
    Along step (fun _ _ _ => True) s is := by
  intro is
  induction is with
  | nil =>
    intro s _
    trivial
  | cons i is ih =>
    intro s h
    obtain ⟨s', hi, hrest⟩ := run_cons.mp h
    exact ⟨s', hi, trivial, ih hrest⟩

/-- **Doom rule.**  If a step out of `Q` leaves a doomed state, and the steps in `P` do not get out of
    doom, then a run along `P` to a state that is not doomed is one along `Q`. -/
theorem Along.of_not_doomed {P Q : σ → ι → σ → Prop} (Inv Doomed : σ → Prop)
    (hin : ∀ s i s', Inv s → step s i = some s' → Q s i s' → Inv s')
    (hout : ∀ s i s', Inv s → step s i = some s' → P s i s' → ¬Q s i s' → Doomed s')
    (hdoomed : ∀ s i s', Doomed s → step s i = some s' → P s i s' → Doomed s') :
    ∀ (is : List ι) {s t : σ}, Inv s → Along step P s is → run step s is = some t → ¬Doomed t →
      Along step Q s is := by
  intro is
  induction is with
  | nil =>
    intro s t _ _ _ _
    trivial
  | cons i is ih =>
    rintro s t hs ⟨s', hi, hp, hrest⟩ h hsaved
    obtain ⟨s₁, hi₁, h⟩ := run_cons.mp h
    have heq : s₁ = s' := Option.some.inj (hi₁.symm.trans hi)
    subst heq
    by_cases hq : Q s i s₁
    · exact ⟨s₁, hi, hq, ih (hin s i s₁ hs hi hq) hrest h hsaved⟩
    · exact absurd (Along.invariant Doomed hdoomed is (hout s i s₁ hs hi hp hq) hrest h) hsaved

/-! ## Statements about every state a run reaches, and the input that comes there -/

/-- `P` holds of every state reached and the input that comes there, up to the first one that is not
    possible. -/
def Throughout (step : σ → ι → Option σ) (P : σ → ι → Prop) : σ → List ι → Prop
  | _, [] => True
  | s, i :: is => P s i ∧ ∀ s' ∈ step s i, Throughout step P s' is

instance Throughout.decidable {P : σ → ι → Prop} [∀ s i, Decidable (P s i)] :
    ∀ (s : σ) (is : List ι), Decidable (Throughout step P s is)
  | _, [] => isTrue trivial
  | s, i :: is =>
    match h : step s i with
    | none => decidable_of_iff (P s i)
        ⟨fun hp => ⟨hp, fun _ hs' => absurd (hs'.symm.trans h) (Option.some_ne_none _)⟩, And.left⟩
    | some s' =>
      have : Decidable (Throughout step P s' is) := Throughout.decidable s' is
      decidable_of_iff (P s i ∧ Throughout step P s' is)
        ⟨fun ⟨hp, hrest⟩ => ⟨hp, fun _ hs' => Option.some.inj (h.symm.trans hs') ▸ hrest⟩,
          fun ⟨hp, hrest⟩ => ⟨hp, hrest s' h⟩⟩

/-- **Equivalence rule.**  If `P` and `Q` agree under an invariant, they agree throughout. -/
theorem throughout_iff {P Q : σ → ι → Prop} (Inv : σ → Prop) (hiff : ∀ s i, Inv s → (P s i ↔ Q s i))
    (hstep : ∀ s i s', Inv s → step s i = some s' → Inv s') :
    ∀ (is : List ι) {s : σ}, Inv s → (Throughout step P s is ↔ Throughout step Q s is) := by
  intro is
  induction is with
  | nil =>
    intro s _
    exact Iff.rfl
  | cons i is ih =>
    intro s hs
    exact and_congr (hiff s i hs)
      (forall_congr' fun s' => forall_congr' fun hs' => ih (hstep s i s' hs hs'))

end Nxdb.Lib
