/-
  Maximal runs of a list.

  The runs of `xs` between separators `p` are the pieces of `List.splitOnP` that are not empty:
  `runs`.  A loop that collects a run and hands it on when it meets a separator yields `closedRuns`,
  and is left with `openRun` at the end, the run no separator has ended.  Together they are the runs
  (`runs_eq`), so nothing is missed if and only if the list is empty or ends in a separator
  (`runs_eq_closedRuns_iff`, `openRun_eq_nil_iff`).
-/
import Mathlib.Data.List.Basic

namespace Nxdb.Lib

variable {α : Type} (p : α → Bool)

/-- The maximal runs of elements that are no separators. -/
def runs (xs : List α) : List (List α) := (xs.splitOnP p).filter fun r => !r.isEmpty

/-- The runs that a separator ends, `pending` being the beginning of the first one. -/
def closedRuns : List α → List α → List (List α)
  | _, [] => []
  | pending, x :: xs =>
    if p x then
      if pending.isEmpty then closedRuns [] xs else pending :: closedRuns [] xs
    else closedRuns (pending ++ [x]) xs

/-- The run that is still open at the end. -/
def openRun : List α → List α → List α
  | pending, [] => pending
  | pending, x :: xs => if p x then openRun [] xs else openRun (pending ++ [x]) xs

/-- The runs, `pending` being the beginning of the first one. -/
noncomputable def runsFrom (pending xs : List α) : List (List α) :=
  (xs.splitOnPPrepend p pending.reverse).filter fun r => !r.isEmpty

variable {p}

/-- With nothing pending the runs are those of the list. -/
theorem runsFrom_nil_pending (xs : List α) : runsFrom p [] xs = runs p xs := rfl

/-- What is pending at the end is the last run. -/
theorem runsFrom_nil (pending : List α) :
    runsFrom p pending [] = if pending.isEmpty then [] else [pending] := by
  cases pending with
  | nil => rfl
  | cons y ys => simp [runsFrom]

/-- A separator ends the run that is pending. -/
theorem runsFrom_cons_pos {x : α} (h : p x = true) (pending xs : List α) :
    runsFrom p pending (x :: xs) =
      (if pending.isEmpty then [] else [pending]) ++ runsFrom p [] xs := by
  rw [runsFrom, List.splitOnPPrepend_cons_pos h, List.reverse_reverse]
  cases pending with
  | nil => rfl
  | cons y ys => rfl

/-- Anything else is added to it. -/
theorem runsFrom_cons_neg {x : α} (h : p x = false) (pending xs : List α) :
    runsFrom p pending (x :: xs) = runsFrom p (pending ++ [x]) xs := by
  rw [runsFrom, List.splitOnPPrepend_cons_neg h, runsFrom, List.reverse_append,
    List.reverse_singleton, List.singleton_append]

/-- A separator parts the runs. -/
theorem runsFrom_append_sep {x : α} (hx : p x = true) (xs ys : List α) : ∀ pending : List α,
    runsFrom p pending (xs ++ x :: ys) = runsFrom p pending xs ++ runsFrom p [] ys := by
  induction xs with
  | nil =>
    intro pending
    rw [List.nil_append, runsFrom_cons_pos hx, runsFrom_nil]
  | cons z zs ih =>
    intro pending
    rw [List.cons_append]
    cases hz : p z with
    | true => rw [runsFrom_cons_pos hz, runsFrom_cons_pos hz, ih, List.append_assoc]
    | false => rw [runsFrom_cons_neg hz, runsFrom_cons_neg hz, ih]

/-- Without a separator all is one run. -/
theorem runsFrom_of_none {xs : List α} (h : ∀ x ∈ xs, p x = false) : ∀ pending : List α,
    runsFrom p pending xs = if (pending ++ xs).isEmpty then [] else [pending ++ xs] := by
  induction xs with
  | nil =>
    intro pending
    rw [runsFrom_nil, List.append_nil]
  | cons x xs ih =>
    intro pending
    rw [runsFrom_cons_neg (h x List.mem_cons_self), ih fun y hy => h y (List.mem_cons_of_mem _ hy),
      List.append_assoc, List.singleton_append]

/-- The closed runs and the open one are all. -/
theorem runsFrom_eq (xs : List α) : ∀ pending : List α,
    runsFrom p pending xs = closedRuns p pending xs ++
      if (openRun p pending xs).isEmpty then [] else [openRun p pending xs] := by
  induction xs with
  | nil =>
    intro pending
    rw [runsFrom_nil, closedRuns, openRun, List.nil_append]
  | cons x xs ih =>
    intro pending
    cases hx : p x with
    | true =>
      rw [runsFrom_cons_pos hx, ih, closedRuns, openRun, if_pos hx, if_pos hx]
      cases pending with
      | nil => rfl
      | cons y ys => rfl
    | false =>
      have hno : ¬p x = true := by simp [hx]
      rw [runsFrom_cons_neg hx, ih, closedRuns, openRun, if_neg hno, if_neg hno]

/-- The runs are those that a separator ends, and the one that is open at the end, if any. -/
theorem runs_eq (xs : List α) :
    runs p xs = closedRuns p [] xs ++
      if (openRun p [] xs).isEmpty then [] else [openRun p [] xs] := by
  rw [← runsFrom_nil_pending, runsFrom_eq]

/-- Every run is closed if and only if none is left open. -/
theorem length_runs_eq_iff (xs : List α) :
    (closedRuns p [] xs).length = (runs p xs).length ↔ openRun p [] xs = [] := by
  rw [runs_eq]
  cases h : openRun p [] xs with
  | nil => simp
  | cons y ys => simp

/-- If none is open at the end they are all ended by a separator. -/
theorem runs_of_openRun_nil {xs : List α} (h : openRun p [] xs = []) :
    runs p xs = closedRuns p [] xs := by
  rw [runs_eq, h]
  exact List.append_nil _

/-- The open run behind one more element. -/
theorem openRun_append (xs : List α) (x : α) : ∀ pending : List α,
    openRun p pending (xs ++ [x]) = if p x then [] else openRun p pending xs ++ [x] := by
  induction xs with
  | nil =>
    intro pending
    rfl
  | cons y ys ih =>
    intro pending
    rw [List.cons_append, openRun, openRun]
    split
    · exact ih []
    · exact ih _

/-- No run is left open if and only if the list is empty or ends in a separator. -/
theorem openRun_eq_nil_iff (xs : List α) :
    openRun p [] xs = [] ↔ ∀ x ∈ xs.getLast?, p x = true := by
  rcases List.eq_nil_or_concat xs with rfl | ⟨ys, x, rfl⟩
  · simp [openRun]
  · rw [List.concat_eq_append, openRun_append, List.getLast?_concat]
    cases hx : p x with
    | true => simp [hx]
    | false => simp [hx]

/-- A closed run lies in the list in one piece. -/
theorem isInfix_of_closed (xs : List α) : ∀ pending : List α,
    ∀ r ∈ closedRuns p pending xs, r <:+: pending ++ xs := by
  induction xs with
  | nil =>
    intro pending r hr
    exact absurd hr (List.not_mem_nil)
  | cons x xs ih =>
    intro pending r hr
    rw [closedRuns] at hr
    have hrest : ∀ r ∈ closedRuns p [] xs, r <:+: pending ++ x :: xs := by
      intro r hr
      have hsuf := List.suffix_append (pending ++ [x]) xs
      rw [List.append_assoc, List.singleton_append] at hsuf
      exact (ih [] r hr).trans hsuf.isInfix
    split at hr
    · split at hr
      · exact hrest r hr
      · rcases List.mem_cons.mp hr with rfl | hr
        · exact (List.prefix_append _ _).isInfix
        · exact hrest r hr
    · have h := ih _ r hr
      rwa [List.append_assoc, List.singleton_append] at h

/-- A closed run is not empty. -/
theorem closedRuns_ne_nil (xs : List α) : ∀ pending : List α,
    ∀ r ∈ closedRuns p pending xs, r ≠ [] := by
  induction xs with
  | nil =>
    intro pending r hr
    exact absurd hr (List.not_mem_nil)
  | cons x xs ih =>
    intro pending r hr
    rw [closedRuns] at hr
    split at hr
    · split at hr
      · exact ih [] r hr
      next hne =>
        rcases List.mem_cons.mp hr with rfl | hr
        · exact fun h => hne (by rw [h]; rfl)
        · exact ih [] r hr
    · exact ih _ r hr

/-- What is pending is the beginning of a run. -/
theorem exists_run_of_pending (xs : List α) : ∀ pending : List α, pending ≠ [] →
    ∃ r ∈ runsFrom p pending xs, pending <+: r := by
  induction xs with
  | nil =>
    intro pending hne
    refine ⟨pending, ?_, List.prefix_rfl⟩
    rw [runsFrom_nil, if_neg (by simpa using hne)]
    exact List.mem_singleton.mpr rfl
  | cons y ys ih =>
    intro pending hne
    cases hy : p y with
    | true =>
      refine ⟨pending, ?_, List.prefix_rfl⟩
      rw [runsFrom_cons_pos hy, if_neg (by simpa using hne)]
      exact List.mem_append_left _ (List.mem_singleton.mpr rfl)
    | false =>
      obtain ⟨r, hr, hpre⟩ := ih (pending ++ [y]) (by simp)
      exact ⟨r, by rwa [runsFrom_cons_neg hy], (List.prefix_append _ _).trans hpre⟩

/-- A bound on the length of every run bounds what is pending before the run is over. -/
theorem length_lt_of_runsFrom {n : Nat} {pending xs : List α} {x : α} (hx : p x = false)
    (h : ∀ r ∈ runsFrom p pending (x :: xs), r.length ≤ n) : pending.length < n := by
  rw [runsFrom_cons_neg hx] at h
  obtain ⟨r, hr, hpre⟩ := exists_run_of_pending xs (pending ++ [x]) (by simp)
  have hlen := hpre.length_le
  rw [List.length_append, List.length_singleton] at hlen
  exact Nat.lt_of_lt_of_le (Nat.lt_of_succ_le hlen) (h r hr)

end Nxdb.Lib
