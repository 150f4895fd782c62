/-
  Loops that erase from the array they run over.

  An array is the list of its live elements.  `eraseIdx i` moves everything behind position `i` down
  by one, so a loop that goes on to position `i + 1` afterwards never visits the element that has
  moved into position `i`.

  `rangeFor` is the loop with the number of rounds fixed when it starts (an end iterator taken once):
  it visits every element and ends well if no element but the last is erased (`rangeFor_visits_all`),
  and otherwise it reads behind the last live element (`rangeFor_skips`).  `indexFor` is the loop that
  asks for the size in every round: it is `sweep`, which spares an element directly behind one it has
  just taken (`indexFor_eq`), so it leaves what is not dead if and only if no two dead elements are
  neighbours (`sweep_eq_filter_iff`).
-/
import Mathlib.Data.List.Basic
import Mathlib.Data.List.Chain
import Mathlib.Data.List.Induction
import Mathlib.Data.List.Perm.Basic

namespace Nxdb.Lib

variable {α : Type}

/-! ## The end taken once -/

/-- `n` more rounds from position `i` on.  In a round `f` is applied to the element at the position,
    which it may change, and tells whether to erase it.  First the elements `f` was applied to, then
    the array, `none` when the loop reads behind the last live element. -/
def rangeFor (f : α → α × Bool) : Nat → Nat → List α → List α × Option (List α)
  | 0, _, xs => ([], some xs)
  | n + 1, i, xs =>
    match xs[i]? with
    | none => ([], none)
    | some x =>
      let xs := xs.set i (f x).1
      let rest := rangeFor f n (i + 1) (if (f x).2 then xs.eraseIdx i else xs)
      (x :: rest.1, rest.2)

variable {f : α → α × Bool}

/-- Erasing at an index that is given by what stands before it. -/
theorem eraseIdx_middle (pre rest : List α) (x : α) :
    (pre ++ x :: rest).eraseIdx pre.length = pre ++ rest := by
  rw [List.eraseIdx_append_of_length_le (Nat.le_refl _), Nat.sub_self, List.eraseIdx_cons_zero]

/-- A round at an element that stays. -/
theorem rangeFor_keep {n : Nat} {pre rest : List α} {x : α} (h : (f x).2 = false) :
    rangeFor f (n + 1) pre.length (pre ++ x :: rest) =
      (x :: (rangeFor f n (pre ++ [(f x).1]).length ((pre ++ [(f x).1]) ++ rest)).1,
        (rangeFor f n (pre ++ [(f x).1]).length ((pre ++ [(f x).1]) ++ rest)).2) := by
  have hget : (pre ++ x :: rest)[pre.length]? = some x := by simp
  have hset : (pre ++ x :: rest).set pre.length (f x).1 = (pre ++ [(f x).1]) ++ rest := by simp
  rw [rangeFor, hget]
  simp only [h, Bool.false_eq_true, if_false, hset, List.length_append, List.length_singleton]

/-- A round at an element that is erased. -/
theorem rangeFor_erase {n : Nat} {pre rest : List α} {x : α} (h : (f x).2 = true) :
    rangeFor f (n + 1) pre.length (pre ++ x :: rest) =
      (x :: (rangeFor f n (pre.length + 1) (pre ++ rest)).1,
        (rangeFor f n (pre.length + 1) (pre ++ rest)).2) := by
  have hget : (pre ++ x :: rest)[pre.length]? = some x := by simp
  have herase : ((pre ++ x :: rest).set pre.length (f x).1).eraseIdx pre.length = pre ++ rest := by
    rw [List.set_append_right (h := Nat.le_refl _), Nat.sub_self, List.set_cons_zero,
      eraseIdx_middle]
  rw [rangeFor, hget]
  simp only [h, if_true, herase]

/-- With nothing left to read, a round goes wrong. -/
theorem rangeFor_overrun {n i : Nat} {xs : List α} (h : xs.length ≤ i) :
    rangeFor f (n + 1) i xs = ([], none) := by
  rw [rangeFor, List.getElem?_eq_none h]

/-- **Only the last may go.**  If no element but the last is erased, each is visited, and what is
    left is what was not erased, as `f` left it. -/
theorem rangeFor_visits_all :
    ∀ (xs pre : List α), (∀ x ∈ xs.dropLast, (f x).2 = false) →
      rangeFor f xs.length pre.length (pre ++ xs) =
        (xs, some (pre ++ (xs.filter fun x => !(f x).2).map fun x => (f x).1)) := by
  intro xs
  induction xs with
  | nil =>
    intro pre _
    simp [rangeFor]
  | cons x rest ih =>
    intro pre hdrop
    cases hx : (f x).2 with
    | false =>
      have hrest : ∀ y ∈ rest.dropLast, (f y).2 = false := by
        intro y hy
        cases rest with
        | nil => exact absurd hy (by simp)
        | cons z rest => exact hdrop y (List.mem_cons_of_mem _ hy)
      rw [List.length_cons, rangeFor_keep hx, ih _ hrest]
      simp [hx]
    | true =>
      -- an element that is erased is the last one
      cases rest with
      | nil =>
        rw [List.length_singleton, rangeFor_erase hx]
        simp [rangeFor, hx]
      | cons y rest =>
        have := hdrop x (by simp)
        rw [hx] at this
        exact absurd this (by simp)

/-- **A round too many.**  With more rounds to go than elements left to visit, the loop goes wrong,
    and it visits no more than those elements. -/
theorem rangeFor_too_many :
    ∀ (n : Nat) (pre xs : List α), xs.length < n →
      (rangeFor f n pre.length (pre ++ xs)).1.length ≤ xs.length ∧
        (rangeFor f n pre.length (pre ++ xs)).2 = none := by
  intro n
  induction n with
  | zero =>
    intro pre xs h
    exact absurd h (Nat.not_lt_zero _)
  | succ n ih =>
    intro pre xs h
    cases xs with
    | nil =>
      rw [rangeFor_overrun (by simp)]
      exact ⟨Nat.le_refl _, rfl⟩
    | cons x rest =>
      rw [List.length_cons] at h
      cases hx : (f x).2 with
      | false =>
        obtain ⟨hlen, hnone⟩ := ih (pre ++ [(f x).1]) rest (by omega)
        rw [rangeFor_keep hx]
        exact ⟨Nat.succ_le_succ hlen, hnone⟩
      | true =>
        rw [rangeFor_erase hx]
        -- the element behind the erased one has moved into its place, and the loop has gone on
        cases rest with
        | nil =>
          rw [List.append_nil]
          cases n with
          | zero => exact absurd h (by simp)
          | succ n =>
            rw [rangeFor_overrun (by omega)]
            exact ⟨Nat.le_refl _, rfl⟩
        | cons y rest =>
          rw [List.length_cons] at h
          obtain ⟨hlen, hnone⟩ := ih (pre ++ [y]) rest (by omega)
          rw [List.length_append, List.length_singleton, List.append_assoc,
            List.singleton_append] at hlen hnone
          refine ⟨?_, hnone⟩
          rw [List.length_cons, List.length_cons, List.length_cons]
          omega

/-- **An element that is not the last goes.**  Then some element is not visited, and the loop reads
    behind the last live one. -/
theorem rangeFor_skips :
    ∀ (xs pre : List α), (∃ x ∈ xs.dropLast, (f x).2 = true) →
      (rangeFor f xs.length pre.length (pre ++ xs)).1.length < xs.length ∧
        (rangeFor f xs.length pre.length (pre ++ xs)).2 = none := by
  intro xs
  induction xs with
  | nil =>
    rintro pre ⟨x, hx, -⟩
    exact absurd hx (by simp)
  | cons x rest ih =>
    rintro pre ⟨z, hz, hgone⟩
    cases rest with
    | nil => exact absurd hz (by simp)
    | cons y rest =>
      cases hx : (f x).2 with
      | false =>
        rw [List.dropLast_cons_cons, List.mem_cons] at hz
        rcases hz with rfl | hz
        · rw [hx] at hgone
          exact absurd hgone (by simp)
        · obtain ⟨hlen, hnone⟩ := ih (pre ++ [(f x).1]) ⟨z, hz, hgone⟩
          rw [List.length_cons, rangeFor_keep hx]
          exact ⟨Nat.succ_lt_succ hlen, hnone⟩
      | true =>
        obtain ⟨hlen, hnone⟩ := rangeFor_too_many (f := f) (y :: rest).length (pre ++ [y]) rest
          (Nat.lt_succ_self _)
        rw [List.length_append, List.length_singleton, List.append_assoc,
          List.singleton_append] at hlen hnone
        rw [List.length_cons, rangeFor_erase hx]
        refine ⟨?_, hnone⟩
        simp only [List.length_cons] at hlen ⊢
        omega

/-- **Nothing is made up.**  What `f` does not change of the elements is, behind the loop, that of
    some of them, in their order. -/
theorem rangeFor_sublist {β : Type} {g : α → β} (hg : ∀ x, g (f x).1 = g x) :
    ∀ (n i : Nat) {xs ys : List α}, (rangeFor f n i xs).2 = some ys → (ys.map g).Sublist (xs.map g) := by
  intro n
  induction n with
  | zero =>
    intro i xs ys h
    rw [rangeFor, Option.some.injEq] at h
    exact h ▸ List.Sublist.refl _
  | succ n ih =>
    intro i xs ys h
    rw [rangeFor] at h
    split at h
    next => exact absurd h (Option.some_ne_none ys).symm
    next x hx =>
      have hset : (xs.set i (f x).1).map g = xs.map g := by
        rw [List.map_set, hg]
        obtain ⟨hi, rfl⟩ := List.getElem?_eq_some_iff.mp hx
        rw [← List.getElem_map g (h := by rwa [List.length_map])]
        exact List.set_getElem_self _
      refine (ih (i + 1) h).trans ?_
      split
      · rw [← hset]
        exact (List.eraseIdx_sublist _ i).map g
      · rw [hset]

/-! ## The size asked for in every round -/

/-- Rounds from position `i` on, as long as the position is below the size (`fuel` rounds at most).
    An element that `p` says is dead is erased.  First the elements erased, then the array. -/
def indexFor (p : α → Bool) : Nat → Nat → List α → List α × List α
  | 0, _, xs => ([], xs)
  | fuel + 1, i, xs =>
    match xs[i]? with
    | none => ([], xs)
    | some x =>
      if p x then
        let rest := indexFor p fuel (i + 1) (xs.eraseIdx i)
        (x :: rest.1, rest.2)
      else indexFor p fuel (i + 1) xs

/-- The loop on the elements it has not come to, `spare` when it has just erased the one before:
    those it erases. -/
def sweepDead (p : α → Bool) : Bool → List α → List α
  | _, [] => []
  | true, _ :: rest => sweepDead p false rest
  | false, x :: rest => if p x then x :: sweepDead p true rest else sweepDead p false rest

/-- Those it leaves. -/
def sweep (p : α → Bool) : Bool → List α → List α
  | _, [] => []
  | true, x :: rest => x :: sweep p false rest
  | false, x :: rest => if p x then sweep p true rest else x :: sweep p false rest

variable {p : α → Bool}

/-- **The loop is the sweep.**  As many rounds as there are elements are enough. -/
theorem indexFor_eq_sweep :
    ∀ (fuel : Nat) (pre xs : List α), xs.length ≤ fuel →
      indexFor p fuel pre.length (pre ++ xs) = (sweepDead p false xs, pre ++ sweep p false xs) := by
  intro fuel
  induction fuel with
  | zero =>
    intro pre xs h
    have hnil : xs = [] := List.length_eq_zero_iff.mp (Nat.le_zero.mp h)
    subst hnil
    rfl
  | succ fuel ih =>
    intro pre xs h
    cases xs with
    | nil =>
      rw [indexFor, List.getElem?_eq_none (by simp)]
      rfl
    | cons x rest =>
      have hget : (pre ++ x :: rest)[pre.length]? = some x := by simp
      rw [List.length_cons] at h
      rw [indexFor, hget]
      cases hx : p x with
      | false =>
        have hih := ih (pre ++ [x]) rest (by omega)
        rw [List.length_append, List.length_singleton, List.append_assoc, List.append_assoc,
          List.singleton_append, List.singleton_append] at hih
        simp only [hx, Bool.false_eq_true, if_false, sweepDead, sweep, hih]
      | true =>
        simp only [hx, if_true, sweepDead, sweep, eraseIdx_middle]
        -- what was behind the erased element is spared
        cases rest with
        | nil =>
          rw [List.append_nil]
          cases fuel with
          | zero => simp [indexFor, sweepDead, sweep]
          | succ fuel =>
            rw [indexFor, List.getElem?_eq_none (by omega)]
            simp [sweepDead, sweep]
        | cons y rest =>
          rw [List.length_cons] at h
          have hih := ih (pre ++ [y]) rest (by omega)
          rw [List.length_append, List.length_singleton, List.append_assoc, List.append_assoc,
            List.singleton_append, List.singleton_append] at hih
          rw [hih]
          rfl

/-- The loop from the front. -/
theorem indexFor_eq (xs : List α) :
    indexFor p xs.length 0 xs = (sweepDead p false xs, sweep p false xs) := by
  have h := indexFor_eq_sweep (p := p) xs.length [] xs (Nat.le_refl _)
  rwa [List.length_nil, List.nil_append, List.nil_append] at h

/-- An element that is not dead stays. -/
theorem sweep_cons_alive {x : α} (h : p x = false) (b : Bool) (xs : List α) :
    sweepDead p b (x :: xs) = sweepDead p false xs ∧ sweep p b (x :: xs) = x :: sweep p false xs := by
  cases b with
  | true => exact ⟨rfl, rfl⟩
  | false => simp [sweepDead, sweep, h]

/-- A dead element goes. -/
theorem sweep_cons_dead {x : α} (h : p x = true) (xs : List α) :
    sweepDead p false (x :: xs) = x :: sweepDead p true xs ∧
      sweep p false (x :: xs) = sweep p true xs := by
  simp [sweepDead, sweep, h]

/-- Every element is erased or left. -/
theorem sweep_perm (xs : List α) : ∀ b, (sweepDead p b xs ++ sweep p b xs).Perm xs := by
  induction xs with
  | nil =>
    intro b
    cases b with
    | true => exact List.Perm.refl _
    | false => exact List.Perm.refl _
  | cons x xs ih =>
    intro b
    cases b with
    | true => exact List.perm_middle.trans ((ih false).cons x)
    | false =>
      rw [sweepDead, sweep]
      split
      · exact (ih true).cons x
      · exact List.perm_middle.trans ((ih false).cons x)

/-- What is erased is dead. -/
theorem dead_of_mem_sweepDead {x : α} (xs : List α) : ∀ b, x ∈ sweepDead p b xs → p x = true := by
  induction xs with
  | nil =>
    intro b h
    cases b with
    | true => exact absurd h List.not_mem_nil
    | false => exact absurd h List.not_mem_nil
  | cons y ys ih =>
    intro b h
    cases b with
    | true => exact ih false h
    | false =>
      rw [sweepDead] at h
      split at h
      next hy =>
        rcases List.mem_cons.mp h with rfl | h
        · exact hy
        · exact ih true h
      next => exact ih false h

/-- What is left was there. -/
theorem mem_of_mem_sweep {x : α} {xs : List α} {b : Bool} (h : x ∈ sweep p b xs) : x ∈ xs :=
  (sweep_perm xs b).mem_iff.mp (List.mem_append_right _ h)

/-- What is not dead is left. -/
theorem mem_sweep_of_alive {x : α} {xs : List α} (h : x ∈ xs) (hx : p x = false) (b : Bool) :
    x ∈ sweep p b xs := by
  rcases List.mem_append.mp ((sweep_perm xs b).mem_iff.mpr h) with hdead | hleft
  · have htrue : p x = true := dead_of_mem_sweepDead xs b hdead
    rw [htrue] at hx
    exact Bool.noConfusion hx
  · exact hleft

/-- What is left is what was not erased, where the elements have different keys. -/
theorem sweep_eq_filter_key {β : Type} [DecidableEq β] (g : α → β) {xs : List α} :
    (xs.map g).Nodup → ∀ b, sweep p b xs =
      xs.filter fun x => decide (g x ∉ (sweepDead p b xs).map g) := by
  induction xs with
  | nil =>
    intro _ b
    cases b with
    | true => rfl
    | false => rfl
  | cons x xs ih =>
    intro hnodup b
    obtain ⟨hx, hxs⟩ := List.nodup_cons.mp hnodup
    -- the head is kept under either flag, and no later element has its key
    have hout : ∀ b, g x ∉ (sweepDead p b xs).map g := by
      intro b h
      obtain ⟨y, hy, heq⟩ := List.mem_map.mp h
      have hmem : y ∈ xs := (sweep_perm xs b).mem_iff.mp (List.mem_append_left _ hy)
      exact hx (heq ▸ List.mem_map_of_mem hmem)
    have hstays : ∀ b, x :: sweep p b xs =
        (x :: xs).filter fun y => decide (g y ∉ (sweepDead p b xs).map g) := by
      intro b
      have hkeep : decide (g x ∉ (sweepDead p b xs).map g) = true := decide_eq_true (hout b)
      rw [List.filter_cons, if_pos hkeep, ← ih hxs b]
    cases b with
    | true => exact hstays false
    | false =>
      cases hp : p x with
      | false =>
        obtain ⟨hdead, hleft⟩ := sweep_cons_alive hp false xs
        rw [hdead, hleft]
        exact hstays false
      | true =>
        obtain ⟨hdead, hleft⟩ := sweep_cons_dead hp xs
        have hgone : ¬decide (g x ∉ (x :: sweepDead p true xs).map g) = true := by simp
        rw [hdead, hleft, List.filter_cons, if_neg hgone, ih hxs true]
        refine List.filter_congr fun y hy => ?_
        have hne : g y ≠ g x := fun heq => hx (heq ▸ List.mem_map_of_mem hy)
        simp [hne]

/-- **What is dead comes closer.**  A dead element is erased, or comes to stand further in front. -/
theorem sweep_closer {x : α} (hx : p x = true) (xs : List α) : ∀ i : Nat, xs[i]? = some x →
    (x ∈ sweepDead p false xs ∨ ∃ j : Nat, j < i ∧ (sweep p false xs)[j]? = some x) ∧
      (x ∈ sweepDead p true xs ∨ ∃ j : Nat, j ≤ i ∧ (sweep p true xs)[j]? = some x) := by
  induction xs with
  | nil => exact fun i h => absurd h (by simp)
  | cons y ys ih =>
    intro i h
    cases i with
    | zero =>
      obtain rfl : y = x := Option.some.inj h
      refine ⟨Or.inl ?_, Or.inr ⟨0, Nat.le_refl 0, rfl⟩⟩
      rw [(sweep_cons_dead hx ys).1]
      exact List.mem_cons_self
    | succ i =>
      obtain ⟨hfalse, htrue⟩ := ih i h
      -- where the head stays, the rest is swept without the flag
      have hstays : x ∈ sweepDead p false ys ∨
          ∃ j : Nat, j < i + 1 ∧ (y :: sweep p false ys)[j]? = some x := by
        refine hfalse.imp_right ?_
        rintro ⟨j, hj, hget⟩
        exact ⟨j + 1, Nat.succ_lt_succ hj, hget⟩
      constructor
      · cases hy : p y with
        | false =>
          obtain ⟨hdead, hleft⟩ := sweep_cons_alive hy false ys
          rw [hdead, hleft]
          exact hstays
        | true =>
          obtain ⟨hdead, hleft⟩ := sweep_cons_dead hy ys
          rw [hdead, hleft]
          rcases htrue with hmem | ⟨j, hj, hget⟩
          · exact Or.inl (List.mem_cons_of_mem y hmem)
          · exact Or.inr ⟨j, Nat.lt_succ_of_le hj, hget⟩
      · rcases hstays with hmem | ⟨j, hj, hget⟩
        · exact Or.inl hmem
        · exact Or.inr ⟨j, Nat.le_of_lt hj, hget⟩

/-! ### What is spared

  In a row of dead elements every second one is spared.  So what becomes of an element depends on
  what stands before it only through one bit (`sparing`). -/

/-- Whether the loop has just erased an element when it has come through `pre`: an odd number of dead
    elements in a row lies behind it. -/
def sparing (p : α → Bool) (pre : List α) : Bool :=
  decide ((pre.reverse.takeWhile p).length % 2 = 1)

/-- Whether the next element is spared turns with every flagged one, and an unflagged one ends
    it. -/
theorem sparing_append (pre : List α) (x : α) :
    sparing p (pre ++ [x]) = (p x && !sparing p pre) := by
  rw [sparing, List.reverse_append, List.reverse_singleton, List.singleton_append]
  cases hx : p x with
  | true =>
    rw [List.takeWhile_cons_of_pos hx, List.length_cons, Bool.true_and, sparing]
    rcases Nat.mod_two_eq_zero_or_one (pre.reverse.takeWhile p).length with h | h
    · simp [h, Nat.add_mod]
    · simp [h, Nat.add_mod]
  | false =>
    rw [List.takeWhile_cons_of_neg (by simp [hx])]
    rfl

/-- One element, and then the others. -/
theorem sweep_cons (b : Bool) (x : α) (xs : List α) :
    sweepDead p b (x :: xs) = sweepDead p b [x] ++ sweepDead p (p x && !b) xs ∧
      sweep p b (x :: xs) = sweep p b [x] ++ sweep p (p x && !b) xs := by
  cases b with
  | true => simp [sweepDead, sweep]
  | false =>
    cases hx : p x with
    | true => simp [sweepDead, sweep, hx]
    | false => simp [sweepDead, sweep, hx]

/-- The loop through a list in two parts. -/
theorem sweep_append (pre : List α) : ∀ xs : List α,
    sweepDead p false (pre ++ xs) =
        sweepDead p false pre ++ sweepDead p (sparing p pre) xs ∧
      sweep p false (pre ++ xs) = sweep p false pre ++ sweep p (sparing p pre) xs := by
  induction pre using List.reverseRecOn with
  | nil =>
    intro xs
    exact ⟨rfl, rfl⟩
  | append_singleton pre x ih =>
    intro xs
    obtain ⟨hdead, hleft⟩ := ih (x :: xs)
    obtain ⟨hdead₁, hleft₁⟩ := ih [x]
    obtain ⟨hdead₂, hleft₂⟩ := sweep_cons (p := p) (sparing p pre) x xs
    rw [List.append_assoc, List.singleton_append, sparing_append]
    rw [hdead, hleft, hdead₁, hleft₁, hdead₂, hleft₂, List.append_assoc, List.append_assoc]
    exact ⟨rfl, rfl⟩

/-! ### When nothing is spared -/

/-- No dead element stands directly behind a dead one. -/
def NoNeighbours (p : α → Bool) (xs : List α) : Prop :=
  xs.IsChain fun x y => ¬(p x = true ∧ p y = true)

instance (xs : List α) : Decidable (NoNeighbours p xs) :=
  inferInstanceAs (Decidable (xs.IsChain fun x y => ¬(p x = true ∧ p y = true)))

/-- No two flagged neighbours, from the front. -/
theorem noNeighbours_cons {x : α} {xs : List α} :
    NoNeighbours p (x :: xs) ↔
      (p x = true → ∀ y ∈ xs.head?, p y = false) ∧ NoNeighbours p xs := by
  unfold NoNeighbours
  rw [List.isChain_cons]
  refine and_congr_left fun _ => ?_
  constructor
  · intro h hx y hy
    rw [← Bool.not_eq_true]
    exact fun hdead => h y hy ⟨hx, hdead⟩
  · rintro h y hy ⟨hx, hdead⟩
    rw [h hx y hy] at hdead
    exact Bool.noConfusion hdead

/-- **Nothing is spared.**  What is left is what is not dead, if and only if no two dead elements are
    neighbours, and the first is not dead where the one before it has just been erased. -/
theorem sweep_eq_filter_iff (xs : List α) : ∀ b, sweep p b xs = xs.filter (fun x => !p x) ↔
    NoNeighbours p xs ∧ (b = true → ∀ x ∈ xs.head?, p x = false) := by
  induction xs with
  | nil =>
    intro b
    have hnil : sweep p b [] = [] := by cases b <;> rfl
    rw [hnil]
    exact ⟨fun _ => ⟨.nil, fun _ x hx => absurd hx (by simp)⟩, fun _ => rfl⟩
  | cons x xs ih =>
    intro b
    rw [noNeighbours_cons, List.head?_cons]
    cases hx : p x with
    | false =>
      rw [(sweep_cons_alive hx b xs).2, List.filter_cons_of_pos (by simp [hx]), List.cons_inj_right,
        ih false]
      simp [hx]
    | true =>
      rw [List.filter_cons_of_neg (by simp [hx])]
      cases b with
      | true =>
        -- the dead element is spared, and the filter leaves it out
        constructor
        · intro h
          have hmem : x ∈ xs.filter fun x => !p x := h ▸ List.mem_cons_self
          have halive := (List.mem_filter.mp hmem).2
          rw [hx] at halive
          exact absurd halive (by simp)
        · rintro ⟨-, hhead⟩
          have halive := hhead rfl x rfl
          rw [hx] at halive
          exact Bool.noConfusion halive
      | false =>
        rw [(sweep_cons_dead hx xs).2, ih true]
        constructor
        · rintro ⟨hrest, hhead⟩
          exact ⟨⟨fun _ => hhead rfl, hrest⟩, fun h => Bool.noConfusion h⟩
        · rintro ⟨⟨hhead, hrest⟩, -⟩
          exact ⟨hrest, fun _ => hhead rfl⟩

/-- Then what is erased is what is dead. -/
theorem sweepDead_perm_filter {xs : List α} (h : sweep p false xs = xs.filter fun x => !p x) :
    (sweepDead p false xs).Perm (xs.filter p) := by
  have hperm := sweep_perm (p := p) xs false
  rw [h] at hperm
  have hsplit := List.filter_append_perm p xs
  exact (List.perm_append_right_iff _).mp (hperm.trans hsplit.symm)

end Nxdb.Lib
