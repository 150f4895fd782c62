/-
  A heap of cells with `new` and `delete`.

  A `Heap α` is a list of cells, no address twice.  The three things a program must not do with a
  pointer, read a deleted cell, write one and delete it a second time, are the `none` of `load`,
  `store` and `delete`; which address `new` hands out is up to an `Allocator`, and it may well be
  one that was deleted before.

  The assertion of this file is `Holds h l`: the heap consists of the cells `l` and of nothing else.
  A separating conjunction is then an append, and a frame is what stands behind it.

  `HeapReader` is the decoder of `Lib/Reader` with a heap beside it.  `Refines pre prog r post` says
  that `prog`, on a heap with the cells `pre` and whatever else, does what the plain decoder `r`
  does, also where that is `undefined`, and leaves the cells `post`; the rules below are one for
  each operation, one for `>>=`, one for the frame and one for a counted loop.
-/
import Nxdb.Lib.Reader
import Mathlib.Data.List.Perm.Basic
import Mathlib.Data.List.Nodup
import Mathlib.Algebra.Order.BigOperators.Group.List

namespace Nxdb.Lib

/-- The cells in use, by their addresses. -/
structure Heap (α : Type) where
  cells : List (Nat × α)
  nodup : (cells.map Prod.fst).Nodup

/-- Where the next cell goes: any address that is not in use. -/
structure Allocator where
  fresh : List Nat → Nat
  fresh_notMem : ∀ used, fresh used ∉ used

/-- The allocator that never uses an address below one in use. -/
def Allocator.above : Allocator where
  fresh used := used.sum + 1
  fresh_notMem used h := by
    have hle := List.single_le_sum (fun _ _ => Nat.zero_le _) _ h
    omega

namespace Heap

variable {α : Type}

/-- The heap before the first `new`. -/
def empty : Heap α := ⟨[], List.nodup_nil⟩

/-- The addresses in use. -/
def addresses (h : Heap α) : List Nat := h.cells.map Prod.fst

/-- `new`: a cell at an address that the allocator picks, none of those in use. -/
def new (A : Allocator) (v : α) (h : Heap α) : Nat × Heap α :=
  (A.fresh h.addresses, ⟨(A.fresh h.addresses, v) :: h.cells,
    List.nodup_cons.mpr ⟨A.fresh_notMem h.addresses, h.nodup⟩⟩)

/-- Reading at an address; `none` where no cell is. -/
def load (p : Nat) (h : Heap α) : Option α := h.cells.lookup p

/-- `delete`; `none` where no cell is, so a second `delete` is seen. -/
def delete (p : Nat) (h : Heap α) : Option (Heap α) :=
  if p ∈ h.addresses then
    some ⟨h.cells.filter fun c => c.1 ≠ p, h.nodup.sublist (List.filter_sublist.map _)⟩
  else none

/-- One cell with another value. -/
def write (p : Nat) (v : α) (c : Nat × α) : Nat × α := if c.1 = p then (p, v) else c

/-- Writing keeps every address ... -/
theorem write_fst (p : Nat) (v : α) (c : Nat × α) : (write p v c).1 = c.1 := by
  unfold write
  split
  · next h => exact h.symm
  · rfl

/-- ... and so the list of them. -/
theorem map_write_fst (p : Nat) (v : α) (cells : List (Nat × α)) :
    (cells.map (write p v)).map Prod.fst = cells.map Prod.fst := by
  rw [List.map_map]
  exact List.map_congr_left fun c _ => write_fst p v c

/-- Writing at an address; `none` where no cell is. -/
def store (p : Nat) (v : α) (h : Heap α) : Option (Heap α) :=
  if p ∈ h.addresses then
    some ⟨h.cells.map (write p v), by rw [map_write_fst]; exact h.nodup⟩
  else none

/-! ## What the heap consists of

  The cells are given as a list, in any order, and an operation that is allowed says what becomes of
  it. -/

/-- The heap consists of the cells `l`, in some order. -/
def Holds (h : Heap α) (l : List (Nat × α)) : Prop := h.cells.Perm l

/-- The empty heap holds nothing. -/
theorem holds_empty : (empty : Heap α).Holds [] := List.Perm.refl _

variable {h : Heap α} {l l' : List (Nat × α)} {p : Nat} {v w : α}

/-- What a heap holds has no order. -/
theorem Holds.perm (hh : h.Holds l) (hl : l.Perm l') : h.Holds l' := hh.trans hl

/-- The addresses of what is held are all different. -/
theorem Holds.nodup (hh : h.Holds l) : (l.map Prod.fst).Nodup :=
  (hh.map Prod.fst).nodup_iff.mp h.nodup

/-- As many cells as are held: nothing leaks. -/
theorem Holds.length (hh : h.Holds l) : h.cells.length = l.length := hh.length_eq

/-- The first cell is at none of the other addresses. -/
theorem Holds.head_notMem (hh : h.Holds ((p, v) :: l)) : p ∉ l.map Prod.fst :=
  (List.nodup_cons.mp hh.nodup).1

/-- What is held is there. -/
theorem Holds.mem_addresses (hh : h.Holds ((p, v) :: l)) : p ∈ h.addresses :=
  (hh.map Prod.fst).mem_iff.mpr List.mem_cons_self

/-- A cell that is not at `p` has another address. -/
theorem ne_of_notMem (hp : p ∉ l.map Prod.fst) {c : Nat × α} (hc : c ∈ l) : c.1 ≠ p :=
  fun heq => hp (heq ▸ List.mem_map_of_mem hc)

/-- **`new`** adds its cell to what is held. -/
theorem holds_new (A : Allocator) (hh : h.Holds l) :
    (h.new A v).2.Holds (((h.new A v).1, v) :: l) :=
  hh.cons _

/-- With no address twice, looking one up finds the cell that is there. -/
theorem lookup_eq_some {cells : List (Nat × α)} (hnd : (cells.map Prod.fst).Nodup)
    (hmem : (p, v) ∈ cells) : cells.lookup p = some v := by
  induction cells with
  | nil => exact absurd hmem List.not_mem_nil
  | cons c cs ih =>
    obtain ⟨hc, hcs⟩ := List.nodup_cons.mp hnd
    rcases List.mem_cons.mp hmem with rfl | htail
    · rw [List.lookup_cons_self]
    · have hne : p ≠ c.1 := (ne_of_notMem hc htail)
      rw [List.lookup_cons, beq_false_of_ne hne]
      exact ih hcs htail

/-- **Reading** what is held gives its value. -/
theorem Holds.load (hh : h.Holds l) (hmem : (p, v) ∈ l) : h.load p = some v :=
  lookup_eq_some h.nodup (hh.mem_iff.mpr hmem)

/-- **`delete`** takes its cell out of what is held, and leaves the rest. -/
theorem Holds.delete (hh : h.Holds ((p, v) :: l)) :
    ∃ h', h.delete p = some h' ∧ h'.Holds l := by
  refine ⟨_, if_pos hh.mem_addresses, ?_⟩
  have hrest : l.filter (fun c => c.1 ≠ p) = l := by
    rw [List.filter_eq_self]
    exact fun c hc => decide_eq_true (ne_of_notMem hh.head_notMem hc)
  have hfilter := List.Perm.filter (fun c : Nat × α => decide (c.1 ≠ p)) hh
  rw [List.filter_cons_of_neg (by simp), hrest] at hfilter
  exact hfilter

/-- **Writing** changes its cell and leaves the rest. -/
theorem Holds.store (hh : h.Holds ((p, v) :: l)) :
    ∃ h', h.store p w = some h' ∧ h'.Holds ((p, w) :: l) := by
  refine ⟨_, if_pos hh.mem_addresses, ?_⟩
  have hrest : l.map (write p w) = l := by
    conv_rhs => rw [← List.map_id l]
    exact List.map_congr_left fun c hc => if_neg (ne_of_notMem hh.head_notMem hc)
  have hmap := hh.map (write p w)
  rw [List.map_cons, hrest, write, if_pos rfl] at hmap
  exact hmap

end Heap

/-! ## Decoders with a heap -/

/-- A decoder that also works on a heap. -/
abbrev HeapReader (γ : Type) : Type → Type := StateT (Heap γ) Reader

namespace HeapReader

variable {γ α β δ ε : Type}

/-- A step on the heap alone; the cursor stays. -/
def onHeap (f : Heap γ → Option (α × Heap γ)) : HeapReader γ α :=
  fun h _ cur => (f h).map fun r => (r, cur)

/-- `new`: a cell that was not there. -/
def new (A : Allocator) (v : γ) : HeapReader γ Nat := onHeap fun h => some (h.new A v)

/-- A read through a pointer ... -/
def load (p : Nat) : HeapReader γ γ := onHeap fun h => (h.load p).map fun v => (v, h)

/-- ... a write ... -/
def store (p : Nat) (v : γ) : HeapReader γ Unit := onHeap fun h => (h.store p v).map fun h => ((), h)

/-- ... and `delete`. -/
def delete (p : Nat) : HeapReader γ Unit := onHeap fun h => (h.delete p).map fun h => ((), h)

/-- `for (T* p : ps) delete p;` -/
def deleteAll : List Nat → HeapReader γ Unit
  | [] => pure ()
  | p :: ps => do
    delete p
    deleteAll ps

/-- What the pointers point to, one after the other. -/
def loadAll : List Nat → HeapReader γ (List γ)
  | [] => pure []
  | p :: ps => do
    let v ← load p
    let vs ← loadAll ps
    return v :: vs

/-- The loop `for (i = start; i < start + n; i++)`, collecting what the body returns. -/
def collect (f : Nat → HeapReader γ α) : Nat → Nat → HeapReader γ (List α)
  | _, 0 => pure []
  | start, n + 1 => do
    let a ← f start
    let as ← collect f (start + 1) n
    return a :: as

/-- On a heap with the cells `pre`, whatever else is on it, `prog` does what `r` does: it is
    undefined where `r` is, else it reads the same bytes and leaves cells that `post` allows in the
    place of `pre`. -/
def Refines (pre : List (Nat × γ)) (prog : HeapReader γ α) (r : Reader β)
    (post : α → β → List (Nat × γ) → Prop) : Prop :=
  ∀ (h : Heap γ) (frame : List (Nat × γ)) (m : Mem) (cur : Nat), h.Holds (pre ++ frame) →
    (r m cur = none ∧ prog h m cur = none) ∨
      ∃ b cur' a h' cells, r m cur = some (b, cur') ∧ prog h m cur = some ((a, h'), cur') ∧
        post a b cells ∧ h'.Holds (cells ++ frame)

section Rules

variable {pre : List (Nat × γ)} {post : α → β → List (Nat × γ) → Prop}
  {prog : HeapReader γ α} {r : Reader β}

/-- A program that does nothing refines a function that does nothing. -/
theorem Refines.pure {a : α} {b : β} (h : post a b pre) :
    Refines pre (Pure.pure a) (Pure.pure b) post :=
  fun heap _ _ cur hh => Or.inr ⟨b, cur, a, heap, pre, rfl, rfl, h, hh⟩

/-- **Sequence rule**: what the first part leaves is what the second begins with. -/
theorem Refines.bind {f : α → HeapReader γ δ} {g : β → Reader ε}
    {last : δ → ε → List (Nat × γ) → Prop} (hp : Refines pre prog r post)
    (hf : ∀ a b cells, post a b cells → Refines cells (f a) (g b) last) :
    Refines pre (prog >>= f) (r >>= g) last := by
  intro heap frame m cur hh
  show (((r m cur).bind fun x => g x.1 m x.2) = none ∧
      ((prog heap m cur).bind fun x => f x.1.1 x.1.2 m x.2) = none) ∨
    ∃ b cur' a h' cells, ((r m cur).bind fun x => g x.1 m x.2) = some (b, cur') ∧
      ((prog heap m cur).bind fun x => f x.1.1 x.1.2 m x.2) = some ((a, h'), cur') ∧
      last a b cells ∧ h'.Holds (cells ++ frame)
  rcases hp heap frame m cur hh with ⟨hr, hprog⟩ | ⟨b, cur', a, h', cells, hr, hprog, hpost, hh'⟩
  · left
    rw [hr, hprog]
    exact ⟨rfl, rfl⟩
  · rw [hr, hprog, Option.bind_some, Option.bind_some]
    exact hf a b cells hpost h' frame m cur' hh'

/-- A step that only concerns the heap. -/
theorem Refines.seq {f : α → HeapReader γ δ} {g : Reader ε}
    {mid : α → List (Nat × γ) → Prop} {last : δ → ε → List (Nat × γ) → Prop}
    (hp : Refines pre prog (Pure.pure () : Reader Unit) fun a _ => mid a)
    (hf : ∀ a cells, mid a cells → Refines cells (f a) g last) :
    Refines pre (prog >>= f) g last :=
  Refines.bind (g := fun _ => g) hp fun a _ cells h => hf a cells h

/-- The same after what reads. -/
theorem Refines.after {f : α → HeapReader γ δ} {last : δ → β → List (Nat × γ) → Prop}
    (hp : Refines pre prog r post)
    (hf : ∀ a b cells, post a b cells →
      Refines cells (f a) (Pure.pure () : Reader Unit) fun d _ => last d b) :
    Refines pre (prog >>= f) r last := by
  -- the plain decoder, with a last step that does nothing
  have hsame : (r >>= fun b => (Pure.pure b : Reader β)) = r := by
    funext m cur
    show ((r m cur).bind fun x => some (x.1, x.2)) = r m cur
    exact Option.bind_fun_some _
  rw [← hsame]
  refine Refines.bind hp fun a b cells hpost => ?_
  intro heap frame m cur hh
  rcases hf a b cells hpost heap frame m cur hh with ⟨hr, -⟩ | ⟨_, cur', d, h', left, hr, hprog⟩
  · exact absurd hr (Option.some_ne_none _)
  · obtain rfl : cur = cur' := congrArg Prod.snd (Option.some.inj hr)
    exact Or.inr ⟨b, cur, d, h', left, rfl, hprog⟩

/-- A step that only reads. -/
theorem Refines.read (r : Reader α) :
    Refines pre (liftM r : HeapReader γ α) r fun a b cells => a = b ∧ cells = pre := by
  intro heap frame m cur hh
  cases hr : r m cur with
  | none =>
    left
    refine ⟨rfl, ?_⟩
    show ((r m cur).bind fun x => some ((x.1, heap), x.2)) = none
    rw [hr, Option.bind_none]
  | some x =>
    obtain ⟨b, cur'⟩ := x
    refine Or.inr ⟨b, cur', b, heap, pre, rfl, ?_, ⟨rfl, rfl⟩, hh⟩
    show ((r m cur).bind fun x => some ((x.1, heap), x.2)) = some ((b, heap), cur')
    rw [hr, Option.bind_some]

/-- Where the function is undefined, every program refines it. -/
theorem Refines.undefined :
    Refines pre (liftM (Reader.undefined : Reader α) : HeapReader γ α) (Reader.undefined : Reader β)
      post :=
  fun _ _ _ _ _ => Or.inl ⟨rfl, rfl⟩

/-- A weaker postcondition, and the cells in any order. -/
theorem Refines.consequence {post' : α → β → List (Nat × γ) → Prop}
    (h : Refines pre prog r post)
    (hpost : ∀ a b cells, post a b cells → ∃ cells', cells.Perm cells' ∧ post' a b cells') :
    Refines pre prog r post' := by
  intro heap frame m cur hh
  refine (h heap frame m cur hh).imp_right ?_
  rintro ⟨b, cur', a, h', cells, hr, hprog, hp, hh'⟩
  obtain ⟨cells', hperm, hp'⟩ := hpost a b cells hp
  exact ⟨b, cur', a, h', cells', hr, hprog, hp', hh'.perm (hperm.append_right frame)⟩

/-- The precondition's cells in another order. -/
theorem Refines.perm {pre' : List (Nat × γ)} (h : Refines pre prog r post) (hp : pre'.Perm pre) :
    Refines pre' prog r post :=
  fun heap frame m cur hh => h heap frame m cur (hh.perm (hp.append_right frame))

/-- **The frame rule.** -/
theorem Refines.framed (rest : List (Nat × γ)) (h : Refines pre prog r post) :
    Refines (pre ++ rest) prog r fun a b cells => ∃ own, cells = own ++ rest ∧ post a b own := by
  intro heap frame m cur hh
  rw [List.append_assoc] at hh
  refine (h heap (rest ++ frame) m cur hh).imp_right ?_
  rintro ⟨b, cur', a, h', cells, hr, hprog, hp, hh'⟩
  rw [← List.append_assoc] at hh'
  exact ⟨b, cur', a, h', cells ++ rest, hr, hprog, ⟨cells, rfl, hp⟩, hh'⟩

/-! ### The operations -/

/-- `new`, as a command: from nothing to one cell. -/
theorem refines_new (A : Allocator) (v : γ) :
    Refines [] (new A v) (Pure.pure () : Reader Unit) fun p _ cells => cells = [(p, v)] := by
  intro heap frame m cur hh
  exact Or.inr ⟨(), cur, _, _, _, rfl, rfl, rfl, Heap.holds_new A hh⟩

/-- Reading, as a command: the cells are left as they are. -/
theorem refines_load {cells : List (Nat × γ)} {p : Nat} {v : γ} (hmem : (p, v) ∈ cells) :
    Refines cells (load p) (Pure.pure () : Reader Unit)
      fun a _ left => a = v ∧ left = cells := by
  intro heap frame m cur hh
  refine Or.inr ⟨(), cur, v, heap, _, rfl, ?_, ⟨rfl, rfl⟩, hh⟩
  show ((heap.load p).map fun v => (v, heap)).map (fun r => (r, cur)) = _
  rw [hh.load (List.mem_append_left frame hmem)]
  rfl

/-- Writing, as a command, on the cell alone; the frame rule brings in the others. -/
theorem refines_store (p : Nat) (v w : γ) :
    Refines [(p, v)] (store p w) (Pure.pure () : Reader Unit) fun _ _ cells => cells = [(p, w)] := by
  intro heap frame m cur hh
  obtain ⟨h', hstore, hh'⟩ := Heap.Holds.store (w := w) hh
  refine Or.inr ⟨(), cur, (), h', _, rfl, ?_, rfl, hh'⟩
  show ((heap.store p w).map fun h => ((), h)).map (fun r => (r, cur)) = _
  rw [hstore]
  rfl

/-- `delete`, as a command: from one cell to nothing. -/
theorem refines_delete (p : Nat) (v : γ) :
    Refines [(p, v)] (delete p) (Pure.pure () : Reader Unit) fun _ _ cells => cells = [] := by
  intro heap frame m cur hh
  obtain ⟨h', hdelete, hh'⟩ := Heap.Holds.delete hh
  refine Or.inr ⟨(), cur, (), h', _, rfl, ?_, rfl, hh'⟩
  show ((heap.delete p).map fun h => ((), h)).map (fun r => (r, cur)) = _
  rw [hdelete]
  rfl

/-- Deleting all of some cells. -/
theorem refines_deleteAll (cells : List (Nat × γ)) :
    Refines cells (deleteAll (cells.map Prod.fst)) (Pure.pure () : Reader Unit)
      fun _ _ left => left = [] := by
  induction cells with
  | nil => exact Refines.pure rfl
  | cons c cs ih =>
    obtain ⟨p, v⟩ := c
    refine Refines.seq ((refines_delete p v).framed cs) ?_
    rintro - _ ⟨own, rfl, rfl⟩
    exact ih

/-- Reading some of the cells. -/
theorem refines_loadAll (cells own : List (Nat × γ)) :
    (∀ c ∈ own, c ∈ cells) →
      Refines cells (loadAll (own.map Prod.fst)) (Pure.pure () : Reader Unit)
        fun vs _ left => vs = own.map Prod.snd ∧ left = cells := by
  induction own with
  | nil => exact fun _ => Refines.pure ⟨rfl, rfl⟩
  | cons c cs ih =>
    intro hown
    have hc : (c.1, c.2) ∈ cells := hown c List.mem_cons_self
    refine Refines.seq (refines_load hc) ?_
    rintro _ _ ⟨rfl, rfl⟩
    refine Refines.seq (ih fun d hd => hown d (List.mem_cons_of_mem c hd)) ?_
    rintro _ _ ⟨rfl, rfl⟩
    exact Refines.pure ⟨rfl, rfl⟩

/-- The postcondition of a loop that builds a cell in every round: the pointers and the values it
    collects are those of the cells that are new. -/
def Built (base : List (Nat × γ)) (ps : List Nat) (vs : List γ) (cells : List (Nat × γ)) : Prop :=
  ∃ own, cells = own ++ base ∧ ps = own.map Prod.fst ∧ vs = own.map Prod.snd

/-- A counted loop that builds a cell in every round and leaves the others alone. -/
theorem Refines.collect {f : Nat → HeapReader γ Nat} {g : Nat → Reader γ}
    {base : List (Nat × γ)}
    (hround : ∀ i, Refines base (f i) (g i) fun p v cells => cells = (p, v) :: base) (n : Nat) :
    ∀ start, Refines base (HeapReader.collect f start n) (Reader.collect g start n)
      (Built base) := by
  induction n with
  | zero => exact fun _ => Refines.pure ⟨[], rfl, rfl, rfl⟩
  | succ n ih =>
    intro start
    refine (hround start).bind ?_
    rintro p v _ rfl
    -- the rounds after the first one have its cell in their frame
    have hrest := ((ih (start + 1)).framed [(p, v)]).perm
      (List.perm_append_singleton (p, v) base).symm
    refine hrest.bind ?_
    rintro ps vs _ ⟨_, rfl, own, rfl, rfl, rfl⟩
    have hall : Refines ((p, v) :: own ++ base)
        (Pure.pure (p :: own.map Prod.fst) : HeapReader γ (List Nat))
        (Pure.pure (v :: own.map Prod.snd)) (Built base) :=
      Refines.pure ⟨(p, v) :: own, rfl, rfl, rfl⟩
    exact hall.perm (List.perm_append_singleton (p, v) (own ++ base))

end Rules

end HeapReader

end Nxdb.Lib
