/-
  What a decoder over raw memory depends on.

  `OwnBytes f bs` is a statement about two runs: on any two memories that hold `bs`, whatever lies
  behind it, `f` has a value, and the same one.  To refute it, one byte behind `bs` is changed
  (`Mem.poke`): in a decoder of so many bytes the last one tells (`ownBytes_iff_lt`), in a counted
  loop the last byte of the last round (`elems_poke_ne`).

  Along `>>=` a decoder whose value and cursor are known on all memories that hold `bs` can be taken
  off the front (`ownBytes_bind_iff`); a counted loop is settled round by round, since the value of
  its first round is part of its own (`OwnBytes.collect_head`).

  `ReadsWithin readEnd bs` is about how far one run reads, and `Confined` is both.
-/
import Nxdb.Lib.Reader
import Mathlib.Logic.Function.Basic

namespace Nxdb.Lib

variable {α β : Type}

/-! ## Memories that agree

  A memory is changed at one byte to see whether the byte counts. -/

/-- The memory with one byte replaced. -/
def Mem.poke (m : Mem) (i : Nat) (b : UInt8) : Mem := Function.update m i b

/-- The byte that was changed ... -/
@[simp] theorem Mem.poke_self (m : Mem) (i : Nat) (b : UInt8) : m.poke i b i = b :=
  Function.update_self ..

/-- ... and the others, which were not. -/
theorem Mem.poke_of_ne (m : Mem) {i j : Nat} (h : j ≠ i) (b : UInt8) : m.poke i b j = m j :=
  Function.update_of_ne h ..

/-- A byte behind a string can be replaced. -/
theorem Mem.Holds.poke {m : Mem} {bs : List UInt8} (h : m.Holds 0 bs) {i : Nat}
    (hi : bs.length ≤ i) (b : UInt8) : (m.poke i b).Holds 0 bs := by
  intro j hj
  have hne : 0 + j ≠ i := by omega
  rw [Mem.poke_of_ne m hne]
  exact h j hj

/-- A memory holds what is cut out of it. -/
theorem Mem.holds_of_slice {m : Mem} {off len : Nat} {bs : List UInt8} (h : m.slice off len = bs) :
    m.Holds off bs := by
  intro i hi
  subst h
  simp [Mem.slice]

/-- A slice depends on its bytes only. -/
theorem Mem.slice_congr {m₁ m₂ : Mem} {off len : Nat} (h : ∀ i < len, m₁ (off + i) = m₂ (off + i)) :
    m₁.slice off len = m₂.slice off len :=
  List.map_congr_left fun i hi => h i (List.mem_range.mp hi)

/-- The bytes of a string are those of the memory that ends with it. -/
theorem Mem.Holds.eq_ofList {m : Mem} {bs : List UInt8} (h : m.Holds 0 bs) {i : Nat}
    (hi : i < bs.length) : m i = Mem.ofList bs i := by
  have hm := h i hi
  have hz := Mem.holds_ofList bs i hi
  rw [Nat.zero_add] at hm hz
  exact hm.trans hz.symm

/-- A slice inside a string is the same in every memory that holds the string. -/
theorem Mem.Holds.slice_eq_ofList {m : Mem} {bs : List UInt8} (h : m.Holds 0 bs) {off len : Nat}
    (hle : off + len ≤ bs.length) : m.slice off len = (Mem.ofList bs).slice off len :=
  Mem.slice_congr fun i hi => h.eq_ofList (by omega)

/-- A slice that is longer by the byte behind it ... -/
theorem Mem.slice_succ (m : Mem) (off len : Nat) :
    m.slice off (len + 1) = m.slice off len ++ [m (off + len)] := by
  rw [Mem.slice, List.range_succ, List.map_append]
  rfl

/-- ... and one that begins a byte earlier. -/
theorem Mem.slice_cons (m : Mem) (off len : Nat) :
    m.slice off (len + 1) = m off :: m.slice (off + 1) len := by
  rw [Mem.slice, List.range_succ_eq_map, List.map_cons, List.map_map]
  congr 1
  refine List.map_congr_left fun i _ => congrArg m ?_
  show off + (i + 1) = off + 1 + i
  omega

/-- The last byte of a slice is replaced. -/
theorem Mem.slice_poke_last (m : Mem) (off len : Nat) (b : UInt8) :
    (m.poke (off + len) b).slice off (len + 1) = m.slice off len ++ [b] := by
  rw [Mem.slice_succ, Mem.poke_self]
  congr 1
  exact Mem.slice_congr fun i hi => m.poke_of_ne (by omega) b

/-- A slice without the byte that is replaced. -/
theorem Mem.slice_poke_of_not_mem (m : Mem) {off len i : Nat} (h : i < off ∨ off + len ≤ i)
    (b : UInt8) : (m.poke i b).slice off len = m.slice off len :=
  Mem.slice_congr fun j hj => m.poke_of_ne (by omega) b

/-- The number of two strings of bytes, one behind the other. -/
theorem leVal_append (as bs : List UInt8) :
    leVal (as ++ bs) = leVal as + 256 ^ as.length * leVal bs := by
  induction as with
  | nil => rw [List.nil_append, leVal, List.length_nil, Nat.pow_zero, Nat.one_mul, Nat.zero_add]
  | cons a as ih =>
    rw [List.cons_append, leVal, ih, leVal, List.length_cons, Nat.pow_succ']
    ring

/-- The last byte of a number tells, also where only so many bits are kept. -/
theorem leVal_last_ne {bs : List UInt8} {n : Nat} (h : bs.length = n) :
    leVal (bs ++ [0]) % 256 ^ (n + 1) ≠ leVal (bs ++ [1]) % 256 ^ (n + 1) := by
  have hlt : ∀ b : UInt8, leVal (bs ++ [b]) < 256 ^ (n + 1) := by
    intro b
    have hlt := leVal_lt (bs ++ [b])
    rwa [List.length_append, List.length_singleton, h] at hlt
  rw [Nat.mod_eq_of_lt (hlt 0), Nat.mod_eq_of_lt (hlt 1), leVal_append, leVal_append]
  show leVal bs + 256 ^ bs.length * 0 ≠ leVal bs + 256 ^ bs.length * 1
  have hpos : 0 < 256 ^ bs.length := Nat.pow_pos (by decide)
  omega

/-- So it does where the number is the last field of a structure. -/
theorem leVal_field_last_ne {bs : List UInt8} {k n : Nat} (h : bs.length = k + n) :
    leVal (((bs ++ [0]).drop k).take (n + 1)) % 256 ^ (n + 1) ≠
      leVal (((bs ++ [1]).drop k).take (n + 1)) % 256 ^ (n + 1) := by
  have hlen : (bs.drop k).length = n := by rw [List.length_drop, h, Nat.add_sub_cancel_left]
  have hfield : ∀ b : UInt8, ((bs ++ [b]).drop k).take (n + 1) = bs.drop k ++ [b] := by
    intro b
    rw [List.drop_append_of_le_length (by omega)]
    exact List.take_of_length_le (by rw [List.length_append, hlen, List.length_singleton])
  rw [hfield 0, hfield 1]
  exact leVal_last_ne hlen

/-- An `int` with the highest bit set. -/
theorem intVal_slice_poke_neg (m : Mem) (off : Nat) :
    intVal ((m.poke (off + 3) 0x80).slice off 4) < 0 := by
  rw [Mem.slice_poke_last m off 3]
  have hlen : (m.slice off 3 ++ [0x80]).length = 4 := by
    rw [List.length_append, Mem.length_slice, List.length_singleton]
  rw [← Int32.not_le, intVal_nonneg_iff hlen, leVal_append, Mem.length_slice]
  show ¬ leVal (m.slice off 3) + 256 ^ 3 * 128 < 2 ^ 31
  omega

/-! ## Two runs -/

/-- On every two memories that hold the bytes, `f` has a value, and the same one. -/
def OwnBytes (f : Mem → Option α) (bs : List UInt8) : Prop :=
  ∀ m₁ m₂ : Mem, m₁.Holds 0 bs → m₂.Holds 0 bs → ∃ a, f m₁ = some a ∧ f m₂ = some a

/-- The value is one value. -/
theorem ownBytes_iff {f : Mem → Option α} {bs : List UInt8} :
    OwnBytes f bs ↔ ∃ a, ∀ m : Mem, m.Holds 0 bs → f m = some a := by
  constructor
  · intro h
    have hz := Mem.holds_ofList bs
    obtain ⟨a, ha, -⟩ := h _ _ hz hz
    refine ⟨a, fun m hm => ?_⟩
    obtain ⟨b, hb, hmb⟩ := h _ m hz hm
    rw [hmb, ← hb, ha]
  · rintro ⟨a, ha⟩ m₁ m₂ h₁ h₂
    exact ⟨a, ha m₁ h₁, ha m₂ h₂⟩

/-- Only memories that hold the string count. -/
theorem ownBytes_congr {f g : Mem → Option α} {bs : List UInt8}
    (h : ∀ m : Mem, m.Holds 0 bs → f m = g m) : OwnBytes f bs ↔ OwnBytes g bs := by
  refine forall_congr' fun m₁ => forall_congr' fun m₂ => forall_congr' fun h₁ =>
    forall_congr' fun h₂ => ?_
  rw [h m₁ h₁, h m₂ h₂]

/-- A constant depends on no bytes. -/
theorem ownBytes_some (a : α) (bs : List UInt8) : OwnBytes (fun _ => some a) bs :=
  fun _ _ _ _ => ⟨a, rfl, rfl⟩

namespace OwnBytes

variable {f : Mem → Option α} {bs : List UInt8}

/-- What depends on its own bytes is defined on every memory that holds them ... -/
theorem ne_none (h : OwnBytes f bs) {m : Mem} (hm : m.Holds 0 bs) : f m ≠ none := by
  obtain ⟨a, ha, -⟩ := h m m hm hm
  rw [ha]
  exact Option.some_ne_none a

/-- ... and the same on all of them. -/
theorem eq (h : OwnBytes f bs) {m₁ m₂ : Mem} (h₁ : m₁.Holds 0 bs) (h₂ : m₂.Holds 0 bs) :
    f m₁ = f m₂ := by
  obtain ⟨a, ha₁, ha₂⟩ := h m₁ m₂ h₁ h₂
  rw [ha₁, ha₂]

/-- What is made of a result depends on the same bytes. -/
theorem map (h : OwnBytes f bs) (g : α → β) : OwnBytes (fun m => (f m).map g) bs := by
  intro m₁ m₂ h₁ h₂
  obtain ⟨a, ha₁, ha₂⟩ := h m₁ m₂ h₁ h₂
  exact ⟨g a, congrArg (Option.map g) ha₁, congrArg (Option.map g) ha₂⟩

/-- A byte behind the string makes no difference. -/
theorem poke_eq (h : OwnBytes f bs) {i : Nat} (hi : bs.length ≤ i) (b c : UInt8) :
    f ((Mem.ofList bs).poke i b) = f ((Mem.ofList bs).poke i c) :=
  h.eq ((Mem.holds_ofList bs).poke hi b) ((Mem.holds_ofList bs).poke hi c)

end OwnBytes

/-- A value that can be told from the one it is made into. -/
theorem ownBytes_map_iff {f : Mem → Option α} {bs : List UInt8} {g : α → β}
    (hg : Function.Injective g) : OwnBytes (fun m => (f m).map g) bs ↔ OwnBytes f bs := by
  refine ⟨fun h m₁ m₂ h₁ h₂ => ?_, fun h => h.map g⟩
  obtain ⟨b, hb₁, hb₂⟩ := h m₁ m₂ h₁ h₂
  obtain ⟨a₁, ha₁, rfl⟩ := Option.map_eq_some_iff.mp hb₁
  obtain ⟨a₂, ha₂, heq⟩ := Option.map_eq_some_iff.mp hb₂
  rw [hg heq] at ha₂
  exact ⟨a₁, ha₁, ha₂⟩

/-- On every memory that holds the bytes, no byte behind them is read; `readEnd` is the end of what
    is read. -/
def ReadsWithin (readEnd : Mem → Option Nat) (bs : List UInt8) : Prop :=
  ∀ m : Mem, m.Holds 0 bs → ∃ n, readEnd m = some n ∧ n ≤ bs.length

/-- A fixed number of bytes is read within a string that is as long. -/
theorem readsWithin_some {n : Nat} {bs : List UInt8} :
    ReadsWithin (fun _ => some n) bs ↔ n ≤ bs.length := by
  constructor
  · intro h
    obtain ⟨n', hn, hle⟩ := h _ (Mem.holds_ofList bs)
    rwa [Option.some.inj hn]
  · exact fun hle m _ => ⟨n, rfl, hle⟩

/-- The value of `f` depends on the bytes alone, and no other ones are read for it. -/
def Confined (f : Mem → Option α) (readEnd : Mem → Option Nat) (bs : List UInt8) : Prop :=
  OwnBytes f bs ∧ ReadsWithin readEnd bs

/-- A function that reads a fixed number of bytes. -/
theorem confined_some_iff {f : Mem → Option α} {n : Nat} {bs : List UInt8}
    (h : OwnBytes f bs ↔ n ≤ bs.length) : Confined f (fun _ => some n) bs ↔ n ≤ bs.length := by
  rw [Confined, h, readsWithin_some, and_self]

/-- **A structure of `w + 1` bytes**, whose last byte tells: it lies in the string. -/
theorem ownBytes_iff_lt {f : Mem → Option α} {bs : List UInt8} {w : Nat}
    (hsome : ∀ m, f m ≠ none) (hfirst : ∀ m₁ m₂ : Mem, (∀ i ≤ w, m₁ i = m₂ i) → f m₁ = f m₂)
    (hlast : ∀ m : Mem, f (m.poke w 0) ≠ f (m.poke w 1)) : OwnBytes f bs ↔ w < bs.length := by
  constructor
  · intro h
    by_contra hle
    exact hlast _ (h.poke_eq (Nat.le_of_not_lt hle) 0 1)
  · intro hlt
    rw [ownBytes_iff]
    obtain ⟨a, ha⟩ := Option.ne_none_iff_exists'.mp (hsome (Mem.ofList bs))
    refine ⟨a, fun m hm => ?_⟩
    rw [← ha]
    exact hfirst m _ fun i hi => hm.eq_ofList (Nat.lt_of_le_of_lt hi hlt)

/-! ## Decoders

  A decoder depends on the bytes up to where its cursor stops, if the last of them tells. -/

namespace Reader

/-- The value alone, without the cursor behind it. -/
def value (r : Reader α) (cur : Nat) (m : Mem) : Option α := (r.run m cur).map Prod.fst

/-- What follows a decoder that is known. -/
theorem run_bind {r : Reader α} {f : α → Reader β} {a : α} {cur next : Nat} {m : Mem}
    (h : r.run m cur = some (a, next)) : (r >>= f).run m cur = (f a).run m next := by
  show ((r.run m cur).bind fun p => f p.1 m p.2) = _
  rw [h]
  rfl

/-- The value of a sequence, once the first part is known. -/
theorem value_bind {r : Reader α} {f : α → Reader β} {a : α} {cur next : Nat} {m : Mem}
    (h : r.run m cur = some (a, next)) : (r >>= f).value cur m = (f a).value next m :=
  congrArg (Option.map Prod.fst) (run_bind h)

/-- The value with something made of it. -/
theorem value_map (r : Reader α) (f : α → β) (cur : Nat) (m : Mem) :
    (r >>= fun a => (Pure.pure (f a) : Reader β)).value cur m = (r.value cur m).map f := by
  show ((r.run m cur).bind fun p => some (f p.1, p.2)).map Prod.fst = ((r.run m cur).map _).map _
  cases r.run m cur <;> rfl

end Reader

open Reader in
/-- **`>>=`.**  A decoder whose value and cursor are known is taken off the front. -/
theorem ownBytes_bind_iff {r : Reader α} {f : α → Reader β} {a : α} {cur next : Nat}
    {bs : List UInt8} (h : ∀ m : Mem, m.Holds 0 bs → r.run m cur = some (a, next)) :
    OwnBytes ((r >>= f).value cur) bs ↔ OwnBytes ((f a).value next) bs :=
  ownBytes_congr fun m hm => value_bind (h m hm)

open Reader in
/-- **A counted loop.**  Its value has the value of its first round in it. -/
theorem OwnBytes.collect_head {f : Nat → Reader α} {start k cur : Nat} {bs : List UInt8}
    (h : OwnBytes ((collect f start (k + 1)).value cur) bs) : OwnBytes ((f start).value cur) bs := by
  have hhead : ∀ {m : Mem} {as : List α}, (collect f start (k + 1)).value cur m = some as →
      ∃ a rest, as = a :: rest ∧ (f start).value cur m = some a := by
    intro m as has
    cases hrun : (f start).run m cur with
    | none =>
      have hnone : (collect f start (k + 1)).value cur m = none := by
        show ((((f start).run m cur).bind _).map _) = _
        rw [hrun]
        rfl
      exact absurd (hnone.symm.trans has) (Option.some_ne_none as).symm
    | some p =>
      have hrest : (collect f start (k + 1)).value cur m =
          ((collect f (start + 1) k).value p.2 m).map (p.1 :: ·) :=
        (value_bind hrun).trans (value_map _ _ _ _)
      obtain ⟨rest, -, rfl⟩ := Option.map_eq_some_iff.mp (hrest.symm.trans has)
      exact ⟨p.1, rest, rfl, congrArg (Option.map Prod.fst) hrun⟩
  intro m₁ m₂ h₁ h₂
  obtain ⟨as, has₁, has₂⟩ := h m₁ m₂ h₁ h₂
  obtain ⟨a, rest, rfl, ha₁⟩ := hhead has₁
  obtain ⟨b, rest', heq, hb₂⟩ := hhead has₂
  obtain ⟨rfl, -⟩ := List.cons_eq_cons.mp heq
  exact ⟨a, ha₁, hb₂⟩

/-! ## Arrays -/

/-- So many structures of `w` bytes, one behind the other. -/
def elems (w : Nat) (dec : List UInt8 → α) (m : Mem) : Nat → Nat → List α
  | _, 0 => []
  | cur, k + 1 => dec (m.slice cur w) :: elems w dec m (cur + w) k

/-- Such a loop always comes to its end. -/
theorem Reader.run_collect_fixed (w : Nat) (dec : List UInt8 → α) (m : Mem) (k : Nat) :
    ∀ start cur, (collect (fun _ => Reader.fixed w dec) start k).run m cur =
      some (elems w dec m cur k, cur + w * k) := by
  induction k with
  | zero => exact fun _ _ => rfl
  | succ k ih =>
    intro start cur
    have hrest : (collect (fun _ => Reader.fixed w dec) start (k + 1)).run m cur =
        ((collect (fun _ => Reader.fixed w dec) (start + 1) k).run m (cur + w)).bind
          fun p => some (dec (m.slice cur w) :: p.1, p.2) := rfl
    rw [hrest, ih, Option.bind_some, elems, Nat.mul_succ, Nat.add_assoc, Nat.add_comm w]

/-- Items of a width depend on their bytes only. -/
theorem elems_congr {w : Nat} {f : List UInt8 → α} {m₁ m₂ : Mem} (k : Nat) :
    ∀ cur, (∀ i < w * k, m₁ (cur + i) = m₂ (cur + i)) →
      elems w f m₁ cur k = elems w f m₂ cur k := by
  induction k with
  | zero => exact fun _ _ => rfl
  | succ k ih =>
    intro cur h
    rw [Nat.mul_succ] at h
    have hrest := ih (cur + w) fun i hi => by
      rw [Nat.add_assoc]
      exact h (w + i) (by omega)
    rw [elems, elems, hrest, Mem.slice_congr fun i hi => h i (by omega)]

/-- Two values of the last byte, and two structures. -/
def LastByteTells (w : Nat) (dec : List UInt8 → α) : Prop :=
  ∀ bs : List UInt8, bs.length = w → dec (bs ++ [0]) ≠ dec (bs ++ [1])

/-- **An array** whose last byte is changed is another one. -/
theorem elems_poke_ne {w : Nat} {dec : List UInt8 → α} (hdec : LastByteTells w dec) (m : Mem)
    (k : Nat) : ∀ cur, elems (w + 1) dec (m.poke (cur + (w + 1) * k + w) 0) cur (k + 1) ≠
      elems (w + 1) dec (m.poke (cur + (w + 1) * k + w) 1) cur (k + 1) := by
  induction k with
  | zero =>
    intro cur h
    replace h : [dec ((m.poke (cur + w) 0).slice cur (w + 1))] =
      [dec ((m.poke (cur + w) 1).slice cur (w + 1))] := h
    rw [Mem.slice_poke_last, Mem.slice_poke_last] at h
    exact hdec _ (Mem.length_slice ..) (List.cons_eq_cons.mp h).1
  | succ k ih =>
    intro cur h
    have hlast : cur + (w + 1) * (k + 1) + w = cur + (w + 1) + (w + 1) * k + w := by
      rw [Nat.mul_succ]
      omega
    rw [elems, elems.eq_2 (w + 1) dec _ cur, hlast] at h
    exact ih (cur + (w + 1)) (List.cons_eq_cons.mp h).2

end Nxdb.Lib
