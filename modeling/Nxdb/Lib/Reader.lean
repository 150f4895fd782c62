/-
  Decoders that walk a raw memory with a cursor.

  A `Reader α` takes a memory and a cursor and returns a value and the new cursor; it has no idea
  where the data ends, exactly like a C function that casts a pointer and adds `sizeof` to it.
  `none` stands for a step the decoder must not take (undefined behaviour of the decoded program).

  The one notion proofs need is `Reads r bs a`: wherever `bs` lies in a memory, `r` started at its
  first byte returns `a` and stops behind its last one.  It composes along `>>=` (`Reads.bind`) and
  along counted loops (`Reads.collect`), so a round trip is proved field by field, in the order in
  which the decoder reads.
-/
import Nxdb.Lib.Bytes

namespace Nxdb.Lib

/-- A decoder over raw memory: from a memory and a cursor to a value and the next cursor. -/
def Reader (α : Type) : Type := Mem → Nat → Option (α × Nat)

namespace Reader

variable {α β : Type}

/-- Run a decoder. -/
def run (r : Reader α) (m : Mem) (cur : Nat) : Option (α × Nat) := r m cur

instance : Monad Reader where
  pure a := fun _ cur => some (a, cur)
  bind r f := fun m cur => (r m cur).bind fun p => f p.1 m p.2

/-- The decoder runs into undefined behaviour. -/
def undefined : Reader α := fun _ _ => none

/-- Read `w` bytes and interpret them (`memcpy` out of the buffer, cursor moved by `w`). -/
def fixed (w : Nat) (dec : List UInt8 → α) : Reader α := fun m cur =>
  some (dec (m.slice cur w), cur + w)

/-- The loop `for (i = start; i < start + n; i++)`, collecting what the body `f` returns. -/
def collect (f : Nat → Reader α) : Nat → Nat → Reader (List α)
  | _, 0 => pure []
  | start, n + 1 => do
    let a ← f start
    let as ← collect f (start + 1) n
    return a :: as

/-! ## What a decoder reads -/

/-- Wherever `bs` lies, `r` started at its first byte returns `a` and stops behind its last. -/
def Reads (r : Reader α) (bs : List UInt8) (a : α) : Prop :=
  ∀ m cur, m.Holds cur bs → r.run m cur = some (a, cur + bs.length)

/-- A reader that takes nothing reads the empty string. -/
theorem Reads.pure (a : α) : Reads (pure a : Reader α) [] a := fun _ _ _ => rfl

/-- **Sequence rule**: one after the other, the two read one string behind the other. -/
theorem Reads.bind {r : Reader α} {f : α → Reader β} {bs cs : List UInt8} {a : α} {b : β}
    (hr : Reads r bs a) (hf : Reads (f a) cs b) : Reads (r >>= f) (bs ++ cs) b := by
  intro m cur h
  obtain ⟨hbs, hcs⟩ := Mem.holds_append.mp h
  show ((r m cur).bind fun p => f p.1 m p.2) = _
  rw [show r m cur = some (a, cur + bs.length) from hr m cur hbs, Option.bind_some,
    show f a m (cur + bs.length) = some (b, cur + bs.length + cs.length) from hf m _ hcs,
    List.length_append, Nat.add_assoc]

/-- The last field of a record: nothing follows but the assembled value. -/
theorem Reads.map {r : Reader α} {f : α → β} {bs : List UInt8} {a : α} (hr : Reads r bs a) :
    Reads (r >>= fun x => (Pure.pure (f x) : Reader β)) bs (f a) := by
  have h := hr.bind (f := fun x => (Pure.pure (f x) : Reader β)) (Reads.pure (f a))
  rwa [List.append_nil] at h

/-- **Field rule**: a field of fixed width, by its decoder. -/
theorem Reads.fixed {w : Nat} {dec : List UInt8 → α} {bs : List UInt8} {a : α}
    (hw : bs.length = w) (hdec : dec bs = a) : Reads (fixed w dec) bs a := by
  intro m cur h
  have hs : m.slice cur w = bs := by rw [← hw]; exact h.slice
  show some (dec (m.slice cur w), cur + w) = _
  rw [hs, hdec, hw]

/-- A counted loop reads the concatenation of what its rounds read. -/
theorem Reads.collect {f : Nat → Reader α} :
    ∀ (parts : List (List UInt8 × α)) (start : Nat),
      (∀ i (h : i < parts.length), Reads (f (start + i)) parts[i].1 parts[i].2) →
      Reads (Reader.collect f start parts.length) (parts.flatMap Prod.fst) (parts.map Prod.snd) := by
  intro parts
  induction parts with
  | nil => exact fun _ _ => Reads.pure []
  | cons p ps ih =>
    intro start h
    have hhead : Reads (f start) p.1 p.2 := h 0 (Nat.zero_lt_succ _)
    have htail := ih (start + 1) fun i hi => by
      have hnext := h (i + 1) (Nat.succ_lt_succ hi)
      rwa [← Nat.add_assoc, Nat.add_right_comm] at hnext
    exact hhead.bind htail.map

/-- A counted loop whose rounds do not depend on the index reads an encoded array. -/
theorem Reads.array {r : Reader β} {enc : α → List UInt8} {f : α → β} (as : List α)
    (h : ∀ a ∈ as, Reads r (enc a) (f a)) :
    Reads (Reader.collect (fun _ => r) 0 as.length) (as.flatMap enc) (as.map f) := by
  have hc := Reads.collect (f := fun _ => r) (as.map fun a => (enc a, f a)) 0
    (fun i hi => by
      rw [List.getElem_map]
      exact h _ (List.getElem_mem _))
  rw [List.length_map, List.flatMap_map, List.map_map] at hc
  exact hc

end Reader

end Nxdb.Lib
