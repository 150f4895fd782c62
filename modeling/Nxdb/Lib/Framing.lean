/-
  Streams of self-delimiting messages.

  A code `enc` is self-delimiting when a parser `split` takes the first message off a stream without
  looking behind it (`Splits`).  A stream cut off anywhere then determines its messages: what has
  been taken off a prefix of a stream is a prefix of what was put on it (`Splits.stream_prefix`),
  and a rest from which nothing can be taken is shorter than the next message
  (`Splits.lt_of_none`), so a receiver with room for one message always has room for a byte.
-/
import Mathlib.Data.List.Basic

namespace Nxdb.Lib

variable {α β : Type}

/-- `split` takes the messages of the code `enc` off a stream, for the messages in `S`. -/
structure Splits (enc : α → List β) (S : α → Prop) (split : List β → Option (α × List β)) :
    Prop where
  ne_nil : ∀ a, enc a ≠ []
  sound : ∀ {v : List β} {a : α} {rest : List β}, split v = some (a, rest) →
    S a ∧ v = enc a ++ rest
  complete : ∀ {a : α} (rest : List β), S a → split (enc a ++ rest) = some (a, rest)

namespace Splits

variable {enc : α → List β} {S : α → Prop} {split : List β → Option (α × List β)}

/-- A stream has one first message and one rest. -/
theorem inj (h : Splits enc S split) {a b : α} {x y : List β} (ha : S a) (hb : S b)
    (heq : enc a ++ x = enc b ++ y) : a = b ∧ x = y := by
  have hx := h.complete x ha
  rw [heq, h.complete y hb, Option.some.injEq, Prod.mk.injEq] at hx
  exact ⟨hx.1.symm, hx.2.symm⟩

/-- Nothing can be taken off a piece of a stream only if the piece is shorter than a message. -/
theorem lt_of_none (h : Splits enc S split) {a : α} {v rest : List β} (ha : S a)
    (hv : v <+: enc a ++ rest) (hnone : split v = none) : v.length < (enc a).length := by
  by_contra hle
  have hpre : enc a <+: v :=
    List.prefix_of_prefix_length_le (List.prefix_append _ _) hv (Nat.le_of_not_lt hle)
  obtain ⟨w, rfl⟩ := hpre
  rw [h.complete w ha] at hnone
  exact Option.some_ne_none _ hnone

/-- Nothing can be taken off the empty stream. -/
theorem split_nil (h : Splits enc S split) : split [] = none := by
  cases hsplit : split [] with
  | none => rfl
  | some r =>
    obtain ⟨a, rest⟩ := r
    obtain ⟨-, heq⟩ := h.sound hsplit
    exact absurd (List.append_eq_nil_iff.mp heq.symm).1 (h.ne_nil a)

/-- **What was taken off is what was put on.**  If the messages `hs` and a rest `v` make up a prefix
    of the stream of `ps`, then `ps` starts with `hs`, and `v` is a prefix of the others' stream. -/
theorem stream_prefix (h : Splits enc S split) :
    ∀ {hs ps : List α} {v : List β}, (∀ a ∈ hs, S a) → (∀ a ∈ ps, S a) →
      hs.flatMap enc ++ v <+: ps.flatMap enc →
      ∃ rest, ps = hs ++ rest ∧ v <+: rest.flatMap enc := by
  intro hs
  induction hs with
  | nil => exact fun {ps} _ _ _ hpre => ⟨ps, rfl, hpre⟩
  | cons a hs ih =>
    intro ps v hhs hps hpre
    cases ps with
    | nil =>
      rw [List.flatMap_cons, List.append_assoc, List.flatMap_nil, List.prefix_nil] at hpre
      exact absurd (List.append_eq_nil_iff.mp hpre).1 (h.ne_nil a)
    | cons p ps =>
      -- both streams start with their first message, so these are the same
      obtain ⟨t, ht⟩ := hpre
      rw [List.flatMap_cons, List.flatMap_cons, List.append_assoc, List.append_assoc] at ht
      obtain ⟨rfl, heq⟩ := h.inj (hhs a List.mem_cons_self) (hps p List.mem_cons_self) ht
      obtain ⟨rest, rfl, hrest⟩ := ih (fun b hb => hhs b (List.mem_cons_of_mem _ hb))
        (fun b hb => hps b (List.mem_cons_of_mem _ hb)) ⟨t, by rw [List.append_assoc, heq]⟩
      exact ⟨rest, rfl, hrest⟩

/-- A piece of a stream from which nothing can be taken is empty or shorter than a message. -/
theorem rest_lt (h : Splits enc S split) {n : Nat} (hn : 0 < n) {ps : List α} {v : List β}
    (hps : ∀ a ∈ ps, S a ∧ (enc a).length ≤ n) (hv : v <+: ps.flatMap enc)
    (hnone : split v = none) : v.length < n := by
  cases ps with
  | nil =>
    rw [List.flatMap_nil, List.prefix_nil] at hv
    rw [hv]
    exact hn
  | cons a ps =>
    obtain ⟨ha, hlen⟩ := hps a List.mem_cons_self
    rw [List.flatMap_cons] at hv
    exact Nat.lt_of_lt_of_le (h.lt_of_none ha hv hnone) hlen

end Splits

end Nxdb.Lib
