/-
  What the mixing steps of a hash keep apart.

  The steps such functions are made of lose nothing: a word xored with its own shift to the right, a
  rotated word and a product with an invertible word determine the word, and bytes that are placed
  beside each other can be read off again.  Signed bytes cannot: the sign of one overwrites those
  above it (`signed_or_eq_iff`, `signed_xor_eq_iff`).  A fold whose step is injective in the running
  value and in what is mixed in tells apart any two inputs that differ in one place
  (`foldl_ne_of_single`), however many places follow.
-/
import Mathlib.Logic.Function.Basic
import Mathlib.Data.List.Basic

namespace Nxdb.Lib

/-! ## Words -/

section Words

variable {w : Nat}

/-- From the highest bit down: a bit of the result is that bit of `x`, xored with a higher one. -/
theorem xorShift_injective {n : Nat} (hn : 0 < n) :
    Function.Injective fun x : BitVec w => x ^^^ (x >>> n) := by
  intro x y h
  have hbits : ∀ k i, w - i ≤ k → x.getLsbD i = y.getLsbD i := by
    intro k
    induction k with
    | zero =>
      intro i hi
      rw [BitVec.getLsbD_of_ge x i (by omega), BitVec.getLsbD_of_ge y i (by omega)]
    | succ k ih =>
      intro i hi
      rcases Nat.lt_or_ge i w with hlt | hge
      · have hbit : (x.getLsbD i ^^ x.getLsbD (n + i)) = (y.getLsbD i ^^ y.getLsbD (n + i)) := by
          rw [← BitVec.getLsbD_ushiftRight, ← BitVec.getLsbD_ushiftRight, ← BitVec.getLsbD_xor,
            ← BitVec.getLsbD_xor]
          exact congrArg (BitVec.getLsbD · i) h
        rw [ih (n + i) (by omega)] at hbit
        exact Bool.xor_left_inj.mp hbit
      · rw [BitVec.getLsbD_of_ge x i hge, BitVec.getLsbD_of_ge y i hge]
  exact BitVec.eq_of_getLsbD_eq fun i _ => hbits w i (Nat.sub_le w i)

/-- Bit `i` of `x` is bit `i + r` of the rotated word, or bit `i + r - w`. -/
theorem rotateLeft_injective {r : Nat} (hr : r < w) :
    Function.Injective fun x : BitVec w => x.rotateLeft r := by
  intro x y h
  have hbit : ∀ j, (x.rotateLeft r).getLsbD j = (y.rotateLeft r).getLsbD j :=
    fun j => congrArg (BitVec.getLsbD · j) h
  simp only [BitVec.getLsbD_rotateLeft_of_le hr] at hbit
  refine BitVec.eq_of_getLsbD_eq fun i hi => ?_
  rcases Nat.lt_or_ge (i + r) w with hlt | hge
  · have hno : ¬i + r < r := by omega
    simpa [hlt, hno] using hbit (i + r)
  · have hlt : i + r - w < r := by omega
    have heq : w - r + (i + r - w) = i := by omega
    simpa [hlt, heq] using hbit (i + r - w)

/-- Multiplying by an odd constant, given by its inverse, loses nothing. -/
theorem mul_injective {c d : BitVec w} (h : c * d = 1#w) :
    Function.Injective fun x : BitVec w => x * c := by
  intro x y hxy
  have hd : x * c * d = y * c * d := congrArg (· * d) hxy
  rwa [BitVec.mul_assoc, BitVec.mul_assoc, h, BitVec.mul_one, BitVec.mul_one] at hd

end Words

/-! ## Bytes in a word -/

/-- A byte in a word, its lowest bit at `s`. -/
def place (w : Nat) (x : BitVec 8) (s : Nat) : BitVec w := x.setWidth w <<< s

/-- A byte that was put at a place, bit by bit ... -/
theorem getLsbD_place {w s k : Nat} {x : BitVec 8} (hw : s + 8 ≤ w) (hlo : s ≤ k)
    (hhi : k < s + 8) : (place w x s).getLsbD k = x.getLsbD (k - s) := by
  have hkw : k < w := by omega
  have hk : k - s < w := by omega
  rw [place, BitVec.getLsbD_shiftLeft, BitVec.getLsbD_setWidth]
  simp [hkw, hk, hlo]

/-- ... and nothing beside it. -/
theorem getLsbD_place_of_outside {w s k : Nat} {x : BitVec 8} (h : k < s ∨ s + 8 ≤ k) :
    (place w x s).getLsbD k = false := by
  rw [place, BitVec.getLsbD_shiftLeft, BitVec.getLsbD_setWidth]
  rcases h with hlt | hge
  · simp [hlt]
  · rw [BitVec.getLsbD_of_ge x (k - s) (by omega), Bool.and_false, Bool.and_false]

/-- The byte at `s` of a word. -/
def ByteAt {w : Nat} (v : BitVec w) (s : Nat) (x : BitVec 8) : Prop :=
  ∀ i, i < 8 → v.getLsbD (s + i) = x.getLsbD i

/-- A word has one byte at a place. -/
theorem ByteAt.unique {w s : Nat} {v : BitVec w} {x y : BitVec 8} (hx : ByteAt v s x)
    (hy : ByteAt v s y) : x = y :=
  BitVec.eq_of_getLsbD_eq fun i hi => (hx i hi).symm.trans (hy i hi)

section Bytes

variable (a b c d : BitVec 8)

/-- Four bytes, put together by `or`. -/
theorem byteAt_or :
    let v := place 32 a 0 ||| place 32 b 8 ||| place 32 c 16 ||| place 32 d 24
    ByteAt v 0 a ∧ ByteAt v 8 b ∧ ByteAt v 16 c ∧ ByteAt v 24 d := by
  refine ⟨fun i hi => ?_, fun i hi => ?_, fun i hi => ?_, fun i hi => ?_⟩
  all_goals
    simp (disch := omega) only [BitVec.getLsbD_or, getLsbD_place, getLsbD_place_of_outside,
      Bool.or_false, Bool.false_or, Nat.zero_add, Nat.sub_zero, Nat.add_sub_cancel_left]

/-- Three bytes, put together by `xor`. -/
theorem byteAt_xor :
    let v := place 32 c 16 ^^^ place 32 b 8 ^^^ place 32 a 0
    ByteAt v 0 a ∧ ByteAt v 8 b ∧ ByteAt v 16 c := by
  refine ⟨fun i hi => ?_, fun i hi => ?_, fun i hi => ?_⟩
  all_goals
    simp (disch := omega) only [BitVec.getLsbD_xor, getLsbD_place, getLsbD_place_of_outside,
      Bool.xor_false, Bool.false_xor, Nat.zero_add, Nat.sub_zero, Nat.add_sub_cancel_left]

end Bytes

/-! ## Signed bytes in a word -/

/-- A signed byte in a word, its lowest bit at `s`: its sign is in every bit above it. -/
def placeSigned (w : Nat) (x : BitVec 8) (s : Nat) : BitVec w := x.signExtend w <<< s

/-- A signed byte has its own bits at its place ... -/
theorem getLsbD_placeSigned {w s k : Nat} {x : BitVec 8} (hk : k < w) (hlo : s ≤ k)
    (hhi : k < s + 8) : (placeSigned w x s).getLsbD k = x.getLsbD (k - s) := by
  have hks : k - s < w := by omega
  have hbyte : k - s < 8 := by omega
  rw [placeSigned, BitVec.getLsbD_shiftLeft, BitVec.getLsbD_signExtend]
  simp [hk, hks, hlo, hbyte]

/-- ... nothing below them ... -/
theorem getLsbD_placeSigned_of_lt {w s k : Nat} {x : BitVec 8} (h : k < s) :
    (placeSigned w x s).getLsbD k = false := by
  rw [placeSigned, BitVec.getLsbD_shiftLeft]
  simp [h]

/-- ... and copies of its sign above: this is what spoils the bytes that follow. -/
theorem getLsbD_placeSigned_of_ge {w s k : Nat} {x : BitVec 8} (hk : k < w) (h : s + 8 ≤ k) :
    (placeSigned w x s).getLsbD k = x.msb := by
  have hks : k - s < w := by omega
  have hlo : s ≤ k := by omega
  have hbyte : ¬k - s < 8 := by omega
  rw [placeSigned, BitVec.getLsbD_shiftLeft, BitVec.getLsbD_signExtend]
  simp [hk, hks, hlo, hbyte]

/-- What the sign of a byte makes of each byte above it. -/
def signFill (x : BitVec 8) : BitVec 8 := if x.msb then 255#8 else 0#8

/-- What the sign fills a byte with: all ones or all zeros. -/
theorem getLsbD_signFill {x : BitVec 8} {i : Nat} (hi : i < 8) :
    (signFill x).getLsbD i = x.msb := by
  unfold signFill
  cases x.msb with
  | true =>
    show (255#8).getLsbD i = true
    rw [show 255#8 = BitVec.allOnes 8 from rfl, BitVec.getLsbD_allOnes]
    exact decide_eq_true hi
  | false => exact BitVec.getLsbD_zero

/-- A sign fills nothing exactly if the byte is below `0x80`. -/
theorem signFill_eq_zero_iff {x : BitVec 8} : signFill x = 0#8 ↔ x.msb = false := by
  unfold signFill
  cases x.msb with
  | true => exact ⟨fun h => absurd h (by decide), fun h => Bool.noConfusion h⟩
  | false => exact ⟨fun _ => rfl, fun _ => rfl⟩

/-- A byte that is filled is the byte, if and only if it is full or the sign is not set. -/
theorem signFill_or_eq_iff {x y : BitVec 8} : signFill x ||| y = y ↔ (x.msb = true → y = 255#8) := by
  unfold signFill
  cases x.msb with
  | true =>
    have hfull : 255#8 ||| y = 255#8 := BitVec.allOnes_or
    show 255#8 ||| y = y ↔ _
    rw [hfull]
    exact ⟨fun h _ => h.symm, fun h => (h rfl).symm⟩
  | false =>
    show 0#8 ||| y = y ↔ _
    rw [BitVec.zero_or]
    exact ⟨fun _ h => Bool.noConfusion h, fun _ => rfl⟩

/-- Two parts are in a third, if and only if each of them is. -/
theorem or_or_eq_iff {w : Nat} {x y z : BitVec w} :
    x ||| (y ||| z) = z ↔ x ||| z = z ∧ y ||| z = z := by
  constructor
  · intro h
    have hx : x ||| z = z :=
      calc x ||| z = x ||| (x ||| (y ||| z)) := by rw [h]
        _ = x ||| (y ||| z) := by rw [← BitVec.or_assoc, BitVec.or_self]
        _ = z := h
    refine ⟨hx, ?_⟩
    calc y ||| z = y ||| (x ||| z) := by rw [hx]
      _ = x ||| (y ||| z) := by rw [← BitVec.or_assoc, BitVec.or_comm y x, BitVec.or_assoc]
      _ = z := h
  · rintro ⟨hx, hy⟩
    rw [hy, hx]

/-- A word is its bytes. -/
theorem eq_of_byteAt {v v' : BitVec 32} {a b c d : BitVec 8}
    (h : ByteAt v 0 a ∧ ByteAt v 8 b ∧ ByteAt v 16 c ∧ ByteAt v 24 d)
    (h' : ByteAt v' 0 a ∧ ByteAt v' 8 b ∧ ByteAt v' 16 c ∧ ByteAt v' 24 d) : v = v' := by
  obtain ⟨h0, h1, h2, h3⟩ := h
  obtain ⟨h0', h1', h2', h3'⟩ := h'
  have hat : ∀ {s : Nat} {x : BitVec 8} {k : Nat}, ByteAt v s x → ByteAt v' s x → s ≤ k →
      k < s + 8 → v.getLsbD k = v'.getLsbD k := by
    intro s x k hv hv' hlo hhi
    have hk : k = s + (k - s) := by omega
    rw [hk, hv _ (by omega), hv' _ (by omega)]
  apply BitVec.eq_of_getLsbD_eq
  intro k hk
  have hbyte : k < 8 ∨ (8 ≤ k ∧ k < 16) ∨ (16 ≤ k ∧ k < 24) ∨ 24 ≤ k := by omega
  rcases hbyte with h | ⟨hlo, hhi⟩ | ⟨hlo, hhi⟩ | h
  · exact hat h0 h0' (by omega) (by omega)
  · exact hat h1 h1' (by omega) (by omega)
  · exact hat h2 h2' (by omega) (by omega)
  · exact hat h3 h3' (by omega) (by omega)

section SignedBytes

variable (a b c d : BitVec 8)

/-- Four signed bytes, put together by `or`: the sign of one fills those above it. -/
theorem byteAt_signed_or :
    let v := placeSigned 32 a 0 ||| placeSigned 32 b 8 ||| placeSigned 32 c 16
      ||| placeSigned 32 d 24
    ByteAt v 0 a ∧ ByteAt v 8 (signFill a ||| b) ∧ ByteAt v 16 (signFill a ||| (signFill b ||| c)) ∧
      ByteAt v 24 ((signFill a ||| signFill b) ||| (signFill c ||| d)) := by
  refine ⟨fun i hi => ?_, fun i hi => ?_, fun i hi => ?_, fun i hi => ?_⟩
  all_goals
    simp (disch := omega) only [BitVec.getLsbD_or, getLsbD_placeSigned, getLsbD_placeSigned_of_lt,
      getLsbD_placeSigned_of_ge, getLsbD_signFill, Bool.or_false, Nat.zero_add, Nat.sub_zero,
      Nat.add_sub_cancel_left, Bool.or_assoc]

/-- Three signed bytes, put together by `xor`: the fourth byte is what their signs make of it. -/
theorem byteAt_signed_xor :
    let v := placeSigned 32 c 16 ^^^ placeSigned 32 b 8 ^^^ placeSigned 32 a 0
    ByteAt v 0 a ∧ ByteAt v 8 (b ^^^ signFill a) ∧ ByteAt v 16 (c ^^^ signFill b ^^^ signFill a) ∧
      ByteAt v 24 (signFill c ^^^ signFill b ^^^ signFill a) := by
  refine ⟨fun i hi => ?_, fun i hi => ?_, fun i hi => ?_, fun i hi => ?_⟩
  all_goals
    simp (disch := omega) only [BitVec.getLsbD_xor, getLsbD_placeSigned, getLsbD_placeSigned_of_lt,
      getLsbD_placeSigned_of_ge, getLsbD_signFill, Bool.false_xor, Nat.zero_add, Nat.sub_zero,
      Nat.add_sub_cancel_left]

/-- Signed or not, four bytes put together are one word, if and only if whatever stands above a byte
    with its sign set is full already. -/
theorem signed_or_eq_iff :
    placeSigned 32 a 0 ||| placeSigned 32 b 8 ||| placeSigned 32 c 16 ||| placeSigned 32 d 24 =
        place 32 a 0 ||| place 32 b 8 ||| place 32 c 16 ||| place 32 d 24 ↔
      (a.msb = true → b = 255#8) ∧ (a.msb = true → c = 255#8) ∧ (b.msb = true → c = 255#8) ∧
        (a.msb = true → d = 255#8) ∧ (b.msb = true → d = 255#8) ∧ (c.msb = true → d = 255#8) := by
  have hsigned := byteAt_signed_or a b c d
  have hplain := byteAt_or a b c d
  simp only [← signFill_or_eq_iff]
  constructor
  · intro h
    simp only [h] at hsigned
    have hb : signFill a ||| b = b := hsigned.2.1.unique hplain.2.1
    have hc : signFill a ||| (signFill b ||| c) = c := hsigned.2.2.1.unique hplain.2.2.1
    have hd : (signFill a ||| signFill b) ||| (signFill c ||| d) = d :=
      hsigned.2.2.2.unique hplain.2.2.2
    obtain ⟨hac, hbc⟩ := or_or_eq_iff.mp hc
    obtain ⟨habd, hcd⟩ := or_or_eq_iff.mp hd
    rw [BitVec.or_assoc] at habd
    obtain ⟨had, hbd⟩ := or_or_eq_iff.mp habd
    exact ⟨hb, hac, hbc, had, hbd, hcd⟩
  · rintro ⟨hb, hac, hbc, had, hbd, hcd⟩
    have hc : signFill a ||| (signFill b ||| c) = c := or_or_eq_iff.mpr ⟨hac, hbc⟩
    have habd : (signFill a ||| signFill b) ||| d = d := by
      rw [BitVec.or_assoc]
      exact or_or_eq_iff.mpr ⟨had, hbd⟩
    have hd : (signFill a ||| signFill b) ||| (signFill c ||| d) = d :=
      or_or_eq_iff.mpr ⟨habd, hcd⟩
    rw [hb, hc, hd] at hsigned
    exact eq_of_byteAt hsigned hplain

/-- The same for three bytes put together by `xor`, if and only if no sign is set. -/
theorem signed_xor_eq_iff :
    placeSigned 32 c 16 ^^^ placeSigned 32 b 8 ^^^ placeSigned 32 a 0 =
        place 32 c 16 ^^^ place 32 b 8 ^^^ place 32 a 0 ↔
      a.msb = false ∧ b.msb = false ∧ c.msb = false := by
  obtain ⟨hs0, hs1, hs2, hs3⟩ := byteAt_signed_xor a b c
  obtain ⟨hp0, hp1, hp2⟩ := byteAt_xor a b c
  have hp3 : ByteAt (place 32 c 16 ^^^ place 32 b 8 ^^^ place 32 a 0) 24 0#8 := by
    intro i hi
    simp (disch := omega) only [BitVec.getLsbD_xor, getLsbD_place_of_outside, BitVec.getLsbD_zero,
      Bool.false_xor]
  constructor
  · intro h
    rw [h] at hs1 hs2 hs3
    have hfa : signFill a = 0#8 := by
      have hb : b ^^^ signFill a = b ^^^ 0#8 := (hs1.unique hp1).trans BitVec.xor_zero.symm
      exact (BitVec.xor_right_inj b).mp hb
    have hfb : signFill b = 0#8 := by
      have hc : c ^^^ signFill b ^^^ signFill a = c ^^^ 0#8 :=
        (hs2.unique hp2).trans BitVec.xor_zero.symm
      rw [hfa, BitVec.xor_zero] at hc
      exact (BitVec.xor_right_inj c).mp hc
    have hfc : signFill c = 0#8 := by
      have hd : signFill c ^^^ signFill b ^^^ signFill a = 0#8 := hs3.unique hp3
      rwa [hfa, hfb, BitVec.xor_zero, BitVec.xor_zero] at hd
    exact ⟨signFill_eq_zero_iff.mp hfa, signFill_eq_zero_iff.mp hfb, signFill_eq_zero_iff.mp hfc⟩
  · rintro ⟨ha, hb, hc⟩
    rw [← signFill_eq_zero_iff] at ha hb hc
    rw [ha, BitVec.xor_zero] at hs1
    rw [ha, hb, BitVec.xor_zero, BitVec.xor_zero] at hs2
    rw [ha, hb, hc, BitVec.xor_zero, BitVec.xor_zero] at hs3
    exact eq_of_byteAt ⟨hs0, hs1, hs2, hs3⟩ ⟨hp0, hp1, hp2, hp3⟩

end SignedBytes

/-! ## Folds

  The two ways in which a step can be injective, in the running value and in what is mixed in, are
  just what is needed at the place where two inputs differ and behind it. -/

section Folds

variable {σ α ι : Type} {f : σ → α → σ}

/-- Different running values stay different. -/
theorem foldl_injective (hacc : ∀ a, Function.Injective fun s => f s a) (l : List α) :
    Function.Injective fun s => l.foldl f s := by
  induction l with
  | nil => exact fun _ _ h => h
  | cons a l ih =>
    intro s s' h
    exact hacc a (ih h)

/-- **One place.**  Two inputs that differ in one place are told apart. -/
theorem foldl_ne_of_single (hacc : ∀ a, Function.Injective fun s => f s a)
    (helem : ∀ s, Function.Injective (f s)) {x y : α} (hne : x ≠ y) (before after : List α) (s : σ) :
    (before ++ x :: after).foldl f s ≠ (before ++ y :: after).foldl f s := by
  rw [List.foldl_append, List.foldl_append, List.foldl_cons, List.foldl_cons]
  intro h
  exact hne (helem _ (foldl_injective hacc after h))

/-- The same for the values of two functions that differ at one index. -/
theorem foldl_map_ne_of_single (hacc : ∀ a, Function.Injective fun s => f s a)
    (helem : ∀ s, Function.Injective (f s)) {l : List ι} (hnodup : l.Nodup) {g g' : ι → α} {i : ι}
    (hi : i ∈ l) (hne : g i ≠ g' i) (hsame : ∀ j, j ≠ i → g j = g' j) (s : σ) :
    (l.map g).foldl f s ≠ (l.map g').foldl f s := by
  obtain ⟨before, after, rfl⟩ := List.append_of_mem hi
  obtain ⟨hafter, -⟩ := List.nodup_cons.mp (List.nodup_append.mp hnodup).2.1
  have hbefore : i ∉ before := fun hmem =>
    (List.nodup_append.mp hnodup).2.2 i hmem i List.mem_cons_self rfl
  have hmap : ∀ l' : List ι, i ∉ l' → l'.map g = l'.map g' := fun l' hl' =>
    List.map_congr_left fun j hj => hsame j fun heq => hl' (heq ▸ hj)
  rw [List.map_append, List.map_cons, List.map_append, List.map_cons, hmap before hbefore,
    hmap after hafter]
  exact foldl_ne_of_single hacc helem hne _ _ s

end Folds

end Nxdb.Lib
