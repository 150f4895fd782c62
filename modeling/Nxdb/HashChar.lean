/-
  The hash of a text where plain `char` is signed.

  The bytes of a `const char*` are read as `char`.  From `0x80` on they are negative where `char` is
  signed, and the sign goes into all higher bytes of the word: in a block, where the bytes are put
  together by `or`, it wipes out what stands there; in the tail, where they are put together by `xor`,
  it inverts it.

  So a text is hashed alike on both sides if each byte from `0x80` on has nothing but `0xff` behind it
  in its word, which must not be the tail (`SignSafe`).  Words that differ can cancel each other out
  further behind, so a single text may come out alike without being so; but not with all its
  beginnings (`hashesAlike_iff`).

  1. What is hashed: of a text of 2^32 bytes or more, the bytes that its length modulo 2^32 leaves
     (`hashedBytes`).
  2. One word: `getBlock_signed_eq_iff` and `tailBlock_signed_eq_iff` say exactly which words come
     out alike.
  3. All beginnings: by strong induction each word comes out alike, since the words before it lead
     to one running value, into which it is mixed (`getBlock_of_beginnings`).
-/
import Nxdb.Clipboard
import Nxdb.HashWord

namespace Nxdb.Hash

open Lib HashMurmurImpl

/-- `strlen` is passed on as a `u32`: what is hashed of a text. -/
def hashedBytes (str : List UInt8) : List UInt8 := str.take (str.length % 2 ^ 32)

/-- Every byte from `0x80` on lies in a whole word, with nothing but `0xff` behind it there. -/
def SignSafe (data : List UInt8) : Prop :=
  ∀ i, 128 ≤ data.getD i 0 →
    i / 4 < data.length / 4 ∧ ∀ j, i < j → j / 4 = i / 4 → data.getD j 0 = 255

/-! ## Signed bytes

  The same four bytes as in `HashWord`, each with its sign in front (`placeSigned`). -/

theorem toBitVec_widenSigned (b : UInt8) :
    (widenSigned b).toBitVec = b.toBitVec.signExtend 32 := by
  have hall : ∀ x : BitVec 8, (widenSigned ⟨x⟩).toBitVec = x.signExtend 32 := by decide +kernel
  exact hall b.toBitVec

theorem toBitVec_getBlock_signed (p : List UInt8) (i : Nat) :
    (getBlock widenSigned p i).toBitVec =
      placeSigned 32 (byteOf p (0 + i * 4)) 0 ||| placeSigned 32 (byteOf p (1 + i * 4)) 8
        ||| placeSigned 32 (byteOf p (2 + i * 4)) 16 ||| placeSigned 32 (byteOf p (3 + i * 4)) 24 := by
  have hread : ∀ k, (read widenSigned p k).toBitVec = (byteOf p k).signExtend 32 :=
    fun k => toBitVec_widenSigned _
  show (read widenSigned p (0 + i * 4)).toBitVec <<< 0 ||| (read widenSigned p (1 + i * 4)).toBitVec <<< 8
    ||| (read widenSigned p (2 + i * 4)).toBitVec <<< 16
    ||| (read widenSigned p (3 + i * 4)).toBitVec <<< 24 = _
  rw [hread, hread, hread, hread]
  rfl

theorem toBitVec_tailBlock_signed {data : List UInt8} (hlen : data.length < 2 ^ 32) :
    (tailBlock widenSigned ⟨data, UInt32.ofNat data.length, 0, 0⟩).toBitVec =
      placeSigned 32 (byteOf data (data.length / 4 * 4 + 2)) 16
        ^^^ placeSigned 32 (byteOf data (data.length / 4 * 4 + 1)) 8
        ^^^ placeSigned 32 (byteOf data (data.length / 4 * 4 + 0)) 0 := by
  have hread : ∀ k, (read widenSigned data k).toBitVec = (byteOf data k).signExtend 32 :=
    fun k => toBitVec_widenSigned _
  have hlow : placeSigned 32 (byteOf data (data.length / 4 * 4 + 0)) 0 =
      (byteOf data (data.length / 4 * 4 + 0)).signExtend 32 := BitVec.shiftLeft_zero _
  rw [tailBlock_eq hlen 0 0 (by decide : widenSigned 0 = 0), hlow]
  show (read widenSigned data _).toBitVec <<< 16 ^^^ (read widenSigned data _).toBitVec <<< 8
    ^^^ (read widenSigned data _).toBitVec = _
  rw [hread, hread, hread]
  rfl

/-- A byte whose sign is set. -/
theorem msb_byteOf {data : List UInt8} {i : Nat} :
    (byteOf data i).msb = true ↔ 128 ≤ data.getD i 0 := by
  rw [BitVec.msb_eq_decide, decide_eq_true_iff]
  exact Iff.rfl

theorem msb_byteOf_eq_false {data : List UInt8} {i : Nat} :
    (byteOf data i).msb = false ↔ ¬128 ≤ data.getD i 0 := by
  rw [← msb_byteOf, Bool.not_eq_true]

theorem byteOf_eq_full {data : List UInt8} {i : Nat} :
    byteOf data i = 255#8 ↔ data.getD i 0 = 255 :=
  UInt8.toBitVec_inj (b := 255)

/-! ## Words that come out alike

  A word at a time, bit by bit: `or` with ones keeps nothing of what was there, so what was there
  must have been ones; `xor` with ones changes all of it, so there must not be any.  `signSafe_iff`
  collects the words of a text. -/

/-- A block comes out alike, if and only if what stands behind a byte from `0x80` on is `0xff`. -/
theorem getBlock_signed_eq_iff {p : List UInt8} {w : Nat} :
    getBlock widenSigned p w = getBlock widenU8 p w ↔
      ∀ i j, i / 4 = w → j / 4 = w → i < j → 128 ≤ p.getD i 0 → p.getD j 0 = 255 := by
  rw [← UInt32.toBitVec_inj, toBitVec_getBlock_signed, toBitVec_getBlock, signed_or_eq_iff]
  simp only [msb_byteOf, byteOf_eq_full]
  constructor
  · rintro ⟨h01, h02, h12, h03, h13, h23⟩ i j hi hj hij
    have hpair : (i = 0 + w * 4 ∧ (j = 1 + w * 4 ∨ j = 2 + w * 4 ∨ j = 3 + w * 4)) ∨
        (i = 1 + w * 4 ∧ (j = 2 + w * 4 ∨ j = 3 + w * 4)) ∨
        (i = 2 + w * 4 ∧ j = 3 + w * 4) := by omega
    rcases hpair with ⟨rfl, rfl | rfl | rfl⟩ | ⟨rfl, rfl | rfl⟩ | ⟨rfl, rfl⟩
    · exact h01
    · exact h02
    · exact h03
    · exact h12
    · exact h13
    · exact h23
  · intro h
    exact ⟨h _ _ (by omega) (by omega) (by omega), h _ _ (by omega) (by omega) (by omega),
      h _ _ (by omega) (by omega) (by omega), h _ _ (by omega) (by omega) (by omega),
      h _ _ (by omega) (by omega) (by omega), h _ _ (by omega) (by omega) (by omega)⟩

theorem getD_of_length_le {data : List UInt8} {i : Nat} (h : data.length ≤ i) :
    data.getD i 0 = 0 := by
  rw [List.getD_eq_getElem?_getD, List.getElem?_eq_none h]
  rfl

/-- The tail comes out alike, if and only if it has no byte from `0x80` on. -/
theorem tailBlock_signed_eq_iff {data : List UInt8} (hlen : data.length < 2 ^ 32) :
    tailBlock widenSigned ⟨data, UInt32.ofNat data.length, 0, 0⟩ =
        tailBlock widenU8 ⟨data, UInt32.ofNat data.length, 0, 0⟩ ↔
      ∀ i, i / 4 = data.length / 4 → ¬128 ≤ data.getD i 0 := by
  rw [← UInt32.toBitVec_inj, toBitVec_tailBlock_signed hlen, toBitVec_tailBlock hlen,
    signed_xor_eq_iff, msb_byteOf_eq_false, msb_byteOf_eq_false, msb_byteOf_eq_false]
  constructor
  · rintro ⟨h0, h1, h2⟩ i hi
    have hoffset : i = data.length / 4 * 4 + 0 ∨ i = data.length / 4 * 4 + 1 ∨
        i = data.length / 4 * 4 + 2 ∨ data.length ≤ i := by omega
    rcases hoffset with rfl | rfl | rfl | hout
    · exact h0
    · exact h1
    · exact h2
    · rw [getD_of_length_le hout]
      decide
  · intro h
    exact ⟨h _ (by omega), h _ (by omega), h _ (by omega)⟩

/-- **Safe texts** are those of which every word comes out alike. -/
theorem signSafe_iff {data : List UInt8} (hlen : data.length < 2 ^ 32) :
    SignSafe data ↔
      (∀ w < data.length / 4, getBlock widenSigned data w = getBlock widenU8 data w) ∧
        tailBlock widenSigned ⟨data, UInt32.ofNat data.length, 0, 0⟩ =
          tailBlock widenU8 ⟨data, UInt32.ofNat data.length, 0, 0⟩ := by
  rw [tailBlock_signed_eq_iff hlen]
  simp only [getBlock_signed_eq_iff]
  constructor
  · intro h
    constructor
    · intro w _ i j hi hj hij hhigh
      exact (h i hhigh).2 j hij (hj.trans hi.symm)
    · intro i hi hhigh
      exact absurd (h i hhigh).1 (by omega)
  · rintro ⟨hblocks, htail⟩ i hhigh
    have hi : i < data.length := by
      by_contra hout
      rw [getD_of_length_le (Nat.le_of_not_lt hout)] at hhigh
      exact absurd hhigh (by decide)
    have hword : i / 4 < data.length / 4 := by
      have hne : i / 4 ≠ data.length / 4 := fun heq => htail i heq hhigh
      omega
    exact ⟨hword, fun j hij hj => hblocks _ hword i j rfl hj hij hhigh⟩

/-! ## What is hashed

  The length goes through a `u32`, so of a text of `2 ^ 32` bytes and more only the rest is hashed.
  What lies behind it is not read, and makes no difference (`hashMurmurStr_eq`). -/

theorem read_take (widen : Widen) (xs : List UInt8) {m k : Nat} (h : k < m) :
    read widen (xs.take m) k = read widen xs k := by
  rw [read, read, List.getD_eq_getElem?_getD, List.getD_eq_getElem?_getD,
    List.getElem?_take_of_lt h]

theorem getBlock_take (widen : Widen) (xs : List UInt8) {m i : Nat} (h : i < m / 4) :
    getBlock widen (xs.take m) i = getBlock widen xs i := by
  rw [getBlock, read_take widen xs (by omega), read_take widen xs (by omega),
    read_take widen xs (by omega), read_take widen xs (by omega)]
  rfl

theorem length_hashedBytes (str : List UInt8) : (hashedBytes str).length = str.length % 2 ^ 32 := by
  rw [hashedBytes, List.length_take]
  exact Nat.min_eq_left (Nat.mod_le _ _)

theorem length_hashedBytes_lt (str : List UInt8) : (hashedBytes str).length < 2 ^ 32 := by
  rw [length_hashedBytes]
  exact Nat.mod_lt _ (by decide)

/-- All of a text, unless it is that long. -/
theorem hashedBytes_of_lt {str : List UInt8} (h : str.length < 2 ^ 32) : hashedBytes str = str := by
  rw [hashedBytes, Nat.mod_eq_of_lt h, List.take_length]

/-- The other bytes of the text make no difference. -/
theorem hashMurmurStr_eq (widen : Widen) (str : List UInt8) (seed : UInt32) :
    hashMurmurStr widen str seed =
      hashMurmurImpl widen (hashedBytes str) (UInt32.ofNat (hashedBytes str).length) seed := by
  have hlen := length_hashedBytes_lt str
  have hofNat : UInt32.ofNat str.length = UInt32.ofNat (hashedBytes str).length := by
    apply UInt32.toNat_inj.mp
    rw [UInt32.toNat_ofNat', UInt32.toNat_ofNat', length_hashedBytes, Nat.mod_mod]
  have hread : ∀ k, k < (hashedBytes str).length →
      read widen (hashedBytes str) k = read widen str k := by
    intro k hk
    rw [length_hashedBytes] at hk
    exact read_take widen str hk
  have hblocks : (List.range' 0 ((hashedBytes str).length / 4)).map (getBlock widen str) =
      (List.range' 0 ((hashedBytes str).length / 4)).map (getBlock widen (hashedBytes str)) := by
    refine List.map_congr_left fun i hi => (getBlock_take widen str ?_).symm
    rw [← length_hashedBytes]
    have := (List.mem_range'_1.mp hi).2
    omega
  have htail : ∀ hashValue, tailBlock widen ⟨str, UInt32.ofNat (hashedBytes str).length, seed, hashValue⟩ =
      tailBlock widen ⟨hashedBytes str, UInt32.ofNat (hashedBytes str).length, seed, hashValue⟩ := by
    intro hashValue
    simp only [tailBlock, rem_len hlen, tail_len hlen]
    -- one to three bytes may be left over, and each has its own branch
    have hrem : (hashedBytes str).length % 4 = 0 ∨ (hashedBytes str).length % 4 = 1 ∨
        (hashedBytes str).length % 4 = 2 ∨ (hashedBytes str).length % 4 = 3 := by omega
    rcases hrem with h | h | h | h
    · simp [h]
    · simp [h, hread _ (by omega : (hashedBytes str).length / 4 * 4 < _)]
    · simp [h, hread _ (by omega : (hashedBytes str).length / 4 * 4 < _),
        hread _ (by omega : (hashedBytes str).length / 4 * 4 + 1 < _)]
    · simp [h, hread _ (by omega : (hashedBytes str).length / 4 * 4 < _),
        hread _ (by omega : (hashedBytes str).length / 4 * 4 + 1 < _),
        hread _ (by omega : (hashedBytes str).length / 4 * 4 + 2 < _)]
  unfold hashMurmurStr hashMurmurImpl calculateWithCallback finalize
  simp only [HashMurmurImpl.init, hofNat, nblocks_len hlen, mixBlocks_eq_foldl, hblocks, htail]

/-- The text of the `static_assert` that only the sysmodule's copy of the code has. -/
def assertedBytes : List UInt8 :=
  [108, 107, 100, 106, 116, 103, 108, 106, 107, 119, 101, 114, 108, 107, 103, 118, 101, 114, 35,
   103, 35, 195, 164, 195, 164, 53, 114, 43, 35, 195, 164, 35, 50, 51, 195, 188, 52, 35, 50, 195,
   188, 51, 52, 50, 48, 51, 57, 53, 57, 48, 52, 101, 51, 114, 56, 105, 57]

-- it holds where `char` is not signed, and not where it is
example : hashMurmurStr widenU8 assertedBytes 0xB00B1E6 = 0xcaafb947 ∧
    hashMurmurStr widenSigned assertedBytes 0xB00B1E6 ≠ 0xcaafb947 := by
  decide +kernel

/-- **A safe text** is hashed alike. -/
theorem hashMurmurStr_of_safe {str : List UInt8} (h : SignSafe (hashedBytes str)) (seed : UInt32) :
    hashMurmurStr widenSigned str seed = hashMurmurStr widenU8 str seed := by
  have hlen := length_hashedBytes_lt str
  obtain ⟨hblocks, htail⟩ := (signSafe_iff hlen).mp h
  have hsame : blocksOf widenSigned (hashedBytes str) = blocksOf widenU8 (hashedBytes str) := by
    refine List.map_congr_left fun i hi => hblocks i ?_
    have := (List.mem_range'_1.mp hi).2
    omega
  rw [hashMurmurStr_eq, hashMurmurStr_eq, hashMurmurImpl_eq hlen, hashMurmurImpl_eq hlen, hsame,
    mixedTailOf, mixedTailOf, htail]

/-! ## Texts and their beginnings

  Why a single text says too little: a word that comes out otherwise may be made up for by a later
  one.  A beginning that ends with the word has no later one, and the mixing of blocks is injective
  in both arguments, so among the beginnings the first word that differs shows
  (`getBlock_of_beginnings`). -/

/-- The first `k` words of a text. -/
def takeWords (t : Text) (k : Nat) : Text :=
  ⟨t.bytes.take (4 * k), fun h => t.zero_not_mem (List.mem_of_mem_take h)⟩

/-- Two texts of one length that differ, but only inside one aligned word. -/
structure OneBlockApart (xs ys : List UInt8) : Prop where
  length_eq : xs.length = ys.length
  ne : xs ≠ ys
  word : ∃ w, ∀ i, i / 4 ≠ w → xs[i]? = ys[i]?

/-- The texts of `S` have the hash that their bytes have as `u8`, signed or not, and where `char` is
    signed no two of them that differ inside one word have the same. -/
structure HashesAlike (seed : UInt32) (S : Text → Prop) : Prop where
  alike : ∀ t, S t → hashMurmurStr widenSigned t.bytes seed = hashMurmurStr widenU8 t.bytes seed ∧
    hashMurmurStr widenU8 t.bytes seed = hashMurmur t.bytes (UInt32.ofNat t.bytes.length) seed
  apart : ∀ t u, S t → S u → OneBlockApart t.bytes u.bytes →
    hashMurmurStr widenSigned t.bytes seed ≠ hashMurmurStr widenSigned u.bytes seed

section Beginnings

variable {data : List UInt8} (seed : UInt32)

/-- The blocks of a beginning: those of the words before the last, and the last. -/
theorem blocksOf_take (widen : Widen) {w : Nat} (h : w < data.length / 4) :
    blocksOf widen (data.take (4 * (w + 1))) =
      (List.range' 0 w).map (getBlock widen data) ++ [getBlock widen data w] := by
  have hcount : (data.take (4 * (w + 1))).length / 4 = w + 1 := by
    rw [List.length_take]
    omega
  have hmap : (List.range' 0 (w + 1)).map (getBlock widen (data.take (4 * (w + 1)))) =
      (List.range' 0 (w + 1)).map (getBlock widen data) := by
    refine List.map_congr_left fun i hi => getBlock_take widen data ?_
    have := (List.mem_range'_1.mp hi).2
    omega
  rw [blocksOf, hcount, hmap, List.range'_1_concat, List.map_append, Nat.zero_add, List.map_singleton]

/-- If all beginnings of whole words are hashed alike, each word comes out alike: the words before it
    lead to one running value, in which it is mixed. -/
theorem getBlock_of_beginnings (hlen : data.length < 2 ^ 32)
    (h : ∀ k, k ≤ data.length / 4 →
      hashMurmurStr widenSigned (data.take (4 * k)) seed = hashMurmurStr widenU8 (data.take (4 * k)) seed) :
    ∀ w < data.length / 4, getBlock widenSigned data w = getBlock widenU8 data w := by
  intro w
  induction w using Nat.strong_induction_on with
  | _ w ih =>
    intro hw
    have htake : (data.take (4 * (w + 1))).length = 4 * (w + 1) := by
      rw [List.length_take]
      omega
    have hshort : (data.take (4 * (w + 1))).length < 2 ^ 32 := by omega
    have hwhole : (data.take (4 * (w + 1))).length % 4 = 0 := by omega
    have hhashed : hashedBytes (data.take (4 * (w + 1))) = data.take (4 * (w + 1)) := by
      rw [hashedBytes, Nat.mod_eq_of_lt hshort, List.take_length]
    have hbefore : (List.range' 0 w).map (getBlock widenSigned data) =
        (List.range' 0 w).map (getBlock widenU8 data) := by
      refine List.map_congr_left fun i hi => ?_
      have hiw := (List.mem_range'_1.mp hi).2
      exact ih i (by omega) (by omega)
    have hhash := h (w + 1) hw
    rw [hashMurmurStr_eq, hashMurmurStr_eq, hhashed, hashMurmurImpl_eq hshort,
      hashMurmurImpl_eq hshort, mixedTailOf, mixedTailOf, if_pos hwhole, if_pos hwhole] at hhash
    have hfold := (UInt32.xor_left_inj _).mp ((UInt32.xor_left_inj _).mp (finalMix_injective hhash))
    rw [blocksOf_take widenSigned hw, blocksOf_take widenU8 hw, hbefore, List.foldl_append,
      List.foldl_append] at hfold
    exact mixBlock_injective_right _ hfold

/-- If a text and all its beginnings of whole words are hashed alike, the text is safe. -/
theorem signSafe_of_beginnings (hlen : data.length < 2 ^ 32)
    (h : ∀ k, k ≤ data.length / 4 →
      hashMurmurStr widenSigned (data.take (4 * k)) seed = hashMurmurStr widenU8 (data.take (4 * k)) seed)
    (hall : hashMurmurImpl widenSigned data (UInt32.ofNat data.length) seed =
      hashMurmurImpl widenU8 data (UInt32.ofNat data.length) seed) : SignSafe data := by
  have hblocks := getBlock_of_beginnings seed hlen h
  refine (signSafe_iff hlen).mpr ⟨hblocks, ?_⟩
  have hsame : blocksOf widenSigned data = blocksOf widenU8 data := by
    refine List.map_congr_left fun i hi => hblocks i ?_
    have := (List.mem_range'_1.mp hi).2
    omega
  rw [hashMurmurImpl_eq hlen, hashMurmurImpl_eq hlen, hsame] at hall
  have htail := (UInt32.xor_right_inj _).mp ((UInt32.xor_left_inj _).mp (finalMix_injective hall))
  unfold mixedTailOf at htail
  by_cases hwhole : data.length % 4 = 0
  · -- no tail: the bytes behind the last word are not there
    refine (tailBlock_signed_eq_iff hlen).mpr fun i hi => ?_
    rw [getD_of_length_le (by omega)]
    decide
  · rw [if_neg hwhole, if_neg hwhole] at htail
    exact scramble_injective htail

end Beginnings

/-- What is hashed of two texts that differ inside one word differs there, or not at all. -/
theorem OneBlockApart.hashed {xs ys : List UInt8} (h : OneBlockApart xs ys)
    (hne : hashedBytes xs ≠ hashedBytes ys) : OneWordApart (hashedBytes xs) (hashedBytes ys) where
  length_eq := by rw [length_hashedBytes, length_hashedBytes, h.length_eq]
  length_lt := length_hashedBytes_lt xs
  ne := hne
  word := by
    obtain ⟨w, hw⟩ := h.word
    refine ⟨w, fun i hi => ?_⟩
    unfold hashedBytes
    rw [h.length_eq, List.getElem?_take, List.getElem?_take, hw i hi]

/-- **Signed or not.**  In every set of texts that has with a text its beginnings of whole words: all
    texts have the hash of their bytes as `u8` where `char` is signed, and those that differ inside
    one word have different ones, if and only if what is hashed of each text is safe, and differs
    where the texts do. -/
theorem hashesAlike_iff (seed : UInt32) (S : Text → Prop)
    (hS : ∀ t, S t → ∀ k, S (takeWords t k)) :
    HashesAlike seed S ↔ (∀ t, S t → SignSafe (hashedBytes t.bytes)) ∧
      ∀ t u, S t → S u → OneBlockApart t.bytes u.bytes →
        hashedBytes t.bytes ≠ hashedBytes u.bytes := by
  constructor
  · rintro ⟨halike, hapart⟩
    constructor
    · intro t ht
      have hlen := length_hashedBytes_lt t.bytes
      refine signSafe_of_beginnings seed hlen (fun k hk => ?_) ?_
      · have htake : (hashedBytes t.bytes).take (4 * k) = (takeWords t k).bytes := by
          rw [length_hashedBytes] at hk
          show (t.bytes.take (t.bytes.length % 2 ^ 32)).take (4 * k) = t.bytes.take (4 * k)
          rw [List.take_take, Nat.min_eq_left (by omega)]
        rw [htake]
        exact (halike _ (hS t ht k)).1
      · rw [← hashMurmurStr_eq, ← hashMurmurStr_eq]
        exact (halike t ht).1
    · intro t u ht hu h heq
      refine hapart t u ht hu h ?_
      rw [hashMurmurStr_eq, hashMurmurStr_eq, heq]
  · rintro ⟨hsafe, hdiffer⟩
    constructor
    · intro t ht
      exact ⟨hashMurmurStr_of_safe (hsafe t ht) seed, rfl⟩
    · intro t u ht hu h
      rw [hashMurmurStr_of_safe (hsafe t ht), hashMurmurStr_of_safe (hsafe u hu), hashMurmurStr_eq,
        hashMurmurStr_eq]
      exact hashMurmur_ne (h.hashed (hdiffer t u ht hu h)) seed

/-! ## ASCII, and not

  Both directions at work: a set of two ASCII texts is hashed alike, and a text with an accent in it
  is not. -/

/-- A text without a byte from `0x80` on is safe. -/
theorem signSafe_of_ascii {data : List UInt8} (h : ∀ b ∈ data, b < 128) : SignSafe data := by
  intro i hhigh
  rcases Nat.lt_or_ge i data.length with hi | hi
  · rw [List.getD_eq_getElem _ _ hi] at hhigh
    exact absurd hhigh (UInt8.not_le.mpr (h _ (List.getElem_mem hi)))
  · rw [getD_of_length_le hi] at hhigh
    exact absurd hhigh (by decide)

/-- The bytes of `meow`. -/
def meowBytes : List UInt8 := [109, 101, 111, 119]

theorem zero_not_mem_meowBytes : 0 ∉ meowBytes := by decide

theorem ascii_meowBytes : ∀ b ∈ meowBytes, b < 128 := by
  have hall : meowBytes.all (fun b => decide (b < 128)) = true := by decide
  exact fun b hb => of_decide_eq_true (List.all_eq_true.mp hall b hb)

def meow : Text := ⟨meowBytes, zero_not_mem_meowBytes⟩

/-- `meow` and its beginning. -/
def IsMeow (t : Text) : Prop := t = Text.empty ∨ t = meow

theorem isMeow_takeWords (t : Text) (ht : IsMeow t) (k : Nat) : IsMeow (takeWords t k) := by
  rcases ht with rfl | rfl
  · exact Or.inl (by simp [takeWords, Text.empty])
  · cases k with
    | zero => exact Or.inl rfl
    | succ k =>
      have hall : meowBytes.take (4 * (k + 1)) = meowBytes :=
        List.take_of_length_le (show 4 ≤ 4 * (k + 1) by omega)
      exact Or.inr (by simp only [takeWords, meow, hall])

theorem IsMeow.hashedBytes_eq {t : Text} (ht : IsMeow t) : hashedBytes t.bytes = t.bytes := by
  rcases ht with rfl | rfl
  · exact hashedBytes_of_lt (by decide)
  · exact hashedBytes_of_lt (by decide)

theorem hashesAlike_meow : HashesAlike 0 IsMeow := by
  refine (hashesAlike_iff 0 IsMeow isMeow_takeWords).mpr ⟨fun t ht => ?_, fun t u ht hu h => ?_⟩
  · rw [ht.hashedBytes_eq]
    apply signSafe_of_ascii
    rcases ht with rfl | rfl
    · exact fun b hb => absurd hb List.not_mem_nil
    · exact ascii_meowBytes
  · rw [ht.hashedBytes_eq, hu.hashedBytes_eq]
    exact h.ne

/-- The UTF-8 of `aéb`. -/
def accentedB : List UInt8 := [97, 195, 169, 98]

/-- The UTF-8 of `aéc`. -/
def accentedC : List UInt8 := [97, 195, 169, 99]

theorem zero_not_mem_accented : 0 ∉ accentedB ∧ 0 ∉ accentedC := by decide

theorem oneBlockApart_accented : OneBlockApart accentedB accentedC where
  length_eq := rfl
  ne := by decide
  word := by
    refine ⟨0, fun i hi => ?_⟩
    rw [List.getElem?_eq_none (show 4 ≤ i by omega), List.getElem?_eq_none (show 4 ≤ i by omega)]

/-- An accent makes a text come out otherwise where `char` is signed, and what is behind it in the
    word makes no difference there. -/
theorem not_hashesAlike_accented :
    hashMurmurStr widenSigned accentedB 0 ≠ hashMurmurStr widenU8 accentedB 0 ∧
      (OneBlockApart accentedB accentedC ∧
        hashMurmurStr widenSigned accentedB 0 = hashMurmurStr widenSigned accentedC 0) ∧
      ¬HashesAlike 0 fun _ => True := by
  have hother : hashMurmurStr widenSigned accentedB 0 ≠ hashMurmurStr widenU8 accentedB 0 := by
    decide +kernel
  refine ⟨hother, ⟨oneBlockApart_accented, by decide +kernel⟩, fun h => ?_⟩
  exact hother (h.alike ⟨accentedB, zero_not_mem_accented.1⟩ trivial).1

end Nxdb.Hash
