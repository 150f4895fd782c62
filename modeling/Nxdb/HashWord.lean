/-
  A change inside one word: `hashMurmur`, `hashImDrawList` and `packImDrawData` never miss it.

  Every step of the hash is injective (the multipliers are odd, the rest are rotations, xors and
  xored shifts), so two buffers of one length that differ in one aligned word, or in the bytes
  behind the last one, mix in different words at one place and agree everywhere else.

  1. The steps: each has an inverse.
  2. The three parts: `hashMurmurImpl_eq` writes the hash as a fold over the blocks, an `xor` with
     the tail and a last mix.
  3. One word: `Lib.foldl_ne_of_single` for a block, the tail being the same, and the other way
     round.
  4. Up to the wire: the hash of the list is a sum of three, of which one changes; and a list whose
     hash is not the stored one is written in full.
-/
import Nxdb.Codec
import Nxdb.Lib.Mix
import Mathlib.Data.List.GetD

namespace Nxdb

open Lib

namespace Hash

/-! ## The steps

  Each step has an inverse, which is all that is used of it: multiplication by the inverse of an odd
  number, the rotation back, and for `h ^^^ (h >>> k)` the upper bits, which it leaves alone. -/

/-- A function on words, by what it does to their bits. -/
theorem injective_of_toBitVec {f : UInt32 → UInt32} {g : BitVec 32 → BitVec 32}
    (hg : Function.Injective g) (hfg : ∀ x, (f x).toBitVec = g x.toBitVec) :
    Function.Injective f := by
  intro x y h
  have hbits : g x.toBitVec = g y.toBitVec := by rw [← hfg, ← hfg, h]
  exact UInt32.toBitVec_inj.mp (hg hbits)

/-- Multiplication by a number that has an inverse, as every odd number does modulo 2^32. -/
theorem mul_injective {c : UInt32} (d : UInt32) (h : c * d = 1) :
    Function.Injective fun x : UInt32 => x * c :=
  injective_of_toBitVec (Lib.mul_injective (congrArg UInt32.toBitVec h)) fun _ => rfl

/-- The rotation of a block ... -/
theorem rotateLeft32_15_injective : Function.Injective fun x => rotateLeft32 x 15 :=
  injective_of_toBitVec (rotateLeft_injective (by decide : 15 < 32)) fun _ => rfl

/-- ... and the one of the value. -/
theorem rotateLeft32_13_injective : Function.Injective fun x => rotateLeft32 x 13 :=
  injective_of_toBitVec (rotateLeft_injective (by decide : 13 < 32)) fun _ => rfl

/-- The two shifts of the last mix: the upper bits stay, and give the lower ones back. -/
theorem xorShift16_injective : Function.Injective fun h : UInt32 => h ^^^ (h >>> 16) :=
  injective_of_toBitVec (xorShift_injective (by decide : 0 < 16)) fun _ => rfl

theorem xorShift13_injective : Function.Injective fun h : UInt32 => h ^^^ (h >>> 13) :=
  injective_of_toBitVec (xorShift_injective (by decide : 0 < 13)) fun _ => rfl

/-- So the last mix loses nothing ... -/
theorem finalMix_injective : Function.Injective finalMix := by
  have hfirst := mul_injective (c := 0x85ebca6b) 0xa5cb9243 (by decide)
  have hsecond := mul_injective (c := 0xc2b2ae35) 0x7ed1b41d (by decide)
  intro x y h
  exact xorShift16_injective (hfirst (xorShift13_injective (hsecond (xorShift16_injective h))))

namespace HashMurmurImpl

/-- ... nor does what is done to a block. -/
theorem scramble_injective : Function.Injective scramble := by
  have hc1 := mul_injective (c := c1) 0xdee13bb1 (by decide)
  have hc2 := mul_injective (c := c2) 0x56ed309b (by decide)
  intro x y h
  exact hc1 (rotateLeft32_15_injective (hc2 h))

/-- Mixing in a block, by the value before. -/
theorem mixBlock_injective_left (k : UInt32) : Function.Injective fun h => mixBlock h k := by
  have hfive := mul_injective (c := 5) 0xcccccccd (by decide)
  intro x y h
  have hrotated := hfive ((UInt32.add_left_inj c3).mp h)
  exact (UInt32.xor_left_inj _).mp (rotateLeft32_13_injective hrotated)

/-- Mixing in a block, by the block. -/
theorem mixBlock_injective_right (h : UInt32) : Function.Injective (mixBlock h) := by
  have hfive := mul_injective (c := 5) 0xcccccccd (by decide)
  intro k l hkl
  have hrotated := hfive ((UInt32.add_left_inj c3).mp hkl)
  exact scramble_injective ((UInt32.xor_right_inj _).mp (rotateLeft32_13_injective hrotated))

theorem mixBlocks_succ (widen : Widen) (p : List UInt8) (hashValue : UInt32) (i n : Nat) :
    mixBlocks widen p hashValue i (n + 1) =
      mixBlocks widen p (mixBlock hashValue (getBlock widen p i)) (i + 1) n := by
  -- the equation lemma would unfold the arithmetic of `mixBlock` as well
  delta mixBlocks
  rfl

/-- The loop over the blocks as a fold over their values. -/
theorem mixBlocks_eq_foldl (widen : Widen) (p : List UInt8) (n : Nat) :
    ∀ (hashValue : UInt32) (i : Nat), mixBlocks widen p hashValue i n =
      ((List.range' i n).map (getBlock widen p)).foldl mixBlock hashValue := by
  induction n with
  | zero => exact fun _ _ => rfl
  | succ n ih =>
    intro hashValue i
    rw [mixBlocks_succ, ih, List.range'_succ, List.map_cons, List.foldl_cons]

end HashMurmurImpl

/-! ## Blocks and tails

  A block is its four bytes in their places, so it determines them.  The tail is treated in the same
  way, with zeros for the bytes that are missing. -/

/-- A byte of a buffer. -/
def byteOf (data : List UInt8) (offset : Nat) : BitVec 8 := (data.getD offset 0).toBitVec

/-- A block, by its four bytes. -/
theorem toBitVec_getBlock (p : List UInt8) (i : Nat) :
    (getBlock widenU8 p i).toBitVec =
      place 32 (byteOf p (0 + i * 4)) 0 ||| place 32 (byteOf p (1 + i * 4)) 8
        ||| place 32 (byteOf p (2 + i * 4)) 16 ||| place 32 (byteOf p (3 + i * 4)) 24 := rfl

/-- A block determines its bytes. -/
theorem byteOf_eq_of_getBlock {xs ys : List UInt8} {w : Nat}
    (h : getBlock widenU8 xs w = getBlock widenU8 ys w) {i : Nat} (hi : i / 4 = w) :
    byteOf xs i = byteOf ys i := by
  have hbits := congrArg UInt32.toBitVec h
  rw [toBitVec_getBlock, toBitVec_getBlock] at hbits
  obtain ⟨hx0, hx1, hx2, hx3⟩ := byteAt_or (byteOf xs (0 + w * 4)) (byteOf xs (1 + w * 4))
    (byteOf xs (2 + w * 4)) (byteOf xs (3 + w * 4))
  rw [hbits] at hx0 hx1 hx2 hx3
  obtain ⟨hy0, hy1, hy2, hy3⟩ := byteAt_or (byteOf ys (0 + w * 4)) (byteOf ys (1 + w * 4))
    (byteOf ys (2 + w * 4)) (byteOf ys (3 + w * 4))
  have hoffset : i = 0 + w * 4 ∨ i = 1 + w * 4 ∨ i = 2 + w * 4 ∨ i = 3 + w * 4 := by omega
  rcases hoffset with rfl | rfl | rfl | rfl
  · exact hx0.unique hy0
  · exact hx1.unique hy1
  · exact hx2.unique hy2
  · exact hx3.unique hy3

/-- A word determines its bytes, and is determined by them. -/
theorem getBlock_congr {xs ys : List UInt8} {w : Nat}
    (h : ∀ i, i / 4 = w → byteOf xs i = byteOf ys i) :
    getBlock widenU8 xs w = getBlock widenU8 ys w := by
  apply UInt32.toBitVec_inj.mp
  rw [toBitVec_getBlock, toBitVec_getBlock, h _ (by omega), h _ (by omega), h _ (by omega),
    h _ (by omega)]

/-! ## One word

  The hash is a fold over the blocks, an `xor` with the tail and a last mix (`hashMurmurImpl_eq`).
  If the buffers differ in a block, the values before it are the same and those behind it differ,
  and what comes after is injective; if they differ in the tail, the fold is the same. -/

/-- Two buffers of the same length that differ, but only inside one aligned word or only in the
    bytes behind the last one. -/
structure OneWordApart (xs ys : List UInt8) : Prop where
  length_eq : xs.length = ys.length
  length_lt : xs.length < 2 ^ 32
  ne : xs ≠ ys
  word : ∃ w, ∀ i, i / 4 ≠ w → xs[i]? = ys[i]?

theorem byteOf_congr {xs ys : List UInt8} {i : Nat} (h : xs[i]? = ys[i]?) :
    byteOf xs i = byteOf ys i := by
  rw [byteOf, byteOf, List.getD_eq_getElem?_getD, List.getD_eq_getElem?_getD, h]

/-- Buffers of one length are their bytes. -/
theorem eq_of_byteOf {xs ys : List UInt8} (hlen : xs.length = ys.length)
    (h : ∀ i, i < xs.length → byteOf xs i = byteOf ys i) : xs = ys := by
  apply List.ext_getElem hlen
  intro i hx hy
  have hbyte := UInt8.toBitVec_inj.mp (h i hx)
  rwa [List.getD_eq_getElem _ _ hx, List.getD_eq_getElem _ _ hy] at hbyte

section Tail

variable {data : List UInt8} (hlen : data.length < 2 ^ 32) (seed hashValue : UInt32)

include hlen in
theorem toNat_len : (UInt32.ofNat data.length).toNat = data.length := by
  rw [UInt32.toNat_ofNat', Nat.mod_eq_of_lt hlen]

include hlen in
theorem nblocks_len : HashMurmurImpl.nblocks (UInt32.ofNat data.length) = data.length / 4 := by
  rw [HashMurmurImpl.nblocks, UInt32.toNat_div, toNat_len hlen]
  rfl

include hlen in
theorem rem_len : (UInt32.ofNat data.length &&& 3).toNat = data.length % 4 := by
  rw [UInt32.toNat_and, toNat_len hlen]
  exact Nat.and_two_pow_sub_one_eq_mod data.length 2

include hlen in
theorem tail_len : (UInt32.ofNat data.length - UInt32.ofNat data.length % 4).toNat =
    data.length / 4 * 4 := by
  have hmod : (UInt32.ofNat data.length % 4).toNat = data.length % 4 := by
    rw [UInt32.toNat_mod, toNat_len hlen]
    rfl
  have hle : UInt32.ofNat data.length % 4 ≤ UInt32.ofNat data.length := by
    rw [UInt32.le_iff_toNat_le, hmod, toNat_len hlen]
    exact Nat.mod_le _ _
  rw [UInt32.toNat_sub_of_le _ _ hle, hmod, toNat_len hlen]
  omega

include hlen in
/-- The tail: its missing bytes are zero. -/
theorem tailBlock_eq {widen : Widen} (hzero : widen 0 = 0) :
    HashMurmurImpl.tailBlock widen ⟨data, UInt32.ofNat data.length, seed, hashValue⟩ =
      read widen data (data.length / 4 * 4 + 2) <<< 16
        ^^^ read widen data (data.length / 4 * 4 + 1) <<< 8
        ^^^ read widen data (data.length / 4 * 4 + 0) := by
  have hout : ∀ k, data.length ≤ data.length / 4 * 4 + k →
      read widen data (data.length / 4 * 4 + k) = 0 := by
    intro k hk
    rw [read, List.getD_eq_getElem?_getD, List.getElem?_eq_none hk]
    exact hzero
  have hrem : data.length % 4 = 0 ∨ data.length % 4 = 1 ∨ data.length % 4 = 2 ∨
      data.length % 4 = 3 := by omega
  rw [HashMurmurImpl.tailBlock]
  simp only [rem_len hlen, tail_len hlen]
  rcases hrem with h | h | h | h
  · rw [h, hout 0 (by omega), hout 1 (by omega), hout 2 (by omega)]
    rfl
  · rw [h, hout 1 (by omega), hout 2 (by omega)]
    simp
  · rw [h, hout 2 (by omega)]
    simp
  · rw [h]
    simp

include hlen in
/-- The tail of a `u8` buffer, its bytes in their places. -/
theorem toBitVec_tailBlock :
    (HashMurmurImpl.tailBlock widenU8
        ⟨data, UInt32.ofNat data.length, seed, hashValue⟩).toBitVec =
      place 32 (byteOf data (data.length / 4 * 4 + 2)) 16
        ^^^ place 32 (byteOf data (data.length / 4 * 4 + 1)) 8
        ^^^ place 32 (byteOf data (data.length / 4 * 4 + 0)) 0 := by
  have hlow : place 32 (byteOf data (data.length / 4 * 4 + 0)) 0 =
      (byteOf data (data.length / 4 * 4 + 0)).setWidth 32 := BitVec.shiftLeft_zero _
  rw [tailBlock_eq hlen seed hashValue rfl, hlow]
  rfl

/-- The blocks of a buffer. -/
def blocksOf (widen : Widen) (data : List UInt8) : List UInt32 :=
  (List.range' 0 (data.length / 4)).map (getBlock widen data)

/-- The scrambled tail, zero when there is none. -/
def mixedTailOf (widen : Widen) (data : List UInt8) : UInt32 :=
  if data.length % 4 = 0 then 0
  else HashMurmurImpl.scramble
    (HashMurmurImpl.tailBlock widen ⟨data, UInt32.ofNat data.length, 0, 0⟩)

include hlen in
/-- **The hash in three parts**: the blocks, the tail and the final mix. -/
theorem hashMurmurImpl_eq (widen : Widen) :
    hashMurmurImpl widen data (UInt32.ofNat data.length) seed =
      finalMix ((blocksOf widen data).foldl HashMurmurImpl.mixBlock seed ^^^ mixedTailOf widen data
        ^^^ UInt32.ofNat data.length) := by
  have hzero : UInt32.ofNat data.length &&& 3 = 0 ↔ data.length % 4 = 0 := by
    rw [← UInt32.toNat_inj, rem_len hlen]
    rfl
  rw [hashMurmurImpl, HashMurmurImpl.calculateWithCallback, HashMurmurImpl.finalize]
  simp only [HashMurmurImpl.init, nblocks_len hlen, HashMurmurImpl.mixBlocks_eq_foldl]
  by_cases h : data.length % 4 = 0
  · rw [if_pos (hzero.mpr h), mixedTailOf, if_pos h, UInt32.xor_zero]
    rfl
  · rw [if_neg (mt hzero.mp h), mixedTailOf, if_neg h]
    rfl

/-- The blocks of a `u8` buffer. -/
def blocks (data : List UInt8) : List UInt32 := blocksOf widenU8 data

/-- Its scrambled tail. -/
def mixedTail (data : List UInt8) : UInt32 := mixedTailOf widenU8 data

include hlen in
/-- **The hash as a fold**: over the blocks, and then the tail and the length. -/
theorem hashMurmur_eq : hashMurmur data (UInt32.ofNat data.length) seed =
    finalMix ((blocks data).foldl HashMurmurImpl.mixBlock seed ^^^ mixedTail data
      ^^^ UInt32.ofNat data.length) :=
  hashMurmurImpl_eq hlen seed widenU8

end Tail

section OneWord

variable {xs ys : List UInt8}

/-- The tail determines its bytes. -/
theorem byteOf_eq_of_mixedTail (hx : xs.length < 2 ^ 32) (hlen : xs.length = ys.length)
    (h : mixedTail xs = mixedTail ys) {i : Nat} (hi : i < xs.length)
    (htail : i / 4 = xs.length / 4) : byteOf xs i = byteOf ys i := by
  have hrem : xs.length % 4 ≠ 0 := by omega
  rw [mixedTail, mixedTail, mixedTailOf, mixedTailOf, if_neg hrem, if_neg (hlen ▸ hrem)] at h
  have hbits := congrArg UInt32.toBitVec (HashMurmurImpl.scramble_injective h)
  rw [toBitVec_tailBlock hx, toBitVec_tailBlock (hlen ▸ hx), ← hlen] at hbits
  obtain ⟨hx0, hx1, hx2⟩ := byteAt_xor (byteOf xs (xs.length / 4 * 4 + 0))
    (byteOf xs (xs.length / 4 * 4 + 1)) (byteOf xs (xs.length / 4 * 4 + 2))
  rw [hbits] at hx0 hx1 hx2
  obtain ⟨hy0, hy1, hy2⟩ := byteAt_xor (byteOf ys (xs.length / 4 * 4 + 0))
    (byteOf ys (xs.length / 4 * 4 + 1)) (byteOf ys (xs.length / 4 * 4 + 2))
  have hoffset : i = xs.length / 4 * 4 + 0 ∨ i = xs.length / 4 * 4 + 1 ∨
      i = xs.length / 4 * 4 + 2 := by omega
  rcases hoffset with rfl | rfl | rfl
  · exact hx0.unique hy0
  · exact hx1.unique hy1
  · exact hx2.unique hy2

/-- Tails of the same bytes. -/
theorem mixedTail_congr (hx : xs.length < 2 ^ 32) (hlen : xs.length = ys.length)
    (h : ∀ i, i / 4 = xs.length / 4 → byteOf xs i = byteOf ys i) : mixedTail xs = mixedTail ys := by
  rw [mixedTail, mixedTail, mixedTailOf, mixedTailOf, ← hlen]
  by_cases hrem : xs.length % 4 = 0
  · rw [if_pos hrem, if_pos hrem]
  · rw [if_neg hrem, if_neg hrem]
    refine congrArg HashMurmurImpl.scramble (UInt32.toBitVec_inj.mp ?_)
    have hy := toBitVec_tailBlock (hlen ▸ hx : ys.length < 2 ^ 32) 0 0
    rw [← hlen] at hy
    rw [toBitVec_tailBlock hx, hy, h _ (by omega), h _ (by omega), h _ (by omega)]

/-- **One word.**  A change inside one word changes the hash. -/
theorem hashMurmur_ne (h : OneWordApart xs ys) (seed : UInt32) :
    hashMurmur xs (UInt32.ofNat xs.length) seed ≠ hashMurmur ys (UInt32.ofNat ys.length) seed := by
  obtain ⟨w, hw⟩ := h.word
  have hbytes : ∀ i, i / 4 ≠ w → byteOf xs i = byteOf ys i := fun i hi => byteOf_congr (hw i hi)
  intro heq
  rw [hashMurmur_eq h.length_lt, hashMurmur_eq (h.length_eq ▸ h.length_lt), ← h.length_eq] at heq
  have hmixed := (UInt32.xor_left_inj _).mp (finalMix_injective heq)
  rcases Nat.lt_or_ge w (xs.length / 4) with hlt | hge
  · -- in a block: the tails are the same, the blocks differ in one place
    have htail : mixedTail xs = mixedTail ys :=
      mixedTail_congr h.length_lt h.length_eq fun i hi => hbytes i (by omega)
    rw [htail] at hmixed
    have hfold := (UInt32.xor_left_inj _).mp hmixed
    have hne : getBlock widenU8 xs w ≠ getBlock widenU8 ys w := by
      intro hblock
      refine h.ne (eq_of_byteOf h.length_eq fun i _ => ?_)
      by_cases hi : i / 4 = w
      · exact byteOf_eq_of_getBlock hblock hi
      · exact hbytes i hi
    rw [blocks, blocks, blocksOf, blocksOf, ← h.length_eq] at hfold
    refine foldl_map_ne_of_single HashMurmurImpl.mixBlock_injective_left
      HashMurmurImpl.mixBlock_injective_right List.nodup_range' ?_ hne ?_ seed hfold
    · exact List.mem_range'_1.mpr ⟨Nat.zero_le _, by omega⟩
    · exact fun j hj => getBlock_congr fun i hi => hbytes i (by omega)
  · -- behind the blocks: they are the same, the tails differ
    have hblocks : blocks xs = blocks ys := by
      rw [blocks, blocks, blocksOf, blocksOf, ← h.length_eq]
      refine List.map_congr_left fun i hi => getBlock_congr fun j hj => hbytes j ?_
      have := (List.mem_range'_1.mp hi).2
      omega
    rw [hblocks] at hmixed
    have htail := (UInt32.xor_right_inj _).mp hmixed
    refine h.ne (eq_of_byteOf h.length_eq fun i hi => ?_)
    by_cases hiw : i / 4 = w
    · exact byteOf_eq_of_mixedTail h.length_lt h.length_eq htail hi (by omega)
    · exact hbytes i hiw

end OneWord

end Hash

open Hash

/-! ## Draw lists

  The three buffers are hashed apart and added up, and a change inside one word is in one of them;
  so one of three summands changes. -/

variable (P : Platform)

namespace ImDrawList

/-- The bytes of the vertices in memory ... -/
def vtxImage (l : ImDrawList) : List UInt8 := l.vtxBuffer.flatMap P.vertImage

/-- ... those of the indices ... -/
def idxImage (l : ImDrawList) : List UInt8 := l.idxBuffer.flatMap idxBytes

/-- ... and those of the commands. -/
def cmdImage (l : ImDrawList) : List UInt8 := l.cmdBuffer.flatMap P.cmdImage

/-- The bytes of two lists are the same except inside one word of one of the buffers. -/
inductive WordChanged (a b : ImDrawList) : Prop where
  | vtx (h : OneWordApart (a.vtxImage P) (b.vtxImage P)) (idx : a.idxImage = b.idxImage)
      (cmd : a.cmdImage P = b.cmdImage P)
  | idx (vtx : a.vtxImage P = b.vtxImage P) (h : OneWordApart a.idxImage b.idxImage)
      (cmd : a.cmdImage P = b.cmdImage P)
  | cmd (vtx : a.vtxImage P = b.vtxImage P) (idx : a.idxImage = b.idxImage)
      (h : OneWordApart (a.cmdImage P) (b.cmdImage P))

theorem hashImDrawList_eq (l : ImDrawList) : hashImDrawList P l =
    0 + hashBuffer (l.vtxImage P) + hashBuffer l.idxImage + hashBuffer (l.cmdImage P) := rfl

section WordChanged

variable {P} {a b : ImDrawList}

/-- The sum of the three hashes shows a change of one of them. -/
theorem WordChanged.hash_ne (h : WordChanged P a b) : hashImDrawList P a ≠ hashImDrawList P b := by
  rw [hashImDrawList_eq, hashImDrawList_eq]
  intro heq
  cases h with
  | vtx h hidx hcmd =>
    rw [hidx, hcmd] at heq
    have hvtx := (UInt32.add_left_inj _).mp ((UInt32.add_left_inj _).mp heq)
    exact hashMurmur_ne h 0 ((UInt32.add_right_inj 0).mp hvtx)
  | idx hvtx h hcmd =>
    rw [hvtx, hcmd] at heq
    have hidx := (UInt32.add_left_inj _).mp heq
    exact hashMurmur_ne h 0 ((UInt32.add_right_inj _).mp hidx)
  | cmd hvtx hidx h =>
    rw [hvtx, hidx] at heq
    exact hashMurmur_ne h 0 ((UInt32.add_right_inj _).mp heq)

theorem ne_nil_of_oneWordApart {xs ys : List UInt8} (h : OneWordApart xs ys) : ys ≠ [] := by
  rintro rfl
  exact h.ne (List.length_eq_zero_iff.mp h.length_eq)

/-- A list with a changed word has something in it. -/
theorem WordChanged.nonEmpty (h : WordChanged P a b) : b.NonEmpty := by
  rintro ⟨hcmd, hvtx, hidx⟩
  cases h with
  | vtx h =>
    refine ne_nil_of_oneWordApart h ?_
    rw [vtxImage, List.length_eq_zero_iff.mp hvtx, List.flatMap_nil]
  | idx _ h =>
    refine ne_nil_of_oneWordApart h ?_
    rw [idxImage, List.length_eq_zero_iff.mp hidx, List.flatMap_nil]
  | cmd _ _ h =>
    refine ne_nil_of_oneWordApart h ?_
    rw [cmdImage, List.length_eq_zero_iff.mp hcmd, List.flatMap_nil]

end WordChanged

end ImDrawList

/-! ## Packing

  A hash that is not the stored one makes `packImDrawData` write the list, and what it writes is not
  the three zeros, as the list has something in it. -/

theorem sizeBytes_eq_zero {α : Type} {buffer : List α} (hlt : buffer.length < 2 ^ 31)
    (h : sizeBytes buffer = intBytes 0) : buffer.length = 0 := by
  have hval : Int32.ofNat buffer.length = 0 := by
    rw [← intVal_intBytes (Int32.ofNat buffer.length), ← sizeBytes, h, intVal_intBytes]
  have hint := congrArg Int32.toInt hval
  rw [Int32.toInt_ofNat_of_lt hlt] at hint
  exact Int.ofNat.inj hint

/-- A list in full does not begin with the three zeros. -/
theorem take_bytes_ne {l : PackedList} (h : l.Wf) : l.bytes.take 12 ≠ entryBytes none := by
  obtain ⟨⟨hcmds, hverts, hidxs⟩, hne⟩ := h
  intro heq
  have hsizes : l.bytes.take 12 = sizeBytes l.cmds ++ sizeBytes l.verts ++ sizeBytes l.idxs := by
    rw [PackedList.bytes]
    exact List.take_left' (by simp)
  rw [hsizes, entryBytes] at heq
  obtain ⟨hfront, hi⟩ := List.append_inj heq (by simp)
  obtain ⟨hc, hv⟩ := List.append_inj hfront (by simp)
  exact hne ⟨sizeBytes_eq_zero hcmds hc, sizeBytes_eq_zero hverts hv, sizeBytes_eq_zero hidxs hi⟩

/-- `packImDrawData` writes the list at index `i` in full, not as the three zeros. -/
def SentInFull (displaySize : ImVec2) (mouseCursor : Int32) (st : PackState) (data : ImDrawData)
    (i : Nat) (l : ImDrawList) : Prop :=
  ∃ (r : PackResult) (entries : List (Option PackedList)),
    packImDrawData P displaySize mouseCursor st data = some r ∧
    r.out = (packHeader mouseCursor data).bytes ++ entries.flatMap entryBytes ∧
    entries.length = data.cmdLists.length ∧
    entries[i]? = some (some (packList P displaySize l)) ∧
    (packList P displaySize l).bytes.take 12 ≠ entryBytes none

/-- A list whose hash is not the stored one is sent. -/
theorem sentInFull_of_hash_ne {displaySize : ImVec2} {mouseCursor : Int32} {st : PackState}
    {data : ImDrawData} {i : Nat} {l : ImDrawList} {hash : UInt32}
    (hcount : data.cmdListsCount ≤ sMaxDrawLists) (hl : data.cmdLists[i]? = some l)
    (hsized : l.Sized) (hnonEmpty : l.NonEmpty) (hstored : st.sPrevDrawListHashes[i]? = some hash)
    (hne : hash ≠ hashImDrawList P l) : SentInFull P displaySize mouseCursor st data i l := by
  obtain ⟨r, hpack, hout, -, -⟩ := packImDrawData_eq P displaySize mouseCursor st hcount
  refine ⟨r, _, hpack, hout, ?_, ?_, take_bytes_ne (packList_wf P hsized hnonEmpty)⟩
  · rw [packEntries, List.length_map, Delta.length_encode]
  · have hslot : ¬tableOf st.sPrevDrawListHashes i = some (hashImDrawList P l) := by
      rw [tableOf, hstored, Option.some.injEq]
      exact hne
    rw [packEntries, List.getElem?_map, Delta.getElem?_encode, hl, Option.map_some, Option.map_some,
      if_neg hslot]
    rfl

/-- **A change inside one word is never missed.**  The hash of a buffer changes, for every seed, the
    hash of the draw list changes, and a server that has stored the earlier one sends the list. -/
theorem oneWord_shown :
    (∀ xs ys : List UInt8, OneWordApart xs ys → ∀ seed : UInt32,
      hashMurmur xs (UInt32.ofNat xs.length) seed ≠
        hashMurmur ys (UInt32.ofNat ys.length) seed) ∧
    (∀ a b : ImDrawList, ImDrawList.WordChanged P a b →
      hashImDrawList P a ≠ hashImDrawList P b ∧
      ∀ (displaySize : ImVec2) (mouseCursor : Int32) (st : PackState) (data : ImDrawData) (i : Nat),
        data.cmdListsCount ≤ sMaxDrawLists → data.cmdLists[i]? = some b → b.Sized →
        st.sPrevDrawListHashes[i]? = some (hashImDrawList P a) →
        SentInFull P displaySize mouseCursor st data i b) := by
  refine ⟨fun xs ys h seed => hashMurmur_ne h seed, fun a b h => ⟨h.hash_ne, ?_⟩⟩
  intro displaySize mouseCursor st data i hcount hb hsized hstored
  exact sentInFull_of_hash_ne P hcount hb hsized h.nonEmpty hstored h.hash_ne

/-- A triangle with its last index changed. -/
def otherIndex : ImDrawList := { triangle 1 with idxBuffer := [0, 1, 3] }

theorem wordChanged_otherIndex : ImDrawList.WordChanged Platform.lp64 (triangle 1) otherIndex := by
  refine .idx rfl ⟨by decide, by decide, by decide, 1, fun i hi => ?_⟩ rfl
  have hbefore : ∀ j < 4, (triangle 1).idxImage[j]? = otherIndex.idxImage[j]? := by decide
  rcases Nat.lt_or_ge i 4 with hlt | hge
  · exact hbefore i hlt
  · have hlen : 6 ≤ i := by omega
    rw [List.getElem?_eq_none hlen, List.getElem?_eq_none hlen]

/-- A server that has stored the hash of the triangle. -/
def triangleStored : PackState where
  sPrevDrawListHashes := Vector.replicate sMaxDrawLists (hashImDrawList Platform.lp64 (triangle 1))
  sNumPrevDrawLists := 1

theorem oneWord_shown_otherIndex :
    hashImDrawList Platform.lp64 (triangle 1) ≠ hashImDrawList Platform.lp64 otherIndex ∧
      SentInFull Platform.lp64 ⟨1280, 720⟩ 0 triangleStored ⟨3, 3, [otherIndex]⟩ 0 otherIndex := by
  obtain ⟨hne, hsent⟩ := (oneWord_shown Platform.lp64).2 _ _ wordChanged_otherIndex
  refine ⟨hne, hsent _ _ _ _ 0 (by decide) rfl (by decide) ?_⟩
  rw [triangleStored, Vector.getElem?_replicate, if_pos (by decide)]

end Nxdb
