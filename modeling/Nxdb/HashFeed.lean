/-
  The hash in pieces: a `HashMurmurImpl` over the whole buffer that is fed its chunks.

  `feed` counts the blocks of the chunk from 0, `calculateWithCallback` those of the buffer; what
  neither mixes in is left to `finalize`, which finds it from the length of the buffer.  If all
  chunks but the last are whole words, then the blocks of the buffer are the blocks of the chunks,
  one chunk behind the other (`blocks_flatten`), and both loops are one fold over them.
-/
import Nxdb.HashWord

namespace Nxdb.Hash

/-- `feed` on the chunks in order. -/
def feedAll (widen : Widen) (self : HashMurmurImpl) (chunks : List (List UInt8)) : HashMurmurImpl :=
  chunks.foldl (fun hash chunk => hash.feed widen chunk (UInt32.ofNat chunk.length)) self

/-- All chunks but the last are whole words. -/
def WholeWords (chunks : List (List UInt8)) : Prop := ∀ chunk ∈ chunks.dropLast, 4 ∣ chunk.length

instance (chunks : List (List UInt8)) : Decidable (WholeWords chunks) :=
  inferInstanceAs (Decidable (∀ chunk ∈ chunks.dropLast, 4 ∣ chunk.length))

/-! ## Blocks of the parts

  A block never lies across two chunks when the chunks before it are whole words.  So the blocks of
  the parts are the blocks of the whole, in order; the bytes behind the last one are the last
  chunk's. -/

section Parts

variable {xs ys : List UInt8}

/-- A block of the first part. -/
theorem getBlock_append_left {i : Nat} (h : i < xs.length / 4) :
    getBlock widenU8 (xs ++ ys) i = getBlock widenU8 xs i := by
  apply getBlock_congr
  intro k hk
  apply byteOf_congr
  have hlt : k < xs.length := by omega
  rw [List.getElem?_append_left hlt]

/-- A block of the second part, when the first is whole words. -/
theorem getBlock_append_right (hxs : 4 ∣ xs.length) (i : Nat) :
    getBlock widenU8 (xs ++ ys) (xs.length / 4 + i) = getBlock widenU8 ys i := by
  have hbyte : ∀ k, byteOf (xs ++ ys) (k + (xs.length / 4 + i) * 4) = byteOf ys (k + i * 4) := by
    intro k
    have hk : k + (xs.length / 4 + i) * 4 = xs.length + (k + i * 4) := by omega
    rw [hk, byteOf, byteOf, List.getD_append_right _ _ _ _ (by omega), Nat.add_sub_cancel_left]
  apply UInt32.toBitVec_inj.mp
  rw [toBitVec_getBlock, toBitVec_getBlock, hbyte, hbyte, hbyte, hbyte]

theorem blocks_append (hxs : 4 ∣ xs.length) : blocks (xs ++ ys) = blocks xs ++ blocks ys := by
  have hcount : (xs ++ ys).length / 4 = xs.length / 4 + ys.length / 4 := by
    rw [List.length_append]
    omega
  unfold blocks blocksOf
  rw [hcount, ← List.range'_append_1, List.map_append, Nat.zero_add]
  congr 1
  · refine List.map_congr_left fun i hi => getBlock_append_left ?_
    have := (List.mem_range'_1.mp hi).2
    omega
  · -- the second part counts its blocks from 0
    rw [← Nat.add_zero (xs.length / 4), ← List.map_add_range', List.map_map]
    exact List.map_congr_left fun i _ => getBlock_append_right hxs i

end Parts

/-- **The blocks of the buffer** are the blocks of the chunks. -/
theorem blocks_flatten {chunks : List (List UInt8)} (h : WholeWords chunks) :
    blocks chunks.flatten = chunks.flatMap blocks := by
  induction chunks with
  | nil => rfl
  | cons chunk rest ih =>
    rw [List.flatten_cons, List.flatMap_cons]
    cases rest with
    | nil =>
      rw [List.flatten_nil, List.flatMap_nil, List.append_nil, List.append_nil]
    | cons next rest =>
      have hchunk : 4 ∣ chunk.length := h chunk List.mem_cons_self
      have hrest : WholeWords (next :: rest) := fun c hc => h c (List.mem_cons_of_mem _ hc)
      rw [blocks_append hchunk, ih hrest]

/-! ## Feeding

  Both loops are `foldl mixBlock`, of the blocks of the chunks and of the buffer; what `finalize`
  does to the value is the same in both. -/

/-- One chunk: its blocks are mixed in. -/
theorem feed_eq (self : HashMurmurImpl) {chunk : List UInt8} (hlen : chunk.length < 2 ^ 32) :
    self.feed widenU8 chunk (UInt32.ofNat chunk.length) =
      { self with mHashValue := (blocks chunk).foldl HashMurmurImpl.mixBlock self.mHashValue } := by
  unfold HashMurmurImpl.feed
  rw [nblocks_len hlen, HashMurmurImpl.mixBlocks_eq_foldl]
  rfl

/-- All chunks: the blocks of each one behind those of the chunk before. -/
theorem feedAll_eq (chunks : List (List UInt8)) (hlen : ∀ chunk ∈ chunks, chunk.length < 2 ^ 32) :
    ∀ self : HashMurmurImpl, feedAll widenU8 self chunks =
      { self with
        mHashValue := (chunks.flatMap blocks).foldl HashMurmurImpl.mixBlock self.mHashValue } := by
  induction chunks with
  | nil => exact fun _ => rfl
  | cons chunk rest ih =>
    intro self
    show feedAll widenU8 (self.feed widenU8 chunk (UInt32.ofNat chunk.length)) rest = _
    have hrest : ∀ c ∈ rest, c.length < 2 ^ 32 := fun c hc => hlen c (List.mem_cons_of_mem _ hc)
    rw [ih hrest, feed_eq self (hlen chunk List.mem_cons_self), List.flatMap_cons,
      List.foldl_append]

/-- The one-shot loop mixes in the blocks of the buffer. -/
theorem calculateWithCallback_eq {data : List UInt8} (hlen : data.length < 2 ^ 32) (seed : UInt32) :
    (HashMurmurImpl.init data (UInt32.ofNat data.length) seed).calculateWithCallback widenU8 =
      { HashMurmurImpl.init data (UInt32.ofNat data.length) seed with
        mHashValue := (blocks data).foldl HashMurmurImpl.mixBlock seed } := by
  unfold HashMurmurImpl.calculateWithCallback
  simp only [HashMurmurImpl.init, nblocks_len hlen, HashMurmurImpl.mixBlocks_eq_foldl]
  rfl

/-- **In pieces or at once.**  However a buffer is cut into chunks that are whole words, the last one
    excepted, feeding them to a `HashMurmurImpl` over the buffer gives `hashMurmur` of the buffer. -/
theorem finalize_feedAll (seed : UInt32) (data : List UInt8) (hlen : data.length < 2 ^ 32)
    (chunks : List (List UInt8)) (hcut : chunks.flatten = data) (hwhole : WholeWords chunks) :
    (feedAll widenU8 (HashMurmurImpl.init data (UInt32.ofNat data.length) seed) chunks).finalize
      widenU8 = hashMurmur data (UInt32.ofNat data.length) seed := by
  have hchunk : ∀ chunk ∈ chunks, chunk.length < 2 ^ 32 := by
    intro chunk hmem
    have hle := (List.sublist_flatten_of_mem hmem).length_le
    rw [hcut] at hle
    omega
  have hfed := feedAll_eq chunks hchunk (HashMurmurImpl.init data (UInt32.ofNat data.length) seed)
  rw [← blocks_flatten hwhole, hcut] at hfed
  have honce := calculateWithCallback_eq hlen seed
  show _ = ((HashMurmurImpl.init data _ seed).calculateWithCallback widenU8).finalize widenU8
  rw [hfed, honce]
  rfl

/-- Eleven bytes in chunks of four, none, four and three. -/
theorem finalize_feedAll_eleven :
    (feedAll widenU8 (HashMurmurImpl.init [1, 2, 3, 4, 5, 6, 7, 8, 9, 10, 11] 11 7)
      [[1, 2, 3, 4], [], [5, 6, 7, 8], [9, 10, 11]]).finalize widenU8 =
        hashMurmur [1, 2, 3, 4, 5, 6, 7, 8, 9, 10, 11] 11 7 :=
  finalize_feedAll 7 _ (by decide) _ rfl (by decide)

end Nxdb.Hash
