/-
  `MemoryMapMgr::get` and `findBlock`: from addresses of the process to those of the mirror.

  An address is looked up among whole blocks, with the address behind a block counted in, and moved
  by the block's one offset.  The blocks are runs with a free region between any two, so no two
  blocks are found for an address, and the offset is right for everything that was mapped
  (`mapBlocks_translates`).  But a block is more than what was mapped of it: the address behind it
  and the regions that were left out are translated, too, and nothing else is (`get_sound_iff`).

  1. Program: `get` and `findBlock` go through the blocks in order; `MapBlock.inRange` includes the
     end of the block.
  2. Specification: `Translates`.  What is right is said with the calls of `svcMapProcessMemory`:
     the addresses that were passed to it, and where each of them is now.
  3. The crux is `Blocks`: the blocks `mapBlocks` records lie in the layout, each around its run,
     with a free region between any two.  So `findBlock` finds at most one, and it is the right one
     (`unique`, `translate_eq`).
  4. The other direction, `get_sound_iff`, names what is translated without having been mapped: an
     address directly behind a block, or in a region that `mapBlock` left out.
-/
import Nxdb.Unmap
import Nxdb.Walk
import Mathlib.Data.List.Forall2

namespace Nxdb

open Lib

/-! ## The code

  `get` and `findBlock` are the same search, so what one finds the other one uses
  (`get_of_findBlock`). -/

/-- `MapBlock::get`. -/
def MapBlock.get (b : MapBlock) (ptr : Nat) : Nat := wrap (sub64 ptr b.startOrig + b.startMapped)

/-- The test of `get` and `findBlock`. -/
def MapBlock.inRange (b : MapBlock) (ptr : Nat) : Bool :=
  decide (b.startOrig ≤ ptr ∧ ptr ≤ wrap (b.startOrig + b.size))

namespace MemoryMapMgr

/-- `MemoryMapMgr::get`. -/
def get : List MapBlock → Nat → Nat
  | [], _ => 0
  | block :: mBlocks, ptr => if block.inRange ptr then block.get ptr else get mBlocks ptr

/-- `MemoryMapMgr::findBlock`, `none` for a null pointer. -/
def findBlock : List MapBlock → Nat → Option MapBlock
  | [], _ => none
  | block :: mBlocks, ptr => if block.inRange ptr then some block else findBlock mBlocks ptr

theorem get_of_findBlock {mBlocks : List MapBlock} {ptr : Nat} {b : MapBlock}
    (h : findBlock mBlocks ptr = some b) : get mBlocks ptr = b.get ptr := by
  induction mBlocks with
  | nil => exact absurd h (Option.some_ne_none b).symm
  | cons c mBlocks ih =>
    rw [findBlock] at h
    rw [get]
    split at h
    next hin =>
      rw [Option.some.injEq] at h
      rw [if_pos hin, h]
    next hin =>
      rw [if_neg hin]
      exact ih h

theorem get_of_findBlock_none {mBlocks : List MapBlock} {ptr : Nat}
    (h : findBlock mBlocks ptr = none) : get mBlocks ptr = 0 := by
  induction mBlocks with
  | nil => rfl
  | cons c mBlocks ih =>
    rw [findBlock] at h
    rw [get]
    split at h
    next => exact absurd h (Option.some_ne_none c)
    next hin =>
      rw [if_neg hin]
      exact ih h

theorem findBlock_eq_some {mBlocks : List MapBlock} {ptr : Nat} {b : MapBlock}
    (h : findBlock mBlocks ptr = some b) : b ∈ mBlocks ∧ b.inRange ptr = true := by
  induction mBlocks with
  | nil => exact absurd h (Option.some_ne_none b).symm
  | cons c mBlocks ih =>
    rw [findBlock] at h
    split at h
    next hin =>
      rw [Option.some.injEq] at h
      exact ⟨h ▸ List.mem_cons_self, h ▸ hin⟩
    next =>
      obtain ⟨hmem, hin⟩ := ih h
      exact ⟨List.mem_cons_of_mem _ hmem, hin⟩

/-- A block in whose range the address is, if no other one is, is the one that is found. -/
theorem findBlock_of_mem {mBlocks : List MapBlock} {ptr : Nat} {b : MapBlock} (hb : b ∈ mBlocks)
    (hin : b.inRange ptr = true) (hone : ∀ c ∈ mBlocks, c.inRange ptr = true → c = b) :
    findBlock mBlocks ptr = some b := by
  induction mBlocks with
  | nil => exact absurd hb List.not_mem_nil
  | cons c mBlocks ih =>
    rw [findBlock]
    split
    next hc => rw [hone c List.mem_cons_self hc]
    next hc =>
      rcases List.mem_cons.mp hb with rfl | hb
      · exact absurd hin hc
      · exact ih hb fun d hd => hone d (List.mem_cons_of_mem _ hd)

end MemoryMapMgr

/-! ## What should hold -/

/-- The address is in a region that was passed to `svcMapProcessMemory`. -/
def Passed (ms : List Mapped) (ptr : Nat) : Prop :=
  ∃ m ∈ ms, ∃ c ∈ m.calls, c.src ≤ ptr ∧ ptr < c.src + c.size

/-- `get` on the blocks of `mBlocks`. -/
def translate (ms : List Mapped) (ptr : Nat) : Nat :=
  MemoryMapMgr.get (ms.map Mapped.toMapBlock) ptr

/-- The blocks ascend with a gap between any two, an address is in the range of at most one, what was
    mapped is found where it was mapped, and no two addresses at the same place. -/
structure Translates (ms : List Mapped) : Prop where
  ordered : ms.Pairwise fun m n => m.startOrig + m.size < n.startOrig
  single : ∀ ptr, (ms.filter fun m => m.inRange ptr).length ≤ 1
  right : ∀ m ∈ ms, ∀ c ∈ m.calls, ∀ ptr, c.src ≤ ptr → ptr < c.src + c.size →
    translate ms ptr = wrap (c.dst + (ptr - c.src))
  injective : ∀ p q, Passed ms p → Passed ms q → translate ms p = translate ms q → p = q

/-- The slices of `virtmemFindAslr` do not overlap. -/
def FindsApart (K : Svc) : Prop :=
  ∀ bs n m, K.findAslr bs n = some m → ∀ b ∈ bs, ∀ i < n, ∀ j < b.size,
    wrap (m + i) ≠ wrap (b.startMapped + j)

/-- They are in the 64-bit address space, and not at its beginning. -/
def FindsInside (K : Svc) : Prop :=
  ∀ bs n m, K.findAslr bs n = some m → 0 < m ∧ m + n < 2 ^ 64

/-! ## The blocks of a layout

  The runs have a free region between any two, of one address at least.  So even with the address
  behind it counted in, no block has an address in common with another, and the search has one
  result. -/

/-- The runs that a free region ends ascend, with that region in between. -/
theorem closedRuns_ordered {rs : List MemoryInfo} :
    ∀ {p a b : Nat} (pending : List MemoryInfo), Contiguous p pending a → Contiguous a rs b →
      (∀ run ∈ closedRuns MemoryInfo.free pending rs, p ≤ startOf run) ∧
        (closedRuns MemoryInfo.free pending rs).Pairwise
          fun r q => startOf r + totalOf r < startOf q := by
  induction rs with
  | nil =>
    intro p a b pending _ _
    exact ⟨fun run hrun => absurd hrun List.not_mem_nil, List.Pairwise.nil⟩
  | cons r rs ih =>
    rintro p a b pending hpending ⟨haddr, hsize, hrest⟩
    have hle := hpending.le
    rw [closedRuns]
    split
    next =>
      -- a free region: it stands between what is pending and all later runs
      obtain ⟨hstart, hordered⟩ := ih [] rfl hrest
      split
      next => exact ⟨fun run hrun => Nat.le_trans (by omega) (hstart run hrun), hordered⟩
      next hne =>
        have hne' : pending ≠ [] := by
          rintro rfl
          exact hne rfl
        have hfrom := hpending.startOf_eq hne'
        have htotal : p + totalOf pending = a := hpending.sum
        constructor
        · intro run hrun
          rcases List.mem_cons.mp hrun with rfl | hrun
          · exact Nat.le_of_eq hfrom.symm
          · exact Nat.le_trans (by omega) (hstart run hrun)
        · refine List.pairwise_cons.mpr ⟨fun run hrun => ?_, hordered⟩
          have := hstart run hrun
          omega
    next =>
      exact ih _ (Contiguous.append.mpr ⟨a, hpending, haddr, hsize, rfl⟩) hrest

/-- A block that is recorded for a run of a layout. -/
structure InLayout (run : List MemoryInfo) (m : Mapped) : Prop extends Recorded run m where
  contiguous : Contiguous m.startOrig run (m.startOrig + m.size)
  orig_end : m.startOrig + m.size ≤ addrEnd
  pos : 0 < m.size

theorem Recorded.inLayout {run : List MemoryInfo} {m : Mapped} {a b : Nat} (h : Recorded run m)
    (hne : run ≠ []) (hrun : Contiguous a run b) (hb : b ≤ addrEnd) : InLayout run m := by
  have hstart : m.startOrig = a := h.startOrig.trans (hrun.startOf_eq hne)
  have hend : m.startOrig + m.size = b := by
    rw [hstart, h.size]
    exact hrun.sum
  refine ⟨h, by rwa [hend, hstart], by omega, ?_⟩
  obtain ⟨r, rest, rfl⟩ := List.exists_cons_of_ne_nil hne
  obtain ⟨-, hsize, hrest⟩ := hrun
  have := hrest.le
  omega

namespace InLayout

variable {run : List MemoryInfo} {m : Mapped}

theorem inRange_eq_true_iff (h : InLayout run m) {ptr : Nat} :
    m.inRange ptr = true ↔ m.startOrig ≤ ptr ∧ ptr ≤ m.startOrig + m.size := by
  rw [MapBlock.inRange, decide_eq_true_iff, wrap_of_le h.orig_end]

/-- A call that was made for the block is about a region of the run, at its place in the block. -/
theorem call (h : InLayout run m) {c : MapCall} (hc : c ∈ m.calls) :
    ∃ r ∈ run, r.skipped = false ∧ c = m.toMapBlock.mapCall r ∧ m.startOrig ≤ r.addr ∧
      r.addr + r.size ≤ m.startOrig + m.size := by
  rw [h.calls] at hc
  obtain ⟨r, hr, rfl⟩ := List.mem_map.mp hc
  rw [List.mem_filter, Bool.not_eq_true'] at hr
  obtain ⟨hlo, -, hhi⟩ := h.contiguous.mem_bounds hr.1
  exact ⟨r, hr.1, hr.2, rfl, hlo, hhi⟩

/-- The one offset is that of each region. -/
theorem get_eq (h : InLayout run m) {c : MapCall} (hc : c ∈ m.calls) {ptr : Nat}
    (hlo : c.src ≤ ptr) (hhi : ptr < c.src + c.size) :
    m.get ptr = wrap (c.dst + (ptr - c.src)) := by
  obtain ⟨r, -, -, rfl, hfrom, hto⟩ := h.call hc
  have hend := h.orig_end
  simp only [MapBlock.mapCall] at hlo hhi ⊢
  rw [MapBlock.get, sub64_of_le (by omega) (by omega), sub64_of_le hfrom (by omega)]
  simp only [wrap]
  omega

/-- Within a block no two addresses are moved to the same place. -/
theorem get_inj (h : InLayout run m) {p q : Nat} (hp : m.startOrig ≤ p)
    (hp' : p < m.startOrig + m.size) (hq : m.startOrig ≤ q) (hq' : q < m.startOrig + m.size)
    (heq : m.get p = m.get q) : p = q := by
  have hend := h.orig_end
  unfold addrEnd at hend
  rw [MapBlock.get, MapBlock.get, sub64_of_le hp (by unfold addrEnd; omega),
    sub64_of_le hq (by unfold addrEnd; omega)] at heq
  simp only [wrap] at heq
  omega

end InLayout

/-- What is recorded for the runs of a layout. -/
structure Blocks (runs : List (List MemoryInfo)) (ms : List Mapped) : Prop where
  block : ∀ m ∈ ms, ∃ run ∈ runs, InLayout run m
  run : ∀ run ∈ runs, ∃ m ∈ ms, InLayout run m
  ordered : ms.Pairwise fun m n => m.startOrig + m.size < n.startOrig

/-- **What `mapBlocks` records.** -/
theorem blocks_of_layout {K : Svc} {rs : List MemoryInfo} {ms : List Mapped} (h : Layout K rs)
    (hms : K.mapRuns [] (closedRuns MemoryInfo.free [] rs.dropLast) = some ms) :
    Blocks (closedRuns MemoryInfo.free [] rs.dropLast) ms := by
  obtain ⟨new, hnew, hrecorded⟩ := Svc.mapRuns_eq_some h.closedRuns hms
  rw [List.nil_append] at hnew
  subst hnew
  have hin : ∀ run ∈ closedRuns MemoryInfo.free [] rs.dropLast, ∀ m, Recorded run m →
      InLayout run m := by
    intro run hrun m hm
    obtain ⟨hne, a, b, hcont, hb⟩ := h.closedRuns run hrun
    exact hm.inLayout hne hcont hb
  constructor
  · intro m hm
    obtain ⟨run, hrun, hm⟩ := exists_of_forall₂ hrecorded m hm
    exact ⟨run, hrun, hin run hrun m hm⟩
  · intro run hrun
    obtain ⟨m, hm, hrec⟩ := exists_of_forall₂ (R := fun m run => Recorded run m)
      (List.Forall₂.flip hrecorded) run hrun
    exact ⟨m, hm, hin run hrun m hrec⟩
  · -- the order of the runs is that of the blocks
    have hcont := h.contiguous
    rw [← List.dropLast_append_getLast h.ne_nil] at hcont
    obtain ⟨b, hinit, -⟩ := Contiguous.append.mp hcont
    have hruns := (closedRuns_ordered [] rfl hinit).2
    have hmap : (ms.map fun m => (m.startOrig, m.size)).Pairwise fun x y => x.1 + x.2 < y.1 := by
      rw [map_recorded hrecorded]
      exact List.pairwise_map.mpr hruns
    exact List.pairwise_map.mp hmap

namespace Blocks

variable {runs : List (List MemoryInfo)} {ms : List Mapped}

/-- No address is in the range of two blocks. -/
theorem disjoint (h : Blocks runs ms) :
    ms.Pairwise fun m n => ∀ ptr, m.inRange ptr = true → n.inRange ptr ≠ true := by
  refine h.ordered.imp_of_mem fun {m n} hm hn hlt ptr hin hin' => ?_
  obtain ⟨_, -, hrunm⟩ := h.block m hm
  obtain ⟨_, -, hrunn⟩ := h.block n hn
  have := (hrunm.inRange_eq_true_iff.mp hin).2
  have := (hrunn.inRange_eq_true_iff.mp hin').1
  omega

theorem single (h : Blocks runs ms) (ptr : Nat) :
    (ms.filter fun m => m.inRange ptr).length ≤ 1 := by
  have hdisjoint := h.disjoint.sublist (List.filter_sublist (p := fun m => m.inRange ptr))
  have hmem : ∀ x ∈ ms.filter fun m => m.inRange ptr, x.inRange ptr = true :=
    fun x hx => (List.mem_filter.mp hx).2
  generalize (ms.filter fun m => m.inRange ptr) = found at hdisjoint hmem ⊢
  rcases found with _ | ⟨m, _ | ⟨n, rest⟩⟩
  · exact Nat.zero_le 1
  · exact Nat.le_refl 1
  · have hno := (List.pairwise_cons.mp hdisjoint).1 n List.mem_cons_self ptr
    exact absurd (hmem n (by simp)) (hno (hmem m (by simp)))

/-- The block in whose range an address is. -/
theorem unique (h : Blocks runs ms) {m n : Mapped} (hm : m ∈ ms) (hn : n ∈ ms) {ptr : Nat}
    (hin : m.inRange ptr = true) (hin' : n.inRange ptr = true) : m = n := by
  by_contra hne
  have hsymm : Std.Symm fun m n : Mapped => ∀ ptr, m.inRange ptr = true → n.inRange ptr ≠ true :=
    ⟨fun _ _ hpq x hq hp => hpq x hp hq⟩
  exact h.disjoint.forall hm hn hne ptr hin hin'

/-- It is the one that is found. -/
theorem translate_eq (h : Blocks runs ms) {m : Mapped} (hm : m ∈ ms) {ptr : Nat}
    (hin : m.inRange ptr = true) : translate ms ptr = m.get ptr := by
  refine MemoryMapMgr.get_of_findBlock (MemoryMapMgr.findBlock_of_mem (List.mem_map_of_mem hm) hin ?_)
  intro c hc hcin
  obtain ⟨n, hn, rfl⟩ := List.mem_map.mp hc
  rw [h.unique hn hm hcin hin]

/-- What was mapped is in the range of its block, and not behind it. -/
theorem call_range {m : Mapped} {run : List MemoryInfo} (hm : InLayout run m) {c : MapCall}
    (hc : c ∈ m.calls) {ptr : Nat} (hlo : c.src ≤ ptr) (hhi : ptr < c.src + c.size) :
    m.startOrig ≤ ptr ∧ ptr < m.startOrig + m.size := by
  obtain ⟨r, -, -, rfl, hfrom, hto⟩ := hm.call hc
  simp only [MapBlock.mapCall] at hlo hhi
  omega

/-- An address that was passed is in the range of its block. -/
theorem passed (h : Blocks runs ms) {ptr : Nat} (hptr : Passed ms ptr) :
    ∃ m ∈ ms, translate ms ptr = m.get ptr ∧ m.startOrig ≤ ptr ∧ ptr < m.startOrig + m.size := by
  obtain ⟨m, hm, c, hc, hlo, hhi⟩ := hptr
  obtain ⟨run, -, hrun⟩ := h.block m hm
  obtain ⟨hfrom, hto⟩ := call_range hrun hc hlo hhi
  exact ⟨m, hm, h.translate_eq hm (hrun.inRange_eq_true_iff.mpr ⟨hfrom, by omega⟩), hfrom, hto⟩

theorem right (h : Blocks runs ms) {m : Mapped} (hm : m ∈ ms) {c : MapCall} (hc : c ∈ m.calls)
    {ptr : Nat} (hlo : c.src ≤ ptr) (hhi : ptr < c.src + c.size) :
    translate ms ptr = wrap (c.dst + (ptr - c.src)) := by
  obtain ⟨run, -, hrun⟩ := h.block m hm
  obtain ⟨hfrom, hto⟩ := call_range hrun hc hlo hhi
  rw [h.translate_eq hm (hrun.inRange_eq_true_iff.mpr ⟨hfrom, by omega⟩), hrun.get_eq hc hlo hhi]

end Blocks

/-! ## Right inside the blocks

  A region of a block was mapped at its offset in the block, and `get` moves it by the block's: it
  is the same number.  Two addresses that go to one place would be of one block, as the slices do
  not overlap, and there they would be one address. -/

/-- The slices of two blocks do not overlap. -/
def SlicesApart (b n : Mapped) : Prop :=
  ∀ i < n.size, ∀ j < b.size, wrap (n.startMapped + i) ≠ wrap (b.startMapped + j)

/-- What is kept when a block is recorded where `virtmemFindAslr` says, holds of all blocks. -/
theorem mapRuns_invariant {K : Svc} {P : List Mapped → Prop}
    (hstep : ∀ (mBlocks : List Mapped) (m : Mapped), P mBlocks →
      K.findAslr (mBlocks.map Mapped.toMapBlock) m.size = some m.startMapped → P (mBlocks ++ [m]))
    {runs : List (List MemoryInfo)}
    (hruns : ∀ run ∈ runs, run ≠ [] ∧ ∃ a b, Contiguous a run b ∧ b ≤ addrEnd) :
    ∀ {mBlocks ms : List Mapped}, P mBlocks → K.mapRuns mBlocks runs = some ms → P ms := by
  induction runs with
  | nil =>
    intro mBlocks ms hinv h
    rw [Svc.mapRuns, Option.some.injEq] at h
    exact h ▸ hinv
  | cons run runs ih =>
    intro mBlocks ms hinv h
    rw [Svc.mapRuns, Option.bind_eq_some_iff] at h
    obtain ⟨mid, hflush, hrest⟩ := h
    obtain ⟨hne, a, b, hrun, hb⟩ := hruns run List.mem_cons_self
    obtain ⟨m, rfl, -, hfound⟩ := Svc.flush_eq_some hne hrun hb hflush
    exact ih (fun r hr => hruns r (List.mem_cons_of_mem _ hr)) (hstep mBlocks m hinv hfound) hrest

/-- The slices of any two blocks do not overlap. -/
theorem slicesApart_of_layout {K : Svc} {rs : List MemoryInfo} {ms : List Mapped} (h : Layout K rs)
    (hapart : FindsApart K)
    (hms : K.mapRuns [] (closedRuns MemoryInfo.free [] rs.dropLast) = some ms) :
    ms.Pairwise SlicesApart := by
  refine mapRuns_invariant (P := List.Pairwise SlicesApart) (fun mBlocks m hinv hfound => ?_)
    h.closedRuns List.Pairwise.nil hms
  refine List.pairwise_append.mpr ⟨hinv, List.pairwise_singleton _ _, fun b hb n hn => ?_⟩
  rw [List.mem_singleton.mp hn]
  exact hapart _ _ _ hfound b.toMapBlock (List.mem_map_of_mem hb)

/-- Where an address of a block is moved. -/
theorem InLayout.get_of_range {run : List MemoryInfo} {m : Mapped} (h : InLayout run m) {ptr : Nat}
    (hlo : m.startOrig ≤ ptr) (hhi : ptr ≤ m.startOrig + m.size) :
    m.get ptr = wrap (m.startMapped + (ptr - m.startOrig)) := by
  have hend := h.orig_end
  rw [MapBlock.get, sub64_of_le hlo (by omega), Nat.add_comm]

theorem Blocks.injective {runs : List (List MemoryInfo)} {ms : List Mapped} (h : Blocks runs ms)
    (hapart : ms.Pairwise SlicesApart) {p q : Nat} (hp : Passed ms p) (hq : Passed ms q)
    (heq : translate ms p = translate ms q) : p = q := by
  obtain ⟨m, hm, hpm, hplo, hphi⟩ := h.passed hp
  obtain ⟨n, hn, hqn, hqlo, hqhi⟩ := h.passed hq
  obtain ⟨_, -, hrunm⟩ := h.block m hm
  obtain ⟨_, -, hrunn⟩ := h.block n hn
  rw [hpm, hqn] at heq
  by_cases hmn : m = n
  · subst hmn
    exact hrunm.get_inj hplo hphi hqlo hqhi heq
  · -- in two blocks, the two places are in slices that do not overlap
    have hsymm : Std.Symm SlicesApart := ⟨fun _ _ hbn i hi j hj => (hbn j hj i hi).symm⟩
    rw [hrunm.get_of_range hplo (by omega), hrunn.get_of_range hqlo (by omega)] at heq
    exact absurd heq.symm (hapart.forall hm hn hmn (q - n.startOrig) (by omega) (p - m.startOrig)
      (by omega))

/-- **Translation is right inside the blocks.**  `mapBlocks` returns, unless address space or a
    mapping is refused; its blocks ascend, disjoint and not adjacent; and what was mapped is found
    where it was mapped. -/
theorem mapBlocks_translates {K : Svc} {rs : List MemoryInfo} (hlayout : Layout K rs)
    (hmax : ∀ run ∈ runs MemoryInfo.free rs.dropLast, run.length ≤ mapBufferSize)
    (hapart : FindsApart K) :
    ∃ out, (∀ fuel, rs.length ≤ fuel → K.mapBlocks fuel = some out) ∧
      (out = .abort ∧ ¬K.Serves ∨ ∃ ms, out = .value ms ∧ Translates ms) := by
  refine ⟨_, fun fuel hfuel => mapBlocks_eq hlayout hmax hfuel, ?_⟩
  cases hms : K.mapRuns [] (closedRuns MemoryInfo.free [] rs.dropLast) with
  | none =>
    refine Or.inl ⟨rfl, fun hK => ?_⟩
    obtain ⟨ms, hsome⟩ := Svc.mapRuns_of_grants (fun run _ => hK.grants run) []
    rw [hms] at hsome
    exact Option.some_ne_none _ hsome.symm
  | some ms =>
    have hblocks := blocks_of_layout hlayout hms
    have hpairwise := slicesApart_of_layout hlayout hapart hms
    exact Or.inr ⟨ms, rfl, hblocks.ordered, hblocks.single,
      fun m hm c hc ptr hlo hhi => hblocks.right hm hc hlo hhi,
      fun p q hp hq heq => hblocks.injective hpairwise hp hq heq⟩

/-! ## Nothing else

  Whatever is translated is in the range of a block.  There it was passed to the kernel, or its
  region was left out, or it is the address behind the block: three cases, and two of them are the
  exceptions. -/

/-- The address directly behind a block. -/
def BehindBlock (blocks : List (List MemoryInfo)) (ptr : Nat) : Prop :=
  ∃ run ∈ blocks, ptr = startOf run + totalOf run

/-- An address of a region that is left out, inside a block. -/
def InSkipped (blocks : List (List MemoryInfo)) (ptr : Nat) : Prop :=
  ∃ run ∈ blocks, ∃ r ∈ run, r.skipped = true ∧ r.addr ≤ ptr ∧ ptr < r.addr + r.size

/-- A layout has a region at each of its addresses. -/
theorem Contiguous.exists_region {rs : List MemoryInfo} {x : Nat} : ∀ {a b : Nat},
    Contiguous a rs b → a ≤ x → x < b → ∃ r ∈ rs, r.addr ≤ x ∧ x < r.addr + r.size := by
  induction rs with
  | nil =>
    rintro a b rfl hlo hhi
    omega
  | cons r rs ih =>
    rintro a b ⟨haddr, hsize, hrest⟩ hlo hhi
    by_cases hin : x < a + r.size
    · exact ⟨r, List.mem_cons_self, by omega, by omega⟩
    · obtain ⟨q, hq, hqx⟩ := ih hrest (by omega) hhi
      exact ⟨q, List.mem_cons_of_mem _ hq, hqx⟩

/-- A region of a layout is the only one at its addresses. -/
theorem Contiguous.region_unique {rs : List MemoryInfo} {a b x : Nat} {r q : MemoryInfo}
    (h : Contiguous a rs b) (hr : r ∈ rs) (hq : q ∈ rs) (hrlo : r.addr ≤ x)
    (hrhi : x < r.addr + r.size) (hqlo : q.addr ≤ x) (hqhi : x < q.addr + q.size) : r = q :=
  Option.some.inj ((h.regionAt_eq hr hrlo hrhi).symm.trans (h.regionAt_eq hq hqlo hqhi))

namespace Blocks

variable {blocks : List (List MemoryInfo)} {ms : List Mapped}

/-- Only an address in the range of a block is translated. -/
theorem exists_inRange {ptr : Nat} (h : translate ms ptr ≠ 0) : ∃ m ∈ ms, m.inRange ptr = true := by
  cases hfind : MemoryMapMgr.findBlock (ms.map Mapped.toMapBlock) ptr with
  | none => exact absurd (MemoryMapMgr.get_of_findBlock_none hfind) h
  | some b =>
    obtain ⟨hmem, hin⟩ := MemoryMapMgr.findBlock_eq_some hfind
    obtain ⟨m, hm, rfl⟩ := List.mem_map.mp hmem
    exact ⟨m, hm, hin⟩

/-- In a block, what was passed are the addresses of the regions that are not left out. -/
theorem passed_iff (h : Blocks blocks ms) {m : Mapped} (hm : m ∈ ms) {run : List MemoryInfo}
    (hrun : InLayout run m) {ptr : Nat} (hin : m.inRange ptr = true) :
    Passed ms ptr ↔ ∃ r ∈ run, r.skipped = false ∧ r.addr ≤ ptr ∧ ptr < r.addr + r.size := by
  constructor
  · rintro ⟨n, hn, c, hc, hlo, hhi⟩
    obtain ⟨_, -, hrunn⟩ := h.block n hn
    obtain ⟨hfrom, hto⟩ := call_range hrunn hc hlo hhi
    -- the block of the call is the one the address is in
    obtain rfl := h.unique hn hm (hrunn.inRange_eq_true_iff.mpr ⟨hfrom, Nat.le_of_lt hto⟩) hin
    obtain ⟨r, hr, hskip, rfl, -, -⟩ := hrun.call hc
    exact ⟨r, hr, hskip, hlo, hhi⟩
  · rintro ⟨r, hr, hskip, hlo, hhi⟩
    refine ⟨m, hm, m.toMapBlock.mapCall r, ?_, hlo, hhi⟩
    rw [hrun.calls]
    exact List.mem_map_of_mem (List.mem_filter.mpr ⟨hr, by rw [hskip]; rfl⟩)

/-- The address behind a block was not passed. -/
theorem not_passed_of_behind (h : Blocks blocks ms) {m : Mapped} (hm : m ∈ ms)
    {run : List MemoryInfo} (hrun : InLayout run m) : ¬Passed ms (m.startOrig + m.size) := by
  rw [h.passed_iff hm hrun (hrun.inRange_eq_true_iff.mpr ⟨Nat.le_add_right _ _, Nat.le_refl _⟩)]
  rintro ⟨r, hr, -, -, hhi⟩
  have := (hrun.contiguous.mem_bounds hr).2.2
  omega

/-- An address of a region that is left out was not passed. -/
theorem not_passed_of_skipped (h : Blocks blocks ms) {m : Mapped} (hm : m ∈ ms)
    {run : List MemoryInfo} (hrun : InLayout run m) {r : MemoryInfo} (hr : r ∈ run)
    (hskip : r.skipped = true) {ptr : Nat} (hlo : r.addr ≤ ptr) (hhi : ptr < r.addr + r.size) :
    m.inRange ptr = true ∧ ¬Passed ms ptr := by
  obtain ⟨hfrom, -, hto⟩ := hrun.contiguous.mem_bounds hr
  have hin : m.inRange ptr = true := hrun.inRange_eq_true_iff.mpr ⟨by omega, by omega⟩
  refine ⟨hin, ?_⟩
  rw [h.passed_iff hm hrun hin]
  rintro ⟨q, hq, hqskip, hqlo, hqhi⟩
  obtain rfl := hrun.contiguous.region_unique hr hq hlo hhi hqlo hqhi
  exact absurd (hskip.symm.trans hqskip) (by simp)

/-- An address that is translated although it was not passed, is behind a block or in a region that
    was left out of one. -/
theorem behind_or_skipped (h : Blocks blocks ms) {ptr : Nat} (hget : translate ms ptr ≠ 0)
    (hno : ¬Passed ms ptr) : BehindBlock blocks ptr ∨ InSkipped blocks ptr := by
  obtain ⟨m, hm, hin⟩ := exists_inRange hget
  obtain ⟨run, hmem, hrun⟩ := h.block m hm
  obtain ⟨hlo, hhi⟩ := hrun.inRange_eq_true_iff.mp hin
  rcases Nat.eq_or_lt_of_le hhi with hend | hlt
  · refine Or.inl ⟨run, hmem, ?_⟩
    rw [← hrun.startOrig, ← hrun.size]
    exact hend
  · obtain ⟨r, hr, hrlo, hrhi⟩ := hrun.contiguous.exists_region hlo hlt
    refine Or.inr ⟨run, hmem, r, hr, ?_, hrlo, hrhi⟩
    by_contra hskip
    exact hno ((h.passed_iff hm hrun hin).mpr ⟨r, hr, by simpa using hskip, hrlo, hrhi⟩)

end Blocks

/-- The place of a block in the mirror is in the address space. -/
theorem startMapped_of_layout {K : Svc} {rs : List MemoryInfo} {ms : List Mapped}
    (h : Layout K rs) (hinside : FindsInside K)
    (hms : K.mapRuns [] (closedRuns MemoryInfo.free [] rs.dropLast) = some ms) :
    ∀ m ∈ ms, 0 < m.startMapped ∧ m.startMapped + m.size < 2 ^ 64 := by
  refine mapRuns_invariant
    (P := fun ms => ∀ m ∈ ms, 0 < m.startMapped ∧ m.startMapped + m.size < 2 ^ 64)
    (fun mBlocks m hinv hfound n hn => ?_) h.closedRuns (fun m hm => absurd hm List.not_mem_nil) hms
  rcases List.mem_append.mp hn with hn | hn
  · exact hinv n hn
  · rw [List.mem_singleton.mp hn]
    exact hinside _ _ _ hfound

/-- What is in the range of a block is not moved to the address `0`. -/
theorem InLayout.get_ne_zero {run : List MemoryInfo} {m : Mapped} (h : InLayout run m)
    (hpos : 0 < m.startMapped) (hend : m.startMapped + m.size < 2 ^ 64) {ptr : Nat}
    (hin : m.inRange ptr = true) : m.get ptr ≠ 0 := by
  obtain ⟨hlo, hhi⟩ := h.inRange_eq_true_iff.mp hin
  rw [h.get_of_range hlo hhi, wrap, Nat.mod_eq_of_lt (by omega)]
  omega

/-- **Translation rejects everything else, save two kinds of addresses.**  If an address is
    translated, then it was passed to `svcMapProcessMemory`: this holds of an address if and only if
    it is neither the one behind a block nor in a region that was left out of one. -/
theorem get_sound_iff {K : Svc} {rs : List MemoryInfo} {stop fuel : Nat} {ms : List Mapped}
    (hlayout : WidthLayout K rs stop) (hinside : FindsInside K)
    (hms : K.mapBlocks fuel = some (.value ms)) (ptr : Nat) :
    (translate ms ptr ≠ 0 → Passed ms ptr) ↔
      ¬BehindBlock (closedRuns MemoryInfo.free [] rs.dropLast) ptr ∧
        ¬InSkipped (closedRuns MemoryInfo.free [] rs.dropLast) ptr := by
  -- the walk has returned, so the address space is of full width
  have hfull : stop = addrEnd := by
    by_contra hstop
    exact hlayout.ne_value (Nat.lt_of_le_of_ne hlayout.le hstop) fuel ms hms
  subst hfull
  have hvalue := mapBlocks_value hlayout.layout hms
  have hblocks := blocks_of_layout hlayout.layout hvalue
  have hmoved := startMapped_of_layout hlayout.layout hinside hvalue
  constructor
  · intro hsound
    constructor
    · rintro ⟨run, hmem, rfl⟩
      obtain ⟨m, hm, hrun⟩ := hblocks.run run hmem
      rw [← hrun.startOrig, ← hrun.size] at hsound
      have hin : m.inRange (m.startOrig + m.size) = true :=
        hrun.inRange_eq_true_iff.mpr ⟨Nat.le_add_right _ _, Nat.le_refl _⟩
      refine hblocks.not_passed_of_behind hm hrun (hsound ?_)
      rw [hblocks.translate_eq hm hin]
      exact hrun.get_ne_zero (hmoved m hm).1 (hmoved m hm).2 hin
    · rintro ⟨run, hmem, r, hr, hskip, hlo, hhi⟩
      obtain ⟨m, hm, hrun⟩ := hblocks.run run hmem
      obtain ⟨hin, hno⟩ := hblocks.not_passed_of_skipped hm hrun hr hskip hlo hhi
      refine hno (hsound ?_)
      rw [hblocks.translate_eq hm hin]
      exact hrun.get_ne_zero (hmoved m hm).1 (hmoved m hm).2 hin
  · rintro ⟨hbehind, hskipped⟩ hget
    by_contra hno
    rcases hblocks.behind_or_skipped hget hno with h | h
    · exact hbehind h
    · exact hskipped h

/-! ## Two processes -/

theorem findsApart_svcOf (rs : List MemoryInfo) (base : Nat) : FindsApart (svcOf rs base) := by
  intro bs n m h b hb i hi j hj
  obtain ⟨rfl, hle⟩ := findAslr_svcOf h
  have hb' := (behind_le base bs).2 b hb
  unfold addrEnd at hle
  rw [wrap, wrap, Nat.mod_eq_of_lt (by omega), Nat.mod_eq_of_lt (by omega)]
  omega

theorem findsInside_svcUpTo (rs : List MemoryInfo) (stop : Nat) {base : Nat} (hbase : 0 < base) :
    FindsInside (svcUpTo rs stop base) := by
  intro bs n m h
  simp only [svcUpTo] at h
  obtain ⟨rfl, hle⟩ := findAslr_svcOf h
  have := (behind_le base bs).1
  unfold addrEnd at hle
  omega

/-- Code, and data behind free memory. -/
def gapLayout : List MemoryInfo :=
  [⟨0, 0x1000, 0⟩, ⟨0x1000, 0x1000, 3⟩, ⟨0x2000, 0x1000, 4⟩, ⟨0x3000, 0x2000, 0⟩,
    ⟨0x5000, 0x1000, 4⟩, ⟨0x6000, 0x7FFFFED000, 0⟩, ⟨0x7FFFFF3000, 0xD000, 0x10⟩]

/-- Two blocks of `gapLayout`; addresses in both are translated right. -/
theorem translates_gapLayout :
    ∃ ms, (svcOf gapLayout 0x1000000000).mapBlocks 7 = some (.value ms) ∧
      ms.map (fun m => (m.startOrig, m.size)) = [(0x1000, 0x2000), (0x5000, 0x1000)] ∧
      Translates ms := by
  have hlayout : Layout (svcOf gapLayout 0x1000000000) gapLayout :=
    layout_svcOf 0x1000000000 (by decide)
  obtain ⟨out, hfuel, h⟩ := mapBlocks_translates hlayout (by decide) (findsApart_svcOf _ _)
  have hout := hfuel 7 (by decide)
  rcases h with ⟨rfl, -⟩ | ⟨ms, rfl, htranslates⟩
  · exact absurd hout (by decide)
  · refine ⟨ms, hout, ?_, htranslates⟩
    have hblocks : ((svcOf gapLayout 0x1000000000).mapBlocks 7).map (fun out =>
        match out with
        | .value ms => ms.map fun m => (m.startOrig, m.size)
        | _ => []) = some [(0x1000, 0x2000), (0x5000, 0x1000)] := by
      decide
    rw [hout] at hblocks
    exact Option.some.inj hblocks

/-- The first address of the block of `roomyLayout` is translated, and was passed. -/
theorem sound_roomyLayout : translate [roomyBlock] 0x1000 ≠ 0 ∧ Passed [roomyBlock] 0x1000 := by
  have hruns : closedRuns MemoryInfo.free [] roomyLayout.dropLast =
      [[⟨0x1000, 0x1000, 3⟩, ⟨0x2000, 0x1000, 4⟩]] := by decide
  have hlayout : WidthLayout (svcUpTo roomyLayout addrEnd 0x1000000000) roomyLayout addrEnd :=
    widthLayout_queryUpTo rfl (by decide) (by decide) (by decide)
  have hms : (svcUpTo roomyLayout addrEnd 0x1000000000).mapBlocks 5 = some (.value [roomyBlock]) := by
    decide
  have htranslated : translate [roomyBlock] 0x1000 ≠ 0 := by decide
  refine ⟨htranslated, (get_sound_iff hlayout (findsInside_svcUpTo _ _ (by decide)) hms 0x1000).mpr
    ⟨?_, ?_⟩ htranslated⟩
  · rintro ⟨run, hrun, hptr⟩
    rw [hruns, List.mem_singleton] at hrun
    rw [hrun] at hptr
    exact absurd hptr (by decide)
  · rintro ⟨run, hrun, r, hr, hskip, -⟩
    rw [hruns, List.mem_singleton] at hrun
    rw [hrun] at hr
    revert r
    decide

/-- In `roomyLayout` the address behind the block is translated, in `mixedLayout` the memory shared
    with a thread is. -/
theorem not_sound_mixedLayout :
    (svcUpTo roomyLayout addrEnd 0x1000000000).mapBlocks 5 = some (.value [roomyBlock]) ∧
      ¬(translate [roomyBlock] 0x3000 ≠ 0 → Passed [roomyBlock] 0x3000) ∧
      (svcUpTo mixedLayout addrEnd 0x1000000000).mapBlocks 6 = some (.value [mixedBlock]) ∧
      ¬(translate [mixedBlock] 0x2800 ≠ 0 → Passed [mixedBlock] 0x2800) := by
  refine ⟨by decide, fun h => ?_, by decide, fun h => ?_⟩
  · have hno : ¬Passed [roomyBlock] 0x3000 := by simp [Passed, roomyBlock]
    exact hno (h (by decide))
  · have hno : ¬Passed [mixedBlock] 0x2800 := by simp [Passed, mixedBlock]
    exact hno (h (by decide))

end Nxdb
