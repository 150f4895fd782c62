/-
  `MapBlock::unmap` and `~MemoryMapMgr`: giving the mirror back.

  A block is unmapped by walking the debugger's own address space from the block's start on, from one
  region to the next, up to the first one that is free.  What was mapped for the block are the
  regions of its run, less those `mapBlock` leaves out.  So the walk covers what is mapped in front
  of the first region left out, `mappedPrefix`, however the kernel merges or splits the regions it
  reports (`unmap_eq`), and what was mapped is given back if and only if in no block a mapped region
  comes behind one left out (`unmap_iff`).

  1. Program: `MapBlock.unmapLoop`, whose `query` sees the calls made before, and `destroy` for the
     destructor's loop over the blocks.
  2. Specification: `Undone`, said about addresses (`Covers`) and not about calls, as the kernel
     may cut the same addresses into other regions than `mapBlock` has mapped.
  3. The kernel's side of it is two named hypotheses, `OwnSpace` for the debugger's own regions and
     `FindsFree` for the places that are found.
  4. The crux is `unmapLoop_eq`: by induction on what is left of `mappedPrefix`, each round covers
     the next region, of whatever size.  It needs that nothing else is mapped around the block
     (`SeesBlock`), which `Spread` gives for all blocks at once.
-/
import Nxdb.MemoryMapMgr
import Mathlib.Data.List.Pairwise
import Mathlib.Data.Nat.Find

namespace Nxdb

open Lib

/-! ## The code

  The loop asks the kernel about the debugger's own memory, so its answers depend on what has been
  mapped and on what has been unmapped since; `query` takes both. -/

/-- The loop of `MapBlock::unmap` from the address `addr` on: the calls of `svcUnmapProcessMemory`,
    `none` when it takes more than `fuel` rounds.  `query` is `svcQueryMemory`, which sees what has
    been unmapped by `us`, the calls made so far. -/
def MapBlock.unmapLoop (query : List MapCall → Nat → Option MemoryInfo) (b : MapBlock) :
    Nat → Nat → List MapCall → Option (List MapCall)
  | 0, _, _ => none
  | fuel + 1, addr, us =>
    match query us addr with
    | none => some []
    | some info =>
      if wrap (addr + info.size) = addrEnd ∨ info.type = 0 ∨ wrap (b.startMapped + b.size) ≤ addr then
        some []
      else
        let call : MapCall := ⟨addr, wrap (sub64 addr b.startMapped + b.startOrig), info.size⟩
        (b.unmapLoop query fuel (wrap (addr + info.size)) (us ++ [call])).map (call :: ·)

/-- `MapBlock::unmap`. -/
def MapBlock.unmap (query : List MapCall → Nat → Option MemoryInfo) (b : MapBlock) (fuel : Nat)
    (us : List MapCall) : Option (List MapCall) :=
  b.unmapLoop query fuel b.startMapped us

/-- `~MemoryMapMgr`: the calls made for each block. -/
def destroy (query : List MapCall → Nat → Option MemoryInfo) (fuel : Nat) :
    List Mapped → List MapCall → Option (List (List MapCall))
  | [], _ => some []
  | m :: ms, us =>
    (m.unmap query fuel us).bind fun calls =>
      (destroy query fuel ms (us ++ calls)).map (calls :: ·)

/-! ## What was to be done

  Both address spaces count: the calls must cover the addresses that were mapped, with the same
  addresses of the process behind them.  How they are cut into regions is up to the kernel. -/

/-- The address `x` is in the destination of one of the calls. -/
def Hits (cs : List MapCall) (x : Nat) : Prop := ∃ c ∈ cs, c.dst ≤ x ∧ x < c.dst + c.size

/-- One of the calls is about the address `d`, with the source address `s`. -/
def Covers (cs : List MapCall) (d s : Nat) : Prop :=
  ∃ c ∈ cs, ∃ i < c.size, d = c.dst + i ∧ s = c.src + i

/-- A block is given back: the calls are about the addresses that were mapped for it, with their
    sources, and nothing beyond the block. -/
structure Undone (m : Mapped) (us : List MapCall) : Prop where
  same : ∀ d s, Covers us d s ↔ Covers m.calls d s
  within : ∀ u ∈ us, m.startMapped ≤ u.dst ∧ u.dst + u.size ≤ m.startMapped + m.size

/-- No mapped region comes behind one that is left out. -/
def MappedFirst (run : List MemoryInfo) : Prop :=
  run.Pairwise fun r q => r.skipped = true → q.skipped = true

instance (run : List MemoryInfo) : Decidable (MappedFirst run) :=
  inferInstanceAs (Decidable (List.Pairwise _ _))

/-- What `svcQueryMemory` is about: at every address a region, all of which is free, or none of
    which is.  An address is not free if it was mapped by `maps` and not unmapped yet, or if the
    debugger uses it for something else. -/
structure OwnSpace (other : Nat → Prop) (maps : List MapCall)
    (query : List MapCall → Nat → Option MemoryInfo) : Prop where
  reports : ∀ us x, x < addrEnd → ∃ r, query us x = some r ∧ r.addr ≤ x ∧ x < r.addr + r.size ∧
    r.addr + r.size ≤ addrEnd ∧
    ∀ y, r.addr ≤ y → y < r.addr + r.size → (r.type ≠ 0 ↔ other y ∨ Hits maps y ∧ ¬Hits us y)

/-- What `virtmemFindAslr` promises: a slice that meets, with a guard area of `0x10000` on both
    sides, neither what else the debugger uses nor a slice that is reserved. -/
structure FindsFree (K : Svc) (other : Nat → Prop) : Prop where
  bounds : ∀ bs n m, K.findAslr bs n = some m → 0x10000 ≤ m ∧ m + n + 0x10000 ≤ addrEnd
  unused : ∀ bs n m, K.findAslr bs n = some m →
    ∀ x, m ≤ x + 0x10000 → x < m + n + 0x10000 → ¬other x
  unreserved : ∀ bs n m, K.findAslr bs n = some m → ∀ b ∈ bs,
    ∀ x, m ≤ x + 0x10000 → x < m + n + 0x10000 →
      ¬(b.startMapped ≤ x ∧ x < b.startMapped + b.size)

/-! ## What is mapped of a run

  The walk stops at the first address that is not mapped, so of a run it reaches `mappedPrefix`;
  that is all of it iff no region that is mapped comes behind one that is left out
  (`mappedFirst_iff`). -/

/-- The address is in a region of the run that is not left out. -/
def InMapped (run : List MemoryInfo) (y : Nat) : Prop :=
  ∃ r ∈ run, r.skipped = false ∧ r.addr ≤ y ∧ y < r.addr + r.size

/-- The length of what is mapped in front of the first region left out. -/
def mappedPrefix : List MemoryInfo → Nat
  | [] => 0
  | r :: rs => if r.skipped then 0 else r.size + mappedPrefix rs

theorem inMapped_cons {r : MemoryInfo} {rs : List MemoryInfo} {y : Nat} :
    InMapped (r :: rs) y ↔
      (r.skipped = false ∧ r.addr ≤ y ∧ y < r.addr + r.size) ∨ InMapped rs y := by
  simp only [InMapped, List.mem_cons, exists_eq_or_imp]

/-- What is mapped of a run lies in it. -/
theorem InMapped.bounds {rs : List MemoryInfo} : ∀ {a b y : Nat},
    Contiguous a rs b → InMapped rs y → a ≤ y ∧ y < b := by
  induction rs with
  | nil =>
    rintro a b y _ ⟨r, hr, -⟩
    exact absurd hr List.not_mem_nil
  | cons r rs ih =>
    rintro a b y ⟨haddr, -, hrest⟩ hy
    have hle := hrest.le
    rcases inMapped_cons.mp hy with ⟨-, hlo, hhi⟩ | hy
    · omega
    · have := ih hrest hy
      omega

/-- In front of the first region left out, everything is mapped. -/
theorem inMapped_of_lt {rs : List MemoryInfo} : ∀ {a b y : Nat},
    Contiguous a rs b → a ≤ y → y < a + mappedPrefix rs → InMapped rs y := by
  induction rs with
  | nil =>
    intro a b y _ hlo hhi
    exact absurd hhi (Nat.not_lt_of_le hlo)
  | cons r rs ih =>
    rintro a b y ⟨haddr, -, hrest⟩ hlo hhi
    rw [mappedPrefix] at hhi
    split at hhi
    · omega
    next hskip =>
      rw [inMapped_cons]
      rcases Nat.lt_or_ge y (a + r.size) with hy | hy
      · exact Or.inl ⟨by simpa using hskip, by omega, by omega⟩
      · exact Or.inr (ih hrest hy (by omega))

/-- What comes next is not mapped, and is in the run or directly behind it. -/
theorem not_inMapped_mappedPrefix {rs : List MemoryInfo} : ∀ {a b : Nat},
    Contiguous a rs b → ¬InMapped rs (a + mappedPrefix rs) ∧ a + mappedPrefix rs ≤ b := by
  induction rs with
  | nil =>
    rintro a b h
    exact ⟨fun ⟨_, hr, _⟩ => absurd hr List.not_mem_nil, Nat.le_of_eq h⟩
  | cons r rs ih =>
    rintro a b ⟨haddr, hsize, hrest⟩
    obtain ⟨hnot, hle⟩ := ih hrest
    rw [mappedPrefix, inMapped_cons]
    split
    next hskip =>
      refine ⟨?_, ?_⟩
      · rintro (⟨hmapped, -⟩ | hin)
        · rw [hskip] at hmapped
          exact absurd hmapped (by simp)
        · have := hin.bounds hrest
          omega
      · have := hrest.le
        omega
    next hskip =>
      rw [← Nat.add_assoc]
      refine ⟨?_, hle⟩
      rintro (⟨-, -, hhi⟩ | hin)
      · omega
      · exact hnot hin

/-- **All that is mapped comes first** if and only if no mapped region is behind one left out. -/
theorem mappedFirst_iff {rs : List MemoryInfo} : ∀ {a b : Nat}, Contiguous a rs b →
    (MappedFirst rs ↔ ∀ y, InMapped rs y → y < a + mappedPrefix rs) := by
  induction rs with
  | nil =>
    intro a b _
    exact ⟨fun _ _ ⟨_, hr, _⟩ => absurd hr List.not_mem_nil, fun _ => List.Pairwise.nil⟩
  | cons r rs ih =>
    rintro a b ⟨haddr, hsize, hrest⟩
    have ih := ih hrest
    rw [MappedFirst, List.pairwise_cons, mappedPrefix]
    cases hskip : r.skipped with
    | true =>
      rw [if_pos rfl]
      constructor
      · rintro ⟨hall, -⟩ y hy
        rcases inMapped_cons.mp hy with ⟨hmapped, -⟩ | ⟨q, hq, hmapped, -⟩
        · rw [hskip] at hmapped
          exact absurd hmapped (by simp)
        · rw [hall q hq rfl] at hmapped
          exact absurd hmapped (by simp)
      · intro hnone
        -- a mapped region behind `r` would lie behind the prefix, which is empty
        have hall : ∀ q ∈ rs, q.skipped = true := by
          intro q hq
          by_contra hmapped
          obtain ⟨pre, post, rfl⟩ := List.append_of_mem hq
          obtain ⟨m, -, hqcont⟩ := Contiguous.append.mp hrest
          obtain ⟨hqaddr, hqsize, -⟩ := hqcont
          have hin : InMapped (pre ++ q :: post) q.addr :=
            ⟨q, hq, by simpa using hmapped, Nat.le_refl _, by omega⟩
          have hlt := hnone q.addr (inMapped_cons.mpr (.inr hin))
          have := (hin.bounds hrest).1
          omega
        refine ⟨fun q hq _ => hall q hq, ?_⟩
        exact List.pairwise_of_forall_mem_list fun p _ q hq _ => hall q hq
    | false =>
      rw [if_neg Bool.false_ne_true, ← Nat.add_assoc]
      constructor
      · rintro ⟨-, hfirst⟩ y hy
        rcases inMapped_cons.mp hy with ⟨-, -, hhi⟩ | hin
        · omega
        · exact ih.mp hfirst y hin
      · intro hall
        exact ⟨fun q _ habs => absurd habs (by simp),
          ih.mpr fun y hin => hall y (inMapped_cons.mpr (.inr hin))⟩

/-! ## One block

  `SeesBlock` is what the kernel says around a block, as long as nothing else is mapped there.  A
  round of the walk covers the next region, of whatever size, and goes on behind it; the calls made
  so far cover a beginning of the block, so by induction on what is left they cover `mappedPrefix`
  (`unmapLoop_eq`). -/

/-- A block recorded for a run: its place in both address spaces, and the calls that mapped it. -/
structure BlockFor (run : List MemoryInfo) (m : Mapped) : Prop where
  contiguous : Contiguous m.startOrig run (m.startOrig + m.size)
  orig_end : m.startOrig + m.size ≤ addrEnd
  pos : 0 < m.size
  above : 0 < m.startMapped
  below : m.startMapped + m.size < addrEnd
  calls : m.calls = (run.filter fun r => !r.skipped).map m.toMapBlock.mapCall

theorem hits_iff_covers {cs : List MapCall} {x : Nat} : Hits cs x ↔ ∃ s, Covers cs x s := by
  constructor
  · rintro ⟨c, hc, hlo, hhi⟩
    exact ⟨c.src + (x - c.dst), c, hc, x - c.dst, by omega, by omega, rfl⟩
  · rintro ⟨s, c, hc, i, hi, rfl, -⟩
    exact ⟨c, hc, Nat.le_add_right _ _, by omega⟩

theorem hits_append {cs ds : List MapCall} {x : Nat} :
    Hits (cs ++ ds) x ↔ Hits cs x ∨ Hits ds x := by
  simp only [Hits, List.mem_append, or_and_right, exists_or]

theorem covers_cons {c : MapCall} {cs : List MapCall} {d s : Nat} :
    Covers (c :: cs) d s ↔ (∃ i < c.size, d = c.dst + i ∧ s = c.src + i) ∨ Covers cs d s := by
  simp only [Covers, List.mem_cons, exists_eq_or_imp]

namespace BlockFor

variable {run : List MemoryInfo} {m : Mapped}

/-- The regions of the run lie in it. -/
theorem region_bounds (hm : BlockFor run m) {r : MemoryInfo} (hr : r ∈ run) :
    m.startOrig ≤ r.addr ∧ r.addr + r.size ≤ m.startOrig + m.size := by
  obtain ⟨pre, post, rfl⟩ := List.append_of_mem hr
  obtain ⟨n, hpre, haddr, -, hpost⟩ := Contiguous.append.mp hm.contiguous
  have := hpre.le
  have := hpost.le
  omega

/-- The call for a region is about its place in the block. -/
theorem mapCall_eq (hm : BlockFor run m) {r : MemoryInfo} (hr : r ∈ run) :
    m.toMapBlock.mapCall r = ⟨m.startMapped + (r.addr - m.startOrig), r.addr, r.size⟩ := by
  obtain ⟨hlo, hhi⟩ := hm.region_bounds hr
  have hend := hm.orig_end
  have hbelow := hm.below
  rw [MapBlock.mapCall, sub64_of_le hlo (by omega), wrap_of_le (by omega)]

/-- The calls are about the addresses mapped of the run, at their places in the block. -/
theorem covers_iff (hm : BlockFor run m) {d s : Nat} :
    Covers m.calls d s ↔ InMapped run s ∧ d = m.startMapped + (s - m.startOrig) := by
  rw [hm.calls]
  constructor
  · rintro ⟨c, hc, i, hi, hd, hs⟩
    obtain ⟨r, hr, rfl⟩ := List.mem_map.mp hc
    rw [List.mem_filter, Bool.not_eq_true'] at hr
    rw [hm.mapCall_eq hr.1] at hi hd hs
    have hlo := (hm.region_bounds hr.1).1
    simp only at hi hd hs
    exact ⟨⟨r, hr.1, hr.2, by omega, by omega⟩, by omega⟩
  · rintro ⟨⟨r, hr, hmapped, hlo, hhi⟩, hd⟩
    have hbound := (hm.region_bounds hr).1
    refine ⟨m.toMapBlock.mapCall r, List.mem_map.mpr ⟨r, ?_, rfl⟩, s - r.addr, ?_⟩
    · rw [List.mem_filter, Bool.not_eq_true']
      exact ⟨hr, hmapped⟩
    · rw [hm.mapCall_eq hr]
      simp only
      omega

/-- The addresses of the debugger that are mapped for the block. -/
theorem hits_iff (hm : BlockFor run m) {x : Nat} :
    Hits m.calls x ↔ m.startMapped ≤ x ∧ InMapped run (x - m.startMapped + m.startOrig) := by
  rw [hits_iff_covers]
  constructor
  · rintro ⟨s, hs⟩
    obtain ⟨hin, hx⟩ := hm.covers_iff.mp hs
    have hlo := (hin.bounds hm.contiguous).1
    have heq : x - m.startMapped + m.startOrig = s := by omega
    exact ⟨by omega, heq ▸ hin⟩
  · rintro ⟨hlo, hin⟩
    exact ⟨_, hm.covers_iff.mpr ⟨hin, by omega⟩⟩

theorem hits_within (hm : BlockFor run m) {x : Nat} (h : Hits m.calls x) :
    m.startMapped ≤ x ∧ x < m.startMapped + m.size := by
  obtain ⟨hlo, hin⟩ := hm.hits_iff.mp h
  have := hin.bounds hm.contiguous
  omega

theorem prefix_le (hm : BlockFor run m) : mappedPrefix run ≤ m.size := by
  have := (not_inMapped_mappedPrefix hm.contiguous).2
  omega

end BlockFor

/-- What the walk over a block sees when it has unmapped the block's addresses up to `p`: regions,
    each of them free or not at all its addresses from directly in front of the block to directly
    behind it; and not free is there what is mapped of the run, from `p` on. -/
def SeesBlock (query : List MapCall → Nat → Option MemoryInfo) (us : List MapCall)
    (run : List MemoryInfo) (m : Mapped) : Prop :=
  ∀ cs p, (∀ x, Hits cs x ↔ m.startMapped ≤ x ∧ x < p) → ∀ x, x < addrEnd →
    ∃ r, query (us ++ cs) x = some r ∧ r.addr ≤ x ∧ x < r.addr + r.size ∧
      r.addr + r.size ≤ addrEnd ∧
      ∀ y, r.addr ≤ y → y < r.addr + r.size → m.startMapped ≤ y + 1 →
        y ≤ m.startMapped + m.size →
        (r.type ≠ 0 ↔ (m.startMapped ≤ y ∧ p ≤ y) ∧
          InMapped run (y - m.startMapped + m.startOrig))

/-- **A round of the walk** at an address that is mapped: the region found begins at the address and
    does not go beyond what is mapped in front of the first region left out. -/
theorem SeesBlock.region {query : List MapCall → Nat → Option MemoryInfo} {us : List MapCall}
    {run : List MemoryInfo} {m : Mapped} (hsees : SeesBlock query us run m) (hm : BlockFor run m)
    {cs : List MapCall} {p : Nat} (hcs : ∀ x, Hits cs x ↔ m.startMapped ≤ x ∧ x < p)
    (hlo : m.startMapped ≤ p) (hhi : p < m.startMapped + mappedPrefix run) :
    ∃ r, query (us ++ cs) p = some r ∧ r.type ≠ 0 ∧ 0 < r.size ∧
      p + r.size ≤ m.startMapped + mappedPrefix run := by
  have hprefix := hm.prefix_le
  have hbelow := hm.below
  have habove := hm.above
  obtain ⟨r, hquery, hraddr, hrend, -, hkind⟩ := hsees cs p hcs p (by omega)
  have hused : r.type ≠ 0 :=
    (hkind p hraddr hrend (by omega) (by omega)).mpr
      ⟨⟨hlo, Nat.le_refl _⟩, inMapped_of_lt hm.contiguous (by omega) (by omega)⟩
  -- directly in front of `p` nothing is mapped any more, so the region begins at `p`
  have hbegin : r.addr = p := by
    by_contra hne
    have hbefore := (hkind (p - 1) (by omega) (by omega) (by omega) (by omega)).mp hused
    omega
  -- nothing is mapped where the first region left out begins, or the block ends
  have hend : r.addr + r.size ≤ m.startMapped + mappedPrefix run := by
    by_contra hlong
    obtain ⟨-, hin⟩ := (hkind (m.startMapped + mappedPrefix run) (by omega) (by omega) (by omega)
      (by omega)).mp hused
    have heq : m.startMapped + mappedPrefix run - m.startMapped + m.startOrig =
        m.startOrig + mappedPrefix run := by omega
    rw [heq] at hin
    exact (not_inMapped_mappedPrefix hm.contiguous).1 hin
  exact ⟨r, hquery, hused, by omega, by omega⟩

/-- The walk ends at the first address that is not mapped. -/
theorem SeesBlock.stop {query : List MapCall → Nat → Option MemoryInfo} {us : List MapCall}
    {run : List MemoryInfo} {m : Mapped} (hsees : SeesBlock query us run m) (hm : BlockFor run m)
    {cs : List MapCall} (hcs : ∀ x, Hits cs x ↔
      m.startMapped ≤ x ∧ x < m.startMapped + mappedPrefix run) :
    ∃ r, query (us ++ cs) (m.startMapped + mappedPrefix run) = some r ∧ r.type = 0 := by
  have hprefix := hm.prefix_le
  have hbelow := hm.below
  obtain ⟨r, hquery, hraddr, hrend, -, hkind⟩ :=
    hsees cs _ hcs (m.startMapped + mappedPrefix run) (by omega)
  refine ⟨r, hquery, ?_⟩
  by_contra hused
  obtain ⟨-, hin⟩ := (hkind _ hraddr hrend (by omega) (by omega)).mp hused
  have heq : m.startMapped + mappedPrefix run - m.startMapped + m.startOrig =
      m.startOrig + mappedPrefix run := by omega
  rw [heq] at hin
  exact (not_inMapped_mappedPrefix hm.contiguous).1 hin

/-- One more call, directly behind the addresses hit so far. -/
theorem hits_append_next {cs : List MapCall} {start p src size : Nat} (hstart : start ≤ p)
    (hcs : ∀ x, Hits cs x ↔ start ≤ x ∧ x < p) (x : Nat) :
    Hits (cs ++ [⟨p, src, size⟩]) x ↔ start ≤ x ∧ x < p + size := by
  rw [hits_append, hcs]
  simp only [Hits, List.mem_singleton, exists_eq_left]
  omega

/-- A call in front of those that cover the rest of a slice. -/
theorem covers_cons_next {ds : List MapCall} {start orig p size stop : Nat} (hstart : start ≤ p)
    (hstop : p + size ≤ stop)
    (hds : ∀ d s, Covers ds d s ↔ (p + size ≤ d ∧ d < stop) ∧ s = d - start + orig) (d s : Nat) :
    Covers (⟨p, p - start + orig, size⟩ :: ds) d s ↔ (p ≤ d ∧ d < stop) ∧ s = d - start + orig := by
  rw [covers_cons, hds]
  constructor
  · rintro (⟨i, hi, hd, hs⟩ | ⟨hd, hs⟩)
    · simp only at hi hd hs
      omega
    · omega
  · rintro ⟨⟨hplo, hphi⟩, hs⟩
    rcases Nat.lt_or_ge d (p + size) with hd | hd
    · exact Or.inl ⟨d - p, by simp only; omega, by simp only; omega, by simp only; omega⟩
    · exact Or.inr ⟨⟨hd, hphi⟩, hs⟩

/-- **The walk.**  From `p` on it unmaps what is mapped in front of the first region left out. -/
theorem unmapLoop_eq {query : List MapCall → Nat → Option MemoryInfo} {us : List MapCall}
    {run : List MemoryInfo} {m : Mapped} (hsees : SeesBlock query us run m) (hm : BlockFor run m) :
    ∀ (fuel p : Nat) (cs : List MapCall), m.startMapped ≤ p →
      p ≤ m.startMapped + mappedPrefix run → m.startMapped + mappedPrefix run < p + fuel →
      (∀ x, Hits cs x ↔ m.startMapped ≤ x ∧ x < p) →
      ∃ ds, m.unmapLoop query fuel p (us ++ cs) = some ds ∧
        (∀ d s, Covers ds d s ↔ (p ≤ d ∧ d < m.startMapped + mappedPrefix run) ∧
          s = d - m.startMapped + m.startOrig) ∧
        ∀ u ∈ ds, p ≤ u.dst ∧ u.dst + u.size ≤ m.startMapped + mappedPrefix run := by
  have hprefix := hm.prefix_le
  have hbelow := hm.below
  have horig := hm.orig_end
  intro fuel
  induction fuel with
  | zero =>
    intro p cs _ hhi hfuel
    omega
  | succ fuel ih =>
    intro p cs hlo hhi hfuel hcs
    rcases Nat.lt_or_ge p (m.startMapped + mappedPrefix run) with hlt | hge
    · -- still in front of the first region left out: a region is found, and unmapped
      obtain ⟨r, hquery, hused, hsize, hend⟩ := hsees.region hm hcs hlo hlt
      have hwrap : wrap (p + r.size) = p + r.size := wrap_of_le (by omega)
      have hgo : ¬(p + r.size = addrEnd ∨ r.type = 0 ∨ wrap (m.startMapped + m.size) ≤ p) := by
        rw [wrap_of_le (by omega)]
        omega
      have hsrc : wrap (sub64 p m.startMapped + m.startOrig) = p - m.startMapped + m.startOrig := by
        rw [sub64_of_le hlo (by omega), wrap_of_le (by omega)]
      obtain ⟨ds, hds, hcovers, hwithin⟩ := ih (p + r.size)
        (cs ++ [⟨p, p - m.startMapped + m.startOrig, r.size⟩]) (by omega) hend (by omega)
        (hits_append_next hlo hcs)
      refine ⟨⟨p, p - m.startMapped + m.startOrig, r.size⟩ :: ds, ?_,
        covers_cons_next hlo hend hcovers, ?_⟩
      · rw [MapBlock.unmapLoop, hquery]
        simp only [hsrc, hwrap, List.append_assoc, hds, Option.map_some]
        exact if_neg hgo
      · intro u hu
        rcases List.mem_cons.mp hu with rfl | hu
        · exact ⟨Nat.le_refl _, hend⟩
        · have := hwithin u hu
          omega
    · -- there: the next region is free, and the loop is left
      have hp : p = m.startMapped + mappedPrefix run := Nat.le_antisymm hhi hge
      subst hp
      obtain ⟨r, hquery, hfree⟩ := hsees.stop hm hcs
      refine ⟨[], ?_, ?_, ?_⟩
      · rw [MapBlock.unmapLoop, hquery]
        exact if_pos (.inr (.inl hfree))
      · intro d s
        constructor
        · rintro ⟨c, hc, -⟩
          exact absurd hc List.not_mem_nil
        · omega
      · intro u hu
        exact absurd hu List.not_mem_nil

/-- **One block.**  `unmap` comes to an end, and covers what is mapped of the run in front of the
    first region left out. -/
theorem unmap_eq {query : List MapCall → Nat → Option MemoryInfo} {us : List MapCall}
    {run : List MemoryInfo} {m : Mapped} (hsees : SeesBlock query us run m) (hm : BlockFor run m)
    {fuel : Nat} (hfuel : m.size < fuel) :
    ∃ ds, m.unmap query fuel us = some ds ∧
      (∀ d s, Covers ds d s ↔
        (m.startMapped ≤ d ∧ d < m.startMapped + mappedPrefix run) ∧
          s = d - m.startMapped + m.startOrig) ∧
      ∀ u ∈ ds, m.startMapped ≤ u.dst ∧ u.dst + u.size ≤ m.startMapped + mappedPrefix run := by
  have hprefix := hm.prefix_le
  have h := unmapLoop_eq hsees hm fuel m.startMapped [] (Nat.le_refl _) (by omega) (by omega)
    (fun x => ⟨fun ⟨_, hc, _⟩ => absurd hc List.not_mem_nil, fun hx => by omega⟩)
  rwa [List.append_nil] at h

/-- A block is given back if and only if what is mapped of its run comes first. -/
theorem undone_iff {run : List MemoryInfo} {m : Mapped} (hm : BlockFor run m) {ds : List MapCall}
    (hcovers : ∀ d s, Covers ds d s ↔
      (m.startMapped ≤ d ∧ d < m.startMapped + mappedPrefix run) ∧
        s = d - m.startMapped + m.startOrig)
    (hwithin : ∀ u ∈ ds,
      m.startMapped ≤ u.dst ∧ u.dst + u.size ≤ m.startMapped + mappedPrefix run) :
    Undone m ds ↔ MappedFirst run := by
  have hprefix := hm.prefix_le
  rw [mappedFirst_iff hm.contiguous]
  constructor
  · intro h y hin
    have hlo := (hin.bounds hm.contiguous).1
    have hcov := (h.same _ y).mpr (hm.covers_iff.mpr ⟨hin, rfl⟩)
    have := (hcovers _ y).mp hcov
    omega
  · intro hfirst
    constructor
    · intro d s
      rw [hcovers, hm.covers_iff]
      constructor
      · rintro ⟨⟨hlo, hhi⟩, rfl⟩
        exact ⟨inMapped_of_lt hm.contiguous (by omega) (by omega), by omega⟩
      · rintro ⟨hin, rfl⟩
        have hlo := (hin.bounds hm.contiguous).1
        have := hfirst s hin
        omega
    · intro u hu
      have := hwithin u hu
      omega

/-! ## The blocks lie apart

  What `virtmemFindAslr` promises is a gap around each slice, so no region of a block is merged with
  one of another block, and a block sees itself alone. -/

/-- At least one address lies between two blocks. -/
def Apart (m n : Mapped) : Prop :=
  m.startMapped + m.size < n.startMapped ∨ n.startMapped + n.size < m.startMapped

instance : Std.Symm Apart := ⟨fun _ _ h => h.symm⟩

/-- The blocks lie apart from each other and from what else the debugger uses. -/
structure Spread (other : Nat → Prop) (ms : List Mapped) : Prop where
  pos : ∀ m ∈ ms, 0 < m.size
  unused : ∀ m ∈ ms, ∀ x, m.startMapped ≤ x + 1 → x ≤ m.startMapped + m.size → ¬other x
  apart : ms.Pairwise Apart

theorem Spread.nil (other : Nat → Prop) : Spread other [] where
  pos _ h := absurd h List.not_mem_nil
  unused _ h := absurd h List.not_mem_nil
  apart := List.Pairwise.nil

/-- The block recorded for a run, at a place that was found. -/
theorem Recorded.blockFor {K : Svc} {other : Nat → Prop} (hfind : FindsFree K other)
    {run : List MemoryInfo} {m : Mapped} {bs : List MapBlock} {a b : Nat} (hm : Recorded run m)
    (hne : run ≠ []) (hrun : Contiguous a run b) (hb : b ≤ addrEnd)
    (hfound : K.findAslr bs m.size = some m.startMapped) : BlockFor run m := by
  obtain ⟨hlo, hhi⟩ := hfind.bounds bs m.size m.startMapped hfound
  have hstart : m.startOrig = a := by rw [hm.startOrig, hrun.startOf_eq hne]
  have hend : m.startOrig + m.size = b := by rw [hstart, hm.size, totalOf, hrun.sum]
  have hpos : 0 < m.size := by
    obtain ⟨r, rest, rfl⟩ := List.exists_cons_of_ne_nil hne
    obtain ⟨-, hr, hrest⟩ := hrun
    have := hrest.le
    omega
  constructor
  · rw [hend, hstart]
    exact hrun
  · exact hend ▸ hb
  · exact hpos
  · omega
  · omega
  · exact hm.calls

/-- A place that was found is apart from the blocks there are. -/
theorem Spread.append {K : Svc} {other : Nat → Prop} (hfind : FindsFree K other)
    {ms : List Mapped} {m : Mapped} (hms : Spread other ms) (hpos : 0 < m.size)
    (hfound : K.findAslr (ms.map Mapped.toMapBlock) m.size = some m.startMapped) :
    Spread other (ms ++ [m]) := by
  constructor
  · intro n hn
    rcases List.mem_append.mp hn with hn | hn
    · exact hms.pos n hn
    · exact List.mem_singleton.mp hn ▸ hpos
  · intro n hn x hlo hhi
    rcases List.mem_append.mp hn with hn | hn
    · exact hms.unused n hn x hlo hhi
    · rw [List.mem_singleton.mp hn] at hlo hhi
      exact hfind.unused _ _ _ hfound x (by omega) (by omega)
  · rw [List.pairwise_append]
    refine ⟨hms.apart, List.pairwise_singleton _ _, fun n hn q hq => ?_⟩
    rw [List.mem_singleton.mp hq]
    have hclear := hfind.unreserved _ _ _ hfound n.toMapBlock (List.mem_map.mpr ⟨n, hn, rfl⟩)
    have hn0 := hms.pos n hn
    by_contra hnot
    rw [Apart, not_or] at hnot
    -- the first address of `n` that is not before the new slice's guard area lies in both
    rcases Nat.lt_or_ge n.startMapped (m.startMapped - 1) with hlt | hge
    · exact hclear (m.startMapped - 1) (by omega) (by omega) (by omega)
    · exact hclear n.startMapped (by omega) (by omega) (by omega)

/-- The blocks that mapping a list of runs adds. -/
theorem mapRuns_spread {K : Svc} {other : Nat → Prop} (hfind : FindsFree K other)
    {runs : List (List MemoryInfo)}
    (hruns : ∀ run ∈ runs, run ≠ [] ∧ ∃ a b, Contiguous a run b ∧ b ≤ addrEnd) :
    ∀ {mBlocks ms : List Mapped}, Spread other mBlocks → K.mapRuns mBlocks runs = some ms →
      ∃ new, ms = mBlocks ++ new ∧ List.Forall₂ BlockFor runs new ∧ Spread other ms := by
  induction runs with
  | nil =>
    intro mBlocks ms hspread h
    have heq : mBlocks = ms := Option.some.inj h
    subst heq
    exact ⟨[], by rw [List.append_nil], List.Forall₂.nil, hspread⟩
  | cons run runs ih =>
    intro mBlocks ms hspread h
    rw [Svc.mapRuns, Option.bind_eq_some_iff] at h
    obtain ⟨mid, hflush, hrest⟩ := h
    obtain ⟨hne, a, b, hrun, hb⟩ := hruns run List.mem_cons_self
    obtain ⟨m, rfl, hm, hfound⟩ := Svc.flush_eq_some hne hrun hb hflush
    have hblock := hm.blockFor hfind hne hrun hb hfound
    obtain ⟨new, rfl, hnew, hall⟩ := ih (fun r hr => hruns r (List.mem_cons_of_mem _ hr))
      (hspread.append hfind hblock.pos hfound) hrest
    exact ⟨m :: new, by rw [List.append_assoc, List.singleton_append], .cons hblock hnew, hall⟩

/-! ## All blocks

  One block after the other: what has been unmapped before is not around the next one, so each sees
  what it would see first (`OwnSpace.seesBlock`). -/

/-- Around a block nothing is mapped for another one. -/
theorem Spread.hits_flatMap {other : Nat → Prop} {ms : List Mapped} (hms : Spread other ms)
    (hblocks : ∀ n ∈ ms, ∀ x, Hits n.calls x → n.startMapped ≤ x ∧ x < n.startMapped + n.size)
    {m : Mapped} (hm : m ∈ ms) {x : Nat} (hlo : m.startMapped ≤ x + 1)
    (hhi : x ≤ m.startMapped + m.size) : Hits (ms.flatMap Mapped.calls) x ↔ Hits m.calls x := by
  constructor
  · rintro ⟨c, hc, hhits⟩
    obtain ⟨n, hn, hcn⟩ := List.mem_flatMap.mp hc
    by_cases hnm : n = m
    · exact hnm ▸ ⟨c, hcn, hhits⟩
    · have hin := hblocks n hn x ⟨c, hcn, hhits⟩
      rcases hms.apart.forall hn hm hnm with hapart | hapart
      · omega
      · omega
  · rintro ⟨c, hc, hhits⟩
    exact ⟨c, List.mem_flatMap.mpr ⟨m, hm, hc⟩, hhits⟩

/-- What the walk over a block sees, when what has been unmapped before is not around the block. -/
theorem OwnSpace.seesBlock {other : Nat → Prop} {maps us : List MapCall}
    {query : List MapCall → Nat → Option MemoryInfo} (hown : OwnSpace other maps query)
    {run : List MemoryInfo} {m : Mapped} (hm : BlockFor run m)
    (hother : ∀ x, m.startMapped ≤ x + 1 → x ≤ m.startMapped + m.size → ¬other x)
    (hmaps : ∀ x, m.startMapped ≤ x + 1 → x ≤ m.startMapped + m.size →
      (Hits maps x ↔ Hits m.calls x))
    (hus : ∀ x, m.startMapped ≤ x + 1 → x ≤ m.startMapped + m.size → ¬Hits us x) :
    SeesBlock query us run m := by
  intro cs p hcs x hx
  obtain ⟨r, hquery, hraddr, hrend, hend, hkind⟩ := hown.reports (us ++ cs) x hx
  refine ⟨r, hquery, hraddr, hrend, hend, fun y hylo hyhi hlo hhi => ?_⟩
  have hno := hother y hlo hhi
  have hclear := hus y hlo hhi
  rw [hkind y hylo hyhi, hmaps y hlo hhi, hm.hits_iff, hits_append, hcs]
  constructor
  · rintro (hyes | ⟨⟨hge, hin⟩, hleft⟩)
    · exact absurd hyes hno
    · exact ⟨⟨hge, Nat.le_of_not_lt fun hlt => hleft (.inr ⟨hge, hlt⟩)⟩, hin⟩
  · rintro ⟨⟨hge, hp⟩, hin⟩
    refine Or.inr ⟨⟨hge, hin⟩, ?_⟩
    rintro (hyes | ⟨-, hlt⟩)
    · exact hclear hyes
    · exact absurd hlt (Nat.not_lt_of_le hp)

/-- **The destructor.**  It comes to an end, and gives back what was mapped if and only if in every
    block what is mapped comes first. -/
theorem destroy_iff {other : Nat → Prop} {maps : List MapCall}
    {query : List MapCall → Nat → Option MemoryInfo} (hown : OwnSpace other maps query) {fuel : Nat}
    (hfuel : addrEnd ≤ fuel) {runs : List (List MemoryInfo)} {ms : List Mapped}
    (hms : List.Forall₂ BlockFor runs ms) : ∀ {us : List MapCall}, Spread other ms →
      (∀ m ∈ ms, ∀ x, m.startMapped ≤ x + 1 → x ≤ m.startMapped + m.size →
        (Hits maps x ↔ Hits m.calls x) ∧ ¬Hits us x) →
      ∃ uss, destroy query fuel ms us = some uss ∧
        (List.Forall₂ Undone ms uss ↔ ∀ run ∈ runs, MappedFirst run) := by
  induction hms with
  | nil =>
    intro us _ _
    exact ⟨[], rfl, fun _ _ h => absurd h List.not_mem_nil, fun _ => List.Forall₂.nil⟩
  | @cons run m runs ms hm hrest ih =>
    intro us hspread hclear
    have hsees := hown.seesBlock hm (hspread.unused m List.mem_cons_self)
      (fun x hlo hhi => (hclear m List.mem_cons_self x hlo hhi).1)
      (fun x hlo hhi => (hclear m List.mem_cons_self x hlo hhi).2)
    have hsize : m.size < fuel := by
      have := hm.below
      omega
    obtain ⟨ds, hds, hcovers, hwithin⟩ := unmap_eq hsees hm hsize
    have hspread' : Spread other ms :=
      ⟨fun n hn => hspread.pos n (List.mem_cons_of_mem _ hn),
        fun n hn => hspread.unused n (List.mem_cons_of_mem _ hn),
        (List.pairwise_cons.mp hspread.apart).2⟩
    -- what was unmapped for this block is not around a later one
    have hclear' : ∀ n ∈ ms, ∀ x, n.startMapped ≤ x + 1 → x ≤ n.startMapped + n.size →
        (Hits maps x ↔ Hits n.calls x) ∧ ¬Hits (us ++ ds) x := by
      intro n hn x hlo hhi
      obtain ⟨hmaps, hus⟩ := hclear n (List.mem_cons_of_mem _ hn) x hlo hhi
      refine ⟨hmaps, fun hhits => ?_⟩
      rcases hits_append.mp hhits with hold | ⟨u, hu, hulo, huhi⟩
      · exact hus hold
      · have hprefix := hm.prefix_le
        have := hwithin u hu
        rcases (List.pairwise_cons.mp hspread.apart).1 n hn with hapart | hapart
        · omega
        · omega
    obtain ⟨uss, huss, hiff⟩ := ih hspread' hclear'
    refine ⟨ds :: uss, ?_, ?_⟩
    · rw [destroy, hds, Option.bind_some, huss, Option.map_some]
    · rw [List.forall₂_cons, undone_iff hm hcovers hwithin, hiff, List.forall_mem_cons]

/-- **Unmapping undoes mapping.**  For the blocks `mapBlocks` recorded, the destructor gives back
    exactly what was mapped, if and only if in no block a mapped region comes behind one that
    `mapBlock` leaves out. -/
theorem unmap_iff {K : Svc} {rs : List MemoryInfo} {other : Nat → Prop} {ms : List Mapped}
    {query : List MapCall → Nat → Option MemoryInfo} {rounds fuel : Nat} (hlayout : Layout K rs)
    (hfind : FindsFree K other) (hms : K.mapBlocks rounds = some (.value ms))
    (hown : OwnSpace other (ms.flatMap Mapped.calls) query) (hfuel : addrEnd ≤ fuel) :
    ∃ uss, destroy query fuel ms [] = some uss ∧
      (List.Forall₂ Undone ms uss ↔
        ∀ run ∈ closedRuns MemoryInfo.free [] rs.dropLast, MappedFirst run) := by
  have hsome := mapBlocks_value hlayout hms
  obtain ⟨new, hnew, hblocks, hspread⟩ :=
    mapRuns_spread hfind hlayout.closedRuns (Spread.nil other) hsome
  rw [List.nil_append] at hnew
  subst hnew
  have hwithin : ∀ n ∈ ms, ∀ x, Hits n.calls x →
      n.startMapped ≤ x ∧ x < n.startMapped + n.size := by
    intro n hn x hhits
    obtain ⟨run, -, hrun⟩ := exists_of_forall₂ hblocks n hn
    exact hrun.hits_within hhits
  refine destroy_iff hown hfuel hblocks hspread fun m hm x hlo hhi => ⟨?_, ?_⟩
  · exact hspread.hits_flatMap hwithin hm hlo hhi
  · rintro ⟨c, hc, -⟩
    exact absurd hc List.not_mem_nil

/-! ## Two processes

  A kernel to run both functions on.  For the debugger's own memory it reports maximal regions; it is
  not computable, as it looks for the ends of a region in a set of addresses. -/

/-- Where the region of `x` begins: everything from there to `x` is mapped, or nothing is. -/
theorem exists_begin (used : Nat → Prop) (x : Nat) :
    ∃ l, l ≤ x ∧ ∀ y, l ≤ y → y ≤ x → (used y ↔ used x) :=
  ⟨x, Nat.le_refl x, fun _ hlo hhi => by rw [Nat.le_antisymm hhi hlo]⟩

/-- Where the region of `x` ends: something else begins there, or the address space ends. -/
theorem exists_end (used : Nat → Prop) {x : Nat} (hx : x < addrEnd) :
    ∃ e, x < e ∧ (e = addrEnd ∨ ¬(used e ↔ used x)) :=
  ⟨addrEnd, hx, Or.inl rfl⟩

open Classical in
/-- The maximal regions of an address space of which the addresses in `used` are mapped. -/
noncomputable def maximalRegion (used : Nat → Prop) (x : Nat) : Option MemoryInfo :=
  if hx : x < addrEnd then
    let lo := Nat.find (exists_begin used x)
    some ⟨lo, Nat.find (exists_end used hx) - lo, if used x then 1 else 0⟩
  else none

theorem maximalRegion_eq (used : Nat → Prop) {x : Nat} (hx : x < addrEnd) :
    ∃ r, maximalRegion used x = some r ∧ r.addr ≤ x ∧ x < r.addr + r.size ∧
      r.addr + r.size ≤ addrEnd ∧
      ∀ y, r.addr ≤ y → y < r.addr + r.size → (r.type ≠ 0 ↔ used y) := by
  classical
  obtain ⟨hlo, hbefore⟩ := Nat.find_spec (exists_begin used x)
  obtain ⟨hhi, hend⟩ := Nat.find_spec (exists_end used hx)
  have hle : Nat.find (exists_end used hx) ≤ addrEnd := Nat.find_le ⟨hx, Or.inl rfl⟩
  refine ⟨_, dif_pos hx, hlo, ?_, ?_, ?_⟩
  · simp only
    omega
  · simp only
    omega
  · intro y hylo hyhi
    simp only at hylo hyhi
    have hsame : used y ↔ used x := by
      rcases Nat.le_total y x with hyx | hxy
      · exact hbefore y hylo hyx
      · rcases Nat.eq_or_lt_of_le hxy with rfl | hlt
        · exact Iff.rfl
        · have hmin := Nat.find_min (exists_end used hx) (m := y) (by omega)
          rw [not_and, not_or, not_not] at hmin
          exact (hmin hlt).2
    rw [hsame]
    by_cases hused : used x
    · simp [hused]
    · simp [hused]

/-- The debugger's own code, in front of all slices that are found. -/
def ownCode (x : Nat) : Prop := x < 0x200000

/-- The debugger's address space, by what was mapped and what has been unmapped. -/
noncomputable def ownQuery (maps us : List MapCall) : Nat → Option MemoryInfo :=
  maximalRegion fun y => ownCode y ∨ Hits maps y ∧ ¬Hits us y

theorem ownSpace_ownQuery (maps : List MapCall) : OwnSpace ownCode maps (ownQuery maps) :=
  ⟨fun _ _ hx => maximalRegion_eq _ hx⟩

theorem behind_le (base : Nat) (bs : List MapBlock) :
    base ≤ behind base bs ∧ ∀ b ∈ bs, b.startMapped + b.size + 0x10000 ≤ behind base bs := by
  induction bs with
  | nil => exact ⟨Nat.le_refl _, fun _ h => absurd h List.not_mem_nil⟩
  | cons b bs ih =>
    refine ⟨Nat.le_trans ih.1 (Nat.le_max_right _ _), fun c hc => ?_⟩
    rcases List.mem_cons.mp hc with rfl | hc
    · exact Nat.le_max_left _ _
    · exact Nat.le_trans (ih.2 c hc) (Nat.le_max_right _ _)

theorem findAslr_svcOf {rs : List MemoryInfo} {base n m : Nat} {bs : List MapBlock}
    (h : (svcOf rs base).findAslr bs n = some m) :
    m = behind base bs ∧ m + n + 0x10000 ≤ addrEnd := by
  simp only [svcOf] at h
  split at h
  next hle =>
    rw [Option.some.injEq] at h
    subst h
    exact ⟨rfl, hle⟩
  · exact absurd h (by simp)

theorem findsFree_svcOf (rs : List MemoryInfo) {base : Nat} (hbase : 0x210000 ≤ base) :
    FindsFree (svcOf rs base) ownCode := by
  constructor
  · intro bs n m h
    obtain ⟨rfl, hle⟩ := findAslr_svcOf h
    have := (behind_le base bs).1
    omega
  · intro bs n m h x hlo _ hown
    obtain ⟨rfl, -⟩ := findAslr_svcOf h
    have := (behind_le base bs).1
    rw [ownCode] at hown
    omega
  · intro bs n m h b hb x hlo _ hin
    obtain ⟨rfl, -⟩ := findAslr_svcOf h
    have := (behind_le base bs).2 b hb
    omega

/-- Code, memory shared with a thread, and data. -/
def mixedLayout : List MemoryInfo :=
  [⟨0, 0x1000, 0⟩, ⟨0x1000, 0x1000, 3⟩, ⟨0x2000, 0x1000, 0x0C⟩, ⟨0x3000, 0x1000, 4⟩,
    ⟨0x4000, 0x7FFFFEF000, 0⟩, ⟨0x7FFFFF3000, 0xD000, 0x10⟩]

/-- The block of `roomyLayout`. -/
def roomyBlock : Mapped :=
  ⟨⟨0x1000, 0x1000000000, 0x2000⟩,
    [⟨0x1000000000, 0x1000, 0x1000⟩, ⟨0x1000001000, 0x2000, 0x1000⟩]⟩

/-- Both regions of `roomyLayout` are given back. -/
theorem unmap_roomyLayout :
    (svcOf roomyLayout 0x1000000000).mapBlocks 5 = some (.value [roomyBlock]) ∧
      ∃ uss, destroy (ownQuery roomyBlock.calls) addrEnd [roomyBlock] [] = some uss ∧
        List.Forall₂ Undone [roomyBlock] uss := by
  have hmap : (svcOf roomyLayout 0x1000000000).mapBlocks 5 = some (.value [roomyBlock]) := by
    decide
  have hlayout : Layout (svcOf roomyLayout 0x1000000000) roomyLayout :=
    layout_svcOf 0x1000000000 (by decide)
  obtain ⟨uss, huss, hiff⟩ := unmap_iff hlayout (findsFree_svcOf _ (by decide)) hmap
    (ownSpace_ownQuery _) (Nat.le_refl addrEnd)
  exact ⟨hmap, uss, huss, hiff.mpr (by decide)⟩

/-- The block of `mixedLayout`. -/
def mixedBlock : Mapped :=
  ⟨⟨0x1000, 0x1000000000, 0x3000⟩,
    [⟨0x1000000000, 0x1000, 0x1000⟩, ⟨0x1000002000, 0x3000, 0x1000⟩]⟩

/-- The run of `mixedLayout`. -/
def mixedRun : List MemoryInfo :=
  [⟨0x1000, 0x1000, 3⟩, ⟨0x2000, 0x1000, 0x0C⟩, ⟨0x3000, 0x1000, 4⟩]

theorem blockFor_mixedBlock : BlockFor mixedRun mixedBlock where
  contiguous := by decide
  orig_end := by decide
  pos := by decide
  above := by decide
  below := by decide
  calls := by decide

/-- The data of `mixedLayout` stay mapped. -/
theorem not_undone_mixedLayout :
    Layout (svcOf mixedLayout 0x1000000000) mixedLayout ∧
      FindsFree (svcOf mixedLayout 0x1000000000) ownCode ∧
      (svcOf mixedLayout 0x1000000000).mapBlocks 6 = some (.value [mixedBlock]) ∧
      OwnSpace ownCode mixedBlock.calls (ownQuery mixedBlock.calls) ∧
      ∃ uss, destroy (ownQuery mixedBlock.calls) addrEnd [mixedBlock] [] = some uss ∧
        ¬List.Forall₂ Undone [mixedBlock] uss := by
  have hspread : Spread ownCode [mixedBlock] := by
    constructor
    · intro m hm
      rw [List.mem_singleton.mp hm]
      decide
    · intro m hm x hlo hhi hown
      rw [List.mem_singleton.mp hm] at hlo
      rw [ownCode] at hown
      simp only [mixedBlock] at hlo
      omega
    · exact List.pairwise_singleton _ _
  have hblocks : List.Forall₂ BlockFor [mixedRun] [mixedBlock] := .cons blockFor_mixedBlock .nil
  have hclear : ∀ m ∈ [mixedBlock], ∀ x, m.startMapped ≤ x + 1 →
      x ≤ m.startMapped + m.size → (Hits mixedBlock.calls x ↔ Hits m.calls x) ∧ ¬Hits [] x := by
    intro m hm x _ _
    rw [List.mem_singleton.mp hm]
    exact ⟨Iff.rfl, fun ⟨_, hc, _⟩ => absurd hc List.not_mem_nil⟩
  obtain ⟨uss, huss, hiff⟩ := destroy_iff (ownSpace_ownQuery mixedBlock.calls)
    (Nat.le_refl addrEnd) hblocks hspread hclear
  refine ⟨layout_svcOf _ (by decide), findsFree_svcOf _ (by decide), by decide,
    ownSpace_ownQuery _, uss, huss, fun h => ?_⟩
  exact absurd (hiff.mp h mixedRun (List.mem_singleton.mpr rfl)) (by decide)

end Nxdb
