/-
  The walk of `mapBlocks` over address spaces of any width.

  The regions of a process go up to some `stop`, and behind them one reserved region goes up to the
  end of the 64-bit space.  The loop is left where a region ends at `0x8000000000`, and nowhere else.
  With a smaller `stop` it takes the reserved region for memory of the process, wraps around to the
  address `0` and begins again: it ends by itself if and only if `stop` is that one address
  (`mapBlocks_endsOnce_iff`).

  The same walk decides which entries of `mapBuffer` are written: `mapBlocks_inBuffer_iff`.  One
  round of the loop is the same for every width, so both go through rules about one round
  (`mapLoop_ne_value`, `mapLoop_ne_overrun`).

  1. Layouts: `WidthLayout`, with the reserved region from `stop` to the end of the 64-bit space
     behind the regions of the process.
  2. `Walks` are the regions that the loop goes through from one address to another, and `visits`
     those that so many rounds look at; neither depends on what the loop does with them.
  3. Three rules: a loop never returns if every round leads to one that does not leave it, never
     leaves the buffer if there is room in every round, and does leave it if the regions it goes
     through contain a run that is too long.
  4. With any other `stop` the walk wraps around to `0` and goes through the layout again, lap after
     lap (`walks_lap`).
-/
import Nxdb.MemoryMapMgr

namespace Nxdb

open Lib

/-! ## Layouts of any width

  `Walks` is the loop without what it collects: through which regions it goes, and to which address.
  Laps are walks that come back to where they began. -/

/-- A region of a layout lies in it. -/
theorem Contiguous.mem_bounds {rs : List MemoryInfo} {r : MemoryInfo} {a b : Nat}
    (h : Contiguous a rs b) (hr : r ∈ rs) : a ≤ r.addr ∧ 0 < r.size ∧ r.addr + r.size ≤ b := by
  obtain ⟨pre, post, rfl⟩ := List.append_of_mem hr
  obtain ⟨m, hpre, haddr, hsize, hpost⟩ := Contiguous.append.mp h
  have := hpre.le
  have := hpost.le
  omega

/-- `MemType_Reserved`. -/
def MemoryInfo.reserved : Nat := 0x10

/-- The region behind the regions of a process. -/
def reservedFrom (stop : Nat) : MemoryInfo := ⟨stop, 2 ^ 64 - stop, MemoryInfo.reserved⟩

/-- What `svcQueryDebugProcessMemory` is about in an address space that ends at `stop`. -/
structure WidthLayout (K : Svc) (rs : List MemoryInfo) (stop : Nat) : Prop where
  contiguous : Contiguous 0 rs stop
  pos : 0 < stop
  le : stop ≤ addrEnd
  query : ∀ r ∈ rs, ∀ a, r.addr ≤ a → a < r.addr + r.size → K.queryMemory a = some r
  beyond : ∀ a, stop ≤ a → a < 2 ^ 64 → K.queryMemory a = some (reservedFrom stop)

namespace Svc

/-- The regions that the first `fuel` rounds of the loop look at, from the address `addr` on. -/
def visits (K : Svc) : Nat → Nat → List MemoryInfo
  | 0, _ => []
  | fuel + 1, addr =>
    match K.queryMemory addr with
    | none => []
    | some info =>
      info :: if wrap (addr + info.size) = addrEnd then [] else K.visits fuel (wrap (addr + info.size))

/-- The loop goes through the regions `seg`, from the address `a` to the address `b`. -/
def Walks (K : Svc) : Nat → List MemoryInfo → Nat → Prop
  | a, [], b => a = b
  | a, r :: seg, b =>
    K.queryMemory a = some r ∧ wrap (a + r.size) ≠ addrEnd ∧ K.Walks (wrap (a + r.size)) seg b

theorem Walks.append {K : Svc} {xs ys : List MemoryInfo} {b c : Nat} (hys : K.Walks b ys c) :
    ∀ {a : Nat}, K.Walks a xs b → K.Walks a (xs ++ ys) c := by
  induction xs with
  | nil =>
    rintro a rfl
    exact hys
  | cons r xs ih =>
    rintro a ⟨hget, hgo, hxs⟩
    exact ⟨hget, hgo, ih hxs⟩

/-- Round after round over the same regions. -/
theorem Walks.replicate {K : Svc} {lap : List MemoryInfo} {a : Nat} (h : K.Walks a lap a) (n : Nat) :
    K.Walks a (List.replicate n lap).flatten a := by
  induction n with
  | zero => exact rfl
  | succ n ih =>
    rw [List.replicate_succ, List.flatten_cons]
    exact Walks.append ih h

/-! ## One round

  One round either leaves the loop or leads to the next one with one region more pending.  The three
  rules turn a property of rounds into one of the loop: it never returns, it stays in the buffer, or
  it leaves it. -/

/-- What is pending behind a region. -/
def pendingAfter (maps : List MemoryInfo) (info : MemoryInfo) : List MemoryInfo :=
  if info.free then [] else maps ++ [info]

/-- A round that does not leave the loop. -/
theorem mapLoop_round {K : Svc} (fuel : Nat) {a : Nat} {info : MemoryInfo}
    (maps : List MemoryInfo) (mBlocks : List Mapped) (hget : K.queryMemory a = some info)
    (hgo : wrap (a + info.size) ≠ addrEnd) :
    K.mapLoop (fuel + 1) a maps mBlocks = some .abort ∨
      (K.mapLoop (fuel + 1) a maps mBlocks = some .overrun ∧ info.free = false ∧
        mapBufferSize ≤ maps.length) ∨
      ∃ mBlocks', K.mapLoop (fuel + 1) a maps mBlocks =
        K.mapLoop fuel (wrap (a + info.size)) (pendingAfter maps info) mBlocks' := by
  rw [mapLoop, hget, pendingAfter]
  simp only [if_neg hgo]
  cases hfree : info.free with
  | true =>
    simp only [if_true]
    cases K.flush mBlocks maps with
    | none => exact Or.inl rfl
    | some mid => exact Or.inr (Or.inr ⟨mid, rfl⟩)
  | false =>
    simp only [Bool.false_eq_true, if_false]
    by_cases hroom : maps.length < mapBufferSize
    · rw [if_pos hroom]
      exact Or.inr (Or.inr ⟨mBlocks, rfl⟩)
    · rw [if_neg hroom]
      exact Or.inr (Or.inl ⟨rfl, trivial, Nat.le_of_not_lt hroom⟩)

/-- **A loop that never returns**: every round leads to one that does not leave the loop. -/
theorem mapLoop_ne_value {K : Svc} {P : Nat → Prop}
    (hround : ∀ a, P a → ∃ info, K.queryMemory a = some info ∧ wrap (a + info.size) ≠ addrEnd ∧
      P (wrap (a + info.size))) :
    ∀ (fuel : Nat) {a : Nat} {maps : List MemoryInfo} {mBlocks ms : List Mapped}, P a →
      K.mapLoop fuel a maps mBlocks ≠ some (.value ms) := by
  intro fuel
  induction fuel with
  | zero =>
    intro a maps mBlocks ms _ h
    exact Option.some_ne_none _ h.symm
  | succ fuel ih =>
    intro a maps mBlocks ms ha h
    obtain ⟨info, hget, hgo, hnext⟩ := hround a ha
    rcases mapLoop_round fuel maps mBlocks hget hgo with
      habort | ⟨hover, -⟩ | ⟨mBlocks', hrest⟩
    · rw [habort] at h
      exact absurd h (by simp)
    · rw [hover] at h
      exact absurd h (by simp)
    · rw [hrest] at h
      exact ih hnext h

/-- **A loop that stays in the buffer**: with room for the region in every round. -/
theorem mapLoop_ne_overrun {K : Svc} {P : Nat → List MemoryInfo → Prop}
    (hround : ∀ a maps, P a maps → ∃ info, K.queryMemory a = some info ∧
      (wrap (a + info.size) ≠ addrEnd → (info.free = false → maps.length < mapBufferSize) ∧
        P (wrap (a + info.size)) (pendingAfter maps info))) :
    ∀ (fuel : Nat) {a : Nat} {maps : List MemoryInfo} {mBlocks : List Mapped}, P a maps →
      K.mapLoop fuel a maps mBlocks ≠ some .overrun := by
  intro fuel
  induction fuel with
  | zero =>
    intro a maps mBlocks _ h
    exact Option.some_ne_none _ h.symm
  | succ fuel ih =>
    intro a maps mBlocks ha h
    obtain ⟨info, hget, hnext⟩ := hround a maps ha
    by_cases hgo : wrap (a + info.size) = addrEnd
    · rw [mapLoop, hget] at h
      simp [hgo] at h
    · obtain ⟨hroom, hnext⟩ := hnext hgo
      rcases mapLoop_round fuel maps mBlocks hget hgo with
        habort | ⟨hover, hfree, hfull⟩ | ⟨mBlocks', hrest⟩
      · rw [habort] at h
        exact absurd h (by simp)
      · exact absurd (hroom hfree) (Nat.not_lt_of_le hfull)
      · rw [hrest] at h
        exact ih hnext h

/-- **A loop that leaves the buffer**: among the regions it goes through is a run that is too long,
    and no mapping is refused before. -/
theorem mapLoop_overruns {K : Svc} (hK : K.Serves) {seg : List MemoryInfo} :
    ∀ {a b : Nat} {maps : List MemoryInfo} (mBlocks : List Mapped), K.Walks a seg b →
      maps.length ≤ mapBufferSize →
      (∃ run ∈ runsFrom MemoryInfo.free maps seg, mapBufferSize < run.length) →
      ∃ fuel, K.mapLoop fuel a maps mBlocks = some .overrun := by
  induction seg with
  | nil =>
    rintro a b maps mBlocks - hlen ⟨run, hrun, hlong⟩
    rw [runsFrom_nil] at hrun
    split at hrun
    · exact absurd hrun List.not_mem_nil
    · rw [List.mem_singleton.mp hrun] at hlong
      omega
  | cons r seg ih =>
    rintro a b maps mBlocks ⟨hget, hgo, hseg⟩ hlen ⟨run, hrun, hlong⟩
    cases hfree : r.free with
    | true =>
      -- the run is a later one, for the pending one is short enough
      have hlater : run ∈ runsFrom MemoryInfo.free [] seg := by
        rw [runsFrom_cons_pos hfree] at hrun
        rcases List.mem_append.mp hrun with hfirst | hlater
        · split at hfirst
          · exact absurd hfirst List.not_mem_nil
          · rw [List.mem_singleton.mp hfirst] at hlong
            omega
        · exact hlater
      obtain ⟨mid, hmid⟩ := (hK.grants maps).flush mBlocks
      obtain ⟨fuel, hfuel⟩ := ih mid hseg (Nat.zero_le _) ⟨run, hlater, hlong⟩
      refine ⟨fuel + 1, ?_⟩
      rw [mapLoop, hget]
      simp only [if_neg hgo, hfree, if_true, hmid]
      exact hfuel
    | false =>
      rw [runsFrom_cons_neg hfree] at hrun
      by_cases hroom : maps.length < mapBufferSize
      · have hlen' : (maps ++ [r]).length ≤ mapBufferSize := by
          rw [List.length_append, List.length_singleton]
          omega
        obtain ⟨fuel, hfuel⟩ := ih mBlocks hseg hlen' ⟨run, hrun, hlong⟩
        refine ⟨fuel + 1, ?_⟩
        rw [mapLoop, hget]
        simp only [if_neg hgo, hfree, Bool.false_eq_true, if_false, if_pos hroom]
        exact hfuel
      · refine ⟨1, ?_⟩
        rw [mapLoop, hget]
        simp only [if_neg hgo, hfree, Bool.false_eq_true, if_false, if_neg hroom]

end Svc

/-! ## Where the loop is

  At any time the loop is where a region of the process begins, or the reserved one (`At`); from the
  reserved one the addresses wrap around to `0`.  With less than full width no round leaves the
  loop. -/

namespace WidthLayout

variable {K : Svc} {rs : List MemoryInfo} {stop : Nat}

/-- In an address space of full width, the layout is one of those without a region behind. -/
theorem layout (h : WidthLayout K rs addrEnd) : Layout K rs := ⟨h.contiguous, h.query⟩

/-- The regions from an address on are asked for one after the other. -/
theorem walks (h : WidthLayout K rs stop) {post : List MemoryInfo} {b : Nat} (hb : b < addrEnd) :
    ∀ {a : Nat}, (∀ r ∈ post, r ∈ rs) → Contiguous a post b → K.Walks a post b := by
  induction post with
  | nil =>
    rintro a - hcont
    exact hcont
  | cons r post ih =>
    rintro a hmem ⟨haddr, hsize, hrest⟩
    have hle := hrest.le
    have hget : K.queryMemory a = some r :=
      h.query r (hmem r List.mem_cons_self) a (by omega) (by omega)
    have hwrap : wrap (a + r.size) = a + r.size := wrap_of_le (by omega)
    refine ⟨hget, by omega, ?_⟩
    rw [hwrap]
    exact ih (fun q hq => hmem q (List.mem_cons_of_mem _ hq)) hrest

/-- The reserved region is the last one before the addresses wrap around. -/
theorem walks_reserved (h : WidthLayout K rs stop) : K.Walks stop [reservedFrom stop] 0 := by
  have hle := h.le
  have hwrap : wrap (stop + (reservedFrom stop).size) = 0 := by
    unfold addrEnd at hle
    show (stop + (2 ^ 64 - stop)) % 2 ^ 64 = 0
    omega
  refine ⟨h.beyond stop (Nat.le_refl _) (by unfold addrEnd at hle; omega), ?_, ?_⟩
  · rw [hwrap]
    decide
  · rw [hwrap]
    exact rfl

/-- All regions, and the reserved one: back at the beginning. -/
theorem walks_lap (h : WidthLayout K rs stop) (hstop : stop < addrEnd) :
    K.Walks 0 (rs ++ [reservedFrom stop]) 0 :=
  Svc.Walks.append h.walks_reserved (h.walks hstop (fun _ hr => hr) h.contiguous)

/-- A region begins at the address, or the reserved one does. -/
def At (rs : List MemoryInfo) (stop a : Nat) : Prop :=
  ∃ post, post <:+ rs ∧ Contiguous a post stop

/-- **A round** at a region of the process. -/
theorem round_region (h : WidthLayout K rs stop) (hstop : stop < addrEnd) {r : MemoryInfo}
    {post : List MemoryInfo} {a : Nat} (hsuf : r :: post <:+ rs) (hcont : Contiguous a (r :: post) stop) :
    K.queryMemory a = some r ∧ wrap (a + r.size) ≠ addrEnd ∧ post <:+ rs ∧
      Contiguous (wrap (a + r.size)) post stop := by
  obtain ⟨hget, hgo, -⟩ := h.walks hstop (fun q hq => hsuf.subset hq) hcont
  obtain ⟨-, -, hrest⟩ := hcont
  have hle := hrest.le
  rw [wrap_of_le (by omega)] at hgo ⊢
  exact ⟨hget, hgo, (List.suffix_cons r post).trans hsuf, hrest⟩

/-- A round at the reserved region. -/
theorem round_reserved (h : WidthLayout K rs stop) :
    K.queryMemory stop = some (reservedFrom stop) ∧
      wrap (stop + (reservedFrom stop).size) ≠ addrEnd ∧
      Contiguous (wrap (stop + (reservedFrom stop).size)) rs stop := by
  obtain ⟨hget, hgo, hzero⟩ := h.walks_reserved
  have hzero' : wrap (stop + (reservedFrom stop).size) = 0 := hzero
  exact ⟨hget, hgo, hzero' ▸ h.contiguous⟩

/-- In an address space that is not of full width the loop never returns. -/
theorem ne_value (h : WidthLayout K rs stop) (hstop : stop < addrEnd) (fuel : Nat)
    (ms : List Mapped) : K.mapBlocks fuel ≠ some (.value ms) := by
  refine Svc.mapLoop_ne_value (P := At rs stop) ?_ fuel ⟨rs, List.suffix_rfl, h.contiguous⟩
  rintro a ⟨post, hsuf, hcont⟩
  cases post with
  | nil =>
    have ha : a = stop := hcont
    obtain ⟨hget, hgo, hnext⟩ := h.round_reserved
    exact ⟨reservedFrom stop, ha ▸ hget, ha ▸ hgo, rs, List.suffix_rfl, ha ▸ hnext⟩
  | cons r post =>
    obtain ⟨hget, hgo, hsuf', hnext⟩ := h.round_region hstop hsuf hcont
    exact ⟨r, hget, hgo, post, hsuf', hnext⟩

end WidthLayout

/-! ## When the walk ends -/

/-- In a layout no region comes twice. -/
theorem Contiguous.nodup {rs : List MemoryInfo} : ∀ {a b : Nat}, Contiguous a rs b → rs.Nodup := by
  induction rs with
  | nil => exact fun _ => List.nodup_nil
  | cons r rs ih =>
    rintro a b ⟨haddr, hsize, hrest⟩
    refine List.nodup_cons.mpr ⟨fun hmem => ?_, ih hrest⟩
    have := (hrest.mem_bounds hmem).1
    omega

/-- The reserved region is none of the process. -/
theorem Contiguous.reserved_not_mem {rs : List MemoryInfo} {a stop : Nat} (h : Contiguous a rs stop) :
    reservedFrom stop ∉ rs := by
  intro hmem
  obtain ⟨-, hsize, hend⟩ := h.mem_bounds hmem
  have hend' : stop + (reservedFrom stop).size ≤ stop := hend
  omega

/-- In an address space of full width the loop looks at the regions in their order. -/
theorem visits_inOrder {K : Svc} {rs : List MemoryInfo} : ∀ {fuel a : Nat}, Contiguous a rs addrEnd →
    rs ≠ [] → (∀ r ∈ rs, ∀ x, r.addr ≤ x → x < r.addr + r.size → K.queryMemory x = some r) →
    K.visits fuel a <+: rs := by
  induction rs with
  | nil =>
    intro fuel a _ hne
    exact absurd rfl hne
  | cons r rest ih =>
    rintro fuel a ⟨haddr, hsize, hrest⟩ - hquery
    cases fuel with
    | zero => exact List.nil_prefix
    | succ fuel =>
      have hget : K.queryMemory a = some r := hquery r List.mem_cons_self a (by omega) (by omega)
      rw [Svc.visits, hget]
      simp only [wrap_of_le hrest.le]
      refine List.cons_prefix_cons.mpr ⟨rfl, ?_⟩
      split
      · exact List.nil_prefix
      next hgo =>
        refine ih hrest ?_ fun p hp => hquery p (List.mem_cons_of_mem _ hp)
        rintro rfl
        exact hgo hrest

/-- The walk ends, has looked at no region twice, and the reserved region is in none of the
    blocks. -/
structure EndsOnce (K : Svc) (rs : List MemoryInfo) (stop : Nat) (ms : List Mapped) : Prop where
  returns : ∀ fuel, rs.length ≤ fuel → K.mapBlocks fuel = some (.value ms)
  once : ∀ fuel, (K.visits fuel 0).Nodup
  unreserved : ∀ m ∈ ms, ∃ run, run <:+: rs ∧ reservedFrom stop ∉ run ∧ Recorded run m

/-- **The walk ends at full width only.**  With runs that fit into `mapBuffer` and whose mapping the
    kernel does not refuse, `mapBlocks` returns, has looked at each region at most once and has put
    the reserved region into no block, if and only if the address space ends at `0x8000000000`. -/
theorem mapBlocks_endsOnce_iff {K : Svc} {rs : List MemoryInfo} {stop : Nat}
    (hlayout : WidthLayout K rs stop)
    (hmax : ∀ run ∈ runs MemoryInfo.free rs.dropLast, run.length ≤ mapBufferSize)
    (hmaps : K.mapRuns [] (closedRuns MemoryInfo.free [] rs.dropLast) ≠ none) :
    (∃ ms, EndsOnce K rs stop ms) ↔ stop = addrEnd := by
  constructor
  · rintro ⟨ms, hends⟩
    by_contra hstop
    have hlt : stop < addrEnd := Nat.lt_of_le_of_ne hlayout.le hstop
    exact hlayout.ne_value hlt rs.length ms (hends.returns rs.length (Nat.le_refl _))
  · rintro rfl
    obtain ⟨ms, hms⟩ := Option.ne_none_iff_exists'.mp hmaps
    obtain ⟨new, hnew, hrecorded⟩ := Svc.mapRuns_eq_some hlayout.layout.closedRuns hms
    rw [List.nil_append] at hnew
    subst hnew
    refine ⟨ms, ⟨fun fuel hfuel => ?_, fun fuel => ?_, fun m hm => ?_⟩⟩
    · rw [mapBlocks_eq hlayout.layout hmax hfuel, hms]
      rfl
    · exact (visits_inOrder hlayout.contiguous hlayout.layout.ne_nil hlayout.query).sublist.nodup
        hlayout.contiguous.nodup
    · -- each block is recorded for a run, and that is a piece of the layout
      obtain ⟨run, hrun, hm⟩ := exists_of_forall₂ hrecorded m hm
      have hpart := (isInfix_of_closed _ _ run hrun).trans (List.dropLast_prefix rs).isInfix
      exact ⟨run, hpart, fun hmem => hlayout.contiguous.reserved_not_mem (hpart.subset hmem), hm⟩

/-! ## When the walk stays in the buffer

  At full width it is one lap, without the final region.  Otherwise the last run of a lap and the
  first one of the next may be one run, so two laps are looked at; and without any free region what is
  pending grows from lap to lap until there is no room. -/

/-- No run is longer than `mapBuffer`; the runs are those of the regions the loop goes through, which
    at full width are all but the final one, and otherwise those of two laps, among which there is a
    free one. -/
def FitsBuffer (rs : List MemoryInfo) (stop : Nat) : Prop :=
  if stop = addrEnd then
    ∀ run ∈ runs MemoryInfo.free rs.dropLast, run.length ≤ mapBufferSize
  else
    (∃ r ∈ rs, r.free = true) ∧
      ∀ run ∈ runs MemoryInfo.free (rs ++ reservedFrom stop :: rs), run.length ≤ mapBufferSize

instance (rs : List MemoryInfo) (stop : Nat) : Decidable (FitsBuffer rs stop) := by
  unfold FitsBuffer
  infer_instance

/-- What is pending and what comes fit into the buffer. -/
def Fits (maps seg : List MemoryInfo) : Prop :=
  ∀ run ∈ runsFrom MemoryInfo.free maps seg, run.length ≤ mapBufferSize

/-- A region is taken from what comes. -/
theorem Fits.next {maps seg : List MemoryInfo} {info : MemoryInfo} (h : Fits maps (info :: seg)) :
    (info.free = false → maps.length < mapBufferSize) ∧ Fits (Svc.pendingAfter maps info) seg := by
  refine ⟨fun hfree => length_lt_of_runsFrom hfree h, fun run hrun => h run ?_⟩
  rw [Svc.pendingAfter] at hrun
  cases hfree : info.free with
  | true =>
    rw [hfree, if_pos rfl] at hrun
    rw [runsFrom_cons_pos hfree]
    exact List.mem_append_right _ hrun
  | false =>
    rw [hfree, if_neg Bool.false_ne_true] at hrun
    rwa [runsFrom_cons_neg hfree]

/-- With a free region in every lap, one lap after the other fits. -/
theorem Fits.lap {rs : List MemoryInfo} {info : MemoryInfo} {maps : List MemoryInfo}
    (hfree : ∃ r ∈ rs, r.free = true) (h : Fits maps rs) (hlaps : Fits [] (rs ++ info :: rs)) :
    Fits maps (rs ++ info :: rs) := by
  obtain ⟨r, hr, hfree⟩ := hfree
  obtain ⟨pre, post, rfl⟩ := List.append_of_mem hr
  unfold Fits at h hlaps ⊢
  rw [List.append_assoc, List.cons_append, runsFrom_append_sep hfree] at hlaps ⊢
  rw [runsFrom_append_sep hfree] at h
  intro run hrun
  rcases List.mem_append.mp hrun with hrun | hrun
  · exact h run (List.mem_append_left _ hrun)
  · exact hlaps run (List.mem_append_right _ hrun)

namespace WidthLayout

variable {K : Svc} {rs : List MemoryInfo} {stop : Nat}

/-- At full width the loop stays in the buffer if the runs fit. -/
theorem ne_overrun_full (h : WidthLayout K rs addrEnd) (hfits : Fits [] rs.dropLast) (fuel : Nat) :
    K.mapBlocks fuel ≠ some .overrun := by
  refine Svc.mapLoop_ne_overrun
    (P := fun a maps => ∃ post, post ≠ [] ∧ post <:+ rs ∧ Contiguous a post addrEnd ∧
      Fits maps post.dropLast)
    ?_ fuel ⟨rs, h.layout.ne_nil, List.suffix_rfl, h.contiguous, hfits⟩
  rintro a maps ⟨post, hne, hsuf, hcont, hfits⟩
  obtain ⟨r, post, rfl⟩ := List.exists_cons_of_ne_nil hne
  obtain ⟨haddr, hsize, hrest⟩ := hcont
  have hwrap : wrap (a + r.size) = a + r.size := wrap_of_le hrest.le
  refine ⟨r, h.query r (hsuf.subset List.mem_cons_self) a (by omega) (by omega), ?_⟩
  rw [hwrap]
  intro hgo
  have hne' : post ≠ [] := by
    rintro rfl
    exact hgo hrest
  obtain ⟨q, qs, rfl⟩ := List.exists_cons_of_ne_nil hne'
  rw [List.dropLast_cons_cons] at hfits
  exact ⟨hfits.next.1, q :: qs, hne', (List.suffix_cons r _).trans hsuf, hrest, hfits.next.2⟩

/-- Otherwise it does if every two laps do. -/
theorem ne_overrun_laps (h : WidthLayout K rs stop) (hstop : stop < addrEnd)
    (hfree : ∃ r ∈ rs, r.free = true) (hfits : Fits [] (rs ++ reservedFrom stop :: rs)) (fuel : Nat) :
    K.mapBlocks fuel ≠ some .overrun := by
  refine Svc.mapLoop_ne_overrun
    (P := fun a maps => ∃ post, post <:+ rs ∧ Contiguous a post stop ∧
      Fits maps (post ++ reservedFrom stop :: rs))
    ?_ fuel ⟨rs, List.suffix_rfl, h.contiguous, hfits⟩
  rintro a maps ⟨post, hsuf, hcont, hnow⟩
  cases post with
  | nil =>
    have ha : a = stop := hcont
    obtain ⟨hget, -, hnext⟩ := h.round_reserved
    rw [List.nil_append] at hnow
    refine ⟨reservedFrom stop, ha ▸ hget, fun _ => ⟨hnow.next.1, ?_⟩⟩
    exact ⟨rs, List.suffix_rfl, ha ▸ hnext, Fits.lap hfree hnow.next.2 hfits⟩
  | cons r post =>
    obtain ⟨hget, -, hsuf', hnext⟩ := h.round_region hstop hsuf hcont
    exact ⟨r, hget, fun _ => ⟨hnow.next.1, post, hsuf', hnext, hnow.next.2⟩⟩

/-- What the loop goes through before it leaves the final region out. -/
theorem walks_dropLast (h : WidthLayout K rs addrEnd) : ∃ b, K.Walks 0 rs.dropLast b := by
  have hne := h.layout.ne_nil
  have hcont := h.contiguous
  rw [← List.dropLast_append_getLast hne] at hcont
  obtain ⟨m, hinit, -, hsize, hend⟩ := Contiguous.append.mp hcont
  have hend' : m + (rs.getLast hne).size = addrEnd := hend
  exact ⟨m, h.walks (by omega) (fun r hr => List.dropLast_subset rs hr) hinit⟩

/-- Without a free region, what is pending grows from lap to lap. -/
theorem exists_long_run (stop : Nat) (hfree : ¬∃ r ∈ rs, r.free = true) :
    ∃ run ∈ runsFrom MemoryInfo.free []
      (List.replicate (mapBufferSize + 1) (rs ++ [reservedFrom stop])).flatten,
      mapBufferSize < run.length := by
  have hnone : ∀ r ∈ (List.replicate (mapBufferSize + 1) (rs ++ [reservedFrom stop])).flatten,
      r.free = false := by
    intro r hr
    obtain ⟨lap, hlap, hr⟩ := List.mem_flatten.mp hr
    rw [List.eq_of_mem_replicate hlap] at hr
    rcases List.mem_append.mp hr with hr | hr
    · by_contra htrue
      exact hfree ⟨r, hr, by simpa using htrue⟩
    · rw [List.mem_singleton.mp hr]
      rfl
  have hlen : mapBufferSize <
      (List.replicate (mapBufferSize + 1) (rs ++ [reservedFrom stop])).flatten.length := by
    rw [List.length_flatten, List.map_replicate, List.sum_replicate_nat, List.length_append,
      List.length_singleton]
    exact Nat.lt_of_lt_of_le (Nat.lt_succ_self _) (Nat.le_mul_of_pos_right _ (Nat.succ_pos _))
  rw [runsFrom_of_none hnone, List.nil_append]
  rw [if_neg]
  · exact ⟨_, List.mem_singleton.mpr rfl, hlen⟩
  · intro hempty
    rw [List.isEmpty_iff.mp hempty] at hlen
    exact absurd hlen (Nat.not_lt_zero _)

end WidthLayout

/-- `svcQueryDebugProcessMemory` over a given layout that ends at `stop`. -/
def queryUpTo (rs : List MemoryInfo) (stop a : Nat) : Option MemoryInfo :=
  if a < stop then regionAt rs a else some (reservedFrom stop)

theorem widthLayout_queryUpTo {K : Svc} {rs : List MemoryInfo} {stop : Nat}
    (hK : K.queryMemory = queryUpTo rs stop) (h : Contiguous 0 rs stop) (hpos : 0 < stop)
    (hle : stop ≤ addrEnd) : WidthLayout K rs stop where
  contiguous := h
  pos := hpos
  le := hle
  query r hr a hlo hhi := by
    have := h.mem_bounds hr
    rw [hK, queryUpTo, if_pos (by omega)]
    exact h.regionAt_eq hr hlo hhi
  beyond a hlo _ := by rw [hK, queryUpTo, if_neg (Nat.not_lt_of_le hlo)]

/-- A kernel over a given layout that refuses nothing. -/
def generousSvc (rs : List MemoryInfo) (stop : Nat) : Svc where
  queryMemory := queryUpTo rs stop
  findAslr _ _ := some 0x10000
  mapProcessMemory _ := true

theorem serves_generousSvc (rs : List MemoryInfo) (stop : Nat) : (generousSvc rs stop).Serves :=
  ⟨fun _ _ => ⟨_, rfl⟩, fun _ => rfl⟩

/-- **The walk stays in the buffer**, whatever the kernel does, if and only if the runs fit. -/
theorem mapBlocks_inBuffer_iff {rs : List MemoryInfo} {stop : Nat} (hcont : Contiguous 0 rs stop)
    (hpos : 0 < stop) (hle : stop ≤ addrEnd) :
    (∀ K, WidthLayout K rs stop → ∀ fuel, K.mapBlocks fuel ≠ some .overrun) ↔
      FitsBuffer rs stop := by
  constructor
  · intro h
    have hlayout := widthLayout_queryUpTo (K := generousSvc rs stop) rfl hcont hpos hle
    have hserves := serves_generousSvc rs stop
    -- what the loop goes through has no run that is too long
    have hfits : ∀ seg b, (generousSvc rs stop).Walks 0 seg b → Fits [] seg := by
      intro seg b hwalks run hrun
      by_contra hlong
      obtain ⟨fuel, hover⟩ := Svc.mapLoop_overruns hserves [] hwalks
        (Nat.zero_le _) ⟨run, hrun, Nat.lt_of_not_le hlong⟩
      exact h _ hlayout fuel hover
    unfold FitsBuffer
    split
    next hstop =>
      subst hstop
      obtain ⟨b, hwalks⟩ := hlayout.walks_dropLast
      exact hfits _ b hwalks
    next hstop =>
      have hlt : stop < addrEnd := Nat.lt_of_le_of_ne hle hstop
      refine ⟨?_, ?_⟩
      · by_contra hfree
        obtain ⟨run, hrun, hlong⟩ := WidthLayout.exists_long_run stop hfree
        exact absurd (hfits _ 0 ((hlayout.walks_lap hlt).replicate _) run hrun)
          (Nat.not_le_of_lt hlong)
      · refine hfits _ stop ?_
        rw [List.append_cons]
        exact Svc.Walks.append (hlayout.walks hlt (fun _ hr => hr) hcont) (hlayout.walks_lap hlt)
  · intro hfits K hlayout fuel
    unfold FitsBuffer at hfits
    split at hfits
    next hstop =>
      subst hstop
      exact hlayout.ne_overrun_full hfits fuel
    next hstop =>
      exact hlayout.ne_overrun_laps (Nat.lt_of_le_of_ne hle hstop) hfits.1 hfits.2 fuel

/-! ## Two processes -/

/-- The kernel of `svcOf`, over an address space that ends at `stop`. -/
def svcUpTo (rs : List MemoryInfo) (stop base : Nat) : Svc :=
  { svcOf rs base with queryMemory := queryUpTo rs stop }

/-- Code in an address space of 36 bits. -/
def narrowLayout : List MemoryInfo :=
  [⟨0, 0x1000, 0⟩, ⟨0x1000, 0x1000, 3⟩, ⟨0x2000, 0xFFFFFE000, 0⟩]

/-- The walk over `roomyLayout` ends. -/
theorem endsOnce_roomyLayout :
    ∃ ms, EndsOnce (svcUpTo roomyLayout addrEnd 0x1000000000) roomyLayout addrEnd ms :=
  (mapBlocks_endsOnce_iff
    (widthLayout_queryUpTo rfl (by decide) (by decide) (by decide)) (by decide) (by decide)).mpr rfl

/-- The walk over `narrowLayout` does not: behind the reserved region it comes back to the first
    one. -/
theorem not_endsOnce_narrowLayout :
    WidthLayout (svcUpTo narrowLayout 0x1000000000 0x1000000000) narrowLayout 0x1000000000 ∧
      (∀ run ∈ runs MemoryInfo.free narrowLayout, run.length ≤ mapBufferSize) ∧
      (svcUpTo narrowLayout 0x1000000000 0x1000000000).mapRuns []
        (closedRuns MemoryInfo.free [] narrowLayout) ≠ none ∧
      (svcUpTo narrowLayout 0x1000000000 0x1000000000).visits 5 0 =
        narrowLayout ++ [reservedFrom 0x1000000000, ⟨0, 0x1000, 0⟩] ∧
      ¬∃ ms, EndsOnce (svcUpTo narrowLayout 0x1000000000 0x1000000000) narrowLayout 0x1000000000
        ms := by
  have hlayout : WidthLayout (svcUpTo narrowLayout 0x1000000000 0x1000000000) narrowLayout
      0x1000000000 :=
    widthLayout_queryUpTo rfl (by decide) (by decide) (by decide)
  refine ⟨hlayout, by decide, by decide, by decide, ?_⟩
  rintro ⟨ms, hends⟩
  exact hlayout.ne_value (by decide) 3 ms (hends.returns 3 (by decide))

end Nxdb
