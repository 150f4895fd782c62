/-
  `MemoryMapMgr::mapBlocks`: mirroring the memory of the process.

  The regions of the process are asked for one by one, collected in `mapBuffer` as long as they are
  not free, and mapped as one block when a free one ends the run.  So the blocks are the runs that a
  free region ends (`mapBlocks_eq`), and those are all runs below the final region if and only if
  the region directly below it is free (`mapBlocks_iff`): the loop is left at the final region
  without a look at what is pending.

  The kernel and libnx are parameters: `Svc`.  Addresses and sizes are those of a 64-bit machine.

  1. Program: `mapLoop` is the loop, with the regions pending in `mapBuffer` and the blocks there
     are as its two accumulators; `flush` is what it does at a free region, `mapBlock` and
     `mapRegions` are the lambda.
  2. Specification: `MirrorsProcess`, one recorded block for each maximal run of regions that are
     not free, in order, each `Recorded` as its run asks.
  3. The crux is `mapLoop_eq`: from any region on, with anything pending, the loop maps the runs
     that a free region ends, which are `Lib.closedRuns`.  The induction is on the regions still to
     come, one round each, as long as no run is longer than `mapBuffer`.
  4. What is left out is `Lib.openRun`, the run that no free region has ended; it is empty iff the
     last region is free.
-/
import Nxdb.Lib.Runs
import Mathlib.Tactic.Ring

namespace Nxdb

open Lib

/-! ## The code

  The loop has fuel, as nothing in it says that it ends; results are about enough of it, or any.
  Writing behind `mapBuffer` and a refusal of the kernel are outcomes of their own. -/

/-- The members of libnx's `MemoryInfo` that are used. -/
structure MemoryInfo where
  addr : Nat
  size : Nat
  type : Nat
deriving DecidableEq

namespace MemoryInfo

/-- `MemType_SharedMem`. -/
def sharedMem : Nat := 0x06

/-- `MemType_MappedMemory`. -/
def mappedMemory : Nat := 0x0B

/-- `MemType_ThreadLocal`. -/
def threadLocal : Nat := 0x0C

/-- `info.type == 0`. -/
def free (r : MemoryInfo) : Bool := decide (r.type = 0)

/-- The regions that `mapBlock` leaves out. -/
def skipped (r : MemoryInfo) : Bool :=
  decide (r.type = sharedMem ∨ r.type = mappedMemory ∨ r.type = threadLocal)

end MemoryInfo

/-- A 64-bit sum. -/
def wrap (n : Nat) : Nat := n % 2 ^ 64

/-- A 64-bit difference. -/
def sub64 (a b : Nat) : Nat := wrap (a + 2 ^ 64 - b)

/-- The end of the address space. -/
def addrEnd : Nat := 0x0000008000000000

/-- The number of entries of `mapBuffer`. -/
def mapBufferSize : Nat := 256

/-- What is passed to `svcMapProcessMemory` or `svcUnmapProcessMemory` besides the process. -/
structure MapCall where
  dst : Nat
  src : Nat
  size : Nat
deriving DecidableEq

/-- `MapBlock`: where a block is in the process, where it is here, and how long it is. -/
structure MapBlock where
  startOrig : Nat
  startMapped : Nat
  size : Nat
deriving DecidableEq

/-- An entry of `mBlocks`, with the calls of `svcMapProcessMemory` that were made for it. -/
structure Mapped extends MapBlock where
  calls : List MapCall
deriving DecidableEq

/-- The kernel and libnx: `svcQueryDebugProcessMemory` (`none` when it fails), `virtmemFindAslr`
    with the blocks there are and a size (`none` for a null pointer), and whether
    `svcMapProcessMemory` succeeds. -/
structure Svc where
  queryMemory : Nat → Option MemoryInfo
  findAslr : List MapBlock → Nat → Option Nat
  mapProcessMemory : MapCall → Bool

/-- How `mapBlocks` ends: it returns, it ends the program, or it writes behind `mapBuffer`. -/
inductive Outcome (α : Type) where
  | value (a : α)
  | abort
  | overrun
deriving DecidableEq

namespace Svc

/-- The loop of the lambda `mapBlock`: the calls it makes, `none` when one of them fails. -/
def mapRegions (K : Svc) (mapped first : Nat) : List MemoryInfo → Option (List MapCall)
  | [] => some []
  | info :: maps =>
    if info.skipped then K.mapRegions mapped first maps
    else
      let call : MapCall := ⟨wrap (mapped + sub64 info.addr first), info.addr, info.size⟩
      if K.mapProcessMemory call then (K.mapRegions mapped first maps).map (call :: ·) else none

/-- The size of the block of the regions `first :: maps`. -/
def blockSize (first : MemoryInfo) (maps : List MemoryInfo) : Nat :=
  let last := (first :: maps).getLast (List.cons_ne_nil _ _)
  wrap (sub64 last.addr first.addr + last.size)

/-- The lambda `mapBlock`, for the regions `first :: maps`; `none` when it ends the program. -/
def mapBlock (K : Svc) (mBlocks : List Mapped) (first : MemoryInfo) (maps : List MemoryInfo) :
    Option (List Mapped) :=
  (K.findAslr (mBlocks.map Mapped.toMapBlock) (blockSize first maps)).bind fun mapped =>
    (K.mapRegions mapped first.addr (first :: maps)).map fun calls =>
      mBlocks ++ [⟨⟨first.addr, mapped, blockSize first maps⟩, calls⟩]

/-- What the loop does with the regions that are pending when a free one comes. -/
def flush (K : Svc) (mBlocks : List Mapped) : List MemoryInfo → Option (List Mapped)
  | [] => some mBlocks
  | first :: maps => K.mapBlock mBlocks first maps

/-- The loop of `mapBlocks` from the address `addr` on, with `maps` in `mapBuffer`; `none` when it
    takes more than `fuel` rounds. -/
def mapLoop (K : Svc) : Nat → Nat → List MemoryInfo → List Mapped → Option (Outcome (List Mapped))
  | 0, _, _, _ => none
  | fuel + 1, addr, maps, mBlocks =>
    match K.queryMemory addr with
    | none => some (.value mBlocks)
    | some info =>
      if wrap (addr + info.size) = addrEnd then some (.value mBlocks)
      else if info.free then
        match K.flush mBlocks maps with
        | none => some .abort
        | some mBlocks => K.mapLoop fuel (wrap (addr + info.size)) [] mBlocks
      else if maps.length < mapBufferSize then
        K.mapLoop fuel (wrap (addr + info.size)) (maps ++ [info]) mBlocks
      else some .overrun

/-- `MemoryMapMgr::mapBlocks`, as the constructor of a session calls it. -/
def mapBlocks (K : Svc) (fuel : Nat) : Option (Outcome (List Mapped)) := K.mapLoop fuel 0 [] []

end Svc

/-! ## Layouts

  A layout is a list of regions one behind the other; the kernel answers a query with the region the
  address is in.  So an address determines its region (`Contiguous.regionAt_eq`), and the query
  behind a region gives the next one. -/

/-- Regions of positive size one behind the other, from `a` up to `b`. -/
def Contiguous : Nat → List MemoryInfo → Nat → Prop
  | a, [], b => a = b
  | a, r :: rs, b => r.addr = a ∧ 0 < r.size ∧ Contiguous (a + r.size) rs b

instance Contiguous.decidable : ∀ (a : Nat) (rs : List MemoryInfo) (b : Nat),
    Decidable (Contiguous a rs b)
  | a, [], b => inferInstanceAs (Decidable (a = b))
  | a, r :: rs, b =>
    have := Contiguous.decidable (a + r.size) rs b
    inferInstanceAs (Decidable (r.addr = a ∧ 0 < r.size ∧ Contiguous (a + r.size) rs b))

namespace Contiguous

theorem le {rs : List MemoryInfo} : ∀ {a b : Nat}, Contiguous a rs b → a ≤ b := by
  induction rs with
  | nil =>
    intro a b h
    exact Nat.le_of_eq h
  | cons r rs ih =>
    rintro a b ⟨-, -, h⟩
    exact Nat.le_trans (Nat.le_add_right _ _) (ih h)

/-- The sizes add up. -/
theorem sum {rs : List MemoryInfo} :
    ∀ {a b : Nat}, Contiguous a rs b → a + (rs.map MemoryInfo.size).sum = b := by
  induction rs with
  | nil =>
    intro a b h
    exact h
  | cons r rs ih =>
    rintro a b ⟨-, -, h⟩
    rw [List.map_cons, List.sum_cons, ← Nat.add_assoc]
    exact ih h

theorem append {xs ys : List MemoryInfo} :
    ∀ {a b : Nat}, Contiguous a (xs ++ ys) b ↔ ∃ m, Contiguous a xs m ∧ Contiguous m ys b := by
  induction xs with
  | nil =>
    intro a b
    constructor
    · intro h
      exact ⟨a, rfl, h⟩
    · rintro ⟨m, rfl, h⟩
      exact h
  | cons r xs ih =>
    intro a b
    constructor
    · rintro ⟨haddr, hsize, h⟩
      obtain ⟨m, hxs, hys⟩ := ih.mp h
      exact ⟨m, ⟨haddr, hsize, hxs⟩, hys⟩
    · rintro ⟨m, ⟨haddr, hsize, hxs⟩, hys⟩
      exact ⟨haddr, hsize, ih.mpr ⟨m, hxs, hys⟩⟩

/-- A piece of a layout is one, within its bounds. -/
theorem of_infix {rs run : List MemoryInfo} {a b : Nat} (h : Contiguous a rs b) (hrun : run <:+: rs) :
    ∃ m n, a ≤ m ∧ n ≤ b ∧ Contiguous m run n := by
  obtain ⟨pre, post, rfl⟩ := hrun
  obtain ⟨n, hpre, hpost⟩ := append.mp h
  obtain ⟨m, hpre, hrun⟩ := append.mp hpre
  exact ⟨m, n, hpre.le, hpost.le, hrun⟩

/-- The last region ends where the layout does. -/
theorem last_end {rs : List MemoryInfo} (hne : rs ≠ []) {a b : Nat} (h : Contiguous a rs b) :
    (rs.getLast hne).addr + (rs.getLast hne).size = b ∧ a ≤ (rs.getLast hne).addr := by
  have hsplit := List.dropLast_append_getLast hne
  rw [← hsplit] at h
  obtain ⟨m, hinit, haddr, -, hend⟩ := append.mp h
  have hend' : m + (rs.getLast hne).size = b := hend
  rw [haddr]
  exact ⟨hend', hinit.le⟩

end Contiguous

/-- The region of a layout that contains an address. -/
def regionAt (rs : List MemoryInfo) (a : Nat) : Option MemoryInfo :=
  rs.find? fun r => decide (r.addr ≤ a ∧ a < r.addr + r.size)

/-- In a layout the address determines the region. -/
theorem Contiguous.regionAt_eq {rs : List MemoryInfo} : ∀ {a b x : Nat} {r : MemoryInfo},
    Contiguous a rs b → r ∈ rs → r.addr ≤ x → x < r.addr + r.size → regionAt rs x = some r := by
  induction rs with
  | nil =>
    intro a b x r _ hr
    exact absurd hr List.not_mem_nil
  | cons q rs ih =>
    rintro a b x r ⟨haddr, hsize, hrest⟩ hr hlo hhi
    rcases List.mem_cons.mp hr with rfl | hr
    · exact List.find?_cons_of_pos (by simpa using ⟨hlo, hhi⟩)
    · have hmem : ∃ m n, a + q.size ≤ m ∧ n ≤ b ∧ Contiguous m [r] n := by
        obtain ⟨pre, post, rfl⟩ := List.append_of_mem hr
        exact hrest.of_infix ⟨pre, post, by simp⟩
      obtain ⟨m, n, hm, -, hr', -, -⟩ := hmem
      rw [regionAt, List.find?_cons_of_neg (by simp; omega)]
      exact ih hrest hr hlo hhi

/-- What `svcQueryDebugProcessMemory` is about: regions from `0` to the end of the address space,
    each reported at all its addresses. -/
structure Layout (K : Svc) (rs : List MemoryInfo) : Prop where
  contiguous : Contiguous 0 rs addrEnd
  query : ∀ r ∈ rs, ∀ a, r.addr ≤ a → a < r.addr + r.size → K.queryMemory a = some r

/-! ## The blocks are the runs that a free region ends

  With the regions as a list the loop is `closedRuns` of `Lib/Runs` (`mapLoop_eq`), and the question
  which runs are missing is one about lists: the last one, if nothing ends it.  What is recorded for
  a run is its place, its length and a call for each region that is not left out (`Recorded`). -/

/-- Where a run begins. -/
def startOf : List MemoryInfo → Nat
  | [] => 0
  | r :: _ => r.addr

/-- The length of a run. -/
def totalOf (run : List MemoryInfo) : Nat := (run.map MemoryInfo.size).sum

theorem Contiguous.startOf_eq {run : List MemoryInfo} (hne : run ≠ []) {a b : Nat}
    (h : Contiguous a run b) : startOf run = a := by
  cases run with
  | nil => exact absurd rfl hne
  | cons r run => exact h.1

theorem wrap_of_le {n : Nat} (h : n ≤ addrEnd) : wrap n = n := by
  rw [addrEnd] at h
  exact Nat.mod_eq_of_lt (by omega)

theorem sub64_of_le {a b : Nat} (hab : a ≤ b) (hb : b ≤ addrEnd) : sub64 b a = b - a := by
  rw [addrEnd] at hb
  rw [sub64, wrap]
  omega

/-- The size of a block is the length of its run. -/
theorem Contiguous.blockSize_eq {first : MemoryInfo} {maps : List MemoryInfo} {a b : Nat}
    (h : Contiguous a (first :: maps) b) (hb : b ≤ addrEnd) :
    Svc.blockSize first maps = totalOf (first :: maps) := by
  obtain ⟨hend, hlast⟩ := h.last_end (List.cons_ne_nil _ _)
  have hsum := h.sum
  have hfirst : first.addr = a := h.1
  rw [Svc.blockSize, hfirst, sub64_of_le hlast (by omega), wrap_of_le (by omega), totalOf]
  omega

/-- The call that maps a region of a block. -/
def MapBlock.mapCall (b : MapBlock) (r : MemoryInfo) : MapCall :=
  ⟨wrap (b.startMapped + sub64 r.addr b.startOrig), r.addr, r.size⟩

/-- The block recorded for a run: the run's place and length, and a call for each region that is
    not left out. -/
structure Recorded (run : List MemoryInfo) (m : Mapped) : Prop where
  startOrig : m.startOrig = startOf run
  size : m.size = totalOf run
  calls : m.calls = (run.filter fun r => !r.skipped).map m.toMapBlock.mapCall

/-- What is listed beside something stands in the relation to it. -/
theorem exists_of_forall₂ {α β : Type} {R : α → β → Prop} {xs : List α} {ys : List β}
    (h : List.Forall₂ R xs ys) : ∀ y ∈ ys, ∃ x ∈ xs, R x y := by
  induction h with
  | nil =>
    intro y hy
    exact absurd hy List.not_mem_nil
  | @cons x z xs ys hxz _ ih =>
    intro y hy
    rcases List.mem_cons.mp hy with rfl | hy
    · exact ⟨x, List.mem_cons_self, hxz⟩
    · obtain ⟨w, hw, hwy⟩ := ih y hy
      exact ⟨w, List.mem_cons_of_mem _ hw, hwy⟩

namespace Svc

/-- Mapping a list of runs, one after the other. -/
def mapRuns (K : Svc) : List Mapped → List (List MemoryInfo) → Option (List Mapped)
  | mBlocks, [] => some mBlocks
  | mBlocks, run :: rest => (K.flush mBlocks run).bind fun mBlocks => K.mapRuns mBlocks rest

/-- The end of `mapBlocks`, by whether the mapping worked. -/
def outcome : Option (List Mapped) → Outcome (List Mapped)
  | none => .abort
  | some mBlocks => .value mBlocks

theorem mapRegions_eq_some {K : Svc} {b : MapBlock} {maps : List MemoryInfo} :
    ∀ {calls : List MapCall}, K.mapRegions b.startMapped b.startOrig maps = some calls →
      calls = (maps.filter fun r => !r.skipped).map b.mapCall := by
  induction maps with
  | nil =>
    intro calls h
    exact (Option.some.inj h).symm
  | cons r maps ih =>
    intro calls h
    rw [mapRegions] at h
    split at h
    next hskip =>
      rw [List.filter_cons_of_neg (by simpa using hskip)]
      exact ih h
    next hskip =>
      rw [List.filter_cons_of_pos (by simpa using hskip), List.map_cons]
      dsimp only at h
      split at h
      · obtain ⟨rest, hrest, rfl⟩ := Option.map_eq_some_iff.mp h
        rw [ih hrest]
        rfl
      · exact absurd h (by simp)

/-- What is recorded when a run is mapped. -/
theorem flush_eq_some {K : Svc} {mBlocks ms : List Mapped} {run : List MemoryInfo} {a b : Nat}
    (hne : run ≠ []) (hrun : Contiguous a run b) (hb : b ≤ addrEnd)
    (h : K.flush mBlocks run = some ms) :
    ∃ m, ms = mBlocks ++ [m] ∧ Recorded run m ∧
      K.findAslr (mBlocks.map Mapped.toMapBlock) m.size = some m.startMapped := by
  cases run with
  | nil => exact absurd rfl hne
  | cons first maps =>
    rw [flush, mapBlock, Option.bind_eq_some_iff] at h
    obtain ⟨mapped, hfound, h⟩ := h
    obtain ⟨calls, hcalls, rfl⟩ := Option.map_eq_some_iff.mp h
    refine ⟨_, rfl, ⟨rfl, hrun.blockSize_eq hb, ?_⟩, hfound⟩
    exact mapRegions_eq_some (b := ⟨first.addr, mapped, _⟩) hcalls

/-- The blocks recorded for a list of runs are theirs, in their order. -/
theorem mapRuns_eq_some {K : Svc} {runs : List (List MemoryInfo)}
    (hruns : ∀ run ∈ runs, run ≠ [] ∧ ∃ a b, Contiguous a run b ∧ b ≤ addrEnd) :
    ∀ {mBlocks ms : List Mapped}, K.mapRuns mBlocks runs = some ms →
      ∃ new, ms = mBlocks ++ new ∧ List.Forall₂ Recorded runs new := by
  induction runs with
  | nil =>
    intro mBlocks ms h
    exact ⟨[], by rw [List.append_nil]; exact (Option.some.inj h).symm, List.Forall₂.nil⟩
  | cons run runs ih =>
    intro mBlocks ms h
    rw [mapRuns, Option.bind_eq_some_iff] at h
    obtain ⟨mid, hflush, hrest⟩ := h
    obtain ⟨hne, a, b, hrun, hb⟩ := hruns run List.mem_cons_self
    obtain ⟨m, rfl, hm, -⟩ := flush_eq_some hne hrun hb hflush
    obtain ⟨new, rfl, hnew⟩ := ih (fun r hr => hruns r (List.mem_cons_of_mem _ hr)) hrest
    exact ⟨m :: new, by rw [List.append_assoc, List.singleton_append], .cons hm hnew⟩

/-- Address space can always be found, and mapping always works. -/
structure Serves (K : Svc) : Prop where
  finds : ∀ bs n, ∃ mapped, K.findAslr bs n = some mapped
  maps : ∀ c, K.mapProcessMemory c = true

/-- Address space for a run can be found, and its regions can be mapped. -/
def Grants (K : Svc) : List MemoryInfo → Prop
  | [] => True
  | first :: maps => (∀ bs, ∃ mapped, K.findAslr bs (blockSize first maps) = some mapped) ∧
      ∀ r ∈ first :: maps, ∀ dst, K.mapProcessMemory ⟨dst, r.addr, r.size⟩ = true

theorem Serves.grants {K : Svc} (hK : K.Serves) (run : List MemoryInfo) : K.Grants run := by
  cases run with
  | nil => trivial
  | cons first maps => exact ⟨fun bs => hK.finds bs _, fun _ _ _ => hK.maps _⟩

theorem mapRegions_of_maps {K : Svc} {maps : List MemoryInfo}
    (h : ∀ r ∈ maps, ∀ dst, K.mapProcessMemory ⟨dst, r.addr, r.size⟩ = true)
    (mapped first : Nat) : ∃ calls, K.mapRegions mapped first maps = some calls := by
  induction maps with
  | nil => exact ⟨[], rfl⟩
  | cons r maps ih =>
    obtain ⟨calls, hcalls⟩ := ih fun q hq => h q (List.mem_cons_of_mem _ hq)
    rw [Svc.mapRegions, hcalls]
    split
    · exact ⟨_, rfl⟩
    · rw [if_pos (h r List.mem_cons_self _)]
      exact ⟨_, rfl⟩

theorem Grants.flush {K : Svc} {run : List MemoryInfo} (h : K.Grants run) (mBlocks : List Mapped) :
    ∃ ms, K.flush mBlocks run = some ms := by
  cases run with
  | nil => exact ⟨mBlocks, rfl⟩
  | cons first maps =>
    obtain ⟨mapped, hfound⟩ := h.1 (mBlocks.map Mapped.toMapBlock)
    obtain ⟨calls, hcalls⟩ := mapRegions_of_maps h.2 mapped first.addr
    rw [Svc.flush, mapBlock, hfound, Option.bind_some, hcalls]
    exact ⟨_, rfl⟩

theorem mapRuns_of_grants {K : Svc} {runs : List (List MemoryInfo)}
    (h : ∀ run ∈ runs, K.Grants run) : ∀ mBlocks, ∃ ms, K.mapRuns mBlocks runs = some ms := by
  induction runs with
  | nil =>
    intro mBlocks
    exact ⟨mBlocks, rfl⟩
  | cons run runs ih =>
    intro mBlocks
    obtain ⟨mid, hmid⟩ := (h run List.mem_cons_self).flush mBlocks
    obtain ⟨ms, hms⟩ := ih (fun r hr => h r (List.mem_cons_of_mem _ hr)) mid
    exact ⟨ms, by rw [Svc.mapRuns, hmid, Option.bind_some, hms]⟩

/-- **The loop.**  It maps the runs that a free region ends, and stops at the final region. -/
theorem mapLoop_eq {K : Svc} {rs : List MemoryInfo} :
    ∀ {fuel a : Nat} {pending : List MemoryInfo} {mBlocks : List Mapped}, rs ≠ [] →
      Contiguous a rs addrEnd →
      (∀ r ∈ rs, ∀ x, r.addr ≤ x → x < r.addr + r.size → K.queryMemory x = some r) →
      (∀ run ∈ runsFrom MemoryInfo.free pending rs.dropLast, run.length ≤ mapBufferSize) →
      rs.length ≤ fuel →
      K.mapLoop fuel a pending mBlocks =
        some (outcome (K.mapRuns mBlocks (closedRuns MemoryInfo.free pending rs.dropLast))) := by
  induction rs with
  | nil =>
    intro fuel a pending mBlocks hne
    exact absurd rfl hne
  | cons r rest ih =>
    intro fuel a pending mBlocks _ hcont hquery hmax hfuel
    obtain ⟨fuel, rfl⟩ : ∃ n, fuel = n + 1 := ⟨fuel - 1, by rw [List.length_cons] at hfuel; omega⟩
    obtain ⟨haddr, hsize, hrest⟩ := hcont
    have hget : K.queryMemory a = some r := hquery r List.mem_cons_self a (by omega) (by omega)
    have hle := hrest.le
    rw [mapLoop, hget]
    simp only [wrap_of_le hle]
    cases rest with
    | nil =>
      -- the final region
      have hend : a + r.size = addrEnd := hrest
      rw [if_pos hend]
      rfl
    | cons q rest =>
      have hlt : a + r.size ≠ addrEnd := by
        obtain ⟨-, hq, hcont'⟩ := hrest
        have := hcont'.le
        omega
      have hquery' : ∀ p ∈ q :: rest, ∀ x, p.addr ≤ x → x < p.addr + p.size →
          K.queryMemory x = some p := fun p hp => hquery p (List.mem_cons_of_mem _ hp)
      have hfuel' : (q :: rest).length ≤ fuel := Nat.le_of_succ_le_succ hfuel
      rw [if_neg hlt, List.dropLast_cons_cons, closedRuns]
      rw [List.dropLast_cons_cons] at hmax
      cases hfree : r.free with
      | true =>
        rw [runsFrom_cons_pos hfree] at hmax
        have hmax' := fun run hrun => hmax run (List.mem_append_right _ hrun)
        rw [if_pos rfl, if_pos rfl]
        cases pending with
        | nil => exact ih (List.cons_ne_nil _ _) hrest hquery' hmax' hfuel'
        | cons y ys =>
          simp only [List.isEmpty_cons, Bool.false_eq_true, if_false, mapRuns]
          cases hflush : K.flush mBlocks (y :: ys) with
          | none => rfl
          | some mid => exact ih (List.cons_ne_nil _ _) hrest hquery' hmax' hfuel'
      | false =>
        have hroom : pending.length < mapBufferSize := length_lt_of_runsFrom hfree hmax
        rw [runsFrom_cons_neg hfree] at hmax
        rw [if_neg Bool.false_ne_true, if_neg Bool.false_ne_true, if_pos hroom]
        exact ih (List.cons_ne_nil _ _) hrest hquery' hmax hfuel'

/-- If the loop returns, it has mapped these runs. -/
theorem mapLoop_value {K : Svc} {rs : List MemoryInfo} :
    ∀ {fuel a : Nat} {pending : List MemoryInfo} {mBlocks ms : List Mapped}, rs ≠ [] →
      Contiguous a rs addrEnd →
      (∀ r ∈ rs, ∀ x, r.addr ≤ x → x < r.addr + r.size → K.queryMemory x = some r) →
      K.mapLoop fuel a pending mBlocks = some (.value ms) →
      K.mapRuns mBlocks (closedRuns MemoryInfo.free pending rs.dropLast) = some ms := by
  induction rs with
  | nil =>
    intro fuel a pending mBlocks ms hne
    exact absurd rfl hne
  | cons r rest ih =>
    rintro fuel a pending mBlocks ms - ⟨haddr, hsize, hrest⟩ hquery h
    cases fuel with
    | zero => exact absurd h (by simp [mapLoop])
    | succ fuel =>
      have hget : K.queryMemory a = some r := hquery r List.mem_cons_self a (by omega) (by omega)
      have hle := hrest.le
      rw [mapLoop, hget] at h
      simp only [wrap_of_le hle] at h
      cases rest with
      | nil =>
        -- the final region: what is pending is not looked at
        have hend : a + r.size = addrEnd := hrest
        rw [if_pos hend, Option.some.injEq, Outcome.value.injEq] at h
        exact congrArg some h
      | cons q rest =>
        have hlt : a + r.size ≠ addrEnd := by
          obtain ⟨-, hq, hcont'⟩ := hrest
          have := hcont'.le
          omega
        have hquery' : ∀ p ∈ q :: rest, ∀ x, p.addr ≤ x → x < p.addr + p.size →
            K.queryMemory x = some p := fun p hp => hquery p (List.mem_cons_of_mem _ hp)
        rw [if_neg hlt] at h
        rw [List.dropLast_cons_cons, closedRuns]
        cases hfree : r.free with
        | true =>
          rw [hfree, if_pos rfl] at h
          rw [if_pos rfl]
          -- a free region ends the run
          cases hflush : K.flush mBlocks pending with
          | none =>
            rw [hflush] at h
            exact absurd h (by simp)
          | some mid =>
            rw [hflush] at h
            have hmid := ih (List.cons_ne_nil _ _) hrest hquery' h
            cases pending with
            | nil =>
              rw [flush, Option.some.injEq] at hflush
              rw [hflush]
              exact hmid
            | cons y ys =>
              rw [if_neg (by simp), mapRuns, hflush, Option.bind_some]
              exact hmid
        | false =>
          rw [hfree, if_neg Bool.false_ne_true] at h
          rw [if_neg Bool.false_ne_true]
          split at h
          · -- one region more is pending, if the buffer has room for it
            exact ih (List.cons_ne_nil _ _) hrest hquery' h
          · exact absurd h (by simp)

end Svc

/-- The runs that are mapped lie in the layout. -/
theorem Layout.closedRuns {K : Svc} {rs : List MemoryInfo} (h : Layout K rs) :
    ∀ run ∈ Lib.closedRuns MemoryInfo.free [] rs.dropLast,
      run ≠ [] ∧ ∃ a b, Contiguous a run b ∧ b ≤ addrEnd := by
  intro run hrun
  refine ⟨closedRuns_ne_nil _ _ run hrun, ?_⟩
  have hseg := (isInfix_of_closed _ _ run hrun).trans (List.dropLast_prefix rs).isInfix
  obtain ⟨a, b, -, hb, hcont⟩ := h.contiguous.of_infix hseg
  exact ⟨a, b, hcont, hb⟩

theorem Layout.ne_nil {K : Svc} {rs : List MemoryInfo} (h : Layout K rs) : rs ≠ [] := by
  rintro rfl
  have hzero : 0 = addrEnd := h.contiguous
  exact absurd hzero (by decide)

/-- What `mapBlocks` does: it comes to an end, and maps the runs that a free region ends. -/
theorem mapBlocks_eq {K : Svc} {rs : List MemoryInfo} (hlayout : Layout K rs)
    (hmax : ∀ run ∈ runs MemoryInfo.free rs.dropLast, run.length ≤ mapBufferSize) {fuel : Nat}
    (hfuel : rs.length ≤ fuel) :
    K.mapBlocks fuel =
      some (Svc.outcome (K.mapRuns [] (closedRuns MemoryInfo.free [] rs.dropLast))) :=
  Svc.mapLoop_eq hlayout.ne_nil hlayout.contiguous hlayout.query hmax hfuel

/-- What `mapBlocks` returns is the blocks of the runs that a free region ends. -/
theorem mapBlocks_value {K : Svc} {rs : List MemoryInfo} {fuel : Nat} {ms : List Mapped}
    (hlayout : Layout K rs) (h : K.mapBlocks fuel = some (.value ms)) :
    K.mapRuns [] (closedRuns MemoryInfo.free [] rs.dropLast) = some ms :=
  Svc.mapLoop_value hlayout.ne_nil hlayout.contiguous hlayout.query h

/-- The blocks are the maximal runs below the final region, each with its place and length. -/
def MirrorsProcess (rs : List MemoryInfo) (ms : List Mapped) : Prop :=
  ms.map (fun m => (m.startOrig, m.size)) =
    (runs MemoryInfo.free rs.dropLast).map fun run => (startOf run, totalOf run)

instance (rs : List MemoryInfo) (ms : List Mapped) : Decidable (MirrorsProcess rs ms) :=
  inferInstanceAs (Decidable (_ = _))

/-- What is recorded of the blocks, place and size, is that of the runs. -/
theorem map_recorded {runs : List (List MemoryInfo)} {ms : List Mapped}
    (h : List.Forall₂ Recorded runs ms) :
    ms.map (fun m => (m.startOrig, m.size)) = runs.map fun run => (startOf run, totalOf run) := by
  induction h with
  | nil => rfl
  | cons hm _ ih => rw [List.map_cons, List.map_cons, ih, hm.startOrig, hm.size]

/-- The blocks of the runs that a free region ends are those of all runs if and only if the last
    region below the final one is free. -/
theorem mirrorsProcess_iff {rs : List MemoryInfo} {ms : List Mapped}
    (h : List.Forall₂ Recorded (closedRuns MemoryInfo.free [] rs.dropLast) ms) :
    MirrorsProcess rs ms ↔ ∀ r ∈ rs.dropLast.getLast?, r.type = 0 := by
  have hopen : (∀ r ∈ rs.dropLast.getLast?, r.type = 0) ↔
      openRun MemoryInfo.free [] rs.dropLast = [] := by
    rw [openRun_eq_nil_iff]
    simp only [MemoryInfo.free, decide_eq_true_iff]
  rw [hopen, MirrorsProcess, map_recorded h]
  constructor
  · intro heq
    have hlen := congrArg List.length heq
    rw [List.length_map, List.length_map] at hlen
    exact (length_runs_eq_iff _).mp hlen
  · intro hnil
    rw [runs_of_openRun_nil hnil]

/-- **Mirroring.**  `mapBlocks` returns, unless address space or a mapping is refused, and then
    `mBlocks` is the maximal runs below the final region if and only if the region directly below it
    is free, or there is none. -/
theorem mapBlocks_iff {K : Svc} {rs : List MemoryInfo} (hlayout : Layout K rs)
    (hmax : ∀ run ∈ runs MemoryInfo.free rs.dropLast, run.length ≤ mapBufferSize) :
    ∃ out, (∀ fuel, rs.length ≤ fuel → K.mapBlocks fuel = some out) ∧
      (out = .abort ∧ ¬K.Serves ∨
        ∃ ms, out = .value ms ∧ (MirrorsProcess rs ms ↔ ∀ r ∈ rs.dropLast.getLast?, r.type = 0)) := by
  refine ⟨_, fun fuel hfuel => mapBlocks_eq hlayout hmax hfuel, ?_⟩
  cases hms : K.mapRuns [] (closedRuns MemoryInfo.free [] rs.dropLast) with
  | none =>
    refine Or.inl ⟨rfl, fun hK => ?_⟩
    obtain ⟨ms, hsome⟩ := Svc.mapRuns_of_grants (fun run _ => hK.grants run) []
    rw [hms] at hsome
    exact Option.some_ne_none _ hsome.symm
  | some ms =>
    obtain ⟨new, rfl, hnew⟩ := Svc.mapRuns_eq_some hlayout.closedRuns hms
    exact Or.inr ⟨_, rfl, mirrorsProcess_iff hnew⟩

/-! ## Two processes

  A kernel to run the function on: it knows a layout, and gives out address space from `base` on. -/

/-- The first address from `base` on that is behind all blocks, a guard area included. -/
def behind (base : Nat) : List MapBlock → Nat
  | [] => base
  | b :: bs => max (b.startMapped + b.size + 0x10000) (behind base bs)

/-- A kernel over a given layout, with address space from `base` on. -/
def svcOf (rs : List MemoryInfo) (base : Nat) : Svc where
  queryMemory := regionAt rs
  findAslr bs n := if behind base bs + n + 0x10000 ≤ addrEnd then some (behind base bs) else none
  mapProcessMemory _ := true

theorem layout_svcOf {rs : List MemoryInfo} (base : Nat) (h : Contiguous 0 rs addrEnd) :
    Layout (svcOf rs base) rs :=
  ⟨h, fun _ hr _ hlo hhi => h.regionAt_eq hr hlo hhi⟩

/-- Code and data, with free memory behind them. -/
def roomyLayout : List MemoryInfo :=
  [⟨0, 0x1000, 0⟩, ⟨0x1000, 0x1000, 3⟩, ⟨0x2000, 0x1000, 4⟩, ⟨0x3000, 0x7FFFFF0000, 0⟩,
    ⟨0x7FFFFF3000, 0xD000, 0x10⟩]

/-- Code up to the final region. -/
def fullLayout : List MemoryInfo :=
  [⟨0, 0x1000, 0⟩, ⟨0x1000, 0x7FFFFF2000, 3⟩, ⟨0x7FFFFF3000, 0xD000, 0x10⟩]

/-- Both are mirrored. -/
theorem mapBlocks_roomyLayout :
    ∃ ms, (svcOf roomyLayout 0x1000000000).mapBlocks 5 = some (.value ms) ∧
      MirrorsProcess roomyLayout ms := by
  have hlayout : Layout (svcOf roomyLayout 0x1000000000) roomyLayout :=
    layout_svcOf 0x1000000000 (by decide)
  obtain ⟨out, hfuel, h⟩ := mapBlocks_iff hlayout (by decide)
  rcases h with ⟨rfl, -⟩ | ⟨ms, rfl, hiff⟩
  · exact absurd (hfuel 5 (by decide)) (by decide)
  · exact ⟨ms, hfuel 5 (by decide), hiff.mpr (by decide)⟩

/-- The only run of this process is not mapped. -/
theorem not_mirrors_fullLayout :
    Layout (svcOf fullLayout 0x1000000000) fullLayout ∧
      (∀ run ∈ runs MemoryInfo.free fullLayout.dropLast, run.length ≤ mapBufferSize) ∧
      (svcOf fullLayout 0x1000000000).mapBlocks 3 = some (.value []) ∧ ¬MirrorsProcess fullLayout [] :=
  ⟨layout_svcOf _ (by decide), by decide, by decide, by decide⟩

end Nxdb
