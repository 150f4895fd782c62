/-
  `getProcessList`, and the fixed arrays of the debugger.

  The ids that answer are collected in `pids`, and as in the other two loops nothing asks whether
  there is room for one more.  So the array is written within its bounds if and only if no more than
  80 of the ids that are probed are those of processes (`getProcessList_inTable_iff`).

  `scratch_inBounds_iff` puts the three arrays together: `mapBuffer`, `mModules`, `pids`.
-/
import Nxdb.Modules
import Mathlib.Data.List.Perm.Subperm

namespace Nxdb

open Lib

/-! ## The code

  The search and the loop that fills `out` are one behind the other, over the same table of ids.
  What the services answer is a function of the id. -/

/-- How many ids `pids` holds. -/
def sMaxPids : Nat := 0x50

/-- The ids below this one are probed. -/
def sMaxPidSearchRange : Nat := 0x1000

/-- A row of the main window. -/
structure Process where
  processId : Nat
  programId : Nat
  name : List UInt8
deriving DecidableEq

/-- The first debug event of a process: whether it is `DebugEvent_CreateProcess`, and what
    `create_process` holds. -/
structure DebugEvent where
  isCreateProcess : Bool
  programId : Nat
  name : List UInt8

/-- The services that are asked about processes: `pmdmntGetProgramId` (`none` when it fails), and
    `svcDebugActiveProcess` (`none` when it fails) with the `svcGetDebugEvent` behind it. -/
structure PmSvc where
  getProgramId : Nat → Option Nat
  debugActiveProcess : Nat → Option (Option DebugEvent)

/-- `pids`, of which the first `numPids` entries are in use. -/
abbrev PidTable := Table Nat sMaxPids

namespace PmSvc

/-- Whether the id is that of a process. -/
def running (P : PmSvc) (i : Nat) : Bool :=
  match P.getProgramId i with
  | none => false
  | some programId => decide (programId ≠ 0)

/-- A round of the search: `pids[numPids++] = i`. -/
def probe (P : PmSvc) (t : PidTable) (i : Nat) : Option PidTable :=
  if P.running i then t.push fun _ => i else some t

/-- The search: `pids` and `numPids` behind it, `none` when it writes behind `pids`. -/
def searchPids (P : PmSvc) : Option PidTable :=
  (List.range sMaxPidSearchRange).foldlM P.probe ⟨0, Vector.replicate sMaxPids 0⟩

/-- The entry of `out` for a process, `none` when this ends the program. -/
def readProcess (P : PmSvc) (pid : Nat) (p : Process) : Option Process :=
  match P.debugActiveProcess pid with
  | none => some { p with processId := pid }
  | some none => none
  | some (some d) => some ⟨pid, d.programId, if d.isCreateProcess then d.name else p.name⟩

/-- The loop that fills `out`. -/
def readLoop (P : PmSvc) : List Nat → List Process → Outcome (List Process)
  | [], out => .value out
  | _ :: _, [] => .overrun
  | pid :: pids, p :: out =>
    match P.readProcess pid p with
    | none => .abort
    | some p =>
      match P.readLoop pids out with
      | .value out => .value (p :: out)
      | .abort => .abort
      | .overrun => .overrun

/-- `getProcessList`. -/
def getProcessList (P : PmSvc) (out : List Process) (max : Int) : Outcome (Int × List Process) :=
  match P.searchPids with
  | none => .overrun
  | some t =>
    let numRead := min (t.count : Int) max
    match P.readLoop (t.entries.toList.take numRead.toNat) out with
    | .value out => .value (numRead, out)
    | .abort => .abort
    | .overrun => .overrun

/-! ## Room for the ids

  The search is a fold over the ids that are probed, which pushes those that answer. -/

/-- The ids of processes among those that are probed. -/
def live (P : PmSvc) : List Nat := (List.range sMaxPidSearchRange).filter P.running

/-- The search pushes the ids of processes. -/
theorem foldlM_probe (P : PmSvc) (is : List Nat) (t : PidTable) :
    is.foldlM P.probe t = (is.filter P.running).foldlM (fun t i => t.push fun _ => i) t := by
  rw [List.foldlM_filter]
  rfl

/-- There is room for the ids or there is not. -/
theorem searchPids_eq (P : PmSvc) :
    (P.live.length ≤ sMaxPids ∧ ∃ t, P.searchPids = some t) ∨
      (sMaxPids < P.live.length ∧ P.searchPids = none) := by
  have hpush := Table.foldlM_push (f := fun i _ => i) (g := fun i : Nat => i) (v := fun i : Nat => i)
    (fun _ _ => rfl) P.live (t := ⟨0, Vector.replicate sMaxPids 0⟩) (Nat.zero_le _)
  rw [Nat.zero_add, live, ← foldlM_probe] at hpush
  rcases hpush with ⟨hroom, t, ht, -⟩ | ⟨hfull, hnone⟩
  · exact Or.inl ⟨hroom, t, ht⟩
  · exact Or.inr ⟨hfull, hnone⟩

/-- With as many entries in `out` as there are ids, its loop stays in it. -/
theorem readLoop_ne_overrun {P : PmSvc} {pids : List Nat} : ∀ {out : List Process},
    pids.length ≤ out.length → P.readLoop pids out ≠ .overrun := by
  induction pids with
  | nil =>
    intro out _ h
    rw [readLoop] at h
    cases h
  | cons pid pids ih =>
    intro out hlen h
    cases out with
    | nil => exact absurd hlen (Nat.not_succ_le_zero _)
    | cons p out =>
      have hrest := ih (Nat.le_of_succ_le_succ hlen)
      rw [readLoop] at h
      split at h
      next => cases h
      next =>
        split at h
        next => cases h
        next => cases h
        next hloop => exact hrest hloop

/-- **Room for the ids.**  `getProcessList` never writes behind `pids` if and only if no more than 80
    of the ids it probes are those of processes. -/
theorem getProcessList_inTable_iff (P : PmSvc) :
    (∀ (out : List Process) (max : Int), max ≤ out.length → P.getProcessList out max ≠ .overrun) ↔
      P.live.length ≤ sMaxPids := by
  rcases P.searchPids_eq with ⟨hroom, t, ht⟩ | ⟨hfull, hnone⟩
  · refine ⟨fun _ => hroom, ?_⟩
    intro _ out max hmax h
    have hlen : (t.entries.toList.take (min (t.count : Int) max).toNat).length ≤ out.length := by
      rw [List.length_take]
      omega
    unfold getProcessList at h
    simp only [ht] at h
    split at h
    next => cases h
    next => cases h
    next hloop => exact readLoop_ne_overrun hlen hloop
  · refine ⟨fun hno => ?_, fun hroom => absurd hroom (Nat.not_le_of_lt hfull)⟩
    refine absurd ?_ (hno [] 0 (Int.le_refl 0))
    unfold getProcessList
    simp only [hnone]

end PmSvc

/-! ## The three arrays

  For each of the three functions there is a theorem that says when it writes behind its array; they
  are put together here, for a kernel that reports the layout and does otherwise what it likes. -/

/-- Whatever the kernel does besides reporting the layout, `mapBlocks` writes within `mapBuffer`,
    `findModules` within `mModules` and `getProcessList` within `pids`. -/
structure InBounds (rs : List PermInfo) (stop : Nat) (P : PmSvc) : Prop where
  mapBuffer : ∀ K, WidthLayout K (regionsOf rs) stop → ∀ fuel, K.mapBlocks fuel ≠ some .overrun
  mModules : ∀ K, DebugLayout K rs stop → ∀ fuel s, K.findModules fuel s ≠ some .overrun
  pids : ∀ (out : List Process) (max : Int), max ≤ out.length → P.getProcessList out max ≠ .overrun

/-- **The fixed arrays are written within their bounds** if and only if no run of adjacent regions is
    longer than 256, no more than 13 modules lie below the first reserved region, and no more than 80
    processes answer. -/
theorem scratch_inBounds_iff {rs : List PermInfo} {stop : Nat}
    (hcont : Contiguous 0 (regionsOf rs) stop) (hpos : 0 < stop) (hle : stop ≤ addrEnd)
    (P : PmSvc) :
    InBounds rs stop P ↔ FitsBuffer (regionsOf rs) stop ∧ (modulesOf rs).length ≤ sMaxModules ∧
      P.live.length ≤ sMaxPids := by
  have hlt : stop < 2 ^ 64 := by
    unfold addrEnd at hle
    omega
  have hlayout := debugLayout_debugSvcOf _ _ (fun _ => 0) hcont hlt
  constructor
  · rintro ⟨hbuffer, htable, hpids⟩
    refine ⟨(mapBlocks_inBuffer_iff hcont hpos hle).mp hbuffer, ?_, P.getProcessList_inTable_iff.mp hpids⟩
    exact (findModules_inTable_iff hlayout ModuleTable.initial).mp fun fuel =>
      htable _ hlayout fuel ModuleTable.initial
  · rintro ⟨hbuffer, htable, hpids⟩
    exact ⟨(mapBlocks_inBuffer_iff hcont hpos hle).mpr hbuffer,
      fun K hK fuel s => (findModules_inTable_iff hK s).mpr htable fuel,
      P.getProcessList_inTable_iff.mpr hpids⟩

/-- Some processes, by their ids and program ids. -/
def pmSvcOf (ps : List (Nat × Nat)) : PmSvc where
  getProgramId i := ps.lookup i
  debugActiveProcess _ := none

/-- No more ids answer than there are processes. -/
theorem live_pmSvcOf_le (ps : List (Nat × Nat)) : (pmSvcOf ps).live.length ≤ ps.length := by
  have hsub : (pmSvcOf ps).live ⊆ ps.map Prod.fst := by
    intro i hi
    have hrun := (List.mem_filter.mp hi).2
    by_contra hno
    have hlookup : (pmSvcOf ps).getProgramId i = none := by
      refine List.lookup_eq_none_iff.mpr fun p hp => ?_
      exact bne_iff_ne.mpr fun heq => hno (List.mem_map.mpr ⟨p, hp, heq.symm⟩)
    rw [PmSvc.running, hlookup] at hrun
    exact absurd hrun Bool.false_ne_true
  have hnodup : (pmSvcOf ps).live.Nodup := List.nodup_range.filter _
  have hle := (hnodup.subperm hsub).length_le
  rwa [List.length_map] at hle

/-- With `codeLayout` and two processes, all three are. -/
theorem inBounds_codeLayout :
    InBounds codeLayout 0x8000000000 (pmSvcOf [(0x81, 0x0100000000001000), (0x85, 0x42)]) :=
  (scratch_inBounds_iff (by decide) (by decide) (by decide) _).mpr
    ⟨by decide, by decide, Nat.le_trans (live_pmSvcOf_le _) (by decide)⟩

/-- Fourteen modules, one behind the other. -/
def crowdedLayout : List PermInfo :=
  (List.range 14).map fun i => ⟨⟨0x1000 * i, 0x1000, MemoryInfo.codeStatic⟩, PermInfo.rx⟩

/-- The last of them is written behind `mModules`. -/
theorem not_inBounds_crowdedLayout :
    DebugLayout (debugSvcOf crowdedLayout 0xE000 fun _ => 0) crowdedLayout 0xE000 ∧
      ¬InBounds crowdedLayout 0xE000 (pmSvcOf []) := by
  have hlayout : DebugLayout (debugSvcOf crowdedLayout 0xE000 fun _ => 0) crowdedLayout 0xE000 :=
    debugLayout_debugSvcOf _ _ _ (by decide) (by decide)
  refine ⟨hlayout, fun h => ?_⟩
  have hroom := (findModules_inTable_iff hlayout ModuleTable.initial).mp fun fuel =>
    h.mModules _ hlayout fuel ModuleTable.initial
  exact absurd hroom (by decide)

end Nxdb
