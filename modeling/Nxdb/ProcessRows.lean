/-
  The rows of the main window, over its refreshes.

  `getProcessList` is given the same array each time.  The id of a row is always set; the program id
  only when the process can be attached to, and the name only when its first debug event is the one
  that it was created with.  So a row has the program id of the process last attached to in it, and
  the name of the last one created (`Written`), whichever process is in it now: `ownRows_iff` says
  for which processes and attach outcomes these are the row's own.

  The services' answers in the frames that read the list are kept beside the window (`read`).

  1. Program: `MainWindow.update`, one frame with the answers of the services in it.
  2. Property: `OwnRows`, of the rows shown behind a refresh.  What was `Reported` for a process is
     in the `CreateProcess` events of the refreshes at which it was running and could be attached
     to, and nowhere else.
  3. Condition: `AttachesOwn`, which speaks of processes and attach outcomes and not of rows: the
     last attach in the row was to the process in it now, or what it left happens to stand for that
     one too (`Stands`).
  4. The crux is `Written`: each field of a row is that of the last attach in the row that writes
     it.  It holds in every run, and turns the one into the other, row by row.
-/
import Nxdb.ProcessList
import Nxdb.Lib.Run
import Mathlib.Data.List.Nodup

namespace Nxdb

open Lib

/-! ## The code

  The list of the window is passed to `getProcessList` as it is, so it holds on to what it was given
  at earlier refreshes; `Process.blankName` stands for names that have never been written. -/

/-- `name`, of which nothing has been written. -/
def Process.blankName : List UInt8 := List.replicate 12 0

/-- The members of `MainWindow` that the list of processes is in. -/
structure MainWindow where
  mNumProcesses : Int
  mProcessList : List Process
  mFramesSinceLastProcessListUpdate : Nat

namespace MainWindow

/-- A window as it is declared.  The names are not initialised. -/
def initial (names : Vector (List UInt8) sMaxPids) : MainWindow where
  mNumProcesses := 0
  mProcessList := names.toList.map fun name => ⟨0, 0, name⟩
  mFramesSinceLastProcessListUpdate := 361

/-- Whether the list is read in this frame. -/
def refreshes (w : MainWindow) : Bool := decide (360 < w.mFramesSinceLastProcessListUpdate)

/-- `MainWindow::update`, as far as the list goes. -/
def update (w : MainWindow) (P : PmSvc) : Outcome MainWindow :=
  if w.refreshes then
    match P.getProcessList w.mProcessList sMaxPids with
    | .value (numProcesses, processList) => .value ⟨numProcesses, processList, 0 + 1⟩
    | .abort => .abort
    | .overrun => .overrun
  else
    .value { w with
      mFramesSinceLastProcessListUpdate := w.mFramesSinceLastProcessListUpdate + 1 }

end MainWindow

/-! ## Frames, and what has been reported in them

  `lastAttached` and `lastCreated` look through the answers of the services alone, newest first: at
  which refresh the process then in row `i` could be attached to, and at which its event was
  `CreateProcess`. -/

/-- What the services say in a frame: of no more than 80 processes, and those that can be attached to
    have a first event. -/
structure PmFrame extends PmSvc where
  fits : toPmSvc.live.length ≤ sMaxPids
  answers : ∀ pid, debugActiveProcess pid ≠ some none

/-- The event that comes when the process can be attached to. -/
def PmSvc.firstEvent (P : PmSvc) (pid : Nat) : Option DebugEvent := (P.debugActiveProcess pid).join

/-- A process that was attached to, and its first event. -/
structure Attach where
  processId : Nat
  event : DebugEvent

/-- The attach to the process of row `i`, if it succeeds. -/
def PmSvc.attachedAt (P : PmSvc) (i : Nat) : Option Attach :=
  P.live[i]?.bind fun pid => (P.firstEvent pid).map (Attach.mk pid)

/-- The last attach of a process in row `i`; `read` is newest first. -/
def lastAttached (i : Nat) (read : List PmSvc) : Option Attach :=
  read.findSome? fun P => P.attachedAt i

/-- The last attach in row `i` whose first event was `CreateProcess`. -/
def lastCreated (i : Nat) (read : List PmSvc) : Option Attach :=
  read.findSome? fun P => (P.attachedAt i).filter fun a => a.event.isCreateProcess

/-- The window, and what the services said in the frames that read the list, newest first. -/
structure Rows where
  window : MainWindow
  read : List PmSvc

namespace Rows

/-- Nothing was read. -/
def init (names : Vector (List UInt8) sMaxPids) : Rows := ⟨MainWindow.initial names, []⟩

/-- A frame; `none` when the program ends in it. -/
def step (s : Rows) (f : PmFrame) : Option Rows :=
  match s.window.update f.toPmSvc with
  | .value w => some ⟨w, if s.window.refreshes then f.toPmSvc :: s.read else s.read⟩
  | .abort => none
  | .overrun => none

/-! ## What should hold, and when it does

  The condition speaks of the processes and of the outcomes of attaching to them: what the last
  attach in a row has brought must stand for the process that is in the row now. -/

/-- What has been reported for the process: a `CreateProcess` event that came with an attach to it.
    Other events have no program id and no name. -/
def Reported (read : List PmSvc) (pid : Nat) (d : DebugEvent) : Prop :=
  ∃ P ∈ read, pid ∈ P.live ∧ P.firstEvent pid = some d ∧ d.isCreateProcess = true

/-- No program id, or one that has been reported for the process. -/
def OwnProgramId (read : List PmSvc) (pid programId : Nat) : Prop :=
  programId = 0 ∨ ∃ d, Reported read pid d ∧ d.programId = programId

/-- No name, or one that has been reported for the process. -/
def OwnName (read : List PmSvc) (pid : Nat) (name : List UInt8) : Prop :=
  name = Process.blankName ∨ ∃ d, Reported read pid d ∧ d.name = name

/-- The rows of a refresh are those of the processes there are, in ascending order of the ids, with
    data of their own. -/
def OwnRows (s : Rows) (f : PmFrame) (s' : Rows) : Prop :=
  s.window.refreshes = true →
    s'.window.mNumProcesses = f.toPmSvc.live.length ∧
      ∀ i pid : Nat, f.toPmSvc.live[i]? = some pid → ∃ p : Process,
        s'.window.mProcessList[i]? = some p ∧ p.processId = pid ∧
          OwnProgramId s'.read pid p.programId ∧ OwnName s'.read pid p.name

/-- An attach stands for the process `pid`: it was to this process, just created, or its event has
    nothing or the same in the field as one that was reported for the process. -/
def Stands {α : Type} (field : DebugEvent → α) (blank : α) (read : List PmSvc) (pid : Nat)
    (a : Attach) : Prop :=
  (a.processId = pid ∧ a.event.isCreateProcess = true) ∨ field a.event = blank ∨
    ∃ d, Reported read pid d ∧ field d = field a.event

/-- The last attaches in row `i` stand for the process in it. -/
structure LastAttachStands (names : Vector (List UInt8) sMaxPids) (read : List PmSvc)
    (i pid : Nat) : Prop where
  programId : ∀ a, lastAttached i read = some a → Stands DebugEvent.programId 0 read pid a
  name : ∀ a, lastCreated i read = some a →
    Stands DebugEvent.name Process.blankName read pid a
  unnamed : lastCreated i read = none → ∀ name, names.toList[i]? = some name →
    name = Process.blankName ∨ ∃ d, Reported read pid d ∧ d.name = name

/-- At a refresh, this one included, the last attaches in each row stand for its process. -/
def AttachesOwn (names : Vector (List UInt8) sMaxPids) (s : Rows) (f : PmFrame) (_ : Rows) : Prop :=
  s.window.refreshes = true → ∀ i pid : Nat, f.toPmSvc.live[i]? = some pid →
    LastAttachStands names (f.toPmSvc :: s.read) i pid

end Rows

/-! ## What `getProcessList` does

  Row by row: the row at index `i` gets the `i`-th process, and the rows behind them stay as they
  are. -/

namespace PmSvc

/-- The ids that are found are those of the processes. -/
theorem searchPids_live {P : PmSvc} (hfits : P.live.length ≤ sMaxPids) :
    ∃ t, P.searchPids = some t ∧ t.count = P.live.length ∧
      t.entries.toList.take t.count = P.live := by
  have hpush := Table.foldlM_push (f := fun i _ => i) (g := fun i : Nat => i) (v := fun i : Nat => i)
    (fun _ _ => rfl) P.live (t := ⟨0, Vector.replicate sMaxPids 0⟩) (Nat.zero_le _)
  rw [Nat.zero_add, live, ← foldlM_probe] at hpush
  rcases hpush with ⟨-, t, ht, hcount, hlisted⟩ | ⟨hfull, -⟩
  · refine ⟨t, ht, hcount, ?_⟩
    rw [Table.listed_zero, List.nil_append, Table.listed, List.map_id'] at hlisted
    rw [hlisted, List.map_id']
    rfl
  · exact absurd hfull (Nat.not_lt_of_le hfits)

/-- What becomes of a row. -/
def row (P : PmSvc) (pid : Nat) (p : Process) : Process :=
  match P.firstEvent pid with
  | none => { p with processId := pid }
  | some d => ⟨pid, d.programId, if d.isCreateProcess then d.name else p.name⟩

theorem readProcess_eq {P : PmSvc} (hanswers : ∀ pid, P.debugActiveProcess pid ≠ some none)
    (pid : Nat) (p : Process) : P.readProcess pid p = some (P.row pid p) := by
  unfold readProcess row firstEvent
  cases hattach : P.debugActiveProcess pid with
  | none => rfl
  | some event =>
    cases event with
    | none => exact absurd hattach (hanswers pid)
    | some d => rfl

/-- What becomes of row `i`: a row without a process is left alone. -/
def rowAt (P : PmSvc) (i : Nat) (p : Process) : Process :=
  (P.live[i]?.map fun pid => P.row pid p).getD p

theorem rowAt_of_live {P : PmSvc} {i pid : Nat} (h : P.live[i]? = some pid) (p : Process) :
    P.rowAt i p = P.row pid p := by
  rw [rowAt, h]
  rfl

/-- The loop fills one row after the other, and leaves the others alone. -/
theorem readLoop_rows {P : PmSvc} (hanswers : ∀ pid, P.debugActiveProcess pid ≠ some none)
    (pids : List Nat) : ∀ {out : List Process}, pids.length ≤ out.length →
      ∃ out', P.readLoop pids out = .value out' ∧ out'.length = out.length ∧
        ∀ (i : Nat) (p : Process), out[i]? = some p →
          out'[i]? = some ((pids[i]?.map fun pid => P.row pid p).getD p) := by
  induction pids with
  | nil => exact fun {out} _ => ⟨out, rfl, rfl, fun i p hp => hp⟩
  | cons pid pids ih =>
    intro out hlen
    cases out with
    | nil => exact absurd hlen (Nat.not_succ_le_zero _)
    | cons p out =>
      obtain ⟨out', hloop, hlen', hrows⟩ := ih (Nat.le_of_succ_le_succ hlen)
      refine ⟨P.row pid p :: out', ?_, congrArg Nat.succ hlen', ?_⟩
      · unfold readLoop
        rw [readProcess_eq hanswers]
        dsimp only
        rw [hloop]
      · intro i p' hp
        cases i with
        | zero =>
          rw [List.getElem?_cons_zero, Option.some.injEq] at hp
          subst hp
          rfl
        | succ i =>
          rw [List.getElem?_cons_succ] at hp ⊢
          exact hrows i p' hp

/-- **The rows.**  With room for the ids and 80 rows, each process gets its row. -/
theorem getProcessList_rows {P : PmSvc} (hfits : P.live.length ≤ sMaxPids)
    (hanswers : ∀ pid, P.debugActiveProcess pid ≠ some none) {out : List Process}
    (hlen : out.length = sMaxPids) :
    ∃ out', P.getProcessList out sMaxPids = .value (P.live.length, out') ∧
      out'.length = sMaxPids ∧ ∀ (i : Nat) (p : Process), out[i]? = some p →
        out'[i]? = some (P.rowAt i p) := by
  obtain ⟨t, ht, hcount, hlive⟩ := searchPids_live hfits
  have hmin : min (t.count : Int) sMaxPids = P.live.length := by
    rw [hcount]
    omega
  have hroom : P.live.length ≤ out.length := by
    rw [hlen]
    exact hfits
  obtain ⟨out', hloop, hlen', hrows⟩ := readLoop_rows hanswers P.live hroom
  refine ⟨out', ?_, hlen'.trans hlen, hrows⟩
  unfold getProcessList
  rw [ht]
  dsimp only
  rw [hmin, Int.toNat_natCast, ← hcount, hlive, hloop]

end PmSvc

namespace Rows

/-! ## A row

  A refresh leaves a program id if the process could be attached to, and a name if it was just
  created; else both are what they were. -/

section Row

variable {P : PmSvc} {read : List PmSvc} {i pid : Nat} {a : Attach}

theorem mem_of_attachedAt (h : P.attachedAt i = some a) :
    P.live[i]? = some a.processId ∧ P.firstEvent a.processId = some a.event := by
  obtain ⟨pid, hpid, hevent⟩ := Option.bind_eq_some_iff.mp h
  obtain ⟨d, hd, rfl⟩ := Option.map_eq_some_iff.mp hevent
  exact ⟨hpid, hd⟩

/-- An attach that came with `CreateProcess` is a report. -/
theorem reported_of_attachedAt (hP : P ∈ read) (h : P.attachedAt i = some a)
    (hcreate : a.event.isCreateProcess = true) : Reported read a.processId a.event := by
  obtain ⟨hlive, hevent⟩ := mem_of_attachedAt h
  exact ⟨P, hP, List.mem_of_getElem? hlive, hevent, hcreate⟩

theorem reported_of_lastAttached (h : lastAttached i read = some a)
    (hcreate : a.event.isCreateProcess = true) : Reported read a.processId a.event := by
  obtain ⟨P, hP, hat⟩ := List.exists_of_findSome?_eq_some h
  exact reported_of_attachedAt hP hat hcreate

theorem reported_of_lastCreated (h : lastCreated i read = some a) :
    Reported read a.processId a.event := by
  obtain ⟨P, hP, hat⟩ := List.exists_of_findSome?_eq_some h
  obtain ⟨hat, hcreate⟩ := Option.filter_eq_some_iff.mp hat
  exact reported_of_attachedAt hP hat hcreate

/-- The attach stands for the process iff what it left is blank or reported. -/
theorem stands_iff {α : Type} {field : DebugEvent → α} {blank : α}
    (hreport : a.event.isCreateProcess = true → Reported read a.processId a.event) :
    Stands field blank read pid a ↔
      field a.event = blank ∨ ∃ d, Reported read pid d ∧ field d = field a.event := by
  refine ⟨fun h => h.elim ?_ id, Or.inr⟩
  rintro ⟨rfl, hcreate⟩
  exact Or.inr ⟨a.event, hreport hcreate, rfl⟩

/-- The program id of a row behind a refresh. -/
theorem programId_rowAt (P : PmSvc) (i : Nat) (p : Process) :
    (P.rowAt i p).programId = ((P.attachedAt i).map fun a => a.event.programId).getD p.programId := by
  rw [PmSvc.rowAt, PmSvc.attachedAt]
  cases P.live[i]? with
  | none => rfl
  | some pid =>
    show (P.row pid p).programId = _
    rw [PmSvc.row, Option.bind_some]
    cases P.firstEvent pid with
    | none => rfl
    | some d => rfl

/-- The name of a row behind a refresh. -/
theorem name_rowAt (P : PmSvc) (i : Nat) (p : Process) :
    (P.rowAt i p).name =
      (((P.attachedAt i).filter fun a => a.event.isCreateProcess).map fun a => a.event.name).getD
        p.name := by
  rw [PmSvc.rowAt, PmSvc.attachedAt]
  cases P.live[i]? with
  | none => rfl
  | some pid =>
    show (P.row pid p).name = _
    rw [PmSvc.row, Option.bind_some]
    cases P.firstEvent pid with
    | none => rfl
    | some d =>
      rw [Option.map_some, Option.filter_some]
      show (if d.isCreateProcess then d.name else p.name) = _
      cases d.isCreateProcess with
      | false => rfl
      | true => rfl

theorem processId_row (P : PmSvc) (pid : Nat) (p : Process) : (P.row pid p).processId = pid := by
  rw [PmSvc.row]
  cases P.firstEvent pid with
  | none => rfl
  | some d => rfl

end Row

/-! ## A frame

  The invariant (`Written`): each row has the program id of the last attach in it, and the name of
  the last one that came with `CreateProcess`.  With it, a row is the process's own iff these stand
  for the process. -/

section Frame

variable {s s' : Rows} {f : PmFrame} {names : Vector (List UInt8) sMaxPids}

/-- A frame in which the list is read. -/
theorem step_refresh (hlen : s.window.mProcessList.length = sMaxPids)
    (hrefresh : s.window.refreshes = true) :
    ∃ out', s.step f = some ⟨⟨f.toPmSvc.live.length, out', 1⟩, f.toPmSvc :: s.read⟩ ∧
      out'.length = sMaxPids ∧ ∀ (i : Nat) (p : Process),
        s.window.mProcessList[i]? = some p → out'[i]? = some (f.toPmSvc.rowAt i p) := by
  obtain ⟨out', hlist, hlen', hrows⟩ := PmSvc.getProcessList_rows f.fits f.answers hlen
  refine ⟨out', ?_, hlen', hrows⟩
  unfold step MainWindow.update
  rw [if_pos hrefresh, hlist]
  dsimp only
  rw [if_pos hrefresh]

/-- The same rows, some frames later. -/
def later (s : Rows) (n : Nat) : Rows :=
  { s with window := { s.window with
    mFramesSinceLastProcessListUpdate := s.window.mFramesSinceLastProcessListUpdate + n } }

/-- Any other frame leaves the rows as they are. -/
theorem step_idle (hidle : s.window.refreshes = false) : s.step f = some (s.later 1) := by
  unfold step MainWindow.update
  rw [if_neg (by simp [hidle])]
  dsimp only
  rw [if_neg (by simp [hidle])]
  rfl

/-- There are 80 rows, and each has the data of the last attaches in it. -/
structure Written (names : Vector (List UInt8) sMaxPids) (s : Rows) : Prop where
  full : s.window.mProcessList.length = sMaxPids
  programId : ∀ (i : Nat) (p : Process), s.window.mProcessList[i]? = some p →
    p.programId = ((lastAttached i s.read).map fun a => a.event.programId).getD 0
  name : ∀ (i : Nat) (p : Process), s.window.mProcessList[i]? = some p →
    ((lastCreated i s.read).map fun a => a.event.name).or names.toList[i]? = some p.name

theorem written_init (names : Vector (List UInt8) sMaxPids) : Written names (init names) where
  full := by
    show (names.toList.map _).length = sMaxPids
    rw [List.length_map, Vector.length_toList]
  programId i p hp := by
    replace hp : (names.toList.map fun name => (⟨0, 0, name⟩ : Process))[i]? = some p := hp
    rw [List.getElem?_map] at hp
    obtain ⟨name, -, rfl⟩ := Option.map_eq_some_iff.mp hp
    rfl
  name i p hp := by
    replace hp : (names.toList.map fun name => (⟨0, 0, name⟩ : Process))[i]? = some p := hp
    rw [List.getElem?_map] at hp
    obtain ⟨name, hname, rfl⟩ := Option.map_eq_some_iff.mp hp
    exact hname

theorem Written.later (hs : Written names s) (n : Nat) : Written names (s.later n) :=
  ⟨hs.full, hs.programId, hs.name⟩

theorem Written.step (hs : Written names s) (h : s.step f = some s') : Written names s' := by
  cases hrefresh : s.window.refreshes with
  | false =>
    rw [step_idle hrefresh] at h
    obtain rfl := Option.some.inj h
    exact hs.later 1
  | true =>
    obtain ⟨out', hstep, hlen', hrows⟩ := step_refresh (f := f) hs.full hrefresh
    rw [hstep] at h
    obtain rfl := Option.some.inj h
    -- each row of the new list comes from the row that was there
    have hfrom : ∀ (i : Nat) (q : Process), out'[i]? = some q →
        ∃ p, s.window.mProcessList[i]? = some p ∧ f.toPmSvc.rowAt i p = q := by
      intro i q hq
      obtain ⟨hi, -⟩ := List.getElem?_eq_some_iff.mp hq
      have hp := List.getElem?_eq_getElem (l := s.window.mProcessList) (i := i)
        (by rw [hs.full, ← hlen']; exact hi)
      exact ⟨_, hp, Option.some.inj ((hrows i _ hp).symm.trans hq)⟩
    refine ⟨hlen', fun i q hq => ?_, fun i q hq => ?_⟩
    · obtain ⟨p, hp, rfl⟩ := hfrom i q hq
      show _ = ((lastAttached i (f.toPmSvc :: s.read)).map _).getD 0
      rw [programId_rowAt, hs.programId i p hp, lastAttached, lastAttached, List.findSome?_cons]
      cases f.toPmSvc.attachedAt i with
      | none => rfl
      | some a => rfl
    · obtain ⟨p, hp, rfl⟩ := hfrom i q hq
      have hname := hs.name i p hp
      show ((lastCreated i (f.toPmSvc :: s.read)).map _).or _ = _
      rw [name_rowAt, lastCreated, List.findSome?_cons]
      cases (f.toPmSvc.attachedAt i).filter fun a => a.event.isCreateProcess with
      | none => exact hname
      | some a => rfl

/-- A row is the process's own iff the last attaches in it stand for the process. -/
theorem Written.own_iff (hs : Written names s) {i : Nat} {p : Process}
    (hp : s.window.mProcessList[i]? = some p) (pid : Nat) :
    OwnProgramId s.read pid p.programId ∧ OwnName s.read pid p.name ↔
      LastAttachStands names s.read i pid := by
  -- the program id is that of the last attach that reported one
  have hprogramId : OwnProgramId s.read pid p.programId ↔
      ∀ a, lastAttached i s.read = some a → Stands DebugEvent.programId 0 s.read pid a := by
    rw [hs.programId i p hp]
    cases hlast : lastAttached i s.read with
    | none => exact iff_of_true (Or.inl rfl) (fun a ha => absurd ha.symm (Option.some_ne_none a))
    | some a =>
      have hstands : Stands DebugEvent.programId 0 s.read pid a ↔ _ :=
        stands_iff (reported_of_lastAttached hlast)
      constructor
      · intro hown b hb
        cases Option.some.inj hb
        exact hstands.mpr hown
      · exact fun h => hstands.mp (h a rfl)
  -- the name is that of the last attach that created one, or the one the row began with
  have hname := hs.name i p hp
  cases hlast : lastCreated i s.read with
  | none =>
    rw [hlast, Option.map_none, Option.none_or] at hname
    constructor
    · rintro ⟨hown, hownName⟩
      refine ⟨hprogramId.mp hown, fun a ha => ?_, fun _ name hinit => ?_⟩
      · exact absurd (hlast.symm.trans ha).symm (Option.some_ne_none a)
      · rw [hname, Option.some.injEq] at hinit
        exact hinit ▸ hownName
    · exact fun h => ⟨hprogramId.mpr h.programId, h.unnamed hlast p.name hname⟩
  | some a =>
    rw [hlast, Option.map_some, Option.some_or, Option.some.injEq] at hname
    have hstands : Stands DebugEvent.name Process.blankName s.read pid a ↔ _ :=
      stands_iff fun _ => reported_of_lastCreated hlast
    rw [hname] at hstands
    constructor
    · rintro ⟨hown, hownName⟩
      refine ⟨hprogramId.mp hown, fun b hb => ?_, fun hnone => ?_⟩
      · cases Option.some.inj (hlast.symm.trans hb)
        exact hstands.mpr hownName
      · exact absurd (hlast.symm.trans hnone) (Option.some_ne_none a)
    · exact fun h => ⟨hprogramId.mpr h.programId, hstands.mp (h.name a hlast)⟩

/-- **A frame** shows data of the processes' own iff the last attaches in the rows stand for the
    processes in them. -/
theorem ownRows_step_iff (hs : Written names s) (h : s.step f = some s') :
    OwnRows s f s' ↔ AttachesOwn names s f s' := by
  refine imp_congr_right fun hrefresh => ?_
  have hs' := hs.step h
  obtain ⟨out', hstep, -, hrows⟩ := step_refresh (f := f) hs.full hrefresh
  rw [hstep] at h
  obtain rfl := Option.some.inj h
  rw [and_iff_right rfl]
  refine forall_congr' fun i => forall_congr' fun pid => imp_congr_right fun hpid => ?_
  obtain ⟨hi, -⟩ := List.getElem?_eq_some_iff.mp hpid
  have hroom : i < s.window.mProcessList.length := by
    have hfits := f.fits
    rw [hs.full]
    omega
  have hrow := hrows i _ (List.getElem?_eq_getElem hroom)
  have hid : (f.toPmSvc.rowAt i s.window.mProcessList[i]).processId = pid := by
    rw [PmSvc.rowAt_of_live hpid, processId_row]
  rw [← hs'.own_iff hrow pid]
  constructor
  · rintro ⟨q, hq, -, hown⟩
    cases Option.some.inj (hrow.symm.trans hq)
    exact hown
  · exact fun hown => ⟨_, hrow, hid, hown⟩

end Frame

/-- **The rows of a run.**  In every run, whatever the processes and whichever can be attached to,
    the rows show data of their own processes, or none, iff at every refresh the process last
    attached to in each row is the one that is in it now and was just created, or one whose event
    has nothing else to show; and so for the last one created. -/
theorem ownRows_iff (names : Vector (List UInt8) sMaxPids) (fs : List PmFrame) :
    Along step OwnRows (init names) fs ↔ Along step (AttachesOwn names) (init names) fs := by
  refine along_iff (fun s _ => Written names s) ?_ ?_ fs (written_init names)
  · intro s f fs s' hs h
    exact ownRows_step_iff hs h
  · intro s f fs s' hs h _
    exact hs.step h

/-! ## A row that changes hands

  The smallest run in which a row is not the process's own: two refreshes, between them another
  process in row 0, which cannot be attached to. -/

/-- Frames in which the list is not read. -/
theorem run_idle (f : PmFrame) (n : Nat) : ∀ {s : Rows},
    s.window.mFramesSinceLastProcessListUpdate + n ≤ 361 →
      run step s (List.replicate n f) = some (s.later n) := by
  induction n with
  | zero => exact fun _ => rfl
  | succ n ih =>
    intro s hn
    have hidle : s.window.refreshes = false := by
      unfold MainWindow.refreshes
      exact decide_eq_false (by omega)
    have hlater : (s.later 1).later n = s.later (n + 1) := by
      unfold later
      dsimp only
      rw [Nat.add_assoc, Nat.add_comm 1 n]
    refine run_cons.mpr ⟨s.later 1, step_idle hidle, ?_⟩
    rw [← hlater]
    refine ih ?_
    unfold later
    dsimp only
    omega

end Rows

/-- One process, and what an attach to it gives. -/
def lodger (pid programId : Nat) (event : Option DebugEvent) : PmSvc where
  getProgramId i := if i = pid then some programId else none
  debugActiveProcess _ := event.map some

theorem live_lodger {pid programId : Nat} (event : Option DebugEvent)
    (hpid : pid < sMaxPidSearchRange) (hprogram : programId ≠ 0) :
    (lodger pid programId event).live = [pid] := by
  refine List.perm_singleton.mp ?_
  refine (List.perm_ext_iff_of_nodup (List.nodup_range.filter _) (List.nodup_singleton pid)).mpr ?_
  intro i
  rw [List.mem_filter, List.mem_range, List.mem_singleton, PmSvc.running, lodger]
  by_cases hi : i = pid
  · simp [hi, hpid, hprogram]
  · simp [hi]

/-- A frame in which it is the only one. -/
def PmFrame.lodged (pid programId : Nat) (event : Option DebugEvent)
    (hpid : pid < sMaxPidSearchRange) (hprogram : programId ≠ 0) : PmFrame where
  toPmSvc := lodger pid programId event
  fits := by
    rw [live_lodger event hpid hprogram]
    show 1 ≤ sMaxPids
    decide
  answers _ := by
    cases event with
    | none => exact (Option.some_ne_none _).symm
    | some d => exact fun h => Option.some_ne_none d (Option.some.inj h)

/-- The first event of a process by the name of `qlaunch`. -/
def DebugEvent.qlaunch : DebugEvent :=
  ⟨true, 0x0100000000001000, [113, 108, 97, 117, 110, 99, 104, 0, 0, 0, 0, 0]⟩

namespace Rows

/-- Process 0x81, by the name of `qlaunch`. -/
def menuRuns : PmFrame :=
  .lodged 0x81 0x0100000000001000 (some DebugEvent.qlaunch) (by decide) (by decide)

/-- Process 0x85, which is being debugged. -/
def gameDebugged : PmFrame := .lodged 0x85 0x42 none (by decide) (by decide)

theorem live_menuRuns : menuRuns.toPmSvc.live = [0x81] := live_lodger _ (by decide) (by decide)

theorem live_gameDebugged : gameDebugged.toPmSvc.live = [0x85] :=
  live_lodger _ (by decide) (by decide)

/-- A window without names. -/
def unnamed : Vector (List UInt8) sMaxPids := Vector.replicate sMaxPids Process.blankName

/-- The second refresh puts the other process into the row, and leaves the name there. -/
theorem not_ownRows_gameDebugged :
    ¬Along step OwnRows (init unnamed)
      ((menuRuns :: List.replicate 360 menuRuns) ++ [gameDebugged]) := by
  intro h
  obtain ⟨s', t, hrun, hlast, hown⟩ := h.last
  -- the first refresh
  obtain ⟨out', hstep, -, -⟩ :=
    step_refresh (f := menuRuns) (written_init unnamed).full (by decide)
  obtain ⟨s₁, hs₁, hidle⟩ := run_cons.mp hrun
  have hwritten := (written_init unnamed).step hs₁
  rw [hstep] at hs₁
  obtain rfl := Option.some.inj hs₁
  rw [run_idle menuRuns 360 (Nat.le_refl _)] at hidle
  obtain rfl := Option.some.inj hidle
  -- the second one
  rw [run_append, hrun, Option.bind_some] at hlast
  obtain ⟨t', ht', hnil⟩ := run_cons.mp hlast
  have hlive : gameDebugged.toPmSvc.live[0]? = some 0x85 := by
    rw [live_gameDebugged]
    rfl
  have hattached : lastAttached 0 [gameDebugged.toPmSvc, menuRuns.toPmSvc] =
      some ⟨0x81, DebugEvent.qlaunch⟩ := by
    rw [lastAttached, List.findSome?_cons, List.findSome?_cons, PmSvc.attachedAt, PmSvc.attachedAt,
      live_gameDebugged, live_menuRuns]
    rfl
  have hstands := (ownRows_step_iff (hwritten.later 360) ht').mp
    (Option.some.inj hnil ▸ hown) rfl 0 0x85 hlive
  rcases hstands.programId _ hattached with ⟨hpid, -⟩ | hzero | ⟨d, ⟨P, hP, hpid, hevent, -⟩, -⟩
  · exact absurd hpid (by decide)
  · exact absurd hzero (by decide)
  · -- nothing has been reported for the process
    rcases List.mem_cons.mp hP with rfl | hP
    · exact Option.some_ne_none d hevent.symm
    · rw [List.mem_singleton.mp hP, live_menuRuns] at hpid
      exact absurd hpid (by decide)

end Rows

end Nxdb
