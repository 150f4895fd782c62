/-
  `~DebuggingSession` against the session's event thread.

  The two run interleaved: the destructor unmaps, closes `mDebugHandle` and `mProcessHandle`, sets
  `mKillThread` and joins; the thread reads `mKillThread`, waits on `mDebugHandle`, takes the events
  off, and continues the process on four cores.  A step is a kernel call, or a read or write of
  `mKillThread`, with all that follows up to the next one.

  Whether the thread still uses the handle when it is closed is a matter of timing.  The destructor
  is in time when it closes the handle while the thread is about to read `mKillThread`, and sets
  `mKillThread` before the thread reads it.  In runs in which it is in time, the thread never passes
  a closed handle on, and a thread that has come to its end without doing so has been stopped in
  time: `safe_iff`.

  1. Program: `stepThread` and `stepDestructor`, one kernel call or one access to `mKillThread` a
     step; a `Move` says who goes next and what the kernel returns.
  2. Property: `Safe`, of a step; condition: `InTime`, of a step.
  3. Two invariants meet.  In time, `Stopped` holds: when the handle is closed the thread is about
     to read `mKillThread`, or at its end, from where no step is unsafe.  Out of time, the thread is
     `Doomed`: it cannot come to its end without passing the closed handle on.
  4. `Lib.Along` takes both from steps to runs.
-/
import Nxdb.Lib.Run

namespace Nxdb.DebuggingSession

open Lib

/-! ## The code

  One kernel call, or one access to `mKillThread`, to a step; what is between two of them cannot be
  told apart by the other side.  Results of the kernel are arbitrary, whether the handle is open or
  not. -/

/-- Where `debugEventHandlerThreadFunc` is: about to read `mKillThread`, to call
    `svcWaitSynchronization`, to call `svcGetDebugEvent` in `handleDebugEvents`, to call
    `svcSetThreadCoreMask`, `svcContinueDebugEvent` and, in the inner loop, `svcGetDebugEvent` in
    `tryContinueImpl`; at its end; or the program has been aborted. -/
inductive ThreadPc where
  | readKillThread
  | waitSynchronization
  | getDebugEvent
  | setThreadCoreMask (core : Nat)
  | continueDebugEvent (core : Nat)
  | drain (core : Nat)
  | exited
  | aborted
deriving DecidableEq

/-- Where `~DebuggingSession` is: about to make a kernel call of `delete mMapMgr`, or to leave it; to
    close `mDebugHandle`; to close `mProcessHandle`; to set `mKillThread`; to join; at its end. -/
inductive DestructorPc where
  | deleteMapMgr
  | closeDebugHandle
  | closeProcessHandle
  | setKillThread
  | join
  | done
deriving DecidableEq

/-- The session, whether the kernel still has its handle, and where the two threads are. -/
structure State where
  mDebugHandle : Nat
  handleOpen : Bool
  mKillThread : Bool
  mShouldContinue : Bool
  thread : ThreadPc
  destructor : DestructorPc
deriving DecidableEq

/-- When the destructor begins: the thread has been started with the first debug event pending. -/
def State.init (mDebugHandle : Nat) : State where
  mDebugHandle := mDebugHandle
  handleOpen := true
  mKillThread := false
  mShouldContinue := true
  thread := .readKillThread
  destructor := .deleteMapMgr

/-- Who takes a step: the thread, with what the kernel returns to its call; or the destructor, which
    in `delete mMapMgr` may make `more` calls.

    Behind the wait stands `R_ABORT_UNLESS(rc)`, which expands to a block that declares an `rc` of its
    own and initialises it with itself.  So what is tested there is not the result of the wait but
    `ownRc`, which has no value to begin with and may be anything. -/
inductive Move where
  | thread (rc ownRc : Nat)
  | destructor (more : Bool)
deriving DecidableEq

namespace State

/-- The end of the thread's loop body: `tryContinueImpl` has returned. -/
def continued (s : State) : State :=
  { s with mShouldContinue := false, thread := .readKillThread }

/-- A step of `debugEventHandlerThreadFunc`. -/
def stepThread (s : State) (rc ownRc : Nat) : Option State :=
  match s.thread with
  | .readKillThread =>
    some { s with thread := if s.mKillThread then .exited else .waitSynchronization }
  | .waitSynchronization =>
    if rc = 0xea01 then some { s with thread := .readKillThread }
    else if ownRc ≠ 0 then some { s with thread := .aborted }
    else if rc = 0 then some { s with thread := .getDebugEvent }
    -- the wait has failed, and nothing has noticed: `handleDebugEvents` alone is left out
    else if s.mShouldContinue then some { s with thread := .setThreadCoreMask 0 }
    else some { s with thread := .readKillThread }
  | .getDebugEvent =>
    if rc = 0 then some { s with mShouldContinue := true, thread := .getDebugEvent }
    else if s.mShouldContinue then some { s with thread := .setThreadCoreMask 0 }
    else some { s with thread := .readKillThread }
  | .setThreadCoreMask core =>
    if rc ≠ 0 then some { s with thread := .aborted }
    else some { s with thread := .continueDebugEvent core }
  | .continueDebugEvent core =>
    if rc = 0xf401 then some { s with thread := .drain core }
    else if rc ≠ 0 then some s.continued
    else if core + 1 < 4 then some { s with thread := .setThreadCoreMask (core + 1) }
    else some s.continued
  | .drain core =>
    if rc ≠ 0 then some { s with thread := .aborted }
    else some { s with thread := .continueDebugEvent core }
  | .exited => none
  | .aborted => none

/-- A step of `~DebuggingSession`. -/
def stepDestructor (s : State) (more : Bool) : Option State :=
  match s.destructor with
  | .deleteMapMgr =>
    some { s with destructor := if more then .deleteMapMgr else .closeDebugHandle }
  | .closeDebugHandle =>
    some { s with
      handleOpen := if s.mDebugHandle ≠ 0 then false else s.handleOpen
      destructor := .closeProcessHandle }
  | .closeProcessHandle => some { s with destructor := .setKillThread }
  | .setKillThread => some { s with mKillThread := true, destructor := .join }
  | .join => if s.thread = .exited then some { s with destructor := .done } else none
  | .done => none

/-- A step of either; none is possible when the program has been aborted. -/
def step (s : State) (m : Move) : Option State :=
  if s.thread = .aborted then none
  else
    match m with
    | .thread rc ownRc => s.stepThread rc ownRc
    | .destructor more => s.stepDestructor more

/-! ## What should hold, and when it does -/

end State

/-- The thread is about to pass `mDebugHandle` to the kernel. -/
def ThreadPc.usesHandle : ThreadPc → Bool
  | .waitSynchronization => true
  | .getDebugEvent => true
  | .continueDebugEvent _ => true
  | .drain _ => true
  | _ => false

namespace State

/-- The thread does not pass a handle on that is closed. -/
def Safe (s : State) (m : Move) (_ : State) : Prop :=
  ∀ rc ownRc, m = .thread rc ownRc → s.thread.usesHandle = true → s.handleOpen = true

/-- The handle is closed, and `mKillThread` is not set yet. -/
def Between (s : State) : Prop := s.handleOpen = false ∧ s.mKillThread = false

/-- The destructor is in time: it closes the handle only while the thread is about to read
    `mKillThread`, and between that and the setting of `mKillThread` the thread does not step. -/
def InTime (s : State) (m : Move) (_ : State) : Prop :=
  (∀ more, m = .destructor more → s.destructor = .closeDebugHandle → s.mDebugHandle ≠ 0 →
    s.thread = .readKillThread) ∧
  ∀ rc ownRc, m = .thread rc ownRc → ¬s.Between

/-! ## What a step does

  `ThreadStep` lists the steps of the thread, and the `frame` lemmas say what each side leaves
  alone.  The proofs below use these, and never the definitions. -/

/-- A step of the thread, by where it is and what the kernel returns. -/
inductive ThreadStep (s : State) (rc : Nat) : State → Prop
  | stops (hpc : s.thread = .readKillThread) (hkill : s.mKillThread = true) :
      ThreadStep s rc { s with thread := .exited }
  | waits (hpc : s.thread = .readKillThread) (hkill : s.mKillThread = false) :
      ThreadStep s rc { s with thread := .waitSynchronization }
  | timesOut (hpc : s.thread = .waitSynchronization) :
      ThreadStep s rc { s with thread := .readKillThread }
  | waitAborts (hpc : s.thread = .waitSynchronization) : ThreadStep s rc { s with thread := .aborted }
  | wakes (hpc : s.thread = .waitSynchronization) (hrc : rc = 0) :
      ThreadStep s rc { s with thread := .getDebugEvent }
  | failsAndBegins (hpc : s.thread = .waitSynchronization) (hrc : rc ≠ 0)
      (hcontinue : s.mShouldContinue = true) :
      ThreadStep s rc { s with thread := .setThreadCoreMask 0 }
  | failsAndIdles (hpc : s.thread = .waitSynchronization) (hrc : rc ≠ 0)
      (hcontinue : s.mShouldContinue = false) : ThreadStep s rc { s with thread := .readKillThread }
  | handles (hpc : s.thread = .getDebugEvent) (hrc : rc = 0) :
      ThreadStep s rc { s with mShouldContinue := true, thread := .getDebugEvent }
  | begins (hpc : s.thread = .getDebugEvent) (hrc : rc ≠ 0) (hcontinue : s.mShouldContinue = true) :
      ThreadStep s rc { s with thread := .setThreadCoreMask 0 }
  | idles (hpc : s.thread = .getDebugEvent) (hrc : rc ≠ 0) (hcontinue : s.mShouldContinue = false) :
      ThreadStep s rc { s with thread := .readKillThread }
  | maskFails (core : Nat) (hpc : s.thread = .setThreadCoreMask core) :
      ThreadStep s rc { s with thread := .aborted }
  | masks (core : Nat) (hpc : s.thread = .setThreadCoreMask core) :
      ThreadStep s rc { s with thread := .continueDebugEvent core }
  | busy (core : Nat) (hpc : s.thread = .continueDebugEvent core) (hrc : rc = 0xf401) :
      ThreadStep s rc { s with thread := .drain core }
  | fails (core : Nat) (hpc : s.thread = .continueDebugEvent core) (hbusy : rc ≠ 0xf401)
      (hrc : rc ≠ 0) : ThreadStep s rc s.continued
  | nextCore (core : Nat) (hpc : s.thread = .continueDebugEvent core) (hrc : rc = 0)
      (hcore : core + 1 < 4) : ThreadStep s rc { s with thread := .setThreadCoreMask (core + 1) }
  | lastCore (core : Nat) (hpc : s.thread = .continueDebugEvent core) (hrc : rc = 0)
      (hcore : 4 ≤ core + 1) : ThreadStep s rc s.continued
  | drainFails (core : Nat) (hpc : s.thread = .drain core) (hrc : rc ≠ 0) :
      ThreadStep s rc { s with thread := .aborted }
  | swallows (core : Nat) (hpc : s.thread = .drain core) (hrc : rc = 0) :
      ThreadStep s rc { s with thread := .continueDebugEvent core }

/-- **A step of the thread** is one of these. -/
theorem stepThread_cases {s s' : State} {rc ownRc : Nat} (h : s.stepThread rc ownRc = some s') :
    ThreadStep s rc s' := by
  rw [stepThread] at h
  -- one case for each place, and in it the branches of the source
  cases hpc : s.thread with
  | readKillThread =>
    simp only [hpc] at h
    obtain rfl := Option.some.inj h
    by_cases hkill : s.mKillThread = true
    · rw [if_pos hkill]
      exact .stops hpc hkill
    · rw [if_neg hkill]
      exact .waits hpc (Bool.eq_false_iff.mpr hkill)
  | waitSynchronization =>
    simp only [hpc] at h
    split at h
    · exact Option.some.inj h ▸ .timesOut hpc
    · split at h
      · exact Option.some.inj h ▸ .waitAborts hpc
      · split at h
        -- the test is on the macro's own `rc`; if that does not abort, the thread goes on
        next hrc => exact Option.some.inj h ▸ .wakes hpc hrc
        next hrc =>
          split at h
          next hcontinue => exact Option.some.inj h ▸ .failsAndBegins hpc hrc hcontinue
          next hcontinue =>
            exact Option.some.inj h ▸ .failsAndIdles hpc hrc (Bool.eq_false_iff.mpr hcontinue)
  | getDebugEvent =>
    simp only [hpc] at h
    split at h
    next hrc => exact Option.some.inj h ▸ .handles hpc hrc
    next hrc =>
      split at h
      next hcontinue => exact Option.some.inj h ▸ .begins hpc hrc hcontinue
      next hcontinue => exact Option.some.inj h ▸ .idles hpc hrc (Bool.eq_false_iff.mpr hcontinue)
  | setThreadCoreMask core =>
    simp only [hpc] at h
    split at h
    · exact Option.some.inj h ▸ .maskFails core hpc
    · exact Option.some.inj h ▸ .masks core hpc
  | continueDebugEvent core =>
    simp only [hpc] at h
    split at h
    next hrc => exact Option.some.inj h ▸ .busy core hpc hrc
    next hbusy =>
      split at h
      next hrc => exact Option.some.inj h ▸ .fails core hpc hbusy hrc
      next hrc =>
        -- neither busy nor failed
        have hzero : rc = 0 := by omega
        split at h
        next hcore => exact Option.some.inj h ▸ .nextCore core hpc hzero hcore
        next hcore => exact Option.some.inj h ▸ .lastCore core hpc hzero (by omega)
  | drain core =>
    simp only [hpc] at h
    split at h
    next hrc => exact Option.some.inj h ▸ .drainFails core hpc hrc
    next hrc => exact Option.some.inj h ▸ .swallows core hpc (by omega)
  | exited =>
    simp only [hpc] at h
    exact absurd h (by simp)
  | aborted =>
    simp only [hpc] at h
    exact absurd h (by simp)

/-- The thread changes nothing but where it is and `mShouldContinue`, and it ends only when
    `mKillThread` is set. -/
theorem stepThread_frame {s s' : State} {rc ownRc : Nat} (h : s.stepThread rc ownRc = some s') :
    s' = { s with mShouldContinue := s'.mShouldContinue, thread := s'.thread } ∧
      (s'.thread = .exited → s.mKillThread = true) := by
  cases stepThread_cases h with
  | stops _ hkill => exact ⟨rfl, fun _ => hkill⟩
  | _ => exact ⟨rfl, fun hexited => ThreadPc.noConfusion hexited⟩

/-- Where the thread comes from a place at which it does not use the handle: out of the loop or to
    the wait, depending on `mKillThread`; or, when it has chosen the core, to a use of the handle. -/
theorem stepThread_unused {s s' : State} {rc ownRc : Nat}
    (h : s.stepThread rc ownRc = some s') (hunused : s.thread.usesHandle = false) :
    (s.thread = .readKillThread ∧
      s'.thread = if s.mKillThread then .exited else .waitSynchronization) ∨
    (s.thread ≠ .readKillThread ∧ s'.thread ≠ .readKillThread ∧ s'.thread ≠ .exited) := by
  cases stepThread_cases h with
  | stops hpc hkill => exact Or.inl ⟨hpc, (if_pos hkill).symm⟩
  | waits hpc hkill => exact Or.inl ⟨hpc, (if_neg (by rw [hkill]; exact Bool.false_ne_true)).symm⟩
  | maskFails core hpc => exact Or.inr ⟨by simp [hpc], ThreadPc.noConfusion, ThreadPc.noConfusion⟩
  | masks core hpc => exact Or.inr ⟨by simp [hpc], ThreadPc.noConfusion, ThreadPc.noConfusion⟩
  | _ => simp_all [ThreadPc.usesHandle]

/-- The destructor leaves the thread where it is; it closes the handle in one step, sets
    `mKillThread` in another one, and joins a thread that has come to its end. -/
theorem stepDestructor_frame {s s' : State} {more : Bool} (h : s.stepDestructor more = some s') :
    s'.mDebugHandle = s.mDebugHandle ∧ s'.thread = s.thread ∧
      s'.handleOpen = (if s.destructor = .closeDebugHandle ∧ s.mDebugHandle ≠ 0 then false
        else s.handleOpen) ∧
      s'.mKillThread = (if s.destructor = .setKillThread then true else s.mKillThread) ∧
      s.destructor ≠ .done ∧ (s'.destructor = .join ∨ s'.destructor = .done ↔
        s.destructor = .setKillThread ∨ s.destructor = .join) := by
  rw [stepDestructor] at h
  cases hpc : s.destructor with
  | deleteMapMgr =>
    simp only [hpc] at h
    rw [← Option.some.inj h]
    cases more with
    | true => simp
    | false => simp
  | closeDebugHandle =>
    simp only [hpc] at h
    rw [← Option.some.inj h]
    simp
  | closeProcessHandle =>
    simp only [hpc] at h
    rw [← Option.some.inj h]
    simp
  | setKillThread =>
    simp only [hpc] at h
    rw [← Option.some.inj h]
    simp
  | join =>
    simp only [hpc] at h
    split at h
    · rw [← Option.some.inj h]
      simp
    · exact absurd h (by simp)
  | done => simp [hpc] at h

/-- A step is the thread's or the destructor's, and the program has not been aborted. -/
theorem step_eq_some {s s' : State} {m : Move} (h : s.step m = some s') :
    s.thread ≠ .aborted ∧ ((∃ rc ownRc, m = .thread rc ownRc ∧ s.stepThread rc ownRc = some s') ∨
      ∃ more, m = .destructor more ∧ s.stepDestructor more = some s') := by
  rw [step.eq_def] at h
  split at h
  · exact absurd h (by simp)
  next hrunning =>
    cases m with
    | thread rc ownRc => exact ⟨hrunning, Or.inl ⟨rc, ownRc, rfl, h⟩⟩
    | destructor more => exact ⟨hrunning, Or.inr ⟨more, rfl, h⟩⟩

/-! ## In time is safe

  In time means that the thread is about to read `mKillThread` when the handle is closed, and does
  not read it before it is set.  So it goes from there to its end, and uses no handle on the way. -/

/-- When the handle is closed, the thread is about to read `mKillThread`, or at its end. -/
def Stopped (s : State) : Prop :=
  s.handleOpen = false → s.thread = .readKillThread ∨ s.thread = .exited

/-- From there no step passes the closed handle on. -/
theorem Stopped.safe {s : State} (hs : s.Stopped) (m : Move) (s' : State) : Safe s m s' := by
  intro rc ownRc _ huses
  rw [← Bool.not_eq_false]
  intro hclosed
  rcases hs hclosed with hpc | hpc
  · simp [hpc, ThreadPc.usesHandle] at huses
  · simp [hpc, ThreadPc.usesHandle] at huses

/-- **A step in time** leaves the thread stopped. -/
theorem Stopped.step {s s' : State} {m : Move} (hs : s.Stopped) (h : s.step m = some s')
    (htime : InTime s m s') : s'.Stopped := by
  intro hclosed'
  obtain ⟨hrunning, ⟨rc, ownRc, rfl, hthread⟩ | ⟨more, rfl, hdestructor⟩⟩ := step_eq_some h
  · have hclosed : s.handleOpen = false := by
      rwa [(stepThread_frame hthread).1] at hclosed'
    have hkill : s.mKillThread = true := by
      rw [← Bool.not_eq_false]
      exact fun hno => htime.2 rc ownRc rfl ⟨hclosed, hno⟩
    rcases hs hclosed with hpc | hpc
    · rcases stepThread_unused hthread (by rw [hpc]; rfl) with ⟨-, hnext⟩ | ⟨hne, -⟩
      · rw [hkill, if_pos rfl] at hnext
        exact Or.inr hnext
      · exact absurd hpc hne
    · rw [stepThread, hpc] at hthread
      exact absurd hthread (by simp)
  · obtain ⟨-, hsame, hopen, -⟩ := stepDestructor_frame hdestructor
    rw [hsame]
    rw [hopen] at hclosed'
    split at hclosed'
    next hcloses => exact Or.inl (htime.1 more rfl hcloses.1 hcloses.2)
    · exact hs hclosed'

/-- A run that is in time is safe. -/
theorem safe_of_inTime (ms : List Move) {s : State} (hs : s.Stopped)
    (h : Along step InTime s ms) : Along step Safe s ms := by
  refine Along.weaken Stopped ?_ ms hs h
  intro s m s' hs h htime
  exact ⟨hs.safe m s', hs.step h htime⟩

/-! ## Out of time is not

  Somewhere in its loop the thread cannot get out of it but through one of the calls that take the
  handle, so it passes the closed handle on, or the run ends before it does.  The first step out of
  time leads there. -/

/-- The handle is closed, and the thread is somewhere in its loop. -/
def Doomed (s : State) : Prop :=
  s.handleOpen = false ∧ s.thread ≠ .readKillThread ∧ s.thread ≠ .exited

/-- A thread that is in its loop when the handle is closed does not get out of it without passing
    the handle on. -/
theorem Doomed.step {s s' : State} {m : Move} (hs : s.Doomed) (h : s.step m = some s')
    (hsafe : Safe s m s') : s'.Doomed := by
  obtain ⟨hclosed, hread, hexited⟩ := hs
  obtain ⟨hrunning, ⟨rc, ownRc, rfl, hthread⟩ | ⟨more, rfl, hdestructor⟩⟩ := step_eq_some h
  · have hunused : s.thread.usesHandle = false := by
      rw [← Bool.not_eq_true]
      intro huses
      rw [hsafe rc ownRc rfl huses] at hclosed
      exact absurd hclosed (by simp)
    rcases stepThread_unused hthread hunused with ⟨hpc, -⟩ | ⟨-, hread', hexited'⟩
    · exact absurd hpc hread
    · refine ⟨?_, hread', hexited'⟩
      rw [(stepThread_frame hthread).1]
      exact hclosed
  · obtain ⟨-, hsame, hopen, -⟩ := stepDestructor_frame hdestructor
    refine ⟨?_, hsame ▸ hread, hsame ▸ hexited⟩
    rw [hopen, hclosed]
    exact ite_self _

/-- `mKillThread` is set when the destructor has set it, and the thread ends only then. -/
structure Ordered (s : State) : Prop where
  kill : s.mKillThread = true ↔ s.destructor = .join ∨ s.destructor = .done
  exited : s.thread = .exited → s.mKillThread = true

/-- The destructor goes through its statements in their order. -/
theorem Ordered.step {s s' : State} {m : Move} (hs : s.Ordered) (h : s.step m = some s') :
    s'.Ordered := by
  obtain ⟨-, ⟨rc, ownRc, -, hthread⟩ | ⟨more, -, hdestructor⟩⟩ := step_eq_some h
  · obtain ⟨hframe, hexited⟩ := stepThread_frame hthread
    constructor
    · rw [hframe]
      exact hs.kill
    · rw [hframe]
      exact hexited
  · obtain ⟨-, hsame, -, hkill, hdone, hpc⟩ := stepDestructor_frame hdestructor
    constructor
    · rw [hkill, hpc]
      split
      next hset => exact ⟨fun _ => Or.inl hset, fun _ => rfl⟩
      next hset => rw [hs.kill, or_iff_right hset, or_iff_left hdone]
    · rw [hsame, hkill]
      intro hexited
      split
      · rfl
      · exact hs.exited hexited

/-- **A step out of time** leaves a thread that is doomed, unless it is not safe itself. -/
theorem Ordered.doomed {s s' : State} {m : Move} (hs : s.Ordered) (h : s.step m = some s')
    (hsafe : Safe s m s') (hlate : ¬InTime s m s') : s'.Doomed := by
  obtain ⟨hrunning, ⟨rc, ownRc, rfl, hthread⟩ | ⟨more, rfl, hdestructor⟩⟩ := step_eq_some h
  · -- the thread steps between the closing of the handle and the setting of `mKillThread`
    have hbetween : s.Between := by
      by_contra hno
      exact hlate ⟨fun _ heq => absurd heq (by simp), fun _ _ _ => hno⟩
    by_cases hread : s.thread = .readKillThread
    · rcases stepThread_unused hthread (by rw [hread]; rfl) with ⟨-, hnext⟩ | ⟨hne, -⟩
      · rw [hbetween.2, if_neg Bool.false_ne_true] at hnext
        refine ⟨?_, by rw [hnext]; simp, by rw [hnext]; simp⟩
        rw [(stepThread_frame hthread).1]
        exact hbetween.1
      · exact absurd hread hne
    · have hexited : s.thread ≠ .exited := by
        intro hpc
        rw [stepThread, hpc] at hthread
        exact absurd hthread (by simp)
      exact Doomed.step ⟨hbetween.1, hread, hexited⟩ h hsafe
  · -- the destructor closes the handle while the thread is in its loop
    have hcloses : s.destructor = .closeDebugHandle ∧ s.mDebugHandle ≠ 0 ∧
        s.thread ≠ .readKillThread := by
      by_contra hno
      refine hlate ⟨fun _ _ hpc hhandle => ?_, fun _ _ heq => absurd heq (by simp)⟩
      by_contra hread
      exact hno ⟨hpc, hhandle, hread⟩
    obtain ⟨hpc, hhandle, hread⟩ := hcloses
    obtain ⟨-, hsame, hopen, -⟩ := stepDestructor_frame hdestructor
    have hexited : s.thread ≠ .exited := by
      intro hend
      have hkill := hs.kill.mp (hs.exited hend)
      rw [hpc] at hkill
      exact absurd hkill (by simp)
    refine ⟨?_, hsame ▸ hread, hsame ▸ hexited⟩
    rw [hopen, if_pos ⟨hpc, hhandle⟩]

/-- In a safe run at whose end the thread has come to its own, the destructor has been in time. -/
theorem inTime_of_safe (ms : List Move) {s t : State} (hs : s.Ordered) (h : Along step Safe s ms)
    (hrun : run step s ms = some t) (hexited : t.thread = .exited) : Along step InTime s ms := by
  refine Along.of_not_doomed Ordered Doomed ?_ ?_ ?_ ms hs h hrun fun hdoomed => hdoomed.2.2 hexited
  · intro s m s' hs h _
    exact hs.step h
  · intro s m s' hs h hsafe hlate
    exact hs.doomed h hsafe hlate
  · intro s m s' hs h hsafe
    exact hs.step h hsafe

theorem stopped_init (mDebugHandle : Nat) : (init mDebugHandle).Stopped :=
  fun h => absurd h (by simp [init])

theorem ordered_init (mDebugHandle : Nat) : (init mDebugHandle).Ordered where
  kill := by simp [init]
  exited := by simp [init]

/-- **Every interleaving.**  If the destructor is in time, the thread never passes a closed handle
    on; and in every interleaving in which it does not, and comes to its end, the destructor has been
    in time. -/
theorem safe_iff (mDebugHandle : Nat) (ms : List Move) :
    (Along step InTime (init mDebugHandle) ms → Along step Safe (init mDebugHandle) ms) ∧
      ∀ t, run step (init mDebugHandle) ms = some t → t.thread = .exited →
        (Along step Safe (init mDebugHandle) ms ↔ Along step InTime (init mDebugHandle) ms) := by
  have hto := safe_of_inTime ms (stopped_init mDebugHandle)
  refine ⟨hto, fun t hrun hexited => ⟨fun h => ?_, hto⟩⟩
  exact inTime_of_safe ms (ordered_init mDebugHandle) h hrun hexited

/-- The destructor closes the handle when the thread is about to wait. -/
def closedAtWait : List Move :=
  [.thread 0 0, .destructor false, .destructor false, .thread 0xe401 0]

/-- The thread passes the closed handle to `svcWaitSynchronization`; where the macro's own `rc` is
    zero it goes on, to `tryContinueImpl`. -/
theorem not_safe_closedAtWait :
    (run step (init 7) closedAtWait).map State.thread = some (.setThreadCoreMask 0) ∧
      ¬Along step Safe (init 7) closedAtWait := by
  refine ⟨by decide, ?_⟩
  rintro ⟨s₁, h₁, -, s₂, h₂, -, s₃, h₃, -, s₄, h₄, hsafe, -⟩
  obtain rfl := Option.some.inj h₁
  obtain rfl := Option.some.inj h₂
  obtain rfl := Option.some.inj h₃
  exact absurd (hsafe 0xe401 0 rfl rfl) (by decide)

end State

end Nxdb.DebuggingSession
