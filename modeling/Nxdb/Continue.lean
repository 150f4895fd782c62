/-
  The event thread against the queue of debug events.

  The thread's steps are those of `State.stepThread`; here the kernel's replies are no longer
  arbitrary: `svcContinueDebugEvent` is busy exactly while events are queued, and `svcGetDebugEvent`
  succeeds exactly then.  Events arrive between any two steps.  Beside the state stand two books:
  whether the thread has taken an event off, and on which cores `svcContinueDebugEvent` has succeeded
  since the last one.

  `tryContinueImpl` never aborts, since nothing but the thread takes events off.  But it does not begin
  anew: an event that it swallows on a later core leaves the earlier ones without a continue behind it.
  And its result is not looked at: `mShouldContinue` is reset when it fails as well.
  `notForgotten_iff`: in a run that ends at `svcWaitSynchronization`, the process is never left stopped
  if and only if neither happens.

  1. Program: `State.stepThread` again, with `Returns` for what the kernel may reply while so many
     events are queued.
  2. Property: `NotForgotten`, that is `DrainsOn` (`tryContinueImpl` does not abort) and, where the
     thread comes to the wait with `mShouldContinue` reset, `Settled` (all four cores have been
     continued since the last event was taken off).
  3. The first holds in all runs, by the invariant `Queued`.
  4. For the second, `Steady` follows the loop over the cores: it has succeeded on those it has been
     on.  A disturbed step leaves the thread `Doomed`: a core is `Missed`, and nothing makes up for
     it before the next `svcWaitSynchronization`.
-/
import Nxdb.Teardown

namespace Nxdb.DebuggingSession

open Lib

/-! ## The code, and the kernel behind it

  `Returns` is the kernel: which of its results are possible with so many events in the queue.  The
  results themselves stay the environment's choice, as in `State.stepThread`. -/

/-- The session and the number of events that are queued; whether the thread has taken one off, and
    the cores on which `svcContinueDebugEvent` has succeeded since the last one. -/
structure Debuggee where
  session : State
  queued : Nat
  dequeued : Bool
  continuedOn : List Nat
deriving DecidableEq

/-- An event arrives, the destructor sets `mKillThread`, or the thread steps. -/
inductive DebuggeeMove where
  | arrive
  | kill
  | thread (rc ownRc : Nat)
deriving DecidableEq

namespace Debuggee

/-- The thread is at the head of its loop, and nothing is queued. -/
def init (mDebugHandle : Nat) : Debuggee := ⟨State.init mDebugHandle, 0, false, []⟩

/-- Whether the kernel can return `rc` to the call that the thread is about to make. -/
def Returns (s : Debuggee) (rc : Nat) : Prop :=
  match s.session.thread with
  | .getDebugEvent => rc = 0 ↔ s.queued ≠ 0
  | .drain _ => rc = 0 ↔ s.queued ≠ 0
  | .continueDebugEvent _ => rc = 0xf401 ↔ s.queued ≠ 0
  | _ => True

instance (s : Debuggee) (rc : Nat) : Decidable (s.Returns rc) := by
  unfold Returns
  split
  · infer_instance
  · infer_instance
  · infer_instance
  · infer_instance

/-- An event is taken off. -/
def take (s : Debuggee) (session : State) : Debuggee := ⟨session, s.queued - 1, true, []⟩

/-- The queue and the books behind a call that has returned `rc`. -/
def account (s : Debuggee) (rc : Nat) (session : State) : Debuggee :=
  match s.session.thread with
  | .getDebugEvent => if rc = 0 then s.take session else { s with session }
  | .drain _ => if rc = 0 then s.take session else { s with session }
  | .continueDebugEvent core =>
    if rc = 0 then { s with session, continuedOn := core :: s.continuedOn } else { s with session }
  | _ => { s with session }

/-- One step of the thread, of the kernel or of the destructor. -/
def step (s : Debuggee) : DebuggeeMove → Option Debuggee
  | .arrive => some { s with queued := s.queued + 1 }
  | .kill => some { s with session := { s.session with mKillThread := true } }
  | .thread rc ownRc =>
    if s.Returns rc then (s.session.stepThread rc ownRc).map (s.account rc) else none

/-! ## What should hold, and when it does -/

end Debuggee

/-- The thread is about to call `svcGetDebugEvent` in `tryContinueImpl`. -/
def ThreadPc.drains : ThreadPc → Bool
  | .drain _ => true
  | _ => false

namespace Debuggee

/-- The last event that was taken off has been followed by a successful `svcContinueDebugEvent` on
    every core. -/
def Settled (s : Debuggee) : Prop := s.dequeued = true → ∀ core < 4, core ∈ s.continuedOn

instance (s : Debuggee) : Decidable s.Settled := inferInstanceAs (Decidable (_ → _))

/-- `tryContinueImpl` does not abort on `svcGetDebugEvent`. -/
def DrainsOn (s : Debuggee) (_ : DebuggeeMove) (s' : Debuggee) : Prop :=
  s.session.thread.drains = true → s'.session.thread ≠ .aborted

/-- And the thread does not come back to `svcWaitSynchronization` with `mShouldContinue` reset and the
    process stopped. -/
def NotForgotten (s : Debuggee) (m : DebuggeeMove) (s' : Debuggee) : Prop :=
  DrainsOn s m s' ∧
    (s'.session.thread = .waitSynchronization → s'.session.mShouldContinue = false → s'.Settled)

instance (s : Debuggee) (m : DebuggeeMove) (s' : Debuggee) : Decidable (DrainsOn s m s') :=
  inferInstanceAs (Decidable (_ → _))

instance (s : Debuggee) (m : DebuggeeMove) (s' : Debuggee) : Decidable (NotForgotten s m s') :=
  inferInstanceAs (Decidable (_ ∧ _))

/-- The thread continues the process undisturbed: no event is queued when it comes to a core other
    than the first, and with no event queued `svcContinueDebugEvent` succeeds, unless no event has been
    taken off yet. -/
def Undisturbed (s : Debuggee) (m : DebuggeeMove) (_ : Debuggee) : Prop :=
  ∀ core rc ownRc, s.session.thread = .continueDebugEvent core → m = .thread rc ownRc →
    (s.queued ≠ 0 → core = 0) ∧ (s.queued = 0 → s.dequeued = true → rc = 0)

/-! ## What a step does

  `ThreadStep` lists the steps of the thread, by the place it is at and the result of its call.
  Every proof below goes through this list, and none looks into `step` again. -/

/-- The thread goes on to another place. -/
def goes (s : Debuggee) (thread : ThreadPc) : Debuggee :=
  { s with session := { s.session with thread } }

/-- A step of the thread, by where it is and what the kernel returns. -/
inductive ThreadStep (s : Debuggee) (rc : Nat) : Debuggee → Prop
  | stops (hpc : s.session.thread = .readKillThread) (hkill : s.session.mKillThread = true) :
      ThreadStep s rc (s.goes .exited)
  | waits (hpc : s.session.thread = .readKillThread) (hkill : s.session.mKillThread = false) :
      ThreadStep s rc (s.goes .waitSynchronization)
  | timesOut (hpc : s.session.thread = .waitSynchronization) :
      ThreadStep s rc (s.goes .readKillThread)
  | waitAborts (hpc : s.session.thread = .waitSynchronization) : ThreadStep s rc (s.goes .aborted)
  | failsAndBegins (hpc : s.session.thread = .waitSynchronization)
      (hcontinue : s.session.mShouldContinue = true) : ThreadStep s rc (s.goes (.setThreadCoreMask 0))
  | failsAndIdles (hpc : s.session.thread = .waitSynchronization)
      (hcontinue : s.session.mShouldContinue = false) : ThreadStep s rc (s.goes .readKillThread)
  | wakes (hpc : s.session.thread = .waitSynchronization) : ThreadStep s rc (s.goes .getDebugEvent)
  | handles (hpc : s.session.thread = .getDebugEvent) (hrc : rc = 0) (hqueued : s.queued ≠ 0) :
      ThreadStep s rc (s.take { s.session with mShouldContinue := true, thread := .getDebugEvent })
  | begins (hpc : s.session.thread = .getDebugEvent) (hcontinue : s.session.mShouldContinue = true) :
      ThreadStep s rc (s.goes (.setThreadCoreMask 0))
  | idles (hpc : s.session.thread = .getDebugEvent) (hcontinue : s.session.mShouldContinue = false) :
      ThreadStep s rc (s.goes .readKillThread)
  | maskFails (core : Nat) (hpc : s.session.thread = .setThreadCoreMask core) :
      ThreadStep s rc (s.goes .aborted)
  | masks (core : Nat) (hpc : s.session.thread = .setThreadCoreMask core) :
      ThreadStep s rc (s.goes (.continueDebugEvent core))
  | busy (core : Nat) (hpc : s.session.thread = .continueDebugEvent core) (hqueued : s.queued ≠ 0) :
      ThreadStep s rc (s.goes (.drain core))
  | fails (core : Nat) (hpc : s.session.thread = .continueDebugEvent core) (hqueued : s.queued = 0)
      (hrc : rc ≠ 0) : ThreadStep s rc { s with session := s.session.continued }
  | nextCore (core : Nat) (hpc : s.session.thread = .continueDebugEvent core) (hqueued : s.queued = 0)
      (hrc : rc = 0) (hcore : core + 1 < 4) :
      ThreadStep s rc { s.goes (.setThreadCoreMask (core + 1)) with
        continuedOn := core :: s.continuedOn }
  | lastCore (core : Nat) (hpc : s.session.thread = .continueDebugEvent core) (hqueued : s.queued = 0)
      (hrc : rc = 0) (hcore : 4 ≤ core + 1) :
      ThreadStep s rc { s with session := s.session.continued, continuedOn := core :: s.continuedOn }
  | swallows (core : Nat) (hpc : s.session.thread = .drain core) (hrc : rc = 0)
      (hqueued : s.queued ≠ 0) :
      ThreadStep s rc (s.take { s.session with thread := .continueDebugEvent core })
  | drainFails (core : Nat) (hpc : s.session.thread = .drain core) (hqueued : s.queued = 0) :
      ThreadStep s rc (s.goes .aborted)

/-- **A step of the thread** is one of these. -/
theorem step_thread {s s' : Debuggee} {rc ownRc : Nat} (h : s.step (.thread rc ownRc) = some s') :
    ThreadStep s rc s' := by
  rw [step] at h
  split at h
  next hreturns =>
    obtain ⟨session, hsession, rfl⟩ := Option.map_eq_some_iff.mp h
    unfold Returns at hreturns
    unfold account
    -- the steps of the session, each with what the kernel says about the queue
    cases State.stepThread_cases hsession with
    | stops hpc hkill =>
      simp only [hpc]
      exact .stops hpc hkill
    | waits hpc hkill =>
      simp only [hpc]
      exact .waits hpc hkill
    | timesOut hpc =>
      simp only [hpc]
      exact .timesOut hpc
    | waitAborts hpc =>
      simp only [hpc]
      exact .waitAborts hpc
    | wakes hpc =>
      simp only [hpc]
      exact .wakes hpc
    | failsAndBegins hpc _ hcontinue =>
      simp only [hpc]
      exact .failsAndBegins hpc hcontinue
    | failsAndIdles hpc _ hcontinue =>
      simp only [hpc]
      exact .failsAndIdles hpc hcontinue
    | handles hpc hrc =>
      simp only [hpc] at hreturns ⊢
      rw [if_pos hrc]
      -- an event is taken off, so there was one
      exact .handles hpc hrc (hreturns.mp hrc)
    | begins hpc hrc hcontinue =>
      simp only [hpc]
      rw [if_neg hrc]
      exact .begins hpc hcontinue
    | idles hpc hrc hcontinue =>
      simp only [hpc]
      rw [if_neg hrc]
      exact .idles hpc hcontinue
    | maskFails core hpc =>
      simp only [hpc]
      exact .maskFails core hpc
    | masks core hpc =>
      simp only [hpc]
      exact .masks core hpc
    | busy core hpc hrc =>
      simp only [hpc] at hreturns ⊢
      rw [if_neg (by omega)]
      exact .busy core hpc (hreturns.mp hrc)
    | fails core hpc hbusy hrc =>
      simp only [hpc] at hreturns ⊢
      rw [if_neg hrc]
      -- a result other than `0` and busy says that nothing is queued
      exact .fails core hpc (not_not.mp (mt hreturns.mpr hbusy)) hrc
    | nextCore core hpc hrc hcore =>
      simp only [hpc] at hreturns ⊢
      rw [if_pos hrc]
      refine .nextCore core hpc (not_not.mp (mt hreturns.mpr ?_)) hrc hcore
      omega
    | lastCore core hpc hrc hcore =>
      simp only [hpc] at hreturns ⊢
      rw [if_pos hrc]
      refine .lastCore core hpc (not_not.mp (mt hreturns.mpr ?_)) hrc hcore
      omega
    | drainFails core hpc hrc =>
      simp only [hpc] at hreturns ⊢
      rw [if_neg hrc]
      exact .drainFails core hpc (not_not.mp (mt hreturns.mpr hrc))
    | swallows core hpc hrc =>
      simp only [hpc] at hreturns ⊢
      rw [if_pos hrc]
      exact .swallows core hpc hrc (hreturns.mp hrc)
  next => exact absurd h (by simp)

/-! ## Undisturbed runs

  The invariant (`Steady`) is by places: on its way round the loop the thread has everything
  settled, or is about to begin with the first core; in `tryContinueImpl` it has succeeded on the
  cores before.  The one about the queue (`Queued`) needs no condition, and gives that
  `tryContinueImpl` does not abort. -/

/-- On the way round its loop: what has been taken off is settled, or is still to be continued. -/
def Round (s : Debuggee) : Prop :=
  s.dequeued = true → (s.session.mShouldContinue = false → s.Settled) ∧
    (s.session.mShouldContinue = true → s.continuedOn = [])

/-- In `tryContinueImpl`: it has succeeded on the cores before this one, and on no other. -/
def Reached (s : Debuggee) (core : Nat) : Prop :=
  core < 4 ∧ (s.dequeued = true → ∀ i, i ∈ s.continuedOn ↔ i < core)

/-- What holds of an undisturbed thread, by where it is. -/
def Steady (s : Debuggee) : Prop :=
  match s.session.thread with
  | .readKillThread => s.Round
  | .waitSynchronization => s.Round
  | .getDebugEvent => s.Round
  | .setThreadCoreMask core => s.Reached core
  | .continueDebugEvent core => s.Reached core
  | .drain core => core = 0
  | .exited => True
  | .aborted => True

/-- An event that `svcContinueDebugEvent` has been busy for is still queued. -/
def Queued (s : Debuggee) : Prop :=
  match s.session.thread with
  | .drain _ => s.queued ≠ 0
  | _ => True

/-- Only the thread takes events off, so what it has found queued stays queued. -/
theorem Queued.step {s s' : Debuggee} {m : DebuggeeMove} (hs : s.Queued) (h : s.step m = some s') :
    s'.Queued := by
  cases m with
  | arrive =>
    obtain rfl := Option.some.inj h
    cases hpc : s.session.thread with
    | drain core =>
      simp only [Queued, hpc]
      exact Nat.succ_ne_zero _
    | _ => simp only [Queued, hpc]
  | kill =>
    obtain rfl := Option.some.inj h
    exact hs
  | thread rc ownRc =>
    cases step_thread h with
    | busy core _ hqueued => exact hqueued
    | _ => trivial

/-- **No abort.**  Only the thread takes events off, so the one that is to be swallowed is there. -/
theorem Queued.drainsOn {s s' : Debuggee} {m : DebuggeeMove} (hs : s.Queued)
    (h : s.step m = some s') : DrainsOn s m s' := by
  intro hdrains haborted
  cases m with
  | arrive =>
    obtain rfl := Option.some.inj h
    rw [show s.session.thread = .aborted from haborted] at hdrains
    exact Bool.noConfusion hdrains
  | kill =>
    obtain rfl := Option.some.inj h
    rw [show s.session.thread = .aborted from haborted] at hdrains
    exact Bool.noConfusion hdrains
  | thread rc ownRc =>
    cases step_thread h with
    | drainFails core hpc hqueued =>
      simp only [Queued, hpc] at hs
      exact hs hqueued
    | waitAborts hpc =>
      rw [hpc] at hdrains
      exact Bool.noConfusion hdrains
    | maskFails core hpc =>
      rw [hpc] at hdrains
      exact Bool.noConfusion hdrains
    | _ => exact ThreadPc.noConfusion haborted

/-- A thread with something to continue begins with the first core, wherever it comes from: the wait
    that has failed, or `handleDebugEvents`. -/
theorem Round.begins {s : Debuggee} (hs : s.Round) (hcontinue : s.session.mShouldContinue = true) :
    (s.goes (.setThreadCoreMask 0)).Steady := by
  refine ⟨by decide, fun hdequeued i => ?_⟩
  have hnone : s.continuedOn = [] := (hs hdequeued).2 hcontinue
  show i ∈ s.continuedOn ↔ i < 0
  rw [hnone]
  exact iff_of_false List.not_mem_nil (Nat.not_lt_zero i)

/-- **An undisturbed step** leaves the thread steady. -/
theorem Steady.step {s s' : Debuggee} {m : DebuggeeMove} (hs : s.Steady) (h : s.step m = some s')
    (hundisturbed : Undisturbed s m s') : s'.Steady := by
  cases m with
  | arrive =>
    obtain rfl := Option.some.inj h
    exact hs
  | kill =>
    obtain rfl := Option.some.inj h
    exact hs
  | thread rc ownRc =>
    cases step_thread h with
    | stops => trivial
    | waits hpc =>
      simp only [Steady, hpc] at hs
      show s.Round
      exact hs
    | timesOut hpc =>
      simp only [Steady, hpc] at hs
      show s.Round
      exact hs
    | waitAborts => trivial
    | wakes hpc =>
      simp only [Steady, hpc] at hs
      show s.Round
      exact hs
    | failsAndBegins hpc hcontinue =>
      simp only [Steady, hpc] at hs
      exact hs.begins hcontinue
    | failsAndIdles hpc =>
      simp only [Steady, hpc] at hs
      show s.Round
      exact hs
    | handles => exact fun _ => ⟨fun hreset => Bool.noConfusion hreset, fun _ => rfl⟩
    | begins hpc hcontinue =>
      simp only [Steady, hpc] at hs
      exact hs.begins hcontinue
    | idles hpc =>
      simp only [Steady, hpc] at hs
      show s.Round
      exact hs
    | maskFails => trivial
    | masks core hpc =>
      simp only [Steady, hpc] at hs
      show s.Reached core
      exact hs
    | busy core hpc hqueued =>
      show core = 0
      exact (hundisturbed core rc ownRc hpc rfl).1 hqueued
    | fails core hpc hqueued hrc =>
      -- nothing has been taken off, so there is nothing to continue
      exact fun hdequeued => absurd ((hundisturbed core rc ownRc hpc rfl).2 hqueued hdequeued) hrc
    | nextCore core hpc _ _ hcore =>
      simp only [Steady, hpc] at hs
      refine ⟨hcore, fun hdequeued i => ?_⟩
      show i ∈ core :: s.continuedOn ↔ i < core + 1
      rw [List.mem_cons, hs.2 hdequeued i]
      omega
    | lastCore core hpc =>
      simp only [Steady, hpc] at hs
      intro hdequeued
      refine ⟨fun _ _ i hi => ?_, fun hset => Bool.noConfusion hset⟩
      show i ∈ core :: s.continuedOn
      rw [List.mem_cons, hs.2 hdequeued i]
      omega
    | swallows core hpc =>
      simp only [Steady, hpc] at hs
      subst hs
      exact ⟨by decide, fun _ i => iff_of_false List.not_mem_nil (Nat.not_lt_zero i)⟩
    | drainFails => trivial

/-- What a steady thread comes back to is settled. -/
theorem Steady.notForgotten {s s' : Debuggee} {m : DebuggeeMove} (hqueued : s.Queued)
    (hs' : s'.Steady) (h : s.step m = some s') : NotForgotten s m s' := by
  refine ⟨hqueued.drainsOn h, fun hpc hreset hdequeued => ?_⟩
  simp only [Steady, hpc] at hs'
  exact (hs' hdequeued).1 hreset hdequeued

/-! ## Disturbed ones

  What is missed is missed for good: `tryContinueImpl` goes on to the next core whatever happens,
  and `mShouldContinue` is reset at its end (`Doomed.step`).  So a thread that is disturbed once,
  and comes back to the wait, has left the process stopped there. -/

/-- There is a core before this one without a continue behind the last event. -/
def Missed (s : Debuggee) (core : Nat) : Prop :=
  s.dequeued = true ∧ ∃ i < core, i ∉ s.continuedOn

/-- The process is going to be forgotten, unless the thread ends first. -/
def Doomed (s : Debuggee) : Prop :=
  match s.session.thread with
  | .readKillThread => s.session.mShouldContinue = false ∧ ¬s.Settled
  | .waitSynchronization => False
  | .getDebugEvent => False
  | .setThreadCoreMask core => core < 4 ∧ s.Missed core
  | .continueDebugEvent core => core < 4 ∧ s.Missed core
  | .drain core => core < 4 ∧ 0 < core
  | .exited => True
  | .aborted => True

/-- Nothing that `tryContinueImpl` does on the later cores helps the one that has been missed. -/
theorem Doomed.step {s s' : Debuggee} {m : DebuggeeMove} (hs : s.Doomed) (h : s.step m = some s')
    (hkept : NotForgotten s m s') : s'.Doomed := by
  cases m with
  | arrive =>
    obtain rfl := Option.some.inj h
    exact hs
  | kill =>
    obtain rfl := Option.some.inj h
    exact hs
  | thread rc ownRc =>
    cases step_thread h with
    | stops => trivial
    | waits hpc =>
      simp only [Doomed, hpc] at hs
      -- back at the wait the process is stopped, which is what does not happen
      exact absurd (hkept.2 rfl hs.1) hs.2
    | timesOut hpc => simp only [Doomed, hpc] at hs
    | waitAborts => trivial
    | wakes hpc => simp only [Doomed, hpc] at hs
    | failsAndBegins hpc => simp only [Doomed, hpc] at hs
    | failsAndIdles hpc => simp only [Doomed, hpc] at hs
    | handles hpc => simp only [Doomed, hpc] at hs
    | begins hpc => simp only [Doomed, hpc] at hs
    | idles hpc => simp only [Doomed, hpc] at hs
    | maskFails => trivial
    | masks core hpc =>
      simp only [Doomed, hpc] at hs
      show core < 4 ∧ s.Missed core
      exact hs
    | busy core hpc =>
      simp only [Doomed, hpc] at hs
      obtain ⟨hlt, -, i, hi, -⟩ := hs
      show core < 4 ∧ 0 < core
      exact ⟨hlt, Nat.zero_lt_of_lt hi⟩
    | fails core hpc =>
      simp only [Doomed, hpc] at hs
      -- the core that was missed lies before this one, and stays missed
      obtain ⟨hlt, hdequeued, i, hi, hno⟩ := hs
      exact ⟨rfl, fun hsettled => hno (hsettled hdequeued i (Nat.lt_trans hi hlt))⟩
    | nextCore core hpc _ _ hcore =>
      simp only [Doomed, hpc] at hs
      obtain ⟨hlt, hdequeued, i, hi, hno⟩ := hs
      refine ⟨hcore, hdequeued, i, Nat.lt_succ_of_lt hi, fun hmem => ?_⟩
      exact hno ((List.mem_cons.mp hmem).resolve_left (Nat.ne_of_lt hi))
    | lastCore core hpc =>
      simp only [Doomed, hpc] at hs
      obtain ⟨hlt, hdequeued, i, hi, hno⟩ := hs
      refine ⟨rfl, fun hsettled => ?_⟩
      have hmem := hsettled hdequeued i (Nat.lt_trans hi hlt)
      exact hno ((List.mem_cons.mp hmem).resolve_left (Nat.ne_of_lt hi))
    | swallows core hpc =>
      simp only [Doomed, hpc] at hs
      -- an event is swallowed on a later core: now the first one is missed
      exact ⟨hs.1, rfl, 0, hs.2, List.not_mem_nil⟩
    | drainFails => trivial

/-- **A disturbed step** of a steady thread leaves it doomed. -/
theorem Steady.doomed {s s' : Debuggee} {m : DebuggeeMove} (hs : s.Steady) (h : s.step m = some s')
    (hdisturbed : ¬Undisturbed s m s') : s'.Doomed := by
  have hhow : ∃ core rc ownRc, s.session.thread = .continueDebugEvent core ∧ m = .thread rc ownRc ∧
      ((s.queued ≠ 0 ∧ core ≠ 0) ∨ (s.queued = 0 ∧ s.dequeued = true ∧ rc ≠ 0)) := by
    by_contra hno
    refine hdisturbed fun core rc ownRc hpc hm => ⟨fun hqueued => ?_, fun hqueued hdequeued => ?_⟩
    · by_contra hcore
      exact hno ⟨core, rc, ownRc, hpc, hm, Or.inl ⟨hqueued, hcore⟩⟩
    · by_contra hrc
      exact hno ⟨core, rc, ownRc, hpc, hm, Or.inr ⟨hqueued, hdequeued, hrc⟩⟩
  obtain ⟨core, rc, ownRc, hcontinue, rfl, hcase⟩ := hhow
  simp only [Steady, hcontinue] at hs
  cases step_thread h with
  | busy core' hpc hqueued =>
    obtain rfl := ThreadPc.continueDebugEvent.inj (hpc.symm.trans hcontinue)
    rcases hcase with ⟨-, hcore⟩ | ⟨hempty, -⟩
    · exact ⟨hs.1, Nat.pos_of_ne_zero hcore⟩
    · exact absurd hempty hqueued
  | fails core' hpc hempty =>
    rcases hcase with ⟨hqueued, -⟩ | ⟨-, hdequeued, -⟩
    · exact absurd hempty hqueued
    · -- the core that it has failed on is one of the four
      refine ⟨rfl, fun hsettled => ?_⟩
      exact Nat.lt_irrefl core ((hs.2 hdequeued core).mp (hsettled hdequeued core hs.1))
  | nextCore core' hpc hempty hrc =>
    rcases hcase with ⟨hqueued, -⟩ | ⟨-, -, hfails⟩
    · exact absurd hempty hqueued
    · exact absurd hrc hfails
  | lastCore core' hpc hempty hrc =>
    rcases hcase with ⟨hqueued, -⟩ | ⟨-, -, hfails⟩
    · exact absurd hempty hqueued
    · exact absurd hrc hfails
  | _ => simp_all

/-! ## Runs

  Undisturbed runs forget nothing, by induction on the run with both invariants.  The other
  direction looks at the first step that is disturbed: what follows is doomed until the next
  wait. -/

/-- No run aborts there. -/
theorem drainsOn_of_run (ms : List DebuggeeMove) {s t : Debuggee} (hs : s.Queued)
    (hrun : run step s ms = some t) : Along step DrainsOn s ms := by
  refine Along.weaken Queued ?_ ms hs (along_true ms hrun)
  intro s m s' hs h _
  exact ⟨hs.drainsOn h, hs.step h⟩

/-- An undisturbed run forgets nothing. -/
theorem notForgotten_of_undisturbed (ms : List DebuggeeMove) {s : Debuggee} (hqueued : s.Queued)
    (hs : s.Steady) (h : Along step Undisturbed s ms) : Along step NotForgotten s ms := by
  refine Along.weaken (fun s => s.Queued ∧ s.Steady) ?_ ms ⟨hqueued, hs⟩ h
  rintro s m s' ⟨hqueued, hs⟩ h hundisturbed
  have hs' := hs.step h hundisturbed
  exact ⟨hs'.notForgotten hqueued h, hqueued.step h, hs'⟩

/-- A run that forgets nothing, and comes back to the wait, has not been disturbed. -/
theorem undisturbed_of_notForgotten (ms : List DebuggeeMove) {s t : Debuggee} (hs : s.Steady)
    (h : Along step NotForgotten s ms) (hrun : run step s ms = some t)
    (hwait : t.session.thread = .waitSynchronization) : Along step Undisturbed s ms := by
  refine Along.of_not_doomed Steady Doomed ?_ ?_ ?_ ms hs h hrun ?_
  · intro s m s' hs h hundisturbed
    exact hs.step h hundisturbed
  · intro s m s' hs h _ hdisturbed
    exact hs.doomed h hdisturbed
  · intro s m s' hs h hkept
    exact hs.step h hkept
  · -- once doomed, the thread does not get to the wait
    intro hdoomed
    simp only [Doomed, hwait] at hdoomed

theorem queued_init (mDebugHandle : Nat) : (init mDebugHandle).Queued := trivial

theorem steady_init (mDebugHandle : Nat) : (init mDebugHandle).Steady :=
  fun hdequeued => Bool.noConfusion hdequeued

/-- **Every interleaving.**  However events arrive and whatever `svcContinueDebugEvent` returns when
    none is queued: `tryContinueImpl` does not abort on `svcGetDebugEvent`; if the thread is not
    disturbed, the process is never left stopped; and in a run that comes back to the wait, it is not
    if and only if the thread has not been disturbed. -/
theorem notForgotten_iff (mDebugHandle : Nat) (ms : List DebuggeeMove) :
    (∀ t, run step (init mDebugHandle) ms = some t → Along step DrainsOn (init mDebugHandle) ms) ∧
      (Along step Undisturbed (init mDebugHandle) ms →
        Along step NotForgotten (init mDebugHandle) ms) ∧
      ∀ t, run step (init mDebugHandle) ms = some t → t.session.thread = .waitSynchronization →
        (Along step NotForgotten (init mDebugHandle) ms ↔
          Along step Undisturbed (init mDebugHandle) ms) := by
  have hqueued := queued_init mDebugHandle
  have hsteady := steady_init mDebugHandle
  have hto := notForgotten_of_undisturbed ms hqueued hsteady
  refine ⟨fun t hrun => drainsOn_of_run ms hqueued hrun, hto, fun t hrun hwait => ?_⟩
  exact ⟨fun h => undisturbed_of_notForgotten ms hsteady h hrun hwait, hto⟩

/-- An event arrives and is taken off; `svcContinueDebugEvent` fails on the first core. -/
def refusedOnce : List DebuggeeMove :=
  [.thread 0 0, .arrive, .thread 0 0, .thread 0 0, .thread 0x8c01 0, .thread 0 0, .thread 0xe401 0,
    .thread 0 0]

/-- An event arrives and is taken off; another one arrives between the first core and the second, and
    `svcContinueDebugEvent` succeeds on all that follow. -/
def arrivesBetween : List DebuggeeMove :=
  [.thread 0 0, .arrive, .thread 0 0, .thread 0 0, .thread 0x8c01 0, .thread 0 0, .thread 0 0,
    .thread 0 0, .arrive, .thread 0xf401 0, .thread 0 0, .thread 0 0, .thread 0 0, .thread 0 0,
    .thread 0 0, .thread 0 0, .thread 0 0]

/-- Both times the thread is back at the wait, and the process is stopped. -/
theorem not_notForgotten_refusedOnce :
    (run step (init 7) refusedOnce).map (fun s => s.session.thread) = some .waitSynchronization ∧
      ¬Along step NotForgotten (init 7) refusedOnce ∧
      (run step (init 7) arrivesBetween).map (fun s => s.session.thread) =
        some .waitSynchronization ∧
      ¬Along step NotForgotten (init 7) arrivesBetween := by
  decide

end Debuggee

end Nxdb.DebuggingSession
