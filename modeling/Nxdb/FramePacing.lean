/-
  The pace of `runImguiLoop`.

  Behind a frame the loop sleeps for the rest of a sixtieth of a second.  The rest is a difference of
  two `u64`, which wraps around when the frame has taken longer; what becomes of it is taken for a sleep
  of years, and a sleep of a second or more is left out.  `sleep_eq` says for which frames this works, of
  all that fit a `u64`: a late frame never sleeps, until it is late by some 48 years.

  `paced` is about whole runs, however long the frames take and whoever is connected: no round is shorter
  than a sixtieth of a second, less the one tick that the conversion to nanoseconds may lose, so no
  second has more than sixty; the quotient that `io.DeltaTime` is set to is never zero, which ImGui does
  not allow; and these quotients add up to no more than the time that has passed.

  The counter is libnx's: its frequency and the conversion are parameters, `Documented` says what is
  known of them.  The quotients are exact here: as a `float` the sixtieth of a second, 320000 ticks, is
  0.0166666675, a little more than it is, so of the `float`s the last statement is not true.
-/
import Nxdb.Lib.Run
import Mathlib.Algebra.Order.Field.Rat
import Mathlib.Data.Rat.Floor
import Mathlib.Tactic.Linarith
import Mathlib.Tactic.NormNum

namespace Nxdb

open Lib

/-! ## The code

  The `u64` arithmetic of the code is that of `UInt64`, wrap-around included.  What the counter
  reads is the environment's choice, except that it does not go back and that a sleep takes the time
  it was asked for (`Possible`). -/

/-- `switch/arm/counter.h`. -/
structure ArmCounter where
  armGetSystemTickFreq : UInt64
  armTicksToNs : UInt64 → UInt64

/-- Frames in a second. -/
def sFrameRate : Nat := 60

namespace ArmCounter

/-- A tick is `625 / 12` nanoseconds. -/
structure Documented (C : ArmCounter) : Prop where
  freq : C.armGetSystemTickFreq = 19200000
  ticksToNs : ∀ tick, C.armTicksToNs tick = tick * 625 / 12

/-- The ticks of a frame, cut off to a whole number. -/
def sFrameTimeTicks (C : ArmCounter) : UInt64 :=
  UInt64.ofNat ⌊(1 / sFrameRate : ℚ) * C.armGetSystemTickFreq.toNat⌋₊

/-- The counter of the console. -/
def console : ArmCounter := ⟨19200000, fun tick => tick * 625 / 12⟩

theorem documented_console : console.Documented := ⟨rfl, fun _ => rfl⟩

/-- Ticks as a time in seconds. -/
def seconds (C : ArmCounter) (ticks : UInt64) : ℚ := ticks.toNat / C.armGetSystemTickFreq.toNat

end ArmCounter

/-- What the counter reads in a round: behind `render`, behind `svcSleepThread`, and at the end. -/
structure Round where
  rendered : UInt64
  woken : UInt64
  next : UInt64

/-- `lastFrame`, and all that `io.DeltaTime` has been set to, newest first. -/
structure Pacer where
  lastFrame : UInt64
  deltaTimes : List ℚ

namespace Pacer

/-- The loop begins at some tick, and has rendered nothing. -/
def init (lastFrame : UInt64) : Pacer := ⟨lastFrame, []⟩

variable (C : ArmCounter)

/-- What `svcSleepThread` is asked for, if it is called. -/
def sleep (s : Pacer) (r : Round) : Option UInt64 :=
  let diff := r.rendered - s.lastFrame
  let ns := C.armTicksToNs (C.sFrameTimeTicks - diff)
  if ns.toNat < 10 ^ 9 then some ns else none

/-- The rest of the loop body.  `io.DeltaTime` is the quotient itself, where the code rounds it to a
    `float`. -/
def round (s : Pacer) (r : Round) : Pacer where
  lastFrame := r.next
  deltaTimes := C.seconds (r.woken - s.lastFrame) :: s.deltaTimes

/-- The counter does not go back, and a sleep lasts as long as was asked for. -/
structure Possible (s : Pacer) (r : Round) : Prop where
  rendered : s.lastFrame ≤ r.rendered
  woken : r.rendered ≤ r.woken
  next : r.woken ≤ r.next
  slept : ∀ ns ∈ s.sleep C r, ns.toNat * 12 / 625 ≤ r.woken.toNat - r.rendered.toNat

instance (s : Pacer) (r : Round) : Decidable (s.Possible C r) :=
  decidable_of_iff (s.lastFrame ≤ r.rendered ∧ r.rendered ≤ r.woken ∧ r.woken ≤ r.next ∧
      (s.sleep C r).all (fun ns => ns.toNat * 12 / 625 ≤ r.woken.toNat - r.rendered.toNat) = true) <| by
    simp only [Option.all_eq_true, decide_eq_true_eq]
    exact ⟨fun ⟨h₁, h₂, h₃, h₄⟩ => ⟨h₁, h₂, h₃, h₄⟩, fun ⟨h₁, h₂, h₃, h₄⟩ => ⟨h₁, h₂, h₃, h₄⟩⟩

/-- One round, if there can be such a one. -/
def step (s : Pacer) (r : Round) : Option Pacer := if s.Possible C r then some (s.round C r) else none

/-! ## How long it sleeps

  A frame of `diff` ticks leaves `320000 - diff`, modulo `2 ^ 64`.  In time, this is the rest; late,
  it is close to `2 ^ 64`, and so is its product with 625, so that its quotient is far more than a
  second.  Only where the quotient has come down to less than a second again does a late frame sleep
  (`lateAgain`). -/

/-- The nanoseconds that are computed behind a frame of `diff` ticks. -/
def restNs (diff : Nat) : Nat := (2 ^ 64 - diff + 320000) % 2 ^ 64 * 625 % 2 ^ 64 / 12

/-- In time: the rest, rounded down. -/
theorem restNs_early {diff : Nat} (h : diff ≤ 320000) : restNs diff = (320000 - diff) * 625 / 12 := by
  unfold restNs
  omega

/-- Too late: the difference has wrapped around, and so has its product. -/
theorem restNs_late {diff : Nat} (hlate : 320000 < diff) (hlt : (diff - 320000) * 625 < 2 ^ 64) :
    restNs diff = (2 ^ 64 - (diff - 320000) * 625) / 12 := by
  unfold restNs
  omega

variable {C}

/-- A sixtieth of a second is 320000 ticks ... -/
theorem toNat_sFrameTimeTicks (hC : C.Documented) : C.sFrameTimeTicks.toNat = 320000 := by
  have hfloor : ⌊(1 / (sFrameRate : ℕ) : ℚ) * C.armGetSystemTickFreq.toNat⌋₊ = 320000 := by
    rw [hC.freq, show (19200000 : UInt64).toNat = 19200000 from rfl, sFrameRate]
    norm_num
  rw [ArmCounter.sFrameTimeTicks, hfloor]
  rfl

/-- ... and what is left of it comes to so many nanoseconds. -/
theorem toNat_armTicksToNs (hC : C.Documented) (diff : UInt64) :
    (C.armTicksToNs (C.sFrameTimeTicks - diff)).toNat = restNs diff.toNat := by
  rw [hC.ticksToNs, UInt64.toNat_div, UInt64.toNat_mul, UInt64.toNat_sub, toNat_sFrameTimeTicks hC]
  rfl

/-- The first number of ticks for which a frame that is late sleeps nevertheless. -/
def lateAgain : Nat := 320000 + (2 ^ 64 - 12 * 10 ^ 9) / 625 + 1

/-- **When it sleeps.**  A frame in time sleeps for what is left of a sixtieth of a second, rounded down
    to nanoseconds, and a late one not at all, up to a frame of 48 years; that one sleeps again. -/
theorem sleep_eq (C : ArmCounter) (hC : C.Documented) (s : Pacer) (r : Round) :
    ((r.rendered - s.lastFrame).toNat < lateAgain → (s.sleep C r).map UInt64.toNat =
      if (r.rendered - s.lastFrame).toNat ≤ 320000 then
        some ((320000 - (r.rendered - s.lastFrame).toNat) * 625 / 12)
      else none) ∧
    ((r.rendered - s.lastFrame).toNat = lateAgain → s.sleep C r ≠ none) := by
  have hns := toNat_armTicksToNs hC (r.rendered - s.lastFrame)
  rw [lateAgain]
  unfold sleep
  dsimp only
  constructor
  · intro hbound
    by_cases hearly : (r.rendered - s.lastFrame).toNat ≤ 320000
    · rw [restNs_early hearly] at hns
      rw [if_pos hearly, if_pos (by omega), Option.map_some, hns]
    · rw [restNs_late (Nat.lt_of_not_le hearly) (by omega)] at hns
      rw [if_neg hearly, if_neg (by omega)]
      rfl
  · intro heq
    rw [restNs_late (by omega) (by omega)] at hns
    rw [if_pos (by omega)]
    exact Option.some_ne_none _

/-- A frame of 6.25 ms. -/
theorem sleep_eq_early : (sleep .console (init 0) ⟨120000, 320000, 320001⟩).map UInt64.toNat =
    some 10416666 := by
  have hsleep := (sleep_eq .console ArmCounter.documented_console (init 0)
    ⟨120000, 320000, 320001⟩).1 (by decide +kernel)
  exact hsleep.trans (by decide +kernel)

/-! ## Whole runs

  A round that sleeps is as long as the sleep makes it, less a tick by the rounding; one that does
  not sleep was late.  Either way it has 319999 ticks at least (`Possible.long`), and a run of them
  is a sum. -/

/-- A round is not shorter than the frame time, less a tick. -/
theorem Possible.long (hC : C.Documented) {s : Pacer} {r : Round} (h : s.Possible C r) :
    s.lastFrame.toNat + 319999 ≤ r.woken.toNat := by
  have hrendered := UInt64.le_iff_toNat_le.mp h.rendered
  have hwoken := UInt64.le_iff_toNat_le.mp h.woken
  have hdiff : (r.rendered - s.lastFrame).toNat = r.rendered.toNat - s.lastFrame.toNat :=
    UInt64.toNat_sub_of_le _ _ h.rendered
  by_cases hearly : r.rendered.toNat - s.lastFrame.toNat ≤ 320000
  · have hsleep := (sleep_eq C hC s r).1
    rw [hdiff, if_pos hearly] at hsleep
    obtain ⟨ns, hns, hrest⟩ := Option.map_eq_some_iff.mp (hsleep (by rw [lateAgain]; omega))
    have hslept := h.slept ns hns
    rw [hrest] at hslept
    omega
  · omega

/-- What a run keeps: how far the clock has come, and what has been made of it. -/
structure Paced (C : ArmCounter) (start : UInt64) (s : Pacer) : Prop where
  le : start ≤ s.lastFrame
  long : 319999 * s.deltaTimes.length ≤ s.lastFrame.toNat - start.toNat
  positive : ∀ dt ∈ s.deltaTimes, 319999 / 19200000 ≤ dt
  sum : s.deltaTimes.sum ≤ C.seconds (s.lastFrame - start)

/-- **The step**: no round is shorter, and the quotients add up. -/
theorem Paced.step (hC : C.Documented) {start : UInt64} {s s' : Pacer} {r : Round}
    (h : Paced C start s) (hstep : s.step C r = some s') : Paced C start s' := by
  rw [Pacer.step] at hstep
  split at hstep
  next hpossible =>
    cases hstep
    have hlong := hpossible.long hC
    have hle := UInt64.le_iff_toNat_le.mp h.le
    have hnext := UInt64.le_iff_toNat_le.mp hpossible.next
    have hwoken : (r.woken - s.lastFrame).toNat = r.woken.toNat - s.lastFrame.toNat :=
      UInt64.toNat_sub_of_le _ _ (UInt64.le_trans hpossible.rendered hpossible.woken)
    have hstart : start ≤ r.next := UInt64.le_iff_toNat_le.mpr (by omega)
    refine ⟨hstart, ?_, fun dt hdt => ?_, ?_⟩
    · have hrun := h.long
      show 319999 * (s.deltaTimes.length + 1) ≤ r.next.toNat - start.toNat
      omega
    · rcases List.mem_cons.mp hdt with rfl | hdt
      · have hticks : (319999 : ℚ) ≤ (r.woken - s.lastFrame).toNat := by
          exact_mod_cast (show 319999 ≤ (r.woken - s.lastFrame).toNat by omega)
        rw [ArmCounter.seconds, hC.freq]
        exact div_le_div_of_nonneg_right hticks (by norm_num)
      · exact h.positive dt hdt
    · -- the clock goes on from the end of the round, not from where it was read for `DeltaTime`
      have hticks : (r.woken - s.lastFrame).toNat + (s.lastFrame - start).toNat ≤
          (r.next - start).toNat := by
        rw [hwoken, UInt64.toNat_sub_of_le _ _ h.le, UInt64.toNat_sub_of_le _ _ hstart]
        omega
      have hseconds : C.seconds (r.woken - s.lastFrame) + C.seconds (s.lastFrame - start) ≤
          C.seconds (r.next - start) := by
        simp only [ArmCounter.seconds]
        rw [← add_div]
        exact div_le_div_of_nonneg_right (by exact_mod_cast hticks) (Nat.cast_nonneg _)
      show C.seconds (r.woken - s.lastFrame) + s.deltaTimes.sum ≤ C.seconds (r.next - start)
      linarith [h.sum]
  next => exact absurd hstep (Option.some_ne_none s').symm

/-- Each round sets `DeltaTime` once. -/
theorem length_step (s : Pacer) (r : Round) (s' : Pacer) (hstep : s.step C r = some s') :
    s'.deltaTimes.length = s.deltaTimes.length + 1 := by
  rw [Pacer.step] at hstep
  split at hstep
  · cases hstep
    rfl
  · exact absurd hstep (Option.some_ne_none s').symm

/-- **The pace.**  In every run, however long the frames take: so many rounds take that many sixtieths of
    a second, less a tick each; every `DeltaTime`, as an exact quotient, is positive, at least that
    sixtieth; and together they do not exceed the time that has passed. -/
theorem paced (C : ArmCounter) (hC : C.Documented) (start : UInt64) (rounds : List Round) (s : Pacer)
    (hrun : run (step C) (init start) rounds = some s) :
    319999 * rounds.length ≤ s.lastFrame.toNat - start.toNat ∧
      (∀ dt ∈ s.deltaTimes, 319999 / 19200000 ≤ dt) ∧
      s.deltaTimes.length = rounds.length ∧
      s.deltaTimes.sum ≤ C.seconds (s.lastFrame - start) := by
  have hinit : Paced C start (init start) := by
    refine ⟨UInt64.le_refl start, Nat.zero_le _, fun dt hdt => absurd hdt List.not_mem_nil, ?_⟩
    show (0 : ℚ) ≤ C.seconds (start - start)
    exact div_nonneg (Nat.cast_nonneg _) (Nat.cast_nonneg _)
  have hpaced := run_invariant (fun s r s' hs => hs.step hC) rounds hinit hrun
  have hlength : s.deltaTimes.length = rounds.length := by
    have hcount := run_counts (fun s : Pacer => s.deltaTimes.length) length_step rounds hrun
    rw [hcount]
    exact Nat.zero_add _
  exact ⟨hlength ▸ hpaced.long, hpaced.positive, hlength, hpaced.sum⟩

/-- A frame in time, and one that is late. -/
def twoRounds : List Round := [⟨101000, 321001, 321100⟩, ⟨721100, 721100, 721200⟩]

theorem paced_twoRounds : ∃ s, run (step .console) (init 1000) twoRounds = some s ∧
    319999 * twoRounds.length ≤ s.lastFrame.toNat - 1000 ∧ s.deltaTimes.sum ≤
      ArmCounter.console.seconds (s.lastFrame - 1000) := by
  have hsome : (run (step .console) (init 1000) twoRounds).isSome = true := by decide +kernel
  obtain ⟨s, hrun⟩ := Option.isSome_iff_exists.mp hsome
  obtain ⟨hlong, -, -, hsum⟩ := paced .console ArmCounter.documented_console 1000 twoRounds s hrun
  exact ⟨s, hrun, hlong, hsum⟩

end Pacer

end Nxdb
