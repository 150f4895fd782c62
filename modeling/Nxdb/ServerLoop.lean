/-
  `Server::run`: accepting clients, and the loop over them.

  The loop is a range-`for` over `mClients` that erases from it, so it is `Lib.rangeFor`: `clientLoop`.
  It calls `handleEvent` once on each client, and leaves those that stay, if and only if no client but
  the last leaves (`clientLoop_iff`).

  A client leaves for one of two reasons, and only behind one of them its descriptor is closed: when
  `recv` returned `0`, but not when it is more than 15 seconds old.  So the descriptors that are open
  are those of the entries of `mClients` as long as no client leaves for its age alone
  (`run_inStep_iff`).

  1. Program: `handleEvent`, `round` and `clientLoop`, then `accept` and `iterate` around them;
     `Lib.rangeFor` is the loop with the end iterator taken once.
  2. Specification of a pass: `EachOnce`.  Specification of a run: `InStep`, the entries against
     the open descriptors.
  3. A pass that erases another client than the last reads behind the last live one
     (`Lib.rangeFor_skips`), so the condition of `clientLoop_iff` is exact.
  4. `Inv` has the open descriptors distinct, and those of the entries of `mClients`, in any order.
-/
import Nxdb.Receive
import Nxdb.Lib.Sweep
import Mathlib.Data.List.Nodup

namespace Nxdb.Sysmodule

open Lib

/-! ## The code -/

/-- The members of `Client` that `Server::run` and `handleEvent` use. -/
structure Client extends RecvState where
  mFd : Int
  mLastAlive : Int

/-- The constructor and `accept`: the descriptor, what `mBuffer` happens to hold, and the time, in
    nanoseconds. -/
def Client.accepted (mFd : Int) (mBuffer : Mem) (now : Int) : Client :=
  { RecvState.init mBuffer with mFd := mFd, mLastAlive := now }

/-- What a client meets in its round of the loop: the time at which its age is taken, the time
    `handlePacket` would note for an `Alive`, and what `recv` returns. -/
structure Meeting where
  endTime : Int
  now : Int
  rem : RecvResult

/-- A client and what it meets. -/
structure Visit extends Meeting where
  client : Client

namespace Visit

/-- `Client::handleEvent`: the client behind it, and what it returns. -/
def handleEvent (v : Visit) : Client × Bool :=
  let it := Sysmodule.handleEvent v.client.toRecvState v.rem
  ({ toRecvState := it.state
     mFd := if it.lost then 0 else v.client.mFd
     mLastAlive :=
       if it.call.any fun c => decide (c.type = PacketType.alive.code) then v.now
       else v.client.mLastAlive },
    it.lost)

/-- The client's age when the round begins, in whole seconds. -/
def seconds (v : Visit) : Int := (v.endTime - v.client.mLastAlive).tdiv 1000000000

/-- A round: the client behind it, and whether it is erased. -/
def round (v : Visit) : Visit × Bool :=
  ({ v with client := v.handleEvent.1 }, v.handleEvent.2 || decide (15 < v.seconds))

end Visit

/-- What the loop over the clients does: the calls of `handleEvent`, and `mClients` behind it, `none`
    when it goes on to an element that is no longer there. -/
structure Pass where
  calls : List Visit
  mClients : Option (List Client)

/-- The loop over the clients. -/
def clientLoop (vs : List Visit) : Pass :=
  let r := rangeFor Visit.round vs.length 0 vs
  ⟨r.1, r.2.map fun vs => vs.map Visit.client⟩

/-! ## One pass

  The loop is `Lib.rangeFor`, whose three rules say what it does: with no element erased but the
  last it visits all, and otherwise it skips one and reads behind the end. -/

namespace Visit

/-- The client disconnects, or is too old. -/
def Leaves (v : Visit) : Prop := v.rem = .closed ∨ 15 < v.seconds

instance (v : Visit) : Decidable v.Leaves := inferInstanceAs (Decidable (_ ∨ _))

theorem lost_iff (s : RecvState) (rem : RecvResult) :
    (Sysmodule.handleEvent s rem).lost = true ↔ rem = .closed := by
  cases rem with
  | bytes bs => simp [Sysmodule.handleEvent]
  | closed => simp [Sysmodule.handleEvent]
  | wouldBlock => simp [Sysmodule.handleEvent]
  | error => simp [Sysmodule.handleEvent]

theorem round_erases (v : Visit) : v.round.2 = decide v.Leaves := by
  rw [Bool.eq_iff_iff, decide_eq_true_iff, Leaves, round, Bool.or_eq_true, decide_eq_true_iff,
    handleEvent, lost_iff]

/-- A client that is not disconnected keeps its descriptor. -/
theorem handleEvent_mFd {v : Visit} (h : v.rem ≠ .closed) : v.handleEvent.1.mFd = v.client.mFd := by
  have hlost : ¬(Sysmodule.handleEvent v.client.toRecvState v.rem).lost = true := by
    rwa [lost_iff]
  show (if (Sysmodule.handleEvent v.client.toRecvState v.rem).lost then 0 else v.client.mFd) = _
  rw [if_neg hlost]

end Visit

/-- The clients that stay, as `handleEvent` leaves them. -/
def survivors (vs : List Visit) : List Client :=
  (vs.filter fun v => !decide v.Leaves).map fun v => v.handleEvent.1

/-- Each client is called once, and exactly those that stay are left, in their order. -/
def EachOnce (vs : List Visit) : Prop :=
  (clientLoop vs).calls.Perm vs ∧ (clientLoop vs).mClients = some (survivors vs)

/-- What is left of the array is the clients that stay. -/
theorem survivors_eq (vs : List Visit) :
    ((vs.filter fun v => !v.round.2).map fun v => v.round.1).map Visit.client = survivors vs := by
  simp only [Visit.round_erases, List.map_map]
  rfl

/-- If no client but the last leaves, the loop does its work. -/
theorem clientLoop_of_last {vs : List Visit} (h : ∀ v ∈ vs.dropLast, ¬v.Leaves) :
    (clientLoop vs).calls = vs ∧ (clientLoop vs).mClients = some (survivors vs) := by
  have hall := rangeFor_visits_all (f := Visit.round) vs []
    (fun v hv => by rw [Visit.round_erases, decide_eq_false_iff_not]; exact h v hv)
  rw [List.length_nil, List.nil_append, List.nil_append] at hall
  refine ⟨?_, ?_⟩
  · rw [clientLoop, hall]
  · rw [clientLoop, hall, Option.map_some, survivors_eq]

/-- If a client leaves that is not the last, some client is not called, and the loop reads an element
    that is no longer there. -/
theorem clientLoop_of_other {vs : List Visit} (h : ∃ v ∈ vs.dropLast, v.Leaves) :
    (clientLoop vs).calls.length < vs.length ∧ (clientLoop vs).mClients = none := by
  obtain ⟨v, hv, hleaves⟩ := h
  obtain ⟨hlen, hnone⟩ := rangeFor_skips (f := Visit.round) vs []
    ⟨v, hv, by rw [Visit.round_erases, decide_eq_true_iff]; exact hleaves⟩
  rw [List.length_nil, List.nil_append] at hlen hnone
  refine ⟨hlen, ?_⟩
  rw [clientLoop, hnone, Option.map_none]

/-- **One pass.**  Each client is called once, and those that stay are left, if and only if no client
    but the last leaves. -/
theorem clientLoop_iff (vs : List Visit) : EachOnce vs ↔ ∀ v ∈ vs.dropLast, ¬v.Leaves := by
  constructor
  · rintro ⟨-, hsome⟩ v hv hleaves
    rw [(clientLoop_of_other ⟨v, hv, hleaves⟩).2] at hsome
    exact Option.some_ne_none _ hsome.symm
  · intro h
    obtain ⟨hcalls, hsome⟩ := clientLoop_of_last h
    exact ⟨List.Perm.of_eq hcalls, hsome⟩

/-- Three clients, of which the first disconnects. -/
def firstLeaves : List Visit :=
  [⟨⟨0, 0, .closed⟩, .accepted 3 (fun _ => 0) 0⟩, ⟨⟨0, 0, .wouldBlock⟩, .accepted 4 (fun _ => 0) 0⟩,
    ⟨⟨0, 0, .wouldBlock⟩, .accepted 5 (fun _ => 0) 0⟩]

/-- The second client is not called. -/
theorem not_eachOnce_firstLeaves : ¬EachOnce firstLeaves := by
  rintro ⟨hperm, -⟩
  have hcalls : (clientLoop firstLeaves).calls.map (fun v => v.client.mFd) = [3, 5] := by
    decide +kernel
  have hlen : (clientLoop firstLeaves).calls.length = 2 := by
    rw [← List.length_map (f := fun v : Visit => v.client.mFd), hcalls]
    rfl
  rw [hperm.length_eq] at hlen
  exact absurd hlen (by decide)

/-! ## The server over its iterations

  Descriptors are numbers, of which no two that are open are the same.  `closes` is what
  `handleEvent` closes; that an entry is gone does not close anything. -/

/-- The accepted descriptors that are open, and `mClients`. -/
structure Server where
  openFds : List Int
  mClients : List Client

/-- What an iteration meets: the client that is accepted, with the new descriptor, what its `mBuffer`
    holds and the time; and what the clients meet in their rounds. -/
structure Encounter where
  accepted : Option (Int × Mem × Int)
  meetings : List Meeting

namespace Server

/-- Nobody is connected. -/
def init : Server := ⟨[], []⟩

/-- The part of the loop body before the clients.  A descriptor that `accept` returns was not open. -/
def accept (s : Server) : Option (Int × Mem × Int) → Option Server
  | none => some s
  | some (fd, mBuffer, now) =>
    if 0 ≤ fd ∧ fd ∉ s.openFds then
      some ⟨s.openFds ++ [fd], s.mClients ++ [Client.accepted fd mBuffer now]⟩
    else none

/-- The clients with what they meet. -/
def visits (s : Server) (e : Encounter) : List Visit :=
  (e.meetings.zip s.mClients).map fun p => ⟨p.1, p.2⟩

/-- The arguments of the calls of `close`, for the calls of `handleEvent`. -/
def closes (calls : List Visit) : List Int :=
  (calls.filter fun v => decide (v.rem = .closed)).map fun v => v.client.mFd

/-- The loop over the clients. -/
def handleClients (s : Server) (e : Encounter) : Option Server :=
  if e.meetings.length = s.mClients.length then
    let p := clientLoop (s.visits e)
    p.mClients.map fun mClients =>
      ⟨s.openFds.filter fun fd => !(closes p.calls).contains fd, mClients⟩
  else none

/-- An iteration of `run`: `none` when it cannot meet this, and when the loop over the clients reads
    an element that is no longer there. -/
def iterate (s : Server) (e : Encounter) : Option Server :=
  (s.accept e.accepted).bind fun s => s.handleClients e

/-- The entries and the open descriptors are in step. -/
structure Inv (s : Server) : Prop where
  nodup : s.openFds.Nodup
  perm : s.openFds.Perm (s.mClients.map Client.mFd)

theorem Inv.init : Server.init.Inv := ⟨List.nodup_nil, List.Perm.refl _⟩

theorem Inv.accept {s s' : Server} {a : Option (Int × Mem × Int)} (h : s.Inv)
    (ha : s.accept a = some s') : s'.Inv := by
  rcases a with _ | ⟨fd, mBuffer, now⟩
  · rw [Server.accept, Option.some.injEq] at ha
    exact ha ▸ h
  · rw [Server.accept] at ha
    split at ha
    next hnew =>
      rw [Option.some.injEq] at ha
      subst ha
      constructor
      · exact List.Nodup.append h.nodup (List.nodup_singleton _)
          (List.disjoint_singleton.mpr hnew.2)
      · rw [List.map_append]
        exact h.perm.append (List.Perm.refl _)
    · exact absurd ha (by simp)

/-- What an iteration does, in its two parts. -/
theorem iterate_eq_some {s s' : Server} {e : Encounter} (h : s.iterate e = some s') :
    ∃ s₁, s.accept e.accepted = some s₁ ∧ s₁.handleClients e = some s' :=
  Option.bind_eq_some_iff.mp h

/-- What the loop over the clients does when it does anything: no client but the last leaves. -/
theorem handleClients_eq_some {s s' : Server} {e : Encounter} (h : s.handleClients e = some s') :
    e.meetings.length = s.mClients.length ∧ (∀ v ∈ (s.visits e).dropLast, ¬v.Leaves) ∧
      s' = ⟨s.openFds.filter fun fd => !(closes (s.visits e)).contains fd,
        survivors (s.visits e)⟩ := by
  rw [handleClients] at h
  split at h
  next hlen =>
    by_cases hlast : ∀ v ∈ (s.visits e).dropLast, ¬v.Leaves
    · obtain ⟨hcalls, hsome⟩ := clientLoop_of_last hlast
      simp only [hcalls, hsome, Option.map_some, Option.some.injEq] at h
      exact ⟨hlen, hlast, h.symm⟩
    · push Not at hlast
      simp [(clientLoop_of_other hlast).2] at h
  · exact absurd h (by simp)

/-- Pairs with as many second parts as there are first ones have all of them. -/
theorem map_zip_snd {α β γ : Type} {as : List α} {bs : List β} (h : as.length = bs.length)
    (f : β → γ) : (as.zip bs).map (fun p => f p.2) = bs.map f := by
  have hsnd : (as.zip bs).map Prod.snd = bs := List.map_snd_zip (Nat.le_of_eq h.symm)
  conv_rhs => rw [← hsnd, List.map_map]
  rfl

/-- With something to meet for every client, the visits are those of all clients. -/
theorem map_visits {s : Server} {e : Encounter} (h : e.meetings.length = s.mClients.length) :
    (s.visits e).map (fun v => v.client.mFd) = s.mClients.map Client.mFd := by
  rw [visits, List.map_map]
  exact map_zip_snd h Client.mFd

/-- Which descriptors are closed, when no two clients share one: those of the clients that
    disconnect. -/
theorem contains_closes {vs : List Visit} (hnodup : (vs.map fun v => v.client.mFd).Nodup)
    {v : Visit} (hv : v ∈ vs) :
    (closes vs).contains v.client.mFd = decide (v.rem = .closed) := by
  rw [Bool.eq_iff_iff, List.contains_iff_mem, decide_eq_true_iff, closes, List.mem_map]
  constructor
  · rintro ⟨w, hw, heq⟩
    rw [List.mem_filter, decide_eq_true_iff] at hw
    have hwv : w = v := List.inj_on_of_nodup_map hnodup hw.1 hv heq
    exact hwv ▸ hw.2
  · intro hclosed
    exact ⟨v, List.mem_filter.mpr ⟨hv, by simpa using hclosed⟩, rfl⟩

/-- The descriptors that are open behind the loop. -/
theorem perm_filter_closes {fds : List Int} {vs : List Visit} (hnodup : fds.Nodup)
    (hperm : fds.Perm (vs.map fun v => v.client.mFd)) :
    (fds.filter fun fd => !(closes vs).contains fd).Perm
      ((vs.filter fun v => !decide (v.rem = .closed)).map fun v => v.client.mFd) := by
  have hmap : (vs.map fun v => v.client.mFd).Nodup := hperm.nodup_iff.mp hnodup
  refine (hperm.filter _).trans (List.Perm.of_eq ?_)
  rw [List.filter_map]
  congr 1
  refine List.filter_congr fun v hv => ?_
  rw [Function.comp_apply, contains_closes hmap hv]

/-- The descriptors of the clients that stay. -/
theorem map_mFd_survivors (vs : List Visit) :
    (survivors vs).map Client.mFd =
      (vs.filter fun v => !decide v.Leaves).map fun v => v.client.mFd := by
  rw [survivors, List.map_map]
  refine List.map_congr_left fun v hv => ?_
  rw [List.mem_filter, Bool.not_eq_true', decide_eq_false_iff_not] at hv
  exact Visit.handleEvent_mFd fun hclosed => hv.2 (.inl hclosed)

/-! ## Runs

  In one iteration the descriptors and the entries stay in step iff no client leaves for its age
  alone (`inStep_iff`); then the invariant holds for the next one. -/

/-- Behind an iteration the descriptors that are open are those of the entries, and what was closed
    in it and the entries' descriptors together are those of the clients it began with. -/
structure InStep (s : Server) (e : Encounter) (s' : Server) : Prop where
  openFds : s'.openFds.Perm (s'.mClients.map Client.mFd)
  closed : ∀ s₁, s.accept e.accepted = some s₁ →
    (closes (clientLoop (s₁.visits e)).calls ++ s'.mClients.map Client.mFd).Perm
      (s₁.mClients.map Client.mFd)

/-- A client that is too old has closed its connection too. -/
def NoneTimesOut (s : Server) (e : Encounter) (_ : Server) : Prop :=
  ∀ s₁, s.accept e.accepted = some s₁ →
    ∀ v ∈ s₁.visits e, 15 < v.seconds → v.rem = .closed

/-- The clients that stay are those that do not disconnect, if and only if none is too old alone. -/
theorem perm_survivors_iff (vs : List Visit) :
    ((vs.filter fun v => !decide (v.rem = .closed)).map fun v => v.client.mFd).Perm
        ((vs.filter fun v => !decide v.Leaves).map fun v => v.client.mFd) ↔
      ∀ v ∈ vs, 15 < v.seconds → v.rem = .closed := by
  constructor
  · intro hperm v hv hold
    by_contra hopen
    have hsub : (vs.filter fun v => !decide v.Leaves) =
        (vs.filter fun v => !decide (v.rem = .closed)).filter fun v => !decide v.Leaves := by
      rw [List.filter_filter]
      refine List.filter_congr fun w _ => ?_
      by_cases hclosed : w.rem = .closed
      · simp [Visit.Leaves, hclosed]
      · simp [hclosed]
    have hlen := hperm.length_eq
    rw [List.length_map, List.length_map, hsub] at hlen
    have hall := List.length_filter_eq_length_iff.mp hlen.symm v
      (List.mem_filter.mpr ⟨hv, by simpa using hopen⟩)
    rw [Bool.not_eq_true', decide_eq_false_iff_not] at hall
    exact hall (.inr hold)
  · intro h
    refine List.Perm.of_eq ?_
    congr 1
    refine List.filter_congr fun v hv => ?_
    have hiff : v.rem = .closed ↔ v.Leaves := ⟨.inl, fun hl => hl.elim id (h v hv)⟩
    simp only [hiff]

/-- What an iteration leaves: the descriptors open, the entries', and those it closed. -/
theorem iterate_fds {s s₁ s' : Server} {e : Encounter} (hs : s.Inv)
    (ha : s.accept e.accepted = some s₁) (h : s₁.handleClients e = some s') :
    s'.openFds.Perm
        (((s₁.visits e).filter fun v => !decide (v.rem = .closed)).map fun v => v.client.mFd) ∧
      s'.mClients.map Client.mFd =
        ((s₁.visits e).filter fun v => !decide v.Leaves).map (fun v => v.client.mFd) ∧
      closes (clientLoop (s₁.visits e)).calls =
        ((s₁.visits e).filter fun v => decide (v.rem = .closed)).map fun v => v.client.mFd := by
  obtain ⟨hlen, hlast, rfl⟩ := handleClients_eq_some h
  have hs₁ := hs.accept ha
  refine ⟨?_, map_mFd_survivors _, ?_⟩
  · refine perm_filter_closes hs₁.nodup ?_
    rw [map_visits hlen]
    exact hs₁.perm
  · rw [(clientLoop_of_last hlast).1, closes]

/-- **One iteration.**  The entries stay in step with the open descriptors if and only if no client
    leaves for its age alone. -/
theorem inStep_iff {s s' : Server} {e : Encounter} (hs : s.Inv) (h : s.iterate e = some s') :
    InStep s e s' ↔ NoneTimesOut s e s' := by
  obtain ⟨s₁, ha, hc⟩ := iterate_eq_some h
  obtain ⟨hopen, hclients, hcloses⟩ := iterate_fds hs ha hc
  constructor
  · rintro ⟨hperm, -⟩ s₂ ha₂
    rw [ha, Option.some.injEq] at ha₂
    subst ha₂
    rw [hclients] at hperm
    exact (perm_survivors_iff _).mp (hopen.symm.trans hperm)
  · intro hnone
    have hperm := (perm_survivors_iff _).mpr (hnone s₁ ha)
    constructor
    · rw [hclients]
      exact hopen.trans hperm
    · intro s₂ ha₂
      rw [ha, Option.some.injEq] at ha₂
      subst ha₂
      rw [hclients, hcloses, ← map_visits (handleClients_eq_some hc).1]
      -- those that disconnect and those that do not are all
      refine (List.Perm.append_left _ hperm.symm).trans ?_
      rw [← List.map_append]
      exact (List.filter_append_perm (fun v : Visit => decide (v.rem = .closed)) _).map _

/-- An iteration in which the entries stay in step keeps the invariant. -/
theorem Inv.iterate {s s' : Server} {e : Encounter} (hs : s.Inv) (h : s.iterate e = some s')
    (hstep : InStep s e s') : s'.Inv := by
  obtain ⟨s₁, ha, hc⟩ := iterate_eq_some h
  obtain ⟨-, -, rfl⟩ := handleClients_eq_some hc
  exact ⟨(hs.accept ha).nodup.filter _, hstep.openFds⟩

/-- **Every run.**  The open descriptors are those of the entries behind every iteration of a run if
    and only if in no iteration a client leaves for its age alone. -/
theorem run_inStep_iff (es : List Encounter) :
    Along iterate InStep Server.init es ↔ Along iterate NoneTimesOut Server.init es := by
  refine along_iff (P := InStep) (Q := NoneTimesOut) (fun s _ => s.Inv) ?_ ?_ es Inv.init
  · intro s e _ s' hs h
    exact inStep_iff hs h
  · intro s e _ s' hs h hq
    exact hs.iterate h ((inStep_iff hs h).mpr hq)

/-- A client connects, and 16 seconds later, silent, is dropped. -/
def silentClient : List Encounter :=
  [⟨some (5, fun _ => 0, 0), [⟨0, 0, .wouldBlock⟩]⟩, ⟨none, [⟨16000000000, 0, .wouldBlock⟩]⟩]

/-- Its descriptor stays open, with no entry for it. -/
theorem not_inStep_silentClient : ¬Along iterate InStep Server.init silentClient := by
  rintro ⟨s, h, -, t, ht, hstep, -⟩
  have hrun : run iterate Server.init silentClient = some t :=
    run_cons.mpr ⟨s, h, run_cons.mpr ⟨t, ht, rfl⟩⟩
  have hfds : (run iterate Server.init silentClient).map (fun s => (s.openFds, s.mClients.length)) =
      some ([5], 0) := by
    decide +kernel
  rw [hrun, Option.map_some, Option.some.injEq, Prod.mk.injEq] at hfds
  have hlen := hstep.openFds.length_eq
  rw [List.length_map, hfds.1, hfds.2] at hlen
  exact absurd hlen (by decide)

end Server

end Nxdb.Sysmodule
