/-
  The display size across connections.

  `updateNetworkInput` sends the size of the window when it is not the one noted last in
  `sLastDisplaySize`, and notes it, sent or not.  The note outlives the connection, the size at the
  server does not have to: a server that was restarted has 1280x720, a packet that was not sent or
  got lost with its connection is not sent again, and one of an earlier connection may be handled
  late.  Before the first draw data there is no window, and a tick sends nothing.

  `NoteFate` records what became of the noted size (a history variable, read by no code).
  `sizeAgrees_iff_delivered`: in every state of every run, the sizes agree after a tick iff the
  fate is `delivered`.

  1. Program: `updateNetworkInput`, `start` and the two `handlePacket`s as far as sizes go; the
     sends of a tick may fail one by one.
  2. Specification: `SizeAgrees`, for the server's size once the packets of the connection have
     been handled (`settle`).
  3. Condition: the fate of the noted size, which each event sets from the state before it and its
     own outcome (`fateAfterReconnect`, `fateAfterTick`, `fateAfterLate`).
  4. The crux is `Tracked`: the settled size is the noted one iff the fate says so, by one lemma
     for each event.
-/
import Nxdb.Broadcast
import Nxdb.Reconnect

namespace Nxdb

open Lib

/-! ## The system

  One desktop, with the packets in flight on its connection, and one server.  Packets of earlier
  connections stay apart (`earlier`), as nothing says when the server gets to them, if it does. -/

/-- What became of the size noted in `sLastDisplaySize`. -/
inductive NoteFate where
  /-- No size has been sent or refused yet. -/
  | unsent
  /-- The server has it, or will once it has handled the packets of this connection. -/
  | delivered
  /-- Its send failed, when the server had another size. -/
  | refused
  /-- It was still on its way when its connection was given up. -/
  | lost
  /-- The server was restarted, and has 1280x720. -/
  | forgotten
  /-- Another size, of an earlier connection, was handled after it. -/
  | replaced
deriving DecidableEq

/-- The desktop, its window, the server, the packets in flight on the connection and those the
    server may still have from earlier ones.  `ticked` and `fate` are read by no code: a tick has
    completed on this connection with all sends successful and the window has kept its size since;
    and what became of the noted size. -/
structure SizeRun where
  mState : State
  window : ImVec2
  process : ClientProcess
  server : LoopStatics
  inFlight : List ClientPacket
  earlier : List (List ClientPacket)
  ticked : Bool
  fate : NoteFate

/-- What the two programs and the network do. -/
inductive SizeEvent where
  /-- `start` connects, to a server that was restarted since or not. -/
  | reconnect (restarted : Bool)
  /-- `recv` or a send outside of `updateNetworkInput` fails. -/
  | lose
  /-- The client handles draw data, the first of which opens the window. -/
  | drawData (prev : List ImDrawList) (data : ImDrawData)
  | resize (windowSize : ImVec2)
  /-- `updateNetworkInput`; the size, if it is sent, and its other packets are accepted or not. -/
  | tick (sizeSent othersSent : Bool)
  /-- The server handles the next packet. -/
  | handle
  /-- The server handles the next packet of an earlier connection. -/
  | handleEarlier (i : Nat)

namespace SizeRun

/-- The window and the server begin with 1280x720, and nothing has been noted. -/
def init : SizeRun where
  mState := .noSocket
  window := ⟨1280, 720⟩
  process := ⟨DrawDataStatics.init, ⟨-1, -1⟩, ⟨0, 0⟩⟩
  server := LoopStatics.init
  inFlight := []
  earlier := []
  ticked := false
  fate := .unsent

/-- All packets in flight delivered and handled. -/
def settle (s : SizeRun) : SizeRun :=
  { s with inFlight := [], server := s.inFlight.foldl Server.handlePacket s.server }

/-- The server's display size, with the packets of the connection handled. -/
def settledSize (s : SizeRun) : ImVec2 := s.settle.server.displaySize

/-- The size a packet carries. -/
def sizeIn : ClientPacket → Option ImVec2
  | .updateDisplaySize displaySize => some displaySize
  | _ => none

/-! ### What becomes of the noted size

  The three functions are about the events alone: what each makes of a size that is noted, sent,
  refused or late.  None of them compares the sizes of the two sides. -/

/-- The packets in flight are given up; a restarted server begins with 1280x720. -/
def fateAfterReconnect (s : SizeRun) (restarted : Bool) : NoteFate :=
  if s.fate = .unsent then .unsent
  else if restarted then
    if s.process.sLastDisplaySize = LoopStatics.init.displaySize then .delivered else .forgotten
  else if s.process.sLastDisplaySize = s.server.displaySize then .delivered
  else if s.fate = .delivered then .lost
  else s.fate

/-- A size that differs from the noted one is sent, or refused and noted all the same. -/
def fateAfterTick (s : SizeRun) (sizeSent : Bool) : NoteFate :=
  if s.process.statics.sDrawData.isNone then s.fate
  else if s.process.sLastDisplaySize = s.window then s.fate
  else if sizeSent then .delivered
  else if s.window = s.settledSize then .delivered
  else .refused

/-- A packet of an earlier connection counts if it has a size and none is in flight. -/
def fateAfterLate (s : SizeRun) (packet : ClientPacket) : NoteFate :=
  match sizeIn packet with
  | none => s.fate
  | some displaySize =>
    if s.inFlight.filterMap sizeIn ≠ [] then s.fate
    else if displaySize = s.process.sLastDisplaySize then .delivered
    else .replaced

/-! ### The step -/

/-- A new connection: what was in flight on the old one may still come, unless the server was
    restarted. -/
def reconnect (s : SizeRun) (restarted : Bool) : SizeRun :=
  { s with
    mState := .connecting
    server := if restarted then LoopStatics.init else s.server
    inFlight := []
    earlier := if restarted then [] else s.earlier ++ [s.inFlight]
    ticked := false
    fate := s.fateAfterReconnect restarted }

/-- A send that fails sets `mState` to `State_NoSocket`; the rest of `updateNetworkInput` runs all
    the same.  Without a window it returns at once, and no send fails. -/
def tick (s : SizeRun) (sizeSent othersSent : Bool) : SizeRun :=
  let (process, packets) := updateNetworkInput s.window s.process
  let allSent := s.process.statics.sDrawData.isNone ||
    ((packets.isEmpty || sizeSent) && othersSent)
  { s with
    process := process
    inFlight := s.inFlight ++ if sizeSent then packets else []
    mState := if allSent then s.mState else .noSocket
    ticked := s.ticked || (decide (s.mState ≠ .noSocket) && allSent)
    fate := s.fateAfterTick sizeSent }

/-- One event. -/
def step (s : SizeRun) : SizeEvent → Option SizeRun
  | .reconnect restarted => if s.mState = .noSocket then some (s.reconnect restarted) else none
  | .lose => some { s with mState := .noSocket }
  | .drawData prev data =>
    some { s with process := { s.process with statics := ⟨some prev, some data⟩ } }
  | .resize windowSize => some { s with window := windowSize, ticked := false }
  | .tick sizeSent othersSent => some (s.tick sizeSent othersSent)
  | .handle =>
    match s.inFlight with
    | [] => none
    | packet :: rest =>
      some { s with inFlight := rest, server := Server.handlePacket s.server packet }
  | .handleEarlier i =>
    match s.earlier[i]? with
    | some (packet :: rest) =>
      some { s with
        earlier := s.earlier.set i rest
        server := Server.handlePacket s.server packet
        fate := s.fateAfterLate packet }
    | _ => none

/-! ## The packets of the connection are handled

  The statement is about the state with the packets of the connection handled, so it is `settle`
  that counts: it ends with the last size on the way, or else with the size the server has. -/

theorem run_handle (s : SizeRun) :
    run step s (List.replicate s.inFlight.length .handle) = some s.settle := by
  refine run_drain (fun s hs => ?_) (fun s packet rest hs => ?_) s.inFlight s rfl
  · cases s
    cases hs
    rfl
  · refine ⟨{ s with inFlight := rest, server := Server.handlePacket s.server packet }, ?_, rfl, ?_⟩
    · rw [step, hs]
    · rw [settle, settle, hs, List.foldl_cons]

/-- The last size among the packets counts. -/
theorem displaySize_foldl (packets : List ClientPacket) : ∀ st : LoopStatics,
    (packets.foldl Server.handlePacket st).displaySize =
      ((packets.filterMap sizeIn).getLast?).getD st.displaySize := by
  induction packets with
  | nil => exact fun _ => rfl
  | cons packet rest ih =>
    intro st
    rw [List.foldl_cons, ih]
    cases packet with
    | hello => rfl
    | updateMouse => rfl
    | updateDisplaySize displaySize =>
      rw [List.filterMap_cons_some (f := sizeIn) rfl, List.getLast?_cons, Option.getD_some]
      rfl

/-- The size behind the packets in flight is the last one among them. -/
theorem settledSize_eq (s : SizeRun) :
    s.settledSize = ((s.inFlight.filterMap sizeIn).getLast?).getD s.server.displaySize :=
  displaySize_foldl s.inFlight s.server

/-- A late packet without a size, or with a size of this connection behind it, changes nothing;
    otherwise its size is the server's. -/
theorem settledSize_late (s : SizeRun) (packet : ClientPacket) (earlier : List (List ClientPacket))
    (fate : NoteFate) :
    settledSize { s with
        earlier := earlier, server := Server.handlePacket s.server packet, fate := fate } =
      match sizeIn packet with
      | none => s.settledSize
      | some displaySize =>
        if s.inFlight.filterMap sizeIn ≠ [] then s.settledSize else displaySize := by
  rw [settledSize_eq, settledSize_eq]
  dsimp only
  cases packet with
  | hello => rfl
  | updateMouse => rfl
  | updateDisplaySize displaySize =>
    show _ = if _ then _ else _
    split
    next hne =>
      obtain ⟨size, hsize⟩ := Option.ne_none_iff_exists'.mp
        (mt List.getLast?_eq_none_iff.mp hne)
      rw [hsize]
      rfl
    next hnil =>
      rw [not_not] at hnil
      rw [hnil]
      rfl

/-- After a tick, with the packets in flight handled, the server has the client's display size. -/
def SizeAgrees (s : SizeRun) : Prop :=
  s.ticked = true → s.settledSize = s.process.displaySize

instance (s : SizeRun) : Decidable s.SizeAgrees := by
  unfold SizeAgrees
  infer_instance

/-! ## What the fate says

  The invariant (`Tracked`) says of the fate that it is `delivered` iff the settled size is the
  noted one.  There is a lemma for each event that could break it, and `Tracked.step` puts them
  together. -/

/-- No size has left the desktop: the note and `io.DisplaySize` are those of the start (or those of
    a window of size 0x0), and the server has its own. -/
structure Unsent (s : SizeRun) : Prop where
  noted : s.process.sLastDisplaySize = ⟨0, 0⟩
  shown : s.process.displaySize = ⟨-1, -1⟩ ∨ s.process.displaySize = ⟨0, 0⟩
  server : s.server.displaySize = LoopStatics.init.displaySize
  inFlight : s.inFlight = []
  earlier : ∀ packets ∈ s.earlier, packets = []

/-- The server has the noted size exactly if it was delivered, and the noted size is the client's
    once one was sent. -/
structure Tracked (s : SizeRun) : Prop where
  delivered_iff : s.fate = .delivered ↔ s.process.sLastDisplaySize = s.settledSize
  noted : s.fate ≠ .unsent → s.process.displaySize = s.process.sLastDisplaySize
  unsent : s.fate = .unsent → s.Unsent

/-- At the start nothing was noted. -/
theorem tracked_init : Tracked init where
  delivered_iff := by decide +kernel
  noted := fun h => absurd rfl h
  unsent := fun _ => ⟨rfl, Or.inl rfl, rfl, rfl, fun _ h => absurd h List.not_mem_nil⟩

section Step

variable {s s' : SizeRun}

theorem Unsent.settledSize_eq (h : s.Unsent) : s.settledSize = LoopStatics.init.displaySize := by
  rw [settledSize, settle, h.inFlight]
  exact h.server

/-- Only `start` gives packets up. -/
theorem Tracked.reconnect (h : Tracked s) (restarted : Bool) : Tracked (s.reconnect restarted) := by
  by_cases hunsent : s.fate = .unsent
  · obtain ⟨hnoted, hshown, hserver, hflight, hearlier⟩ := h.unsent hunsent
    -- nothing has been sent yet, so there is no packet to give up
    have hfate : s.fateAfterReconnect restarted = .unsent := by
      rw [fateAfterReconnect, if_pos hunsent]
    have hafter : (s.reconnect restarted).server.displaySize = LoopStatics.init.displaySize := by
      rw [SizeRun.reconnect]
      cases restarted with
      | true => rfl
      | false => exact hserver
    refine ⟨?_, fun hne => absurd hfate hne, fun _ => ⟨hnoted, hshown, hafter, rfl, ?_⟩⟩
    · show s.fateAfterReconnect restarted = _ ↔
        s.process.sLastDisplaySize = (s.reconnect restarted).server.displaySize
      rw [hfate, hafter, hnoted]
      decide +kernel
    · intro packets hmem
      cases restarted with
      | true => exact absurd hmem List.not_mem_nil
      | false =>
        rcases List.mem_append.mp hmem with hold | hnew
        · exact hearlier packets hold
        · rw [List.mem_singleton.mp hnew, hflight]
  · have hsize : (s.reconnect restarted).settledSize =
        if restarted then LoopStatics.init.displaySize else s.server.displaySize := by
      cases restarted with
      | true => rfl
      | false => rfl
    refine ⟨?_, fun _ => h.noted hunsent, fun hfate => ?_⟩
    · show s.fateAfterReconnect restarted = _ ↔ s.process.sLastDisplaySize = _
      rw [hsize, fateAfterReconnect, if_neg hunsent]
      grind
    · replace hfate : s.fateAfterReconnect restarted = .unsent := hfate
      rw [fateAfterReconnect, if_neg hunsent] at hfate
      grind

theorem eq_of_xy {a b : ImVec2} (hx : a.x = b.x) (hy : a.y = b.y) : a = b :=
  congrArg₂ ImVec2.mk hx hy

/-- `updateNetworkInput` with an open window. -/
theorem updateNetworkInput_of_open (hopen : ¬s.process.statics.sDrawData.isNone) :
    updateNetworkInput s.window s.process =
      ({ s.process with displaySize := s.window, sLastDisplaySize := s.window },
        if s.process.sLastDisplaySize = s.window then [] else [.updateDisplaySize s.window]) := by
  rw [updateNetworkInput, if_neg hopen, Prod.mk.injEq]
  refine ⟨rfl, ?_⟩
  by_cases hlast : s.process.sLastDisplaySize = s.window
  · rw [if_pos hlast, hlast, if_neg (by simp)]
  · rw [if_neg hlast, if_pos]
    by_contra hsame
    rw [not_or, not_not, not_not] at hsame
    exact hlast (eq_of_xy hsame.1 hsame.2)

/-- Without a window a tick changes no size. -/
theorem Tracked.tick_of_closed (h : Tracked s) (hclosed : s.process.statics.sDrawData.isNone)
    (sizeSent othersSent : Bool) : Tracked (s.tick sizeSent othersSent) := by
  have hfate : (s.tick sizeSent othersSent).fate = s.fate := if_pos hclosed
  have hprocess : (s.tick sizeSent othersSent).process = s.process := by
    rw [tick, updateNetworkInput, if_pos hclosed]
  have hflight : (s.tick sizeSent othersSent).inFlight = s.inFlight := by
    rw [tick, updateNetworkInput, if_pos hclosed]
    cases sizeSent with
    | true => exact List.append_nil _
    | false => exact List.append_nil _
  have hsize : (s.tick sizeSent othersSent).settledSize = s.settledSize := by
    rw [settledSize_eq, settledSize_eq, hflight]
    rfl
  refine ⟨?_, ?_, fun hunsent => ?_⟩
  · rw [hfate, hprocess, hsize]
    exact h.delivered_iff
  · rw [hfate, hprocess]
    exact h.noted
  · rw [hfate] at hunsent
    obtain ⟨hnoted, hshown, hserver, hnone, hearlier⟩ := h.unsent hunsent
    exact ⟨by rw [hprocess]; exact hnoted, by rw [hprocess]; exact hshown, hserver,
      hflight.trans hnone, hearlier⟩

theorem Tracked.tick_of_open (h : Tracked s) (hopen : ¬s.process.statics.sDrawData.isNone)
    (sizeSent othersSent : Bool) : Tracked (s.tick sizeSent othersSent) := by
  have hprocess : (s.tick sizeSent othersSent).process =
      { s.process with displaySize := s.window, sLastDisplaySize := s.window } := by
    rw [tick, updateNetworkInput_of_open hopen]
  have hfate : (s.tick sizeSent othersSent).fate =
      if s.process.sLastDisplaySize = s.window then s.fate
      else if sizeSent then .delivered
      else if s.window = s.settledSize then .delivered else .refused := if_neg hopen
  have hflight : (s.tick sizeSent othersSent).inFlight = s.inFlight ++
      if sizeSent then
        if s.process.sLastDisplaySize = s.window then [] else [.updateDisplaySize s.window]
      else [] := by
    rw [tick, updateNetworkInput_of_open hopen]
  by_cases hlast : s.process.sLastDisplaySize = s.window
  · -- nothing is sent
    rw [if_pos hlast] at hfate
    rw [if_pos hlast, ite_self, List.append_nil] at hflight
    have hsize : (s.tick sizeSent othersSent).settledSize = s.settledSize := by
      rw [settledSize_eq, settledSize_eq, hflight]
      rfl
    refine ⟨?_, fun _ => by rw [hprocess], fun hunsent => ?_⟩
    · rw [hfate, hprocess, hsize, h.delivered_iff, hlast]
    · rw [hfate] at hunsent
      obtain ⟨hnoted, -, hserver, hnone, hearlier⟩ := h.unsent hunsent
      have hwindow : s.window = ⟨0, 0⟩ := hlast.symm.trans hnoted
      exact ⟨by rw [hprocess]; exact hwindow, by rw [hprocess]; exact Or.inr hwindow, hserver,
        hflight.trans hnone, hearlier⟩
  · rw [if_neg hlast] at hfate
    rw [if_neg hlast] at hflight
    have hsize : (s.tick sizeSent othersSent).settledSize =
        if sizeSent then s.window else s.settledSize := by
      rw [settledSize_eq, settledSize_eq, hflight]
      cases sizeSent with
      | true =>
        rw [if_pos rfl, if_pos rfl, List.filterMap_append]
        show ((s.inFlight.filterMap sizeIn ++ [s.window]).getLast?).getD _ = _
        rw [List.getLast?_concat, Option.getD_some]
      | false =>
        rw [if_neg Bool.false_ne_true, if_neg Bool.false_ne_true, List.append_nil]
        rfl
    refine ⟨?_, fun _ => by rw [hprocess], fun hunsent => ?_⟩
    · rw [hfate, hprocess, hsize]
      grind
    · rw [hfate] at hunsent
      grind

/-- A packet of an earlier connection comes late: the fate says so, if it is a size. -/
theorem Tracked.late (h : Tracked s) {i : Nat} {packet : ClientPacket} {rest : List ClientPacket}
    (hearlier : s.earlier[i]? = some (packet :: rest)) :
    Tracked { s with
      earlier := s.earlier.set i rest
      server := Server.handlePacket s.server packet
      fate := s.fateAfterLate packet } := by
  -- something was sent before
  have hsent : s.fate ≠ .unsent := fun hunsent =>
    absurd ((h.unsent hunsent).earlier _ (List.mem_of_getElem? hearlier)) (List.cons_ne_nil _ _)
  have hdelivered := h.delivered_iff
  refine ⟨?_, fun _ => h.noted hsent, fun hunsent => ?_⟩
  · rw [settledSize_late]
    show s.fateAfterLate packet = _ ↔ s.process.sLastDisplaySize = _
    rw [fateAfterLate]
    cases sizeIn packet with
    | none => exact hdelivered
    | some displaySize =>
      dsimp only
      split
      · exact hdelivered
      · grind
  · replace hunsent : s.fateAfterLate packet = .unsent := hunsent
    rw [fateAfterLate] at hunsent
    cases hsize : sizeIn packet with
    | none =>
      rw [hsize] at hunsent
      exact absurd hunsent hsent
    | some displaySize =>
      rw [hsize] at hunsent
      grind

/-- Every step keeps track of the noted size. -/
theorem Tracked.step {e : SizeEvent} (h : Tracked s) (hstep : s.step e = some s') :
    Tracked s' := by
  cases e with
  | reconnect restarted =>
    rw [SizeRun.step] at hstep
    split at hstep
    next =>
      rw [Option.some.injEq] at hstep
      subst hstep
      exact h.reconnect restarted
    next => exact absurd hstep.symm (Option.some_ne_none s')
  | lose =>
    rw [SizeRun.step, Option.some.injEq] at hstep
    subst hstep
    exact ⟨h.delivered_iff, h.noted, fun hunsent => { h.unsent hunsent with }⟩
  | drawData prev data =>
    rw [SizeRun.step, Option.some.injEq] at hstep
    subst hstep
    exact ⟨h.delivered_iff, h.noted, fun hunsent => { h.unsent hunsent with }⟩
  | resize windowSize =>
    rw [SizeRun.step, Option.some.injEq] at hstep
    subst hstep
    exact ⟨h.delivered_iff, h.noted, fun hunsent => { h.unsent hunsent with }⟩
  | tick sizeSent othersSent =>
    rw [SizeRun.step, Option.some.injEq] at hstep
    subst hstep
    by_cases hopen : s.process.statics.sDrawData.isNone
    · exact h.tick_of_closed hopen sizeSent othersSent
    · exact h.tick_of_open hopen sizeSent othersSent
  | handle =>
    rw [SizeRun.step] at hstep
    split at hstep
    next => exact absurd hstep.symm (Option.some_ne_none s')
    next packet rest hflight =>
      rw [Option.some.injEq] at hstep
      subst hstep
      -- the packet handled is the first of those the settled size counts in anyway
      have hsize : settledSize { s with
          inFlight := rest, server := Server.handlePacket s.server packet } = s.settledSize := by
        rw [settledSize, settledSize, settle, settle, hflight, List.foldl_cons]
      refine ⟨?_, h.noted, fun hunsent => ?_⟩
      · rw [hsize]
        exact h.delivered_iff
      · -- nothing is in flight before the first tick
        exact absurd (hflight.symm.trans (h.unsent hunsent).inFlight) (List.cons_ne_nil _ _)
  | handleEarlier i =>
    rw [SizeRun.step] at hstep
    split at hstep
    next packet rest hearlier =>
      rw [Option.some.injEq] at hstep
      subst hstep
      exact h.late hearlier
    next => exact absurd hstep.symm (Option.some_ne_none s')

/-- In a state that is tracked the two sizes are the same iff the noted one was delivered. -/
theorem Tracked.settled_iff (h : Tracked s) :
    s.settledSize = s.process.displaySize ↔ s.fate = .delivered := by
  by_cases hunsent : s.fate = .unsent
  · have hnot : ¬s.settledSize = s.process.displaySize := by
      rw [(h.unsent hunsent).settledSize_eq]
      rcases (h.unsent hunsent).shown with hshown | hshown
      · rw [hshown]
        decide +kernel
      · rw [hshown]
        decide +kernel
    exact ⟨fun heq => absurd heq hnot, fun hfate => by rw [hunsent] at hfate; cases hfate⟩
  · rw [h.delivered_iff, h.noted hunsent]
    exact eq_comm

end Step

/-- **The display sizes agree.**  In every state of every run of the desktop: if a tick has
    completed on the current connection and the window was not resized since, then with the packets
    in flight handled the server's display size is the client's, iff the size noted last was
    delivered. -/
theorem sizeAgrees_iff_delivered (es : List SizeEvent) {s : SizeRun}
    (hrun : run step init es = some s) :
    SizeAgrees s ↔ (s.ticked = true → s.fate = .delivered) := by
  have htracked : Tracked s := 
    run_invariant (fun _ _ _ h hstep => h.step hstep) es tracked_init hrun
  exact forall_congr' fun _ => htracked.settled_iff

/-- A size is sent and handled, and the connection is lost. -/
def sentAndLost : List SizeEvent :=
  [.reconnect false, .drawData [] ⟨0, 0, []⟩, .resize ⟨640, 360⟩, .tick true true, .handle, .lose]

/-- Connected again to the same server, which has the size: nothing has to be sent. -/
theorem sizeAgrees_sameServer : ∃ s,
    run step init (sentAndLost ++ [.reconnect false, .tick true true]) = some s ∧
      s.ticked = true ∧ SizeAgrees s := by
  have hrun : (run step init (sentAndLost ++ [.reconnect false, .tick true true])).map (fun t =>
      (t.ticked, t.fate)) = some (true, .delivered) := by
    decide +kernel
  obtain ⟨s, hs, hrun⟩ := Option.map_eq_some_iff.mp hrun
  obtain ⟨hticked, hfate⟩ := Prod.mk.inj hrun
  exact ⟨s, hs, hticked, (sizeAgrees_iff_delivered _ hs).mpr fun _ => hfate⟩

/-- Connected to a restarted server, the next tick sends nothing and the server goes on with
    1280x720.  Before the first draw data, `io.DisplaySize` is not even that of the window. -/
theorem not_sizeAgrees_restarted :
    (∃ s, run step init (sentAndLost ++ [.reconnect true, .tick true true]) = some s ∧
      s.settledSize = ⟨1280, 720⟩ ∧ s.process.displaySize = ⟨640, 360⟩ ∧ ¬SizeAgrees s) ∧
    (∃ s, run step init [.reconnect false, .tick true true] = some s ∧
      s.settledSize = ⟨1280, 720⟩ ∧ s.process.displaySize = ⟨-1, -1⟩ ∧ ¬SizeAgrees s) := by
  have hrestarted : (run step init (sentAndLost ++ [.reconnect true, .tick true true])).map (fun t =>
      decide (t.settledSize = ⟨1280, 720⟩ ∧ t.process.displaySize = ⟨640, 360⟩ ∧ ¬SizeAgrees t)) =
        some true := by
    decide +kernel
  have hearly : (run step init [.reconnect false, .tick true true]).map (fun t =>
      decide (t.settledSize = ⟨1280, 720⟩ ∧ t.process.displaySize = ⟨-1, -1⟩ ∧ ¬SizeAgrees t)) =
        some true := by
    decide +kernel
  obtain ⟨s, hs, hsizes⟩ := Option.map_eq_some_iff.mp hrestarted
  obtain ⟨t, ht, htsizes⟩ := Option.map_eq_some_iff.mp hearly
  exact ⟨⟨s, hs, of_decide_eq_true hsizes⟩, ⟨t, ht, of_decide_eq_true htsizes⟩⟩

end SizeRun

end Nxdb
