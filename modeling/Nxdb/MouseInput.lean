/-
  Mouse buttons: what the server holds down, and what the client does.

  Every mouse event of the desktop goes through `sendMouseEvent`, which returns early when the
  cursor is outside the display (`sendKeyEvent` sends every event).  So the server sees the strokes
  made inside, in order: `Sync`.  `agrees_along_iff` says what that costs: the two sides agree in
  every state of a run iff no button that was last pressed inside is released outside.

  1. Program: `sendMouseEvent` and its three callers on the desktop, and `handlePacket` of the
     sysmodule.
  2. Property: `ButtonsAgree`, once the packets in flight have been handled (`settle`); condition:
     `ReleasedInside`.
  3. A press and a release are a `Stroke`, and what is held is a function of the strokes.  `Sync`
     holds in every run: sent and handled strokes are those made inside.
  4. So the rest is about two lists of strokes, one of them a part of the other
     (`held_append_iff`).
-/
import Nxdb.ImGui
import Nxdb.Lib.Run

namespace Nxdb

open Lib

/-! ## Presses and releases

  The library of this module: two observers of one list of strokes, of which the second misses some.
  It holds no more than the first iff what it misses is never a release of what it holds
  (`held_append_iff`). -/

/-- A button goes down, or comes up. -/
structure Stroke where
  button : Int32
  pressed : Bool
deriving DecidableEq

/-- The last stroke of the button is a press. -/
def held (button : Int32) (strokes : List Stroke) : Bool :=
  strokes.foldl (fun down s => if s.button = button then s.pressed else down) false

/-- The last stroke of a button says whether it is held. -/
theorem held_append (button : Int32) (strokes : List Stroke) (s : Stroke) :
    held button (strokes ++ [s]) = if s.button = button then s.pressed else held button strokes := by
  rw [held, List.foldl_append, List.foldl_cons, List.foldl_nil, held]

/-- A stroke that both sides see, or only the first one: the second goes on holding no more buttons
    than the first iff the stroke it does not see is no release of a button it holds. -/
theorem held_append_iff {client server : List Stroke} {hidden : Prop} [Decidable hidden]
    (h : ∀ button, held button server = true → held button client = true) (s : Stroke) :
    (∀ button, held button (server ++ if hidden then [] else [s]) = true →
      held button (client ++ [s]) = true) ↔
    (s.pressed = false → held s.button server = true → ¬hidden) := by
  by_cases hhidden : hidden
  · rw [if_pos hhidden, List.append_nil]
    constructor
    · intro hall hreleased hheld
      have hclient := hall s.button hheld
      rw [held_append, if_pos rfl, hreleased] at hclient
      exact Bool.noConfusion hclient
    · intro hno button hheld
      rw [held_append]
      split
      next hbutton =>
        subst hbutton
        cases hpressed : s.pressed with
        | false => exact absurd hhidden (hno hpressed hheld)
        | true => rfl
      next => exact h button hheld
  · rw [if_neg hhidden]
    refine ⟨fun _ _ _ => hhidden, fun _ button hheld => ?_⟩
    rw [held_append] at hheld ⊢
    split at hheld
    next hbutton => rwa [if_pos hbutton]
    next hbutton =>
      rw [if_neg hbutton]
      exact h button hheld

/-! ## The code

  A packet is the event as it was made; what the server adds to its input events for it is
  `addMouseEvents`.  The calls of `mouseButtonCallback` are kept beside the state to say what the
  user has done. -/

/-- `MouseEvent` of `common.h`. -/
structure MouseEvent where
  pos : ImVec2
  button : Int32
  pressed : Bool
  wheelX : ℚ
  wheelY : ℚ
deriving DecidableEq

/-- The condition of the early return of `sendMouseEvent`. -/
def Outside (displaySize cursorPos : ImVec2) : Prop :=
  cursorPos.x < 0 ∨ cursorPos.y < 0 ∨ cursorPos.x > displaySize.x ∨ cursorPos.y > displaySize.y

instance (displaySize cursorPos : ImVec2) : Decidable (Outside displaySize cursorPos) := by
  unfold Outside
  infer_instance

/-- `sendMouseEvent`: the packets it sends, `displaySize` being `io.DisplaySize`. -/
def sendMouseEvent (displaySize cursorPos : ImVec2) (button : Int32 := -1)
    (pressed : Bool := false) (wheelX : ℚ := 0) (wheelY : ℚ := 0) : List MouseEvent :=
  let packet : MouseEvent := ⟨cursorPos, button, pressed, wheelX, wheelY⟩
  if Outside displaySize cursorPos then [] else [packet]

/-- The input events of the server's `ImGuiIO`. -/
inductive InputEvent where
  | mousePos (x y : ℚ)
  | mouseWheel (x y : ℚ)
  | mouseButton (button : Int32) (down : Bool)
deriving DecidableEq

/-- What `Client::handlePacket` of the server adds to them for an `UpdateMouse` packet.  That it
    queues a rerender, too, is in `Server.handlePacket`. -/
def addMouseEvents (packet : MouseEvent) : List InputEvent :=
  .mousePos packet.pos.x packet.pos.y ::
    ((if packet.wheelX ≠ 0 ∨ packet.wheelY ≠ 0 then [.mouseWheel packet.wheelX packet.wheelY]
      else [])
    ++ if packet.button ≠ -1 then [.mouseButton packet.button packet.pressed] else [])

/-- A call of `mouseButtonCallback`, and whether the cursor was inside the display. -/
structure ButtonCall extends Stroke where
  inside : Bool
deriving DecidableEq

/-- A desktop with its window open, its connection, and the server's input events, oldest first.
    No code reads the calls of `mouseButtonCallback`. -/
structure MouseRun where
  cursorPos : ImVec2
  displaySize : ImVec2
  sLastCursorPos : ImVec2
  inFlight : List MouseEvent
  io : List InputEvent
  calls : List ButtonCall

/-- The cursor moves, a button or the wheel is used, `updateNetworkInput` runs (behind
    `glfwPollEvents`) with a window of the given size, or the server handles the next packet. -/
inductive MouseAction where
  | move (cursorPos : ImVec2)
  | button (button : Int32) (pressed : Bool)
  | scroll (xoffset yoffset : ℚ)
  | tick (windowSize : ImVec2)
  | handle

namespace MouseRun

/-- Nothing is pressed, and nothing on its way. -/
def init (displaySize cursorPos : ImVec2) : MouseRun := ⟨cursorPos, displaySize, ⟨0, 0⟩, [], [], []⟩

/-- `mouseButtonCallback`: the position is the cursor's. -/
def mouseButtonCallback (s : MouseRun) (button : Int32) (pressed : Bool) : MouseRun :=
  { s with
    inFlight := s.inFlight ++ sendMouseEvent s.displaySize s.cursorPos button pressed
    calls := s.calls ++ [⟨⟨button, pressed⟩, decide (¬Outside s.displaySize s.cursorPos)⟩] }

/-- `mouseScrollCallback`: an event of no button. -/
def mouseScrollCallback (s : MouseRun) (xoffset yoffset : ℚ) : MouseRun :=
  { s with
    inFlight := s.inFlight ++ sendMouseEvent s.displaySize s.cursorPos (-1) false xoffset yoffset }

/-- `updateNetworkInput`, as far as it is about the mouse. -/
def updateNetworkInput (s : MouseRun) (windowSize : ImVec2) : MouseRun :=
  { s with
    displaySize := windowSize
    sLastCursorPos := s.cursorPos
    inFlight := s.inFlight ++
      if s.sLastCursorPos.x ≠ s.cursorPos.x ∨ s.sLastCursorPos.y ≠ s.cursorPos.y then
        sendMouseEvent windowSize s.cursorPos
      else [] }

/-- GLFW numbers the buttons from zero. -/
def step (s : MouseRun) : MouseAction → Option MouseRun
  | .move cursorPos => some { s with cursorPos := cursorPos }
  | .button button pressed =>
    if 0 ≤ button then some (s.mouseButtonCallback button pressed) else none
  | .scroll xoffset yoffset => some (s.mouseScrollCallback xoffset yoffset)
  | .tick windowSize => some (s.updateNetworkInput windowSize)
  | .handle =>
    match s.inFlight with
    | [] => none
    | packet :: rest => some { s with inFlight := rest, io := s.io ++ addMouseEvents packet }

/-! ## The strokes of both sides

  Both sides are compared by their strokes alone, the server's with all packets in flight
  handled. -/

/-- The stroke in an input event. -/
def strokeOf : InputEvent → Option Stroke
  | .mouseButton button down => some ⟨button, down⟩
  | _ => none

/-- The strokes the server has seen, by its calls of `AddMouseButtonEvent`. -/
def serverStrokes (s : MouseRun) : List Stroke := s.io.filterMap strokeOf

/-- The strokes the client has seen. -/
def clientStrokes (s : MouseRun) : List Stroke := s.calls.map ButtonCall.toStroke

/-- Those made inside the display. -/
def strokesInside (s : MouseRun) : List Stroke :=
  (s.calls.filter ButtonCall.inside).map ButtonCall.toStroke

/-- All packets in flight delivered and handled. -/
def settle (s : MouseRun) : MouseRun :=
  { s with inFlight := [], io := s.io ++ s.inFlight.flatMap addMouseEvents }

theorem run_handle (s : MouseRun) :
    run step s (List.replicate s.inFlight.length .handle) = some s.settle := by
  refine run_drain (fun s hs => ?_) (fun s packet rest hs => ?_) s.inFlight s rfl
  · cases s
    cases hs
    rw [settle, List.flatMap_nil, List.append_nil]
  · refine ⟨{ s with inFlight := rest, io := s.io ++ addMouseEvents packet }, ?_, rfl, ?_⟩
    · rw [step, hs]
    · rw [settle, settle, hs, List.flatMap_cons, List.append_assoc]

/-- Once everything is handled, the server holds only buttons the client holds. -/
def ButtonsAgree (s : MouseRun) : Prop :=
  ∀ button, held button s.settle.serverStrokes = true → held button s.clientStrokes = true

/-! ## The server sees the strokes made inside

  `step_cases` says once what an action does to the strokes: a button adds one, and nothing else
  does.  The invariant follows, and with it the law of one step, to which the lemma on observers
  applies. -/

/-- The strokes among the input events of a packet. -/
def packetStrokes (packet : MouseEvent) : List Stroke :=
  if packet.button ≠ -1 then [⟨packet.button, packet.pressed⟩] else []

theorem strokes_addMouseEvents (packet : MouseEvent) :
    (addMouseEvents packet).filterMap strokeOf = packetStrokes packet := by
  rw [addMouseEvents, List.filterMap_cons_none rfl, List.filterMap_append, packetStrokes]
  have hwheel : (if packet.wheelX ≠ 0 ∨ packet.wheelY ≠ 0 then
      [InputEvent.mouseWheel packet.wheelX packet.wheelY] else []).filterMap strokeOf = [] := by
    split
    · rfl
    · rfl
  rw [hwheel, List.nil_append]
  split
  · rfl
  · rfl

theorem serverStrokes_settle (s : MouseRun) : s.settle.serverStrokes =
    s.serverStrokes ++ s.inFlight.flatMap packetStrokes := by
  rw [serverStrokes, serverStrokes, settle, List.filterMap_append, List.filterMap_flatMap]
  exact congrArg _ (congrArg (List.flatMap · s.inFlight) (funext strokes_addMouseEvents))

/-- A packet without a button carries no stroke. -/
theorem strokes_sendMouseEvent_pos (displaySize cursorPos : ImVec2) (wheelX wheelY : ℚ) :
    (sendMouseEvent displaySize cursorPos (-1) false wheelX wheelY).flatMap packetStrokes = [] := by
  rw [sendMouseEvent]
  split
  · rfl
  · rfl

/-- A stroke is sent, unless it is made outside. -/
theorem strokes_sendMouseEvent {displaySize cursorPos : ImVec2} {button : Int32} {pressed : Bool}
    (hbutton : button ≠ -1) :
    (sendMouseEvent displaySize cursorPos button pressed).flatMap packetStrokes =
      if Outside displaySize cursorPos then [] else [⟨button, pressed⟩] := by
  rw [sendMouseEvent]
  split
  · rfl
  · rw [List.flatMap_singleton, packetStrokes, if_pos hbutton]

/-- What the server has seen, and will see, are the strokes made inside. -/
def Sync (s : MouseRun) : Prop := s.settle.serverStrokes = s.strokesInside

section Step

variable {s s' : MouseRun} {a : MouseAction}

/-- **What a step does to the strokes**: a call of `mouseButtonCallback` adds one, nothing else
    does. -/
theorem step_cases (h : s.step a = some s') :
    (∃ button pressed, a = .button button pressed ∧
      s'.clientStrokes = s.clientStrokes ++ [⟨button, pressed⟩] ∧
      s'.inFlight = s.inFlight ++ sendMouseEvent s.displaySize s.cursorPos button pressed ∧
      s'.strokesInside = s.strokesInside ++
        (if Outside s.displaySize s.cursorPos then [] else [⟨button, pressed⟩]) ∧
      s'.settle.serverStrokes = s.settle.serverStrokes ++
        (if Outside s.displaySize s.cursorPos then [] else [⟨button, pressed⟩])) ∨
    ((∀ button pressed, a ≠ .button button pressed) ∧ s'.calls = s.calls ∧
      s'.settle.serverStrokes = s.settle.serverStrokes) := by
  simp only [serverStrokes_settle]
  cases a with
  | move cursorPos =>
    rw [step, Option.some.injEq] at h
    subst h
    exact Or.inr ⟨fun _ _ => MouseAction.noConfusion, rfl, rfl⟩
  | button button pressed =>
    rw [step] at h
    split at h
    next hbutton =>
      rw [Option.some.injEq] at h
      subst h
      -- `-1` stands for no button, and GLFW does not use it
      have hne : button ≠ -1 := by
        rintro rfl
        exact absurd hbutton (by decide)
      refine Or.inl ⟨button, pressed, rfl, List.map_append, rfl, ?_, ?_⟩
      · rw [strokesInside, mouseButtonCallback, List.filter_append, List.map_append, strokesInside]
        by_cases hout : Outside s.displaySize s.cursorPos
        · simp [hout]
        · simp [hout]
      · rw [mouseButtonCallback, List.flatMap_append, strokes_sendMouseEvent hne,
          ← List.append_assoc]
        rfl
    next => exact absurd h.symm (Option.some_ne_none s')
  | scroll xoffset yoffset =>
    rw [step, Option.some.injEq] at h
    subst h
    refine Or.inr ⟨fun _ _ => MouseAction.noConfusion, rfl, ?_⟩
    rw [mouseScrollCallback, List.flatMap_append, strokes_sendMouseEvent_pos, List.append_nil]
    rfl
  | tick windowSize =>
    rw [step, Option.some.injEq] at h
    subst h
    refine Or.inr ⟨fun _ _ => MouseAction.noConfusion, rfl, ?_⟩
    -- a tick sends the size and a position, of which neither is a stroke
    rw [updateNetworkInput, List.flatMap_append]
    split
    · rw [strokes_sendMouseEvent_pos, List.append_nil]
      rfl
    · simp only [List.flatMap_nil, List.append_nil]
      rfl
  | handle =>
    rw [step] at h
    split at h
    next => exact absurd h.symm (Option.some_ne_none s')
    next packet rest hflight =>
      rw [Option.some.injEq] at h
      subst h
      refine Or.inr ⟨fun _ _ => MouseAction.noConfusion, rfl, ?_⟩
      -- a packet that is handled moves its strokes from the connection to the server
      rw [hflight, List.flatMap_cons, serverStrokes, List.filterMap_append, strokes_addMouseEvents,
        List.append_assoc]
      rfl

/-- **The step**: sent and handled strokes stay those made inside. -/
theorem Sync.step (h : s.Sync) (hstep : s.step a = some s') : s'.Sync := by
  rcases step_cases hstep with ⟨button, pressed, -, -, -, hinside, hserver⟩ | ⟨-, hcalls, hserver⟩
  · rw [Sync, hserver, hinside, h]
  · rw [Sync, hserver, h, strokesInside, strokesInside, hcalls]

/-- The two sides agree, and a release of a button the server holds, or will, is sent. -/
def Agrees (s : MouseRun) (a : MouseAction) (s' : MouseRun) : Prop :=
  s'.ButtonsAgree ∧
    ∀ button, a = .button button false → held button s.settle.serverStrokes = true →
      s'.inFlight = s.inFlight ++ [⟨s.cursorPos, button, false, 0, 0⟩]

/-- A button whose last stroke inside the display is a press is not released outside. -/
def ReleasedInside (s : MouseRun) (a : MouseAction) : Prop :=
  ∀ button, a = .button button false → held button s.strokesInside = true →
    ¬Outside s.displaySize s.cursorPos

/-- One step breaks the agreement iff it releases outside what was pressed inside. -/
theorem agrees_iff (hsync : s.Sync) (hagree : s.ButtonsAgree) (hstep : s.step a = some s') :
    Agrees s a s' ↔ ReleasedInside s a := by
  rw [Sync] at hsync
  rcases step_cases hstep with
    ⟨button, pressed, rfl, hclient, hsent, -, hserver⟩ | ⟨hother, hcalls, hserver⟩
  · rw [Agrees, ReleasedInside, ButtonsAgree, hclient, hserver, ← hsync,
      held_append_iff hagree ⟨button, pressed⟩]
    constructor
    · rintro ⟨hinside, -⟩ released hreleased
      obtain ⟨rfl, rfl⟩ := MouseAction.button.inj hreleased
      exact hinside rfl
    · intro hinside
      refine ⟨?_, fun released hreleased hheld => ?_⟩
      · rintro rfl
        exact hinside button rfl
      · obtain ⟨rfl, rfl⟩ := MouseAction.button.inj hreleased
        rw [hsent, sendMouseEvent, if_neg (hinside button rfl hheld)]
  · have hclient : s'.clientStrokes = s.clientStrokes := by
      rw [clientStrokes, clientStrokes, hcalls]
    constructor
    · exact fun _ button ha => absurd ha (hother button false)
    · refine fun _ => ⟨?_, fun button ha => absurd ha (hother button false)⟩
      rw [ButtonsAgree, hclient, hserver]
      exact hagree

end Step

/-- **The buttons agree.**  For every run, with any display size: once every packet in flight is
    handled, the server holds only buttons the client holds, and every release of a button the
    server holds is sent, if and only if no button is released outside the display that was last
    pressed inside. -/
theorem agrees_along_iff (displaySize cursorPos : ImVec2) (as : List MouseAction) :
    Along step Agrees (init displaySize cursorPos) as ↔
      Along step (fun s a _ => ReleasedInside s a) (init displaySize cursorPos) as :=
  along_iff (P := Agrees) (Q := fun s a _ => ReleasedInside s a)
    (fun s _ => s.Sync ∧ s.ButtonsAgree) (fun _ _ _ _ h hstep => agrees_iff h.1 h.2 hstep)
    (fun _ _ _ _ h hstep hq => ⟨h.1.step hstep, ((agrees_iff h.1 h.2 hstep).mpr hq).1⟩) as
    ⟨rfl, fun _ h => Bool.noConfusion h⟩

/-- The left button is pressed inside and released to the right of the window. -/
def draggedOut : List MouseAction := [.move ⟨600, 100⟩, .button 0 true, .handle, .move ⟨700, 100⟩]

/-- The server holds the button for good. -/
theorem not_agrees_draggedOut :
    (run step (init ⟨640, 360⟩ ⟨0, 0⟩) (draggedOut ++ [.button 0 false])).map (fun t =>
        (held 0 t.settle.serverStrokes, held 0 t.clientStrokes)) = some (true, false) ∧
    ¬Along step Agrees (init ⟨640, 360⟩ ⟨0, 0⟩) (draggedOut ++ [.button 0 false]) := by
  have hrun : (run step (init ⟨640, 360⟩ ⟨0, 0⟩) (draggedOut ++ [.button 0 false])).map (fun t =>
      (held 0 t.settle.serverStrokes, held 0 t.clientStrokes)) = some (true, false) := by
    decide +kernel
  refine ⟨hrun, fun h => ?_⟩
  obtain ⟨s, t, -, ht, hagree, -⟩ := Along.last draggedOut h
  rw [ht, Option.map_some, Option.some.injEq, Prod.mk.injEq] at hrun
  have hclient := hagree 0 hrun.1
  rw [hrun.2] at hclient
  exact absurd hclient (by decide)

end MouseRun

end Nxdb
