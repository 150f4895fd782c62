/-
  `NetworkInput.cpp` as a whole, down to the bytes and up to the calls of ImGui.

  An `InputRun` is the desktop with its keyboard, mouse, window and clipboard, the connection towards
  the sysmodule, and the calls the sysmodule has made.  `updateNetworkInput` and the callbacks hand
  packets to `sendPacketImpl`; the network brings their bytes in any pieces; the sysmodule's iterations
  handle what is there.

  Two things hold in every run:

  * `input_arrives`     the calls are those the packets are for, once and in order (`Delivers`);
  * `keyboard_agrees`   once everything is handled, they tell the state of the keyboard.

  Both go through `run_desktop`: what holds of the desktop and the packets it has sent, and is kept by
  its actions (`Acts`), holds in every run.

  A run is that of one desktop on one connection.  The connection is not lost, `send` accepts all it is
  given, and `recv` brings any of the bytes in flight, or none for now (`Pipe`).
-/
import Nxdb.InputBytes
import Nxdb.Keyboard

namespace Nxdb

open Lib Hash Sysmodule.Raw

/-! ## The desktop

  What the user and GLFW do are the actions; what the callbacks and `updateNetworkInput` do with it
  are the functions of the source.  A `float` that comes from GLFW is a value of one. -/

/-- The window and what GLFW reports, `io.DisplaySize`, and the static variables of
    `NetworkInput.cpp`. -/
structure DesktopInput where
  /-- `getGlfwWindow()` is not null. -/
  opened : Bool
  cursorPos : ImVec2
  keys : Keyboard
  clipboard : Option Text
  displaySize : ImVec2
  sLastDisplaySize : ImVec2
  sLastCursorPos : ImVec2
  sLastClipboardStringHash : UInt32

/-- What happens at the desktop: `run` sends `Hello` or `Alive`; the first draw data opens the window;
    the cursor moves, a button, the wheel or a key is used, a character is typed, the clipboard gets
    another content; and `updateNetworkInput` runs with a window of some size.  The paddings are what
    the memory of the packets happens to hold. -/
inductive DesktopAction where
  | hello
  | alive
  | openWindow
  | move (cursorPos : ImVec2)
  | button (button : Int32) (pressed : Bool) (padding : Vector UInt8 3)
  | scroll (xoffset yoffset : ℚ) (padding : Vector UInt8 3)
  | key (keycode : GlfwKey) (action : KeyAction) (padding : KeyPadding)
  | char (c : UInt32)
  | copy (clipboard : Option Text)
  | tick (windowSize : ImVec2) (padding : Vector UInt8 3)

namespace DesktopInput

/-- Before the window is there. -/
def init (clipboard : Option Text) : DesktopInput where
  opened := false
  cursorPos := ⟨0, 0⟩
  keys := fun _ => false
  clipboard := clipboard
  displaySize := ⟨-1, -1⟩
  sLastDisplaySize := ⟨0, 0⟩
  sLastCursorPos := ⟨0, 0⟩
  sLastClipboardStringHash := 0

section

variable (widen : Widen)

/-- The clipboard's part of `updateNetworkInput`: there is no length of a text that is not there. -/
def sendClipboard (s : DesktopInput) : Option (List DesktopPacket) :=
  if Clipboards.clipboardStringHash widen s.clipboard ≠ s.sLastClipboardStringHash then
    s.clipboard.map fun text =>
      if text.textSize ≤ maxTextSize then [.clipboardText text] else []
  else some []

/-- `updateNetworkInput`. -/
def updateNetworkInput (s : DesktopInput) (windowSize : ImVec2) (padding : Vector UInt8 3) :
    Option (DesktopInput × List DesktopPacket) :=
  if s.opened = false then some (s, [])
  else
    let sizes : List DesktopPacket :=
      if s.sLastDisplaySize.x ≠ windowSize.x ∨ s.sLastDisplaySize.y ≠ windowSize.y then
        [.displaySize windowSize]
      else []
    let positions : List DesktopPacket :=
      if s.sLastCursorPos.x ≠ s.cursorPos.x ∨ s.sLastCursorPos.y ≠ s.cursorPos.y then
        (sendMouseEvent windowSize s.cursorPos).map fun packet => .mouse packet padding
      else []
    (s.sendClipboard widen).map fun texts =>
      ({ s with
          displaySize := windowSize
          sLastDisplaySize := windowSize
          sLastCursorPos := s.cursorPos
          sLastClipboardStringHash := Clipboards.clipboardStringHash widen s.clipboard },
        sizes ++ (positions ++ texts))

end

variable (codes : KeyCodes) (widen : Widen)

/-- What an action leaves behind and sends.  The callbacks are set when the window is opened; what is
    converted to `float` is one. -/
def act (s : DesktopInput) : DesktopAction → Option (DesktopInput × List DesktopPacket)
  | .hello => some (s, [.hello])
  | .alive => some (s, [.alive])
  | .openWindow => some ({ s with opened := true }, [])
  | .move cursorPos => if cursorPos.IsFloat then some ({ s with cursorPos := cursorPos }, []) else none
  | .button button pressed padding =>
    if s.opened = true then
      some (s, (sendMouseEvent s.displaySize s.cursorPos button pressed).map
        fun packet => .mouse packet padding)
    else none
  | .scroll xoffset yoffset padding =>
    if s.opened = true ∧ IsFloat xoffset ∧ IsFloat yoffset then
      some (s, (sendMouseEvent s.displaySize s.cursorPos (-1) false xoffset yoffset).map
        fun packet => .mouse packet padding)
    else none
  | .key keycode action padding =>
    if s.opened = true then
      let keys := s.keys.stroke keycode action
      some ({ s with keys := keys }, (keyCallback codes keys keycode action).map
        fun packet => .key packet padding)
    else none
  | .char c => if s.opened = true then some (s, [.char c]) else none
  | .copy clipboard => some ({ s with clipboard := clipboard }, [])
  | .tick windowSize padding =>
    if windowSize.IsFloat then s.updateNetworkInput widen windowSize padding else none

end DesktopInput

/-! ## The connection and the sysmodule -/

/-- The desktop, the connection, all packets that were sent, and all calls the sysmodule has made. -/
structure InputRun where
  desktop : DesktopInput
  pipe : Pipe
  sent : List DesktopPacket
  calls : List UiCall

/-- The desktop does something, or the sysmodule goes round its loop once. -/
inductive InputMove where
  | act (action : DesktopAction)
  | iterate (rem : RecvResult)

namespace InputRun

/-- Nothing was sent, and nothing called. -/
def init (clipboard : Option Text) (mBuffer : Mem) : InputRun :=
  ⟨DesktopInput.init clipboard, Pipe.init mBuffer, [], []⟩

variable (codes : KeyCodes) (widen : Widen) (behind : Nat)

/-- An action of the desktop, or an iteration of the sysmodule. -/
def step (s : InputRun) : InputMove → Option InputRun
  | .act action => do
    let (desktop, packets) ← s.desktop.act codes widen action
    let pipe ← s.pipe.putAll .desktop (packets.map DesktopPacket.packet)
    some { s with desktop := desktop, pipe := pipe, sent := s.sent ++ packets }
  | .iterate rem => do
    let (pipe, call) ← s.pipe.receive .sysmodule rem
    match call with
    | none => some { s with pipe := pipe }
    | some call =>
      (Sysmodule.handleCall behind call).map fun calls =>
        { s with pipe := pipe, calls := s.calls ++ calls }

end InputRun

/-! ## What the desktop sends

  `Acts` lists the actions by what they send, which is all that the invariants below need of them.
  All packets are as their receiver takes them to be (`Acts.ok`). -/

variable {codes : KeyCodes} {widen : Widen} {behind : Nat}

theorem mem_sendMouseEvent {displaySize cursorPos : ImVec2} {button : Int32} {pressed : Bool}
    {wheelX wheelY : ℚ} {packet : MouseEvent}
    (h : packet ∈ sendMouseEvent displaySize cursorPos button pressed wheelX wheelY) :
    packet = ⟨cursorPos, button, pressed, wheelX, wheelY⟩ ∧ ¬Outside displaySize cursorPos := by
  rw [sendMouseEvent] at h
  split at h
  next => exact absurd h List.not_mem_nil
  next hinside => exact ⟨List.mem_singleton.mp h, hinside⟩

namespace DesktopInput

variable {s s' : DesktopInput} {packets : List DesktopPacket}

/-- Only texts that fit are sent. -/
theorem mem_sendClipboard {texts : List DesktopPacket} (h : s.sendClipboard widen = some texts)
    {p : DesktopPacket} (hp : p ∈ texts) :
    ∃ text, p = .clipboardText text ∧ text.textSize ≤ maxTextSize := by
  rw [sendClipboard] at h
  split at h
  next =>
    obtain ⟨text, -, rfl⟩ := Option.map_eq_some_iff.mp h
    split at hp
    next hfits => exact ⟨text, List.mem_singleton.mp hp, hfits⟩
    next => exact absurd hp List.not_mem_nil
  next =>
    cases h
    exact absurd hp List.not_mem_nil

/-- **What an action sends**, and what of the desktop it leaves alone: a stroke of a key changes the
    keyboard and sends what `keyCallback` sends; a tick with an open window sends the size, a position
    and a text; and the others send what is made of the desktop as it is. -/
inductive Acts (codes : KeyCodes) (widen : Widen) (s : DesktopInput) :
    DesktopInput → List DesktopPacket → Prop where
  | quiet (opened : Bool) (cursorPos : ImVec2) (clipboard : Option Text)
      (hpos : s.cursorPos.IsFloat → cursorPos.IsFloat) (packets : List DesktopPacket)
      (hpackets : ∀ p ∈ packets, p = .hello ∨ p = .alive ∨ ∃ c, p = .char c) :
      Acts codes widen s { s with opened, cursorPos, clipboard } packets
  | mouse (button : Int32) (pressed : Bool) (wheelX wheelY : ℚ) (padding : Vector UInt8 3)
      (hx : IsFloat wheelX) (hy : IsFloat wheelY) :
      Acts codes widen s s
        ((sendMouseEvent s.displaySize s.cursorPos button pressed wheelX wheelY).map
          fun packet => .mouse packet padding)
  | key (keycode : GlfwKey) (action : KeyAction) (padding : KeyPadding) :
      Acts codes widen s { s with keys := s.keys.stroke keycode action }
        ((keyCallback codes (s.keys.stroke keycode action) keycode action).map
          fun packet => .key packet padding)
  | tick (windowSize : ImVec2) (padding : Vector UInt8 3) (texts : List DesktopPacket)
      (hopened : s.opened = true) (hsize : windowSize.IsFloat)
      (htexts : s.sendClipboard widen = some texts) :
      Acts codes widen s
        { s with
          displaySize := windowSize
          sLastDisplaySize := windowSize
          sLastCursorPos := s.cursorPos
          sLastClipboardStringHash := Clipboards.clipboardStringHash widen s.clipboard }
        ((if s.sLastDisplaySize.x ≠ windowSize.x ∨ s.sLastDisplaySize.y ≠ windowSize.y then
            [.displaySize windowSize]
          else []) ++
        ((if s.sLastCursorPos.x ≠ s.cursorPos.x ∨ s.sLastCursorPos.y ≠ s.cursorPos.y then
            (sendMouseEvent windowSize s.cursorPos).map fun packet => .mouse packet padding
          else []) ++ texts))

/-- **An action** is one of these. -/
theorem act_cases {action : DesktopAction} (h : s.act codes widen action = some (s', packets)) :
    Acts codes widen s s' packets := by
  -- packets of no interest, packets of the mouse, strokes of a key, and ticks
  cases action with
  | hello =>
    cases h
    exact .quiet s.opened s.cursorPos s.clipboard id [.hello] (by simp)
  | alive =>
    cases h
    exact .quiet s.opened s.cursorPos s.clipboard id [.alive] (by simp)
  | openWindow =>
    cases h
    exact .quiet true s.cursorPos s.clipboard id [] (by simp)
  | copy clipboard =>
    cases h
    exact .quiet s.opened s.cursorPos clipboard id [] (by simp)
  | move cursorPos =>
    rw [act] at h
    split at h
    next hfloat =>
      cases h
      exact .quiet s.opened cursorPos s.clipboard (fun _ => hfloat) [] (by simp)
    next => exact absurd h.symm (Option.some_ne_none _)
  | char c =>
    rw [act] at h
    split at h
    next =>
      cases h
      exact .quiet s.opened s.cursorPos s.clipboard id [.char c] (by simp)
    next => exact absurd h.symm (Option.some_ne_none _)
  | button button pressed padding =>
    rw [act] at h
    split at h
    next =>
      cases h
      exact .mouse button pressed 0 0 padding isFloat_zero isFloat_zero
    next => exact absurd h.symm (Option.some_ne_none _)
  | scroll xoffset yoffset padding =>
    rw [act] at h
    split at h
    next hif =>
      cases h
      exact .mouse (-1) false xoffset yoffset padding hif.2.1 hif.2.2
    next => exact absurd h.symm (Option.some_ne_none _)
  | key keycode action padding =>
    rw [act] at h
    split at h
    next =>
      cases h
      exact .key keycode action padding
    next => exact absurd h.symm (Option.some_ne_none _)
  | tick windowSize padding =>
    rw [act] at h
    split at h
    next hsize =>
      -- without a window a tick sends nothing
      rw [updateNetworkInput] at h
      split at h
      next =>
        cases h
        exact .quiet s.opened s.cursorPos s.clipboard id [] (by simp)
      next hopened =>
        obtain ⟨texts, htexts, heq⟩ := Option.map_eq_some_iff.mp h
        cases heq
        exact .tick windowSize padding texts (by simpa using hopened) hsize htexts
    next => exact absurd h.symm (Option.some_ne_none _)

/-- Only `openWindow` opens the window. -/
theorem opened_act {action : DesktopAction} (h : s.act codes widen action = some (s', packets))
    (hother : action ≠ .openWindow) : s'.opened = s.opened := by
  cases action with
  | openWindow => exact absurd rfl hother
  | tick windowSize padding =>
    rw [act, updateNetworkInput] at h
    split at h
    · split at h
      · cases h
        rfl
      · obtain ⟨texts, -, heq⟩ := Option.map_eq_some_iff.mp h
        cases heq
        rfl
    · exact absurd h.symm (Option.some_ne_none _)
  | hello => cases h; rfl
  | alive => cases h; rfl
  | copy clipboard => cases h; rfl
  | _ =>
    rw [act] at h
    split at h
    · cases h
      rfl
    · exact absurd h.symm (Option.some_ne_none _)

/-- All packets are as their receiver takes them to be. -/
theorem Acts.ok (h : Acts codes widen s s' packets) (hpos : s.cursorPos.IsFloat) :
    (∀ p ∈ packets, p.Ok) ∧ s'.cursorPos.IsFloat := by
  cases h with
  | quiet opened cursorPos clipboard hkeep packets hpackets =>
    refine ⟨fun p hp => ?_, hkeep hpos⟩
    rcases hpackets p hp with rfl | rfl | ⟨c, rfl⟩
    · trivial
    · trivial
    · trivial
  | mouse button pressed wheelX wheelY padding hx hy =>
    refine ⟨fun p hp => ?_, hpos⟩
    obtain ⟨packet, hpacket, rfl⟩ := List.mem_map.mp hp
    obtain ⟨rfl, -⟩ := mem_sendMouseEvent hpacket
    exact ⟨hpos, hx, hy⟩
  | key keycode action padding =>
    refine ⟨fun p hp => ?_, hpos⟩
    obtain ⟨packet, -, rfl⟩ := List.mem_map.mp hp
    trivial
  | tick windowSize padding texts hopened hsize htexts =>
    refine ⟨fun p hp => ?_, hpos⟩
    rcases List.mem_append.mp hp with hp | hp
    · split at hp
      next =>
        rw [List.mem_singleton.mp hp]
        exact hsize
      next => exact absurd hp List.not_mem_nil
    · rcases List.mem_append.mp hp with hp | hp
      · split at hp
        next =>
          obtain ⟨packet, hpacket, rfl⟩ := List.mem_map.mp hp
          obtain ⟨rfl, -⟩ := mem_sendMouseEvent hpacket
          exact ⟨hpos, isFloat_zero, isFloat_zero⟩
        next => exact absurd hp List.not_mem_nil
      · obtain ⟨text, rfl, hfits⟩ := mem_sendClipboard htexts hp
        exact hfits

end DesktopInput

/-! ## What arrives

  The pipe hands the packets on in order, and each is handled by the calls it is for; so the calls
  are those of the packets that were handled, the first ones of those that were sent.  `run_desktop`
  is the rule for properties of the desktop and of what it has sent. -/

namespace InputRun

/-- The first packets sent are those handled, each by the calls it is for; the pipe carries the
    others. -/
structure Delivers (s : InputRun) (handled rest : List DesktopPacket) : Prop where
  sent : s.sent = handled ++ rest
  calls : s.calls = handled.flatMap DesktopPacket.uiCalls
  carries : s.pipe.Carries .sysmodule (rest.map DesktopPacket.wirePacket)
  ok : ∀ p ∈ s.sent, p.Ok
  cursorPos : s.desktop.cursorPos.IsFloat

theorem delivers_init (clipboard : Option Text) (mBuffer : Mem) :
    (init clipboard mBuffer).Delivers [] [] where
  sent := rfl
  calls := rfl
  carries := Pipe.carries_init .sysmodule mBuffer
  ok := fun _ h => absurd h List.not_mem_nil
  cursorPos := ⟨isFloat_zero, isFloat_zero⟩

/-- Packets of the desktop come to the end of the queue. -/
theorem carries_putAll {pipe : Pipe} {queue : List DesktopPacket}
    (h : pipe.Carries .sysmodule (queue.map DesktopPacket.wirePacket)) {packets : List DesktopPacket}
    (hok : ∀ p ∈ packets, p.Ok) :
    ∃ pipe', pipe.putAll .desktop (packets.map DesktopPacket.packet) = some pipe' ∧
      pipe'.Carries .sysmodule ((queue ++ packets).map DesktopPacket.wirePacket) := by
  obtain ⟨pipe', hput, h'⟩ := h.putAll .desktop (packets.map DesktopPacket.packet) fun q hq => by
    obtain ⟨p, hp, rfl⟩ := List.mem_map.mp hq
    exact length_payload p (hok p hp)
  refine ⟨pipe', hput, ?_⟩
  rw [List.map_map] at h'
  rw [List.map_append]
  exact h'

section

variable {s s' : InputRun} {handled rest : List DesktopPacket}

/-- An action of the desktop: its packets come to those that are on their way. -/
theorem Delivers.act (h : s.Delivers handled rest) {action : DesktopAction}
    (hstep : s.step codes widen behind (.act action) = some s') :
    ∃ packets, DesktopInput.Acts codes widen s.desktop s'.desktop packets ∧
      s'.sent = s.sent ++ packets ∧ s'.Delivers handled (rest ++ packets) := by
  obtain ⟨⟨desktop, packets⟩, hact, hstep⟩ := Option.bind_eq_some_iff.mp hstep
  have hacts := DesktopInput.act_cases hact
  obtain ⟨hok, hpos⟩ := hacts.ok h.cursorPos
  obtain ⟨pipe, hput, hcarries⟩ := carries_putAll h.carries hok
  dsimp only at hstep
  rw [hput] at hstep
  cases hstep
  refine ⟨packets, hacts, rfl, ?_, h.calls, hcarries, ?_, hpos⟩
  · show s.sent ++ packets = _
    rw [h.sent, List.append_assoc]
  · intro p hp
    rcases List.mem_append.mp hp with hp | hp
    · exact h.ok p hp
    · exact hok p hp

/-- An iteration of the sysmodule: it handles the next packet, or none. -/
theorem Delivers.iterate (h : s.Delivers handled rest) {rem : RecvResult}
    (hreceive : (s.pipe.receive .sysmodule rem).isSome) :
    ∃ s', s.step codes widen behind (.iterate rem) = some s' ∧ s'.desktop = s.desktop ∧
      s'.sent = s.sent ∧ (∃ call, s.pipe.receive .sysmodule rem = some (s'.pipe, call)) ∧
      ∃ next later, rest = next ++ later ∧ s'.Delivers (handled ++ next) later := by
  obtain ⟨⟨pipe, call⟩, hpipe⟩ := Option.isSome_iff_exists.mp hreceive
  obtain ⟨queue, hqueue, hcarries⟩ := h.carries.receive hpipe
  cases call with
  | none =>
    refine ⟨{ s with pipe := pipe }, ?_, rfl, rfl, ⟨none, hpipe⟩, [], rest, rfl, ?_⟩
    · rw [step, hpipe]
      rfl
    · have heq : queue = rest.map DesktopPacket.wirePacket := hqueue.symm
      rw [List.append_nil]
      exact ⟨h.sent, h.calls, heq ▸ hcarries, h.ok, h.cursorPos⟩
  | some call =>
    -- the call is for the first packet on its way
    cases hrest : rest with
    | nil =>
      rw [hrest] at hqueue
      exact absurd hqueue (List.cons_ne_nil _ _).symm
    | cons p later =>
      rw [hrest, List.map_cons, Option.toList_some, List.map_singleton, List.singleton_append,
        List.cons.injEq] at hqueue
      have hok : p.Ok := h.ok p (by rw [h.sent, hrest]; simp)
      have hcalls := handleCall_eq behind hok hqueue.1.symm
      refine ⟨{ s with pipe := pipe, calls := s.calls ++ p.uiCalls }, ?_, rfl, rfl, ⟨some call, hpipe⟩,
        [p], later, rfl, ?_⟩
      · rw [step, hpipe, Option.bind_eq_bind, Option.bind_some]
        dsimp only
        rw [hcalls]
        rfl
      · refine ⟨?_, ?_, hqueue.2 ▸ hcarries, h.ok, h.cursorPos⟩
        · show s.sent = _
          rw [h.sent, hrest, List.append_assoc]
          rfl
        · show s.calls ++ p.uiCalls = _
          rw [h.calls, List.flatMap_append, List.flatMap_singleton]

/-- An iteration that is possible handles the next packet, or none. -/
theorem Delivers.iterate_step (h : s.Delivers handled rest) {rem : RecvResult}
    (hstep : s.step codes widen behind (.iterate rem) = some s') :
    s'.desktop = s.desktop ∧ s'.sent = s.sent ∧
      ∃ next later, rest = next ++ later ∧ s'.Delivers (handled ++ next) later := by
  have hreceive : (s.pipe.receive .sysmodule rem).isSome := by
    obtain ⟨r, hr, -⟩ := Option.bind_eq_some_iff.mp hstep
    rw [hr]
    rfl
  obtain ⟨s₁, hs₁, hsame⟩ := h.iterate hreceive
  cases Option.some.inj (hs₁.symm.trans hstep)
  obtain ⟨hdesktop, hsent, -, hdelivers⟩ := hsame
  exact ⟨hdesktop, hsent, hdelivers⟩

/-- No byte is on its way, in flight or in the sysmodule's buffer. -/
def Settled (s : InputRun) : Prop := s.pipe.Settled

/-- With nothing on its way, the calls are those of all packets. -/
theorem Delivers.settled (h : s.Delivers handled rest) (hsettled : s.Settled) :
    s.calls = s.sent.flatMap DesktopPacket.uiCalls := by
  have hnil := List.map_eq_nil_iff.mp (h.carries.settled_iff.mp hsettled)
  rw [h.calls, h.sent, hnil, List.append_nil]

/-- What a step does to what is delivered. -/
theorem Delivers.step (h : s.Delivers handled rest) {move : InputMove}
    (hstep : s.step codes widen behind move = some s') :
    ∃ handled' rest', s'.Delivers handled' rest' := by
  cases move with
  | act action =>
    obtain ⟨packets, -, -, h'⟩ := h.act hstep
    exact ⟨handled, rest ++ packets, h'⟩
  | iterate rem =>
    obtain ⟨-, -, next, later, -, h'⟩ := h.iterate_step hstep
    exact ⟨handled ++ next, later, h'⟩

end

end InputRun

namespace InputRun

variable {clipboard : Option Text} {mBuffer : Mem} {moves : List InputMove} {s s' : InputRun}

/-- **Invariant rule.**  What holds of the desktop and of what it has sent, and is kept by its
    actions, holds in every run. -/
theorem run_desktop (Inv : DesktopInput → List DesktopPacket → Prop)
    (hinit : Inv (DesktopInput.init clipboard) [])
    (hacts : ∀ desktop desktop' sent packets, Inv desktop sent →
      (∀ p ∈ packets, p.Ok) → DesktopInput.Acts codes widen desktop desktop' packets →
        Inv desktop' (sent ++ packets))
    (hrun : run (step codes widen behind) (init clipboard mBuffer) moves = some s) :
    Inv s.desktop s.sent ∧ ∃ handled rest, s.Delivers handled rest := by
  have hstart : Inv (init clipboard mBuffer).desktop (init clipboard mBuffer).sent ∧
      ∃ handled rest, (init clipboard mBuffer).Delivers handled rest :=
    ⟨hinit, [], [], delivers_init clipboard mBuffer⟩
  refine @run_invariant InputRun InputMove (step codes widen behind)
    (fun s => Inv s.desktop s.sent ∧ ∃ handled rest, s.Delivers handled rest) ?_ moves _ s hstart hrun
  intro s move s' hs hstep
  obtain ⟨hinv, handled, rest, h⟩ := hs
  refine ⟨?_, h.step hstep⟩
  cases move with
  | act action =>
    obtain ⟨packets, hdoes, hsent, h'⟩ := h.act hstep
    have hok : ∀ p ∈ packets, p.Ok := fun p hp =>
      h'.ok p (by rw [hsent]; exact List.mem_append_right _ hp)
    rw [hsent]
    exact hacts s.desktop s'.desktop s.sent packets hinv hok hdoes
  | iterate rem =>
    obtain ⟨hdesktop, hsent, -⟩ := h.iterate_step hstep
    rw [hdesktop, hsent]
    exact hinv

/-- **The input arrives.**  In every run, whatever pieces the network brings the bytes in: the calls
    that the sysmodule has made are those that the first packets are for, in order; and once no byte
    is on its way, they are those of all packets that were sent. -/
theorem input_arrives (codes : KeyCodes) (widen : Widen) (behind : Nat) (clipboard : Option Text)
    (mBuffer : Mem) (moves : List InputMove) (s : InputRun)
    (hrun : run (step codes widen behind) (init clipboard mBuffer) moves = some s) :
    (∃ handled, handled <+: s.sent ∧ s.calls = handled.flatMap DesktopPacket.uiCalls) ∧
      (s.Settled → s.calls = s.sent.flatMap DesktopPacket.uiCalls) := by
  obtain ⟨-, handled, rest, h⟩ := run_desktop (fun _ _ => True) trivial
    (fun _ _ _ _ _ _ _ => trivial) hrun
  exact ⟨⟨handled, ⟨rest, h.sent.symm⟩, h.calls⟩, h.settled⟩

/-- No padding is set. -/
def zeroPadding : KeyPadding := ⟨0, Vector.replicate 3 0, Vector.replicate 3 0⟩

/-- Shift is pressed. -/
def shiftDown : KeyEvent :=
  sendKeyEvent KeyCodes.named (Keyboard.stroke (fun _ => false) (.named .leftShift) .press)
    .leftShift true

/-- Shift is pressed, its packet arrives in two pieces; and then a character is typed. -/
def shiftTyped : List InputMove :=
  [.act .openWindow, .act (.key (.named .leftShift) .press zeroPadding),
    .iterate (.bytes ((DesktopPacket.key shiftDown zeroPadding).wirePacket.wire.take 5)),
    .iterate (.bytes ((DesktopPacket.key shiftDown zeroPadding).wirePacket.wire.drop 5)),
    .act (.char 65), .iterate .wouldBlock]

/-- The character's packet arrives, and is handled. -/
def charHandled : List InputMove :=
  [.iterate (.bytes (DesktopPacket.char 65).wirePacket.wire), .iterate .wouldBlock]

theorem input_arrives_shiftTyped :
    (∃ s handled,
      run (step KeyCodes.named widenU8 0) (init none fun _ => 0) shiftTyped = some s ∧
        s.calls = keyCalls shiftDown ∧ s.sent.length = 2 ∧ handled <+: s.sent ∧
        s.calls = handled.flatMap DesktopPacket.uiCalls) ∧
    (∃ s, run (step KeyCodes.named widenU8 0) (init none fun _ => 0)
        (shiftTyped ++ charHandled) = some s ∧
      s.Settled ∧ s.calls = s.sent.flatMap DesktopPacket.uiCalls) := by
  constructor
  · have hall : (run (step KeyCodes.named widenU8 0) (init none fun _ => 0) shiftTyped).map
        (fun s => (s.calls, s.sent.length)) = some (keyCalls shiftDown, 2) := by
      decide +kernel
    obtain ⟨s, hrun, hs⟩ := Option.map_eq_some_iff.mp hall
    rw [Prod.mk.injEq] at hs
    obtain ⟨⟨handled, hprefix, hcalls⟩, -⟩ :=
      input_arrives KeyCodes.named widenU8 0 none (fun _ => 0) shiftTyped s hrun
    exact ⟨s, handled, hrun, hs.1, hs.2, hprefix, hcalls⟩
  · have hall : (run (step KeyCodes.named widenU8 0) (init none fun _ => 0)
        (shiftTyped ++ charHandled)).map
          (fun s => (s.pipe.inFlight, s.pipe.recv.mBufferSize)) = some ([], 0) := by
      decide +kernel
    obtain ⟨s, hrun, hs⟩ := Option.map_eq_some_iff.mp hall
    have hsettled : s.Settled := Prod.mk.inj hs
    exact ⟨s, hrun, hsettled, (input_arrives KeyCodes.named widenU8 0 none (fun _ => 0) _ s hrun).2
      hsettled⟩

end InputRun

/-! ## The keyboard

  An instance of the rule: the calls of all packets that were sent tell the keyboard, since a stroke
  sends what tells it (`Tells.keyCallback`), and nothing else is about keys. -/

/-- Only packets for keys are about keys. -/
theorem noKeys_uiCalls {p : DesktopPacket} (h : ∀ packet padding, p ≠ .key packet padding) :
    NoKeys p.uiCalls := by
  cases p with
  | hello => simp [NoKeys, DesktopPacket.uiCalls]
  | alive => simp [NoKeys, DesktopPacket.uiCalls]
  | displaySize size => simp [NoKeys, DesktopPacket.uiCalls]
  | mouse packet padding =>
    intro call hcall
    rcases List.mem_append.mp hcall with hcall | hcall
    · obtain ⟨event, -, rfl⟩ := List.mem_map.mp hcall
      cases event <;> simp [InputEvent.uiCall]
    · rw [List.mem_singleton.mp hcall]
      simp
  | key packet padding => exact absurd rfl (h packet padding)
  | char c => simp [NoKeys, DesktopPacket.uiCalls]
  | clipboardText text => simp [NoKeys, DesktopPacket.uiCalls]

theorem noKeys_flatMap {packets : List DesktopPacket}
    (h : ∀ p ∈ packets, ∀ packet padding, p ≠ .key packet padding) :
    NoKeys (packets.flatMap DesktopPacket.uiCalls) := by
  intro call hcall
  obtain ⟨p, hp, hcall⟩ := List.mem_flatMap.mp hcall
  exact noKeys_uiCalls (h p hp) call hcall

/-- An action leaves the keyboard alone and sends nothing about it, or is a stroke. -/
theorem DesktopInput.Acts.tells {desktop desktop' : DesktopInput} {packets : List DesktopPacket}
    (h : Acts codes widen desktop desktop' packets) {calls : List UiCall}
    (htells : Tells codes desktop.keys calls) :
    Tells codes desktop'.keys (calls ++ packets.flatMap DesktopPacket.uiCalls) := by
  cases h with
  | quiet opened cursorPos clipboard hkeep packets hpackets =>
    refine htells.append_noKeys (noKeys_flatMap fun p hp packet padding => ?_)
    rcases hpackets p hp with rfl | rfl | ⟨c, rfl⟩
    · exact DesktopPacket.noConfusion
    · exact DesktopPacket.noConfusion
    · exact DesktopPacket.noConfusion
  | mouse button pressed wheelX wheelY padding hx hy =>
    refine htells.append_noKeys (noKeys_flatMap fun p hp packet padding => ?_)
    obtain ⟨event, -, rfl⟩ := List.mem_map.mp hp
    exact DesktopPacket.noConfusion
  -- the one action that sends keys: the stroke of the callback
  | key keycode action padding =>
    have hstroke := htells.keyCallback keycode action
    rw [List.flatMap_map]
    exact hstroke
  | tick windowSize padding texts hopened hsize htexts =>
    refine htells.append_noKeys (noKeys_flatMap fun p hp packet padding => ?_)
    rcases List.mem_append.mp hp with hp | hp
    · split at hp
      next =>
        rw [List.mem_singleton.mp hp]
        exact DesktopPacket.noConfusion
      next => exact absurd hp List.not_mem_nil
    · rcases List.mem_append.mp hp with hp | hp
      · split at hp
        next =>
          obtain ⟨event, -, rfl⟩ := List.mem_map.mp hp
          exact DesktopPacket.noConfusion
        next => exact absurd hp List.not_mem_nil
      · obtain ⟨text, rfl, -⟩ := mem_sendClipboard htexts hp
        exact DesktopPacket.noConfusion

namespace InputRun

variable {clipboard : Option Text} {mBuffer : Mem} {moves : List InputMove} {s : InputRun}

/-- **The keyboards agree.**  In every run, once no byte is on its way, the last call for each key that
    has a name says whether it is down at the desktop, and the last one for each modifier whether one
    of its two keys is. -/
theorem keyboard_agrees (codes : KeyCodes) (widen : Widen) (behind : Nat) (clipboard : Option Text)
    (mBuffer : Mem) (moves : List InputMove) (s : InputRun)
    (hrun : run (step codes widen behind) (init clipboard mBuffer) moves = some s)
    (hsettled : s.Settled) : Tells codes s.desktop.keys s.calls := by
  obtain ⟨htells, handled, rest, h⟩ := run_desktop
    (fun desktop sent => Tells codes desktop.keys (sent.flatMap DesktopPacket.uiCalls))
    (Tells.init codes) (fun _ _ _ _ hinv _ hacts => by
      rw [List.flatMap_append]
      exact hacts.tells hinv) hrun
  rw [h.settled hsettled]
  exact htells

/-- Shift is down once its packet is handled. -/
theorem keyboard_agrees_shiftTyped : ∃ s,
    run (step KeyCodes.named widenU8 0) (init none fun _ => 0)
        (shiftTyped ++ [.iterate (.bytes (DesktopPacket.char 65).wirePacket.wire),
          .iterate .wouldBlock]) = some s ∧
      Tells KeyCodes.named s.desktop.keys s.calls ∧ lastMod .shift s.calls = true := by
  have hall : (run (step KeyCodes.named widenU8 0) (init none fun _ => 0)
      (shiftTyped ++ [.iterate (.bytes (DesktopPacket.char 65).wirePacket.wire),
        .iterate .wouldBlock])).map
      (fun s => (s.pipe.inFlight, s.pipe.recv.mBufferSize, lastMod .shift s.calls)) =
        some ([], 0, true) := by
    decide +kernel
  obtain ⟨s, hrun, hs⟩ := Option.map_eq_some_iff.mp hall
  simp only [Prod.mk.injEq] at hs
  exact ⟨s, hrun, keyboard_agrees KeyCodes.named widenU8 0 none (fun _ => 0) _ s hrun
    ⟨hs.1, hs.2.1⟩, hs.2.2⟩

end InputRun

end Nxdb
