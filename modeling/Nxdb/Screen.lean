/-
  What is seen of a client: its window, and the mouse pointer.

  `handlePackedDrawData` gives the lists it has unpacked to `render`, which draws them unless the window
  is iconified, and the cursor of the packet's header to `updateMouseCursor`, which looks it up in
  `sMouseCursors`, whatever it is.  `render` is also where a window that was closed is noticed: the
  client ends with the iteration it is in.  So there is no end to a client that is sent no draw data.

  `ScreenSystem` is the whole system with a screen beside each client.  `steps_iff`: in every run, what
  the system can do it can do with the screens, unless the client's program has ended; so no cursor is
  looked up outside the table.  `seen_last`: a client with nothing on its way to it, and whose window is
  open, has the pointer of the last frame that was packed; and if the window never was iconified it
  shows what it has unpacked last.  The runs are those of `ByteSystem`, with all that is assumed there:
  what a client sees is only as whole as the packets are.

  1. Program: `updateMouseCursor` with the table of `initNetworkInput`, `render` and its two tests
     of the window.
  2. A screen follows its client: `FollowsOn` says of what is drawn and of the pointer which of the
     packets handled they come from.
  3. One event: `Following.follow`.  The screens change nothing in the system; so a run with screens
     is one without them, and what the system can do next it can do with them unless it is an act of
     a client that has ended.
-/
import Nxdb.ByteSystem

namespace Nxdb

open Lib Hash Sysmodule.Raw

/-! ## The code

  `glfwCreateStandardCursor` may give a null pointer, and the numbers of the cursors are ImGui's;
  both are parameters.  A lookup outside of `sMouseCursors` is `none`. -/

/-- The cursors of ImGui. -/
inductive MouseCursor where
  | arrow | textInput | resizeAll | resizeNS | resizeEW | resizeNESW | resizeNWSE | hand | notAllowed
deriving DecidableEq

/-- The standard cursors of GLFW that are asked for. -/
inductive GlfwCursor where
  | arrow | ibeam | vresize | hresize | hand
deriving DecidableEq

/-- `ImGuiMouseCursor_None`, the numbers of the other cursors, `ImGuiMouseCursor_COUNT`, and the
    standard cursors that can be had. -/
structure Cursors where
  noCursor : Int32
  code : MouseCursor → Nat
  count : Nat
  available : GlfwCursor → Bool
  noCursor_neg : noCursor < 0
  code_lt : ∀ c, code c < count
  code_injective : Function.Injective code

namespace Cursors

variable (K : Cursors)

/-- A cursor, or null where the platform has none. -/
def glfwCreateStandardCursor (c : GlfwCursor) : Option GlfwCursor :=
  if K.available c then some c else none

/-- The end of `initNetworkInput`, where `GLFW_HAS_NEW_CURSORS` is not defined. -/
def standardCursors : List (MouseCursor × GlfwCursor) :=
  [(.arrow, .arrow), (.textInput, .ibeam), (.resizeNS, .vresize), (.resizeEW, .hresize), (.hand, .hand),
    (.resizeAll, .arrow), (.resizeNESW, .arrow), (.resizeNWSE, .arrow), (.notAllowed, .arrow)]

/-- The table, filled as `initMouseCursors` does; the rest of it stays null. -/
def sMouseCursors : Vector (Option GlfwCursor) K.count :=
  standardCursors.foldl
    (fun cursors row => cursors.setIfInBounds (K.code row.1) (K.glfwCreateStandardCursor row.2))
    (Vector.replicate K.count none)

end Cursors

/-- The pointer in the window; GLFW takes no cursor for its default one. -/
structure Pointer where
  hidden : Bool
  cursor : Option GlfwCursor

/-- `updateMouseCursor`: `none` where it would look outside of the table. -/
def updateMouseCursor (K : Cursors) (cursor : Int32) (p : Pointer) : Option Pointer :=
  if cursor = K.noCursor then some { p with hidden := true }
  else if cursor < 0 then none
  else K.sMouseCursors[cursor.toNatClampNeg]?.map fun entry =>
    ⟨false, entry.or K.sMouseCursors[K.code .arrow]?.join⟩

/-- The window, when draw data is handled. -/
structure GlfwWindow where
  shouldClose : Bool
  iconified : Bool

/-- What is drawn in the window, its pointer, and `mDead`. -/
structure Screen where
  drawn : Option (List ImDrawList)
  pointer : Pointer
  mDead : Bool

namespace Screen

/-- Nothing is drawn yet. -/
def init : Screen := ⟨none, ⟨false, none⟩, false⟩

/-- `render`: a window that is iconified keeps what it shows; one that was closed ends the
    program. -/
def render (window : GlfwWindow) (data : ImDrawData) (s : Screen) : Screen where
  drawn := if window.iconified then s.drawn else some data.cmdLists
  pointer := s.pointer
  mDead := s.mDead || window.shouldClose

/-- `handlePackedDrawData`, behind `unpackDrawData`. -/
def handleUnpacked (K : Cursors) (window : GlfwWindow) (data : ImDrawData) (cursor : Int32)
    (s : Screen) : Option Screen :=
  (updateMouseCursor K cursor s.pointer).map fun pointer =>
    { s.render window data with pointer := pointer }

/-- A call of `handlePacket`: of the packet types only one is seen. -/
def handleCall (K : Cursors) (window : GlfwWindow) (io : ClientIo) (st : DrawDataStatics) (call : Call)
    (s : Screen) : Option Screen :=
  if PacketType.ofCode call.type = some .drawData then
    (unpackDrawData io call.data call.size st).bind fun u =>
      s.handleUnpacked K window u.drawData u.outCursor
  else some s

/-- The loop body of the client's `run`. -/
def iterate (K : Cursors) (window : GlfwWindow) (b : Peer) (rem : RecvResult) (texId : Nat)
    (s : Screen) : Option Screen :=
  if s.mDead then none
  else do
    let (_, call) ← b.down.receive .desktop rem
    match call with
    | none => some s
    | some call => s.handleCall K window ⟨b.desktop.displaySize, texId⟩ b.statics call

end Screen

/-- The system, and the screens of its clients. -/
structure ScreenSystem where
  system : ByteSystem
  screens : List Screen

namespace ScreenSystem

/-- Nobody is connected. -/
def init : ScreenSystem := ⟨ByteSystem.init, []⟩

variable (K : Cursors) (E : Setup)

/-- What an event is to the screens; a client that is dead does nothing. -/
def follow (s : ScreenSystem) (window : GlfwWindow) : ByteEvent → Option (List Screen)
  | .connect _ _ => some (s.screens ++ [Screen.init])
  | .leave i => some (s.screens.eraseIdx i)
  | .act i _ => s.screens[i]?.bind fun screen => if screen.mDead then none else some s.screens
  | .iterate i rem texId => do
    let b ← s.system.mClients[i]?
    let screen ← s.screens[i]?
    let screen' ← screen.iterate K window b rem texId
    some (s.screens.set i screen')
  | _ => some s.screens

/-- One event, and what is seen of it. -/
def step (s : ScreenSystem) (e : ByteEvent × GlfwWindow) : Option ScreenSystem := do
  let system ← s.system.step E e.1
  let screens ← s.follow K e.2 e.1
  some ⟨system, screens⟩

end ScreenSystem

/-! ## The pointer for a cursor

  The table is filled at nine different indices, so at the number of each cursor it has that
  cursor. -/

/-- The standard cursor for each cursor of ImGui. -/
def MouseCursor.glfwCursor : MouseCursor → GlfwCursor
  | textInput => .ibeam
  | resizeNS => .vresize
  | resizeEW => .hresize
  | hand => .hand
  | _ => .arrow

namespace Cursors

variable {K : Cursors}

/-- A number of `ImGuiMouseCursor`. -/
def IsCursor (K : Cursors) (cursor : Int32) : Prop :=
  cursor = K.noCursor ∨ ∃ c, cursor.toInt = K.code c

/-- The pointer is the one for the cursor: none, or the standard cursor, or an arrow if there is no such
    cursor. -/
structure Shows (K : Cursors) (cursor : Int32) (p : Pointer) : Prop where
  hides : cursor = K.noCursor → p.hidden = true
  shows : ∀ c, cursor.toInt = K.code c → p.hidden = false ∧
    p.cursor = (K.glfwCreateStandardCursor c.glfwCursor).or (K.glfwCreateStandardCursor .arrow)

/-- The table has every cursor at its number. -/
theorem getElem?_sMouseCursors (c : MouseCursor) :
    K.sMouseCursors[K.code c]? = some (K.glfwCreateStandardCursor c.glfwCursor) := by
  have hlt := K.code_lt c
  cases c <;>
    simp [sMouseCursors, standardCursors, K.code_injective.eq_iff, hlt, MouseCursor.glfwCursor]

end Cursors

/-- **The pointer.**  A cursor of ImGui is found in the table, and becomes the pointer. -/
theorem updateMouseCursor_spec {K : Cursors} {cursor : Int32} (h : K.IsCursor cursor) (p : Pointer) :
    ∃ p', updateMouseCursor K cursor p = some p' ∧ K.Shows cursor p' := by
  have hnone : ∀ c, K.noCursor.toInt ≠ K.code c := by
    intro c heq
    have hneg := Int32.lt_iff_toInt_lt.mp K.noCursor_neg
    rw [heq] at hneg
    exact absurd hneg (Int.not_lt.mpr (Int.natCast_nonneg _))
  rcases h with rfl | ⟨c, hc⟩
  · exact ⟨{ p with hidden := true }, if_pos rfl, fun _ => rfl, fun c hc => absurd hc (hnone c)⟩
  · have hne : cursor ≠ K.noCursor := fun heq => hnone c (heq ▸ hc)
    have hpos : ¬cursor < 0 := by
      rw [Int32.lt_iff_toInt_lt, hc]
      exact Int.not_lt.mpr (Int.natCast_nonneg _)
    have hindex : cursor.toNatClampNeg = K.code c := by
      show cursor.toInt.toNat = K.code c
      rw [hc, Int.toNat_natCast]
    have harrow : K.sMouseCursors[K.code .arrow]?.join = K.glfwCreateStandardCursor .arrow := by
      rw [K.getElem?_sMouseCursors]
      rfl
    refine ⟨⟨false, (K.glfwCreateStandardCursor c.glfwCursor).or (K.glfwCreateStandardCursor .arrow)⟩,
      ?_, fun heq => absurd heq hne, fun c' hc' => ⟨rfl, ?_⟩⟩
    · rw [updateMouseCursor, if_neg hne, if_neg hpos, hindex, harrow,
        K.getElem?_sMouseCursors c]
      rfl
    · rw [K.code_injective (Int.natCast_inj.mp (hc'.symm.trans hc))]

/-! ## What an event is to a screen

  The cursor that a client is going to have is that of the last draw data in its queue, or the one
  it has handled last.  `Follows` says that this is the cursor of the last frame packed; it is kept
  by all that happens to the client, and a frame sets it anew. -/

/-- The cursor in a packet. -/
def ServerPacket.cursor : ServerPacket → Option Int32
  | drawData p => some p.header.curCursor
  | _ => none

/-- The cursor of the last draw data in a queue, or else the one before. -/
def lastCursor (queue : List ServerPacket) (before : Option Int32) : Option Int32 :=
  (queue.filterMap ServerPacket.cursor).getLast?.or before

/-- The packets are handled one by one ... -/
theorem lastCursor_cons (p : ServerPacket) (queue : List ServerPacket) (before : Option Int32) :
    lastCursor (p :: queue) before = lastCursor queue (p.cursor.or before) := by
  cases hp : p.cursor with
  | none => rw [lastCursor, lastCursor, List.filterMap_cons_none hp, Option.none_or]
  | some cursor =>
    rw [lastCursor, lastCursor, List.filterMap_cons_some hp, List.getLast?_cons]
    cases (queue.filterMap ServerPacket.cursor).getLast? <;> rfl

/-- ... those in front first. -/
theorem lastCursor_append (queue more : List ServerPacket) (before : Option Int32) :
    lastCursor (queue ++ more) before = lastCursor more (lastCursor queue before) := by
  rw [lastCursor, lastCursor, lastCursor, List.filterMap_append, List.getLast?_append, Option.or_assoc]

section

variable {K : Cursors} {E : Setup} {I : Prop} {last : Option SentFrame} {b b' : Peer} {screen : Screen}

/-- What a client has handled, and what is on its way to it: all of it, handled in order, ends with the
    cursor of the last frame.  What is drawn is what was unpacked, save for `I`. -/
structure Follows (K : Cursors) (E : Setup) (I : Prop) (last : Option SentFrame) (b : Peer)
    (screen : Screen) (up : List DesktopPacket) (down : List ServerPacket) (handled : Option Int32) :
    Prop where
  carries : b.Carries E.atlas up down
  cursors : ∀ cursor ∈ down.filterMap ServerPacket.cursor, K.IsCursor cursor
  shows : ∀ cursor, handled = some cursor → K.Shows cursor screen.pointer
  opened : b.statics.sDrawData.isSome = handled.isSome
  last : ∀ cursor, lastCursor down handled = some cursor →
    last.map (fun f => f.frame.mouseCursor) = some cursor
  drawn : ¬I → screen.drawn = b.statics.sDrawData.map ImDrawData.cmdLists

/-- A screen and its client. -/
def FollowsOn (K : Cursors) (E : Setup) (I : Prop) (last : Option SentFrame) (b : Peer)
    (screen : Screen) : Prop := ∃ up down handled, Follows K E I last b screen up down handled

theorem followsOn_connect (clipboard : Option Text) (mBuffer : Mem) :
    FollowsOn K E I last (Peer.connect clipboard mBuffer) Screen.init :=
  ⟨[], [], none, Peer.carries_connect E.atlas clipboard mBuffer,
    fun _ h => absurd h List.not_mem_nil, fun _ h => absurd h.symm (Option.some_ne_none _), rfl,
    fun _ h => absurd h.symm (Option.some_ne_none _), fun _ => rfl⟩

theorem FollowsOn.act (h : FollowsOn K E I last b screen) {action : DesktopAction}
    (hstep : b.act E.codes E.widen action = some b') : FollowsOn K E I last b' screen := by
  obtain ⟨up, down, handled, h⟩ := h
  obtain ⟨desktop, packets, pipe, -, rfl, hcarries⟩ := h.carries.act hstep
  exact ⟨up ++ packets, down, handled, hcarries, h.cursors, h.shows, h.opened, h.last, h.drawn⟩

theorem FollowsOn.serve (h : FollowsOn K E I last b screen) {rem : RecvResult} {calls : List UiCall}
    (hstep : b.serve E.behind rem = some (b', calls)) : FollowsOn K E I last b' screen := by
  obtain ⟨up, down, handled, h⟩ := h
  obtain ⟨next, later, pipe, -, -, rfl, hcarries⟩ := h.carries.serve hstep
  exact ⟨later, down, handled, hcarries, h.cursors, h.shows, h.opened, h.last, h.drawn⟩

theorem FollowsOn.setClipboardText (h : FollowsOn K E I last b screen) {text : Text}
    (hfits : text.payload.length + packetHeaderSize ≤ Desktop.bufferSize) :
    ∃ b', b.sends [⟨.setClipboardText, text.payload⟩] = some b' ∧ FollowsOn K E I last b' screen := by
  obtain ⟨up, down, handled, h⟩ := h
  obtain ⟨pipe, hsends, hcarries⟩ := h.carries.setClipboardText hfits
  refine ⟨_, hsends, up, _, handled, hcarries, fun cursor hcursor => ?_, h.shows, h.opened, ?_,
    h.drawn⟩
  · rw [List.filterMap_append, List.mem_append] at hcursor
    rcases hcursor with hcursor | hcursor
    · exact h.cursors cursor hcursor
    · exact absurd hcursor List.not_mem_nil
  · rw [lastCursor_append]
    exact h.last

/-- A frame is sent: it is the last one. -/
theorem FollowsOn.sendDrawData (h : FollowsOn K E I last b screen) {f : SentFrame} {p : PackedFrame}
    (hfits : p.bytes.length ≤ sDrawDataBufferSize) (hcursor : p.header.curCursor = f.frame.mouseCursor)
    (hvalid : K.IsCursor f.frame.mouseCursor) :
    ∃ b', b.sendDrawData E.atlas p.bytes = some b' ∧ FollowsOn K E I (some f) b' screen := by
  obtain ⟨up, down, handled, h⟩ := h
  obtain ⟨pipe, hsends, hcarries⟩ := h.carries.sendDrawData hfits
  have hnew : (b.drawDataPackets p).filterMap ServerPacket.cursor = [f.frame.mouseCursor] := by
    rw [Peer.drawDataPackets, ← hcursor]
    cases b.mHasSentFontTexture <;> rfl
  refine ⟨_, hsends, up, _, handled, hcarries, fun cursor hmem => ?_, h.shows, h.opened, ?_,
    h.drawn⟩
  · rw [List.filterMap_append, hnew, List.mem_append, List.mem_singleton] at hmem
    rcases hmem with hmem | rfl
    · exact h.cursors cursor hmem
    · exact hvalid
  · intro cursor hlast
    rw [lastCursor_append, lastCursor, hnew] at hlast
    exact hlast

/-- A call with a packet of the sysmodule, at the screen. -/
theorem Screen.handleCall_eq (window : GlfwWindow) (io : ClientIo) (st : DrawDataStatics)
    (p : ServerPacket) {call : Call} (hcall : call.packet = p.wirePacket E.atlas) (s : Screen) :
    s.handleCall K window io st call = match p with
      | .drawData p => s.handleUnpacked K window
          { st.sDrawData.getD ⟨0, 0, []⟩ with cmdLists := p.lists io (st.sDrawDataPrev.getD []) }
          p.header.curCursor
      | _ => some s := by
  obtain ⟨htype, hpayload⟩ := WirePacket.mk.inj hcall
  rw [Screen.handleCall, htype, PacketType.ofCode_code]
  cases p with
  | drawData p =>
    rw [unpackDrawData_packed io _ st (Mem.holds_of_slice hpayload)]
    exact if_pos rfl
  | fontTexture => exact if_neg (by simp [ServerPacket.packet])
  | clipboardText text => exact if_neg (by simp [ServerPacket.packet])

/-- **An iteration of a client that is not dead.**  What the client can do it can do with its screen. -/
theorem FollowsOn.iterate (h : FollowsOn K E I last b screen) {rem : RecvResult} {texId : Nat}
    {window : GlfwWindow} (hwindow : window.iconified = true → I) (halive : screen.mDead = false)
    (hstep : b.iterate E.gl E.behind rem texId = some b') :
    ∃ screen', screen.iterate K window b rem texId = some screen' ∧ FollowsOn K E I last b' screen' := by
  obtain ⟨up, down, handled, h⟩ := h
  obtain ⟨⟨pipe, call⟩, hreceive, -⟩ := Option.bind_eq_some_iff.mp hstep
  obtain ⟨next, later, rfl, hcall, hnext, hcarries⟩ := h.carries.iterate E.taken E.behind texId hreceive
  cases Option.some.inj (hnext.symm.trans hstep)
  rw [Screen.iterate, if_neg (by simp [halive]), hreceive, Option.bind_eq_bind, Option.bind_some]
  -- no packet is complete, or one is and is handled
  cases next with
  | none =>
    have hnone : call = none := Option.map_eq_none_iff.mp hcall
    rw [hnone]
    exact ⟨screen, rfl, up, later, handled, hcarries, h.cursors, h.shows, h.opened, h.last, h.drawn⟩
  | some p =>
    obtain ⟨call, rfl, hpacket⟩ := Option.map_eq_some_iff.mp hcall
    have hlast := h.last
    rw [Option.toList_some, List.singleton_append, lastCursor_cons] at hlast
    have hcursors := h.cursors
    rw [Option.toList_some, List.singleton_append] at hcursors
    dsimp only
    rw [Screen.handleCall_eq window _ _ p hpacket]
    cases p with
    | drawData p =>
      obtain ⟨pointer, hpointer, hshows⟩ :=
        updateMouseCursor_spec (hcursors p.header.curCursor List.mem_cons_self) screen.pointer
      refine ⟨_, congrArg (Option.map _) hpointer, up, later, some p.header.curCursor, hcarries,
        fun cursor hmem => hcursors cursor (List.mem_cons_of_mem _ hmem), fun cursor heq => ?_, rfl,
        hlast, fun hnever => ?_⟩
      · cases heq
        exact hshows
      · show (if window.iconified then screen.drawn else _) = _
        -- a window that is never iconified draws what has been unpacked
        rw [if_neg fun hiconified => hnever (hwindow hiconified)]
        rfl
    | fontTexture =>
      exact ⟨screen, rfl, up, later, handled, hcarries, hcursors, h.shows, h.opened, hlast, h.drawn⟩
    | clipboardText text =>
      have hsame : (({ b with down := pipe } : Peer).apply (.clipboardString text.bytes)).statics =
          b.statics := by
        rw [Peer.apply]
        split <;> rfl
      exact ⟨screen, rfl, up, later, handled, hcarries, hcursors, h.shows,
        (congrArg (fun st => st.sDrawData.isSome) hsame).trans h.opened, hlast, fun hnever =>
          (h.drawn hnever).trans (congrArg (fun st => st.sDrawData.map ImDrawData.cmdLists) hsame.symm)⟩

end

/-! ## The whole system

  As with the heaps, a system with more state that has the same steps, and here one reason more for
  a step not to be possible: the client has ended.  `steps_iff` says that it is the only one. -/

/-- A frame has a cursor of ImGui. -/
def CursorOk (K : Cursors) : ByteEvent → Prop
  | .frame f => K.IsCursor f.mouseCursor
  | _ => True

namespace ScreenSystem

variable {K : Cursors} {E : Setup} {I : Prop}

/-- The client that does something is not dead. -/
def Alive (s : ScreenSystem) : ByteEvent → Prop
  | .act i _ => ∀ screen, s.screens[i]? = some screen → screen.mDead = false
  | .iterate i _ _ => ∀ screen, s.screens[i]? = some screen → screen.mDead = false
  | _ => True

/-- Every screen follows its client. -/
def Following (K : Cursors) (E : Setup) (I : Prop) (s : ScreenSystem) : Prop :=
  List.Forall₂ (FollowsOn K E I s.system.lastFrame) s.system.mClients s.screens

/-- What is dead does nothing. -/
theorem alive_of_follow {s : ScreenSystem} {window : GlfwWindow} {e : ByteEvent}
    {screens : List Screen} (h : s.follow K window e = some screens) : s.Alive e := by
  cases e with
  | act i action =>
    intro screen hscreen
    obtain ⟨screen', hscreen', h⟩ := Option.bind_eq_some_iff.mp h
    cases Option.some.inj (hscreen.symm.trans hscreen')
    split at h
    next => exact absurd h (Option.some_ne_none screens).symm
    next halive => simpa using halive
  | iterate i rem texId =>
    intro screen hscreen
    obtain ⟨b, -, h⟩ := Option.bind_eq_some_iff.mp h
    obtain ⟨screen', hscreen', h⟩ := Option.bind_eq_some_iff.mp h
    obtain ⟨screen'', hiterate, -⟩ := Option.bind_eq_some_iff.mp h
    cases Option.some.inj (hscreen.symm.trans hscreen')
    rw [Screen.iterate] at hiterate
    split at hiterate
    next => exact absurd hiterate (Option.some_ne_none screen'').symm
    next halive => simpa using halive
  | _ => trivial

/-- **One event.**  What the system can do it can do with the screens, unless the client is dead. -/
theorem Following.follow {s : ScreenSystem} (h : s.Following K E I) {e : ByteEvent}
    (window : GlfwWindow) (hwindow : window.iconified = true → I) {system : ByteSystem}
    (hstep : s.system.step E e = some system) (halive : s.Alive e) :
    ∃ screens, s.follow K window e = some screens ∧
      (CursorOk K e → Following K E I ⟨system, screens⟩) := by
  cases e with
  | connect clipboard mBuffer =>
    cases hstep
    exact ⟨_, rfl, fun _ => List.rel_append h
      (List.Forall₂.cons (followsOn_connect clipboard mBuffer) List.Forall₂.nil)⟩
  | leave i =>
    rw [ByteSystem.step] at hstep
    split at hstep
    next =>
      cases hstep
      exact ⟨_, rfl, fun _ => forall₂_eraseIdx h i⟩
    next => exact absurd hstep (Option.some_ne_none system).symm
  | act i action =>
    obtain ⟨b, hb, hstep⟩ := Option.bind_eq_some_iff.mp hstep
    obtain ⟨b', hact, hstep⟩ := Option.bind_eq_some_iff.mp hstep
    cases hstep
    -- a client that acts is not dead, so its screen lets it
    obtain ⟨screen, hscreen, hbs⟩ := forall₂_getElem? h hb
    refine ⟨s.screens, ?_, fun _ => forall₂_set_left h hscreen (hbs.act hact)⟩
    rw [ScreenSystem.follow, hscreen, Option.bind_some, if_neg (by simp [halive screen hscreen])]
  | serve i rem =>
    obtain ⟨b, hb, hstep⟩ := Option.bind_eq_some_iff.mp hstep
    obtain ⟨⟨b', calls⟩, hserve, hstep⟩ := Option.bind_eq_some_iff.mp hstep
    cases hstep
    obtain ⟨screen, hscreen, hbs⟩ := forall₂_getElem? h hb
    exact ⟨_, rfl, fun _ => forall₂_set_left h hscreen (hbs.serve hserve)⟩
  | copy text =>
    rw [ByteSystem.step, ByteSystem.setClipboardText] at hstep
    split at hstep
    next hfits =>
      obtain ⟨bs, hbs, hall⟩ := ByteSystem.iterateClients_eq (R := FollowsOn K E I s.system.lastFrame) id
        (fun b screen hb => FollowsOn.setClipboardText hb hfits) h
      rw [hbs] at hstep
      cases hstep
      exact ⟨_, rfl, fun _ => List.map_id s.screens ▸ hall⟩
    next => exact absurd hstep (Option.some_ne_none system).symm
  | frame f =>
    refine ⟨_, rfl, fun hvalid => ?_⟩
    rw [ByteSystem.step, ByteSystem.frame] at hstep
    split at hstep
    next =>
      cases hstep
      exact h
    next =>
      -- rendered, and sent only if it is packed
      obtain ⟨⟨loop, out⟩, hrender, hstep⟩ := Option.bind_eq_some_iff.mp hstep
      cases out with
      | none =>
        cases hstep
        exact h
      | some out =>
        obtain ⟨p, rfl, hfits, hcursor⟩ := renderDrawData_sent hrender
        obtain ⟨bs, hbs, hall⟩ := ByteSystem.iterateClients_eq
          (R := FollowsOn K E I s.system.lastFrame) id (fun b screen hb =>
            FollowsOn.sendDrawData (f := ⟨f, s.system.loop.displaySize⟩) hb hfits hcursor hvalid) h
        dsimp only at hstep
        rw [hbs] at hstep
        cases hstep
        exact List.map_id s.screens ▸ hall
  | iterate i rem texId =>
    obtain ⟨b, hb, hstep⟩ := Option.bind_eq_some_iff.mp hstep
    obtain ⟨b', hiterate, hstep⟩ := Option.bind_eq_some_iff.mp hstep
    cases hstep
    obtain ⟨screen, hscreen, hbs⟩ := forall₂_getElem? h hb
    -- the one event in which a screen changes
    obtain ⟨screen', hscreen', hbs'⟩ := hbs.iterate hwindow (halive screen hscreen) hiterate
    refine ⟨s.screens.set i screen', ?_, fun _ => forall₂_set h hbs' i⟩
    rw [ScreenSystem.follow, hb, hscreen, Option.bind_eq_bind, Option.bind_some, Option.bind_eq_bind,
      Option.bind_some, hscreen']
    rfl

/-- In every run every screen follows its client. -/
theorem following_run {events : List (ByteEvent × GlfwWindow)} {s : ScreenSystem}
    (hcursors : ∀ e ∈ events, CursorOk K e.1) (hrun : run (step K E) init events = some s) :
    s.Following K E (∃ e ∈ events, e.2.iconified = true) := by
  have hinit : init.Following K E (∃ e ∈ events, e.2.iconified = true) := List.Forall₂.nil
  refine run_invariant_of (Q := fun e => CursorOk K e.1 ∧ e ∈ events) (fun u e u' he hu hstep => ?_)
    events (fun e he => ⟨hcursors e he, he⟩) hinit hrun
  obtain ⟨system, hsystem, hstep⟩ := Option.bind_eq_some_iff.mp hstep
  obtain ⟨screens, hscreens, hstep⟩ := Option.bind_eq_some_iff.mp hstep
  cases hstep
  obtain ⟨screens', hscreens', hfollowing⟩ := hu.follow e.2
    (fun hiconified => ⟨e, he.2, hiconified⟩) hsystem (alive_of_follow hscreens)
  cases Option.some.inj (hscreens.symm.trans hscreens')
  exact hfollowing he.1

/-- **What can be done with the screens.**  In every run with cursors of ImGui: whatever the system can
    do next it can do with the screens, whatever the window is like, unless it is something a client
    does that is dead. -/
theorem steps_iff (K : Cursors) (E : Setup) (events : List (ByteEvent × GlfwWindow)) (s : ScreenSystem)
    (hcursors : ∀ e ∈ events, CursorOk K e.1) (hrun : run (step K E) init events = some s)
    (e : ByteEvent) (window : GlfwWindow) :
    (s.step K E (e, window)).isSome = true ↔ (s.system.step E e).isSome = true ∧ s.Alive e := by
  constructor
  · intro hsome
    obtain ⟨s', hstep⟩ := Option.isSome_iff_exists.mp hsome
    obtain ⟨system, hsystem, hstep⟩ := Option.bind_eq_some_iff.mp hstep
    obtain ⟨screens, hscreens, -⟩ := Option.bind_eq_some_iff.mp hstep
    exact ⟨Option.isSome_iff_exists.mpr ⟨system, hsystem⟩, alive_of_follow hscreens⟩
  · rintro ⟨hsome, halive⟩
    obtain ⟨system, hsystem⟩ := Option.isSome_iff_exists.mp hsome
    have hfollowing : s.Following K E True := by
      refine (following_run hcursors hrun).imp fun b screen hb => ?_
      obtain ⟨up, down, handled, hb⟩ := hb
      exact ⟨up, down, handled, { hb with drawn := fun hnot => absurd trivial hnot }⟩
    obtain ⟨screens, hscreens, -⟩ :=
      hfollowing.follow window (fun _ => trivial) hsystem halive
    rw [step, hsystem, Option.bind_eq_bind, Option.bind_some, hscreens]
    rfl

/-- Nine cursors, in ImGui's order, and all of GLFW's. -/
def nineCursors : Cursors where
  noCursor := -1
  code := MouseCursor.ctorIdx
  count := 9
  available := fun _ => true
  noCursor_neg := by decide
  code_lt := fun c => by cases c <;> decide
  code_injective := fun c c' h => by
    cases c <;> cases c' <;> first | rfl | exact absurd h (by decide)

/-- The first frame, in a window that is closed or not. -/
def firstFrameSeen (shouldClose : Bool) : List (ByteEvent × GlfwWindow) :=
  ByteSystem.firstFrame.map fun e => (e, ⟨shouldClose, false⟩)

theorem cursorOk_firstFrameSeen (shouldClose : Bool) :
    ∀ e ∈ firstFrameSeen shouldClose, CursorOk nineCursors e.1 := by
  intro e he
  obtain ⟨event, hevent, rfl⟩ := List.mem_map.mp he
  simp only [ByteSystem.firstFrame, List.mem_cons, List.not_mem_nil, or_false] at hevent
  rcases hevent with rfl | rfl | rfl | rfl | rfl | rfl | rfl | rfl
  case inr.inr.inl => exact Or.inr ⟨.arrow, rfl⟩
  all_goals trivial

/-- The client has drawn the frame, and will not do anything else. -/
theorem steps_iff_closed : ∃ s,
    run (step nineCursors ByteSystem.plain) init ((firstFrameSeen true).take 6) = some s ∧
      s.screens.map Screen.mDead = [true] ∧
      ((s.step nineCursors ByteSystem.plain (.iterate 0 .wouldBlock 0, ⟨true, false⟩)).isSome = true ↔
        (s.system.step ByteSystem.plain (.iterate 0 .wouldBlock 0)).isSome = true ∧
          s.Alive (.iterate 0 .wouldBlock 0)) := by
  have hall : (run (step nineCursors ByteSystem.plain) init ((firstFrameSeen true).take 6)).map
      (fun s => s.screens.map Screen.mDead) = some [true] := by decide +kernel
  obtain ⟨s, hrun, hdead⟩ := Option.map_eq_some_iff.mp hall
  exact ⟨s, hrun, hdead, steps_iff nineCursors ByteSystem.plain _ s
    (fun e he => cursorOk_firstFrameSeen true e (List.mem_of_mem_take he)) hrun _ _⟩

/-- **What is seen.**  In every run with cursors of ImGui, of every client: with nothing on its way to
    it, and something unpacked, its pointer is the one for the cursor of the last frame that was packed;
    and if no window was ever iconified, what is drawn is what was unpacked last. -/
theorem seen_last (K : Cursors) (E : Setup) (events : List (ByteEvent × GlfwWindow)) (s : ScreenSystem)
    (hcursors : ∀ e ∈ events, CursorOk K e.1) (hrun : run (step K E) init events = some s)
    (i : Nat) (b : Peer) (hb : s.system.mClients[i]? = some b) :
    ∃ screen, s.screens[i]? = some screen ∧
      (b.down.Settled → b.statics.sDrawData.isSome = true →
        ∃ f, s.system.lastFrame = some f ∧ K.Shows f.frame.mouseCursor screen.pointer) ∧
      ((∀ e ∈ events, e.2.iconified = false) →
        screen.drawn = b.statics.sDrawData.map ImDrawData.cmdLists) := by
  obtain ⟨screen, hscreen, up, down, handled, h⟩ := forall₂_getElem? (following_run hcursors hrun) hb
  refine ⟨screen, hscreen, fun hsettled hsome => ?_, fun hnever => h.drawn ?_⟩
  · have hdown : down = [] := List.map_eq_nil_iff.mp (h.carries.downward.settled_iff.mp hsettled)
    obtain ⟨cursor, hhandled⟩ := Option.isSome_iff_exists.mp (h.opened.symm.trans hsome)
    obtain ⟨f, hf, hcursor⟩ :=
      Option.map_eq_some_iff.mp (h.last cursor (by rw [hdown, hhandled]; rfl))
    exact ⟨f, hf, hcursor ▸ h.shows cursor hhandled⟩
  · rintro ⟨e, he, hiconified⟩
    exact absurd ((hnever e he).symm.trans hiconified) Bool.false_ne_true

theorem seen_last_firstFrame : ∃ s b screen f,
    run (step nineCursors ByteSystem.plain) init (firstFrameSeen false) = some s ∧
      s.system.mClients[0]? = some b ∧ s.screens[0]? = some screen ∧ s.system.lastFrame = some f ∧
      nineCursors.Shows f.frame.mouseCursor screen.pointer ∧
      screen.drawn = b.statics.sDrawData.map ImDrawData.cmdLists := by
  have hall : (run (step nineCursors ByteSystem.plain) init (firstFrameSeen false)).bind
      (fun s => s.system.mClients[0]?.map fun b =>
        (b.down.inFlight, b.down.recv.mBufferSize, b.statics.sDrawData.isSome)) =
          some ([], 0, true) := by decide +kernel
  obtain ⟨s, hrun, hs⟩ := Option.bind_eq_some_iff.mp hall
  obtain ⟨b, hb, hs⟩ := Option.map_eq_some_iff.mp hs
  simp only [Prod.mk.injEq] at hs
  obtain ⟨screen, hscreen, hpointer, hdrawn⟩ := seen_last nineCursors ByteSystem.plain _ s
    (cursorOk_firstFrameSeen false) hrun 0 b hb
  obtain ⟨f, hf, hshows⟩ := hpointer ⟨hs.1, hs.2.1⟩ hs.2.2
  refine ⟨s, b, screen, f, hrun, hb, hscreen, hf, hshows, hdrawn fun e he => ?_⟩
  obtain ⟨event, -, rfl⟩ := List.mem_map.mp he
  rfl

end ScreenSystem

end Nxdb
