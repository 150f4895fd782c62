/-
  The whole system down to the bytes.

  `ByteSystem` is the sysmodule with its clients as they are: every connection two streams of bytes
  that arrive in any pieces, every packet cast by the receiver to what it expects, and every client's
  program with its window, mouse, keyboard and clipboard.  `System` is what it should be: queues of
  packets.

  `refines`: every run of the one is a run of the other, with the same clients joining and leaving and
  the same frames in the same order.  So whatever holds in the states that `System` reaches holds for
  the bytes.

  What is assumed of the world around, here and in the modules that build on this one:

  * every call of `write` and `send` accepts all it is given, so that what was sent is whole packets;
  * a client has one connection, which is not lost while the client is there, and of the clients only
    the last in `mClients` leaves: what `run` does otherwise is the subject of `ServerLoop`;
  * `recv` brings any of the bytes in flight, or none for now (`EAGAIN`);
  * the atlas, and every text that is copied, fits with its header into the desktop's buffer of 1 MiB:
    a packet that does not is never handled;
  * of an image of the atlas's size OpenGL reads all the pixels, and no more (`FontAtlas.Taken`).
-/
import Nxdb.Peer
import Nxdb.Lib.Simulation

namespace Nxdb

open Lib Hash Sysmodule.Raw

/-! ## The code

  The same events as those of `System`, and as many more as the pieces make in which bytes arrive.
  The clients are `Peer`s; what `render` and `Platform_SetClipboardTextFn` do for each of them goes
  through `iterateClients`. -/

/-- What the programs are run with: the platform of the sysmodule, its font atlas, GLFW's key codes,
    the desktop's `char`, how far one can read behind a packet, and OpenGL, which takes an image of
    the atlas's size. -/
structure Setup where
  platform : Platform
  atlas : FontAtlas
  codes : KeyCodes
  widen : Widen
  behind : Nat
  gl : Desktop.Raw.OpenGl
  taken : atlas.Taken gl

/-- The render loop, and its clients with their connections. -/
structure ByteSystem where
  loop : LoopStatics
  mClients : List Peer
  /-- The last frame that was packed. -/
  lastFrame : Option SentFrame

/-- What can happen.  Clients are named by their index in `mClients`. -/
inductive ByteEvent where
  | connect (clipboard : Option Text) (mBuffer : Mem)
  | leave (i : Nat)
  | act (i : Nat) (action : DesktopAction)
  | serve (i : Nat) (rem : RecvResult)
  | copy (text : Text)
  | frame (f : Frame)
  | iterate (i : Nat) (rem : RecvResult) (texId : Nat)

namespace ByteSystem

/-- Nobody is connected. -/
def init : ByteSystem := ⟨LoopStatics.init, [], none⟩

/-- A client goes on to another state. -/
def setClient (s : ByteSystem) (i : Nat) (b : Peer) : ByteSystem :=
  { s with mClients := s.mClients.set i b }

/-- `Server::iterateClients`. -/
def iterateClients (func : Peer → Option Peer) : List Peer → Option (List Peer)
  | [] => some []
  | b :: bs => (func b).bind fun b' => (iterateClients func bs).map fun bs' => b' :: bs'

/-- `Platform_SetClipboardTextFn`.  A text that does not fit the desktop's buffer is left out: its
    packet is never handled. -/
def setClipboardText (s : ByteSystem) (text : Text) : Option ByteSystem :=
  if text.payload.length + packetHeaderSize ≤ Desktop.bufferSize then
    (iterateClients (Peer.sends [⟨.setClipboardText, text.payload⟩]) s.mClients).map fun mClients =>
      { s with mClients := mClients }
  else none

variable (E : Setup)

/-- One round of the loop of `runImguiLoop`: without clients nothing is rendered. -/
def frame (s : ByteSystem) (f : Frame) : Option ByteSystem :=
  if s.mClients.isEmpty then some s
  else
    (renderDrawData E.platform f.mouseCursor f.data s.loop).bind fun r =>
      match r.2 with
      | none => some { s with loop := r.1 }
      | some out =>
        (iterateClients (Peer.sendDrawData E.atlas out) s.mClients).map fun mClients =>
          ⟨r.1, mClients, some ⟨f, s.loop.displaySize⟩⟩

/-- One event; `none` if it is not possible. -/
def step (s : ByteSystem) : ByteEvent → Option ByteSystem
  | .connect clipboard mBuffer =>
    some { s with mClients := s.mClients ++ [Peer.connect clipboard mBuffer] }
  -- `run` erases inside its range-for, and goes on as it should only behind the last client
  | .leave i => if i + 1 = s.mClients.length then some { s with mClients := s.mClients.eraseIdx i }
    else none
  | .act i action => do
    let b ← s.mClients[i]?
    let b' ← b.act E.codes E.widen action
    some (s.setClient i b')
  | .serve i rem => do
    let b ← s.mClients[i]?
    let (b', calls) ← b.serve E.behind rem
    some { s.setClient i b' with loop := calls.foldl LoopStatics.apply s.loop }
  | .copy text => s.setClipboardText text
  | .frame f => s.frame E f
  | .iterate i rem texId => do
    let b ← s.mClients[i]?
    let b' ← b.iterate E.gl E.behind rem texId
    some (s.setClient i b')

end ByteSystem

/-! ## What is seen of a run

  Two runs are the same from outside when clients join and leave, and frames are rendered, at the
  same places in them.  What comes between, packets and pieces of them, is not compared. -/

/-- A client joins, one leaves, or a frame is rendered. -/
inductive Seen where
  | joined
  | left (i : Nat)
  | frame (f : Frame)

/-- What is seen of an event of `System` ... -/
def Event.seen : Event → List Seen
  | .connect _ => [.joined]
  | .leave i => [.left i]
  | .frame f => [.frame f]
  | _ => []

/-- ... and what of one on the bytes. -/
def ByteEvent.seen : ByteEvent → List Seen
  | .connect _ _ => [.joined]
  | .leave i => [.left i]
  | .frame f => [.frame f]
  | _ => []

/-- The frames among it. -/
def framesSeen (seen : List Seen) : List Frame :=
  seen.filterMap fun
    | .frame f => some f
    | _ => none

theorem framesOf_eq (events : List Event) : framesOf events = framesSeen (events.flatMap Event.seen) := by
  induction events with
  | nil => rfl
  | cons e events ih =>
    cases e with
    | frame f => exact congrArg (f :: ·) ih
    | _ => exact ih

/-! ## One client of several

  `Peer.IsRemote` says which `Remote` a peer is.  There is one lemma for each thing that can happen
  to a peer, and each gives the events of `System` that do the same: for an action at the desktop a
  tick and what is said besides (`act`), for an iteration of the sysmodule the packet that reaches
  the render loop, if there is one (`serve`), for one of the desktop the packet that is draw data or
  a font (`iterate`), and for a frame what every client is sent (`sendDrawData`). -/

section

variable {P : Platform} {font : List UInt8}

/-- The client has said more, and is otherwise the same. -/
structure Remote.Told (c c' : Remote) (packets : List ClientPacket) : Prop where
  flag : c'.mHasSentFontTexture = c.mHasSentFontTexture
  process : c'.process = c.process
  toServer : c'.toServer = c.toServer ++ packets
  toClient : c'.toClient = c.toClient

theorem System.setClient_self {t : System} {i : Nat} {c : Remote} (hc : t.mClients[i]? = some c) :
    t.setClient i c = t := by
  obtain ⟨hi, rfl⟩ := List.getElem?_eq_some_iff.mp hc
  rw [System.setClient, List.set_getElem_self]

theorem System.getElem?_setClient {t : System} {i : Nat} {c : Remote}
    (hc : t.mClients[i]? = some c) (c' : Remote) : (t.setClient i c').mClients[i]? = some c' := by
  obtain ⟨hi, -⟩ := List.getElem?_eq_some_iff.mp hc
  exact List.getElem?_set_self hi

theorem System.setClient_setClient (t : System) (i : Nat) (c c' : Remote) :
    (t.setClient i c).setClient i c' = t.setClient i c' := by
  rw [System.setClient, System.setClient, System.setClient, List.set_set]

/-- A client can say everything that is not a size, as the events of `System`. -/
theorem run_told (i : Nat) : ∀ (packets : List DesktopPacket),
    (∀ p ∈ packets, ∀ size, p ≠ .displaySize size) → ∀ {t : System} {c : Remote},
      t.mClients[i]? = some c → ∃ events c', run (System.step P font) t events = some (t.setClient i c') ∧
        events.flatMap Event.seen = [] ∧
          c.Told c' (packets.filterMap DesktopPacket.loopPacket) := by
  intro packets
  induction packets with
  | nil =>
    intro _ t c hc
    refine ⟨[], c, ?_, rfl, rfl, rfl, (List.append_nil _).symm, rfl⟩
    rw [System.setClient_self hc]
    rfl
  | cons p packets ih =>
    intro hno t c hc
    have hrest := fun q hq => hno q (List.mem_cons_of_mem p hq)
    -- one event, and then the others
    have hnext : ∀ (e : Event) (c₁ : Remote) (q : ClientPacket), e.seen = [] →
        t.step P font e = some (t.setClient i c₁) → c.Told c₁ [q] → p.loopPacket = some q →
        ∃ events c', run (System.step P font) t events = some (t.setClient i c') ∧
          events.flatMap Event.seen = [] ∧
            c.Told c' ((p :: packets).filterMap DesktopPacket.loopPacket) := by
      intro e c₁ q hseen hstep htold hq
      obtain ⟨events, c', hrun, hquiet, h'⟩ := ih hrest (System.getElem?_setClient hc c₁)
      rw [System.setClient_setClient] at hrun
      refine ⟨e :: events, c', run_cons.mpr ⟨_, hstep, hrun⟩, ?_, h'.flag.trans htold.flag,
        h'.process.trans htold.process, ?_, h'.toClient.trans htold.toClient⟩
      · rw [List.flatMap_cons, hseen, hquiet, List.append_nil]
      · rw [h'.toServer, htold.toServer, List.filterMap_cons_some hq, List.append_assoc]
        rfl
    cases p with
    | hello =>
      refine hnext (.hello i) c.sendHello .hello rfl ?_ ⟨rfl, rfl, rfl, rfl⟩ rfl
      rw [System.step, hc, Option.map_some]
    | mouse packet padding =>
      refine hnext (.mouse i) c.sendMouse .updateMouse rfl ?_ ⟨rfl, rfl, rfl, rfl⟩ rfl
      rw [System.step, hc, Option.map_some]
    | displaySize size => exact absurd rfl (hno _ List.mem_cons_self size)
    | _ => exact ih hrest hc

end

/-- A frame that is sent is not larger than the buffer. -/
theorem length_renderDrawData {P : Platform} {mouseCursor : Int32} {data : ImDrawData}
    {st st' : LoopStatics} {out : List UInt8}
    (h : renderDrawData P mouseCursor data st = some (st', some out)) :
    out.length ≤ sDrawDataBufferSize := by
  rw [renderDrawData] at h
  split at h
  · obtain ⟨r, -, h⟩ := Option.bind_eq_some_iff.mp h
    split at h
    next hfits =>
      cases h
      exact hfits
    next => exact absurd h.symm (Option.some_ne_none _)
  · cases h

/-- What is sent is a packed frame, with the cursor of the frame. -/
theorem renderDrawData_sent {P : Platform} {f : Frame} {st st' : LoopStatics} {out : List UInt8}
    (h : renderDrawData P f.mouseCursor f.data st = some (st', some out)) :
    ∃ p : PackedFrame, out = p.bytes ∧ p.bytes.length ≤ sDrawDataBufferSize ∧
      p.header.curCursor = f.mouseCursor := by
  have hlength := length_renderDrawData h
  rcases renderDrawData_frame P h with ⟨hnone, -⟩ | ⟨hsome, -⟩
  · exact absurd hnone (Option.some_ne_none out)
  · cases hsome
    exact ⟨_, rfl, hlength, rfl⟩

/-- The `Remote` is the peer. -/
def Peer.IsRemote (E : Setup) (b : Peer) (c : Remote) : Prop :=
  ∃ up down, b.Refines E.atlas c up down

section

variable {E : Setup} {b b' : Peer} {c c' : Remote} {up : List DesktopPacket}
  {down : List ServerPacket} {i : Nat}

/-- A client that joins is the one that joins in `System`. -/
theorem Peer.isRemote_connect (E : Setup) (clipboard : Option Text) (mBuffer : Mem)
    (t : Delta.Table UInt32) :
    (Peer.connect clipboard mBuffer).IsRemote E (Remote.connect ⟨-1, -1⟩ t) :=
  ⟨[], [], carries_connect E.atlas clipboard mBuffer, rfl, rfl, rfl, rfl⟩

/-- What was said comes to the queue. -/
theorem Peer.Refines.told (h : b.Refines E.atlas c up down)
    {packets : List DesktopPacket} (hcarries : b'.Carries E.atlas (up ++ packets) down)
    (hflag : b'.mHasSentFontTexture = b.mHasSentFontTexture) (hprocess : c'.process =
      ⟨b'.statics, b'.desktop.displaySize, b'.desktop.sLastDisplaySize⟩)
    (htold : c'.mHasSentFontTexture = c.mHasSentFontTexture ∧ c'.toClient = c.toClient ∧
      c'.toServer = c.toServer ++ packets.filterMap DesktopPacket.loopPacket) : b'.IsRemote E c' := by
  obtain ⟨hflag', hclient, hserver⟩ := htold
  refine ⟨up ++ packets, down, hcarries, ?_, hprocess, ?_, hclient.trans h.toClient⟩
  · rw [hflag', h.flag, hflag]
  · rw [hserver, h.toServer, List.filterMap_append]

/-- What an action sends: the size of the window, if it is a tick that finds another one than the one
    noted; and packets that are none. -/
theorem DesktopInput.Acts.said {codes : KeyCodes} {widen : Widen} {s s' : DesktopInput}
    {packets : List DesktopPacket} (h : Acts codes widen s s' packets) :
    ∃ rest, (∀ p ∈ rest, ∀ size, p ≠ .displaySize size) ∧
      ((packets = rest ∧ s'.displaySize = s.displaySize ∧ s'.sLastDisplaySize = s.sLastDisplaySize) ∨
        ∃ windowSize : ImVec2, s.opened = true ∧
          packets = (if s.sLastDisplaySize.x ≠ windowSize.x ∨ s.sLastDisplaySize.y ≠ windowSize.y then
            [.displaySize windowSize] else []) ++ rest ∧
          s'.displaySize = windowSize ∧ s'.sLastDisplaySize = windowSize) := by
  cases h with
  | quiet opened cursorPos clipboard hkeep packets hpackets =>
    refine ⟨packets, fun p hp size => ?_, Or.inl ⟨rfl, rfl, rfl⟩⟩
    rcases hpackets p hp with rfl | rfl | ⟨c, rfl⟩ <;> exact DesktopPacket.noConfusion
  | mouse button pressed wheelX wheelY padding hx hy =>
    refine ⟨_, fun p hp size => ?_, Or.inl ⟨rfl, rfl, rfl⟩⟩
    obtain ⟨packet, -, rfl⟩ := List.mem_map.mp hp
    exact DesktopPacket.noConfusion
  | key keycode action padding =>
    refine ⟨_, fun p hp size => ?_, Or.inl ⟨rfl, rfl, rfl⟩⟩
    obtain ⟨packet, -, rfl⟩ := List.mem_map.mp hp
    exact DesktopPacket.noConfusion
  | tick windowSize padding texts hopened hsize htexts =>
    refine ⟨_, fun p hp size => ?_, Or.inr ⟨windowSize, hopened, rfl, rfl, rfl⟩⟩
    rcases List.mem_append.mp hp with hp | hp
    · split at hp
      next =>
        obtain ⟨packet, -, rfl⟩ := List.mem_map.mp hp
        exact DesktopPacket.noConfusion
      next => exact absurd hp List.not_mem_nil
    · obtain ⟨text, rfl, -⟩ := mem_sendClipboard htexts hp
      exact DesktopPacket.noConfusion

/-- `updateNetworkInput` of `System`, where draw data has been handled. -/
theorem updateNetworkInput_shown {c : ClientProcess} (hshown : c.statics.sDrawData.isSome = true)
    (windowSize : ImVec2) : updateNetworkInput windowSize c =
      ({ c with displaySize := windowSize, sLastDisplaySize := windowSize },
        if c.sLastDisplaySize.x ≠ windowSize.x ∨ c.sLastDisplaySize.y ≠ windowSize.y then
          [.updateDisplaySize windowSize] else []) := by
  rw [updateNetworkInput, if_neg (by simpa [Option.isSome_iff_ne_none] using hshown)]

/-- **An action at the desktop**, as events of `System`: a tick, or nothing, and what is said besides. -/
theorem Peer.IsRemote.act (h : b.IsRemote E c) {action : DesktopAction}
    (hstep : b.act E.codes E.widen action = some b') {t : System} (hc : t.mClients[i]? = some c) :
    ∃ events c', run (System.step E.platform E.atlas.payload) t events = some (t.setClient i c') ∧
      events.flatMap Event.seen = [] ∧ b'.IsRemote E c' := by
  obtain ⟨up, down, h⟩ := h
  obtain ⟨desktop, packets, pipe, hacts, rfl, hcarries⟩ := h.carries.act hstep
  obtain ⟨rest, hrest, ⟨rfl, hsize, hlast⟩ | ⟨windowSize, hopened, rfl, hsize, hlast⟩⟩ := hacts.said
  · obtain ⟨events, c', hrun, hseen, htold⟩ := run_told i packets hrest hc
    refine ⟨events, c', hrun, hseen, h.told hcarries rfl ?_
      ⟨htold.flag, htold.toClient, htold.toServer⟩⟩
    rw [htold.process, h.process, hsize, hlast]
  · obtain ⟨events, c', hrun, hseen, htold⟩ := run_told i rest hrest
      (System.getElem?_setClient hc (c.tick windowSize))
    rw [System.setClient_setClient] at hrun
    have htick := updateNetworkInput_shown (c := c.process)
      (by rw [h.process]; exact h.carries.opened.symm.trans hopened) windowSize
    have hprocess : (c.tick windowSize).process = (updateNetworkInput windowSize c.process).1 := rfl
    have hserver : (c.tick windowSize).toServer =
        c.toServer ++ (updateNetworkInput windowSize c.process).2 := rfl
    rw [htick, h.process] at hprocess hserver
    refine ⟨.tick i windowSize :: events, c', run_cons.mpr ⟨_, ?_, hrun⟩, hseen,
      h.told hcarries rfl ?_ ⟨htold.flag, htold.toClient, ?_⟩⟩
    · rw [System.step, hc, Option.map_some]
    · rw [htold.process, hprocess, hsize, hlast]
    · rw [htold.toServer, hserver, List.append_assoc, List.filterMap_append]
      dsimp only
      split
      · rfl
      · rfl

/-- **An iteration of the sysmodule**: the next packet that reaches the render loop, or nothing. -/
theorem Peer.IsRemote.serve (h : b.IsRemote E c) {rem : RecvResult} {calls : List UiCall}
    (hstep : b.serve E.behind rem = some (b', calls)) {t : System} (hc : t.mClients[i]? = some c) :
    ∃ events c', run (System.step E.platform E.atlas.payload) t events =
        some { t.setClient i c' with loop := calls.foldl LoopStatics.apply t.loop } ∧
      events.flatMap Event.seen = [] ∧ b'.IsRemote E c' := by
  obtain ⟨up, down, h⟩ := h
  obtain ⟨next, later, pipe, rfl, rfl, rfl, hcarries⟩ := h.carries.serve hstep
  have hserver := h.toServer
  rw [List.filterMap_append] at hserver
  cases next with
  | none =>
    refine ⟨[], c, ?_, rfl, later, down, hcarries, h.flag, h.process, hserver, h.toClient⟩
    rw [System.setClient_self hc]
    rfl
  | some p =>
    have hcalls := foldl_uiCalls t.loop (h.carries.ok p (List.mem_append_left _ (by simp)))
    rw [Option.toList_some, List.flatMap_singleton, hcalls]
    cases hp : p.loopPacket with
    | none =>
      refine ⟨[], c, ?_, rfl, later, down, hcarries, h.flag, h.process, ?_, h.toClient⟩
      · rw [System.setClient_self hc]
        rfl
      · rw [hserver]
        simp [hp]
    | some q =>
      have hqueue : c.toServer = q :: later.filterMap DesktopPacket.loopPacket := by
        rw [hserver]
        simp [hp]
      refine ⟨[.receive i], { c with toServer := later.filterMap DesktopPacket.loopPacket }, ?_, rfl,
        later, down, hcarries, h.flag, h.process, rfl, h.toClient⟩
      refine run_cons.mpr ⟨_, ?_, rfl⟩
      rw [System.step, System.receive, hc, Option.bind_eq_bind, Option.bind_some]
      simp only [hqueue]
      rfl

/-- **An iteration of the desktop**: the next packet that is a frame or the font, or nothing. -/
theorem Peer.IsRemote.iterate (h : b.IsRemote E c) {rem : RecvResult} {texId : Nat}
    (hstep : b.iterate E.gl E.behind rem texId = some b') {t : System}
    (hc : t.mClients[i]? = some c) :
    ∃ events c', run (System.step E.platform E.atlas.payload) t events = some (t.setClient i c') ∧
      events.flatMap Event.seen = [] ∧ b'.IsRemote E c' := by
  obtain ⟨up, down, h⟩ := h
  obtain ⟨⟨pipe, call⟩, hreceive, -⟩ := Option.bind_eq_some_iff.mp hstep
  obtain ⟨next, later, rfl, -, hnext, hcarries⟩ := h.carries.iterate E.taken E.behind texId hreceive
  cases Option.some.inj (hnext.symm.trans hstep)
  have hclient := h.toClient
  rw [List.filter_append, List.map_append] at hclient
  -- the packet at the head of the queue is handled
  have hhandle : ∀ (packet : Packet) (process : ClientProcess),
      c.toClient = packet :: (later.filter ServerPacket.isFrame).map (ServerPacket.packet E.atlas) →
      Desktop.handlePacket texId packet c.process = some process →
      ∃ c', run (System.step E.platform E.atlas.payload) t [.handle i texId] = some (t.setClient i c') ∧
        c'.mHasSentFontTexture = c.mHasSentFontTexture ∧ c'.process = process ∧
        c'.toServer = c.toServer ∧
        c'.toClient = (later.filter ServerPacket.isFrame).map (ServerPacket.packet E.atlas) := by
    intro packet process hqueue hprocess
    refine ⟨{ c with
      toClient := (later.filter ServerPacket.isFrame).map (ServerPacket.packet E.atlas)
      process := process
      history := if packet.type = .drawData then
        Remote.recordHandled c.history c.process.displaySize else c.history },
      run_cons.mpr ⟨_, ?_, rfl⟩, rfl, rfl, rfl, rfl⟩
    rw [System.step, hc, Option.bind_eq_bind, Option.bind_some, Remote.handleNext]
    simp only [hqueue, hprocess]
    rfl
  cases next with
  | none =>
    refine ⟨[], c, ?_, rfl, up, later, hcarries, h.flag, h.process, h.toServer, hclient⟩
    rw [System.setClient_self hc]
    rfl
  | some p =>
    cases p with
    | drawData p =>
      obtain ⟨c', hrun, hflag, hprocess, hserver, hlater⟩ := hhandle _ _ hclient (by
        rw [Desktop.handlePacket]
        show (unpackDrawData _ (Mem.ofList p.bytes) p.bytes.length _).map _ = _
        rw [unpackDrawData_packed _ _ _ (Mem.holds_ofList p.bytes)]
        rfl)
      refine ⟨_, c', hrun, rfl, up, later, hcarries, hflag.trans h.flag, ?_, hserver.trans h.toServer,
        hlater⟩
      rw [hprocess, h.process]
      rfl
    | fontTexture =>
      obtain ⟨c', hrun, hflag, hprocess, hserver, hlater⟩ := hhandle _ _ hclient rfl
      exact ⟨_, c', hrun, rfl, up, later, hcarries, hflag.trans h.flag, hprocess.trans h.process,
        hserver.trans h.toServer, hlater⟩
    | clipboardText text =>
      -- a text is nothing to `System`
      refine ⟨[], c, ?_, rfl, up, later, hcarries, ?_, ?_, h.toServer, hclient⟩
      · rw [System.setClient_self hc]
        rfl
      · rw [h.flag]
        show _ = ({ b with down := pipe }.apply (.clipboardString text.bytes)).mHasSentFontTexture
        rw [Peer.apply]
        split <;> rfl
      · rw [h.process]
        show _ = ClientProcess.mk ({ b with down := pipe }.apply (.clipboardString text.bytes)).statics
          ({ b with down := pipe }.apply (.clipboardString text.bytes)).desktop.displaySize
          ({ b with down := pipe }.apply (.clipboardString text.bytes)).desktop.sLastDisplaySize
        rw [Peer.apply]
        split <;> rfl

/-- What `render` sends to a client. -/
def Peer.drawDataPackets (b : Peer) (p : PackedFrame) : List ServerPacket :=
  .drawData p :: if b.mHasSentFontTexture then [] else [.fontTexture]

/-- As packets, they are what `sendFrame` says, and none is a text. -/
theorem Peer.map_drawDataPackets (b : Peer) (p : PackedFrame) :
    (b.drawDataPackets p).map (ServerPacket.packet E.atlas) =
      sendFrame E.atlas.payload b.mHasSentFontTexture p.bytes ∧
        ∀ q ∈ b.drawDataPackets p, q.isFrame = true := by
  rw [drawDataPackets, sendFrame]
  cases b.mHasSentFontTexture with
  | true => exact ⟨rfl, by simp [ServerPacket.isFrame]⟩
  | false => exact ⟨rfl, by simp [ServerPacket.isFrame]⟩

/-- **The draw data, and the font for a client that has not had it.** -/
theorem Peer.Carries.sendDrawData (h : b.Carries E.atlas up down) {p : PackedFrame}
    (hfits : p.bytes.length ≤ sDrawDataBufferSize) :
    ∃ pipe, b.sendDrawData E.atlas p.bytes =
        some { b with down := pipe, mHasSentFontTexture := true } ∧
      ({ b with down := pipe, mHasSentFontTexture := true } : Peer).Carries E.atlas up
        (down ++ b.drawDataPackets p) := by
  have hdata : (ServerPacket.drawData p).Fits E.atlas := by
    show p.bytes.length + packetHeaderSize ≤ Desktop.bufferSize
    rw [sDrawDataBufferSize] at hfits
    rw [packetHeaderSize, Desktop.bufferSize]
    omega
  have hfont : ServerPacket.fontTexture.Fits E.atlas := by
    have hlen := E.atlas.fits
    show E.atlas.payload.length + packetHeaderSize ≤ Desktop.bufferSize
    rw [FontAtlas.payload, List.length_append, List.length_append, length_intBytes, length_intBytes]
    omega
  have hall : ∀ q ∈ b.drawDataPackets p, q.Fits E.atlas := by
    intro q hq
    rcases List.mem_cons.mp hq with rfl | hq
    · exact hdata
    · split at hq
      next => exact absurd hq List.not_mem_nil
      next => exact (List.mem_singleton.mp hq) ▸ hfont
  obtain ⟨pipe, hsends, hcarries⟩ := h.sends hall trivial
  refine ⟨pipe, ?_, { hcarries with }⟩
  rw [Peer.sendDrawData, ← (b.map_drawDataPackets p).1, hsends]
  rfl

/-- What a frame is to a client: draw data, and the font texture when it has none. -/
theorem Peer.IsRemote.sendDrawData (h : b.IsRemote E c) (f : SentFrame) {p : PackedFrame}
    (hfits : p.bytes.length ≤ sDrawDataBufferSize) :
    ∃ b', b.sendDrawData E.atlas p.bytes = some b' ∧
      b'.IsRemote E (c.sendDrawData E.atlas.payload f p.bytes) := by
  obtain ⟨up, down, h⟩ := h
  obtain ⟨pipe, hsends, hcarries⟩ := h.carries.sendDrawData hfits
  obtain ⟨hpackets, hframes⟩ := b.map_drawDataPackets (E := E) p
  refine ⟨_, hsends, up, _, hcarries, rfl, h.process, h.toServer, ?_⟩
  show c.toClient ++ sendFrame E.atlas.payload c.mHasSentFontTexture p.bytes = _
  rw [h.toClient, h.flag, ← hpackets, List.filter_append, List.map_append,
    List.filter_eq_self.mpr hframes]

/-- A text that fits. -/
theorem Peer.Carries.setClipboardText (h : b.Carries E.atlas up down) {text : Text}
    (hfits : text.payload.length + packetHeaderSize ≤ Desktop.bufferSize) :
    ∃ pipe, b.sends [⟨.setClipboardText, text.payload⟩] = some { b with down := pipe } ∧
      ({ b with down := pipe } : Peer).Carries E.atlas up
        (down ++ [.clipboardText text]) := by
  have hall : ∀ q ∈ [ServerPacket.clipboardText text], q.Fits E.atlas := fun q hq => by
    rw [List.mem_singleton.mp hq]
    exact hfits
  exact h.sends hall trivial

/-- It is nothing to `System`. -/
theorem Peer.IsRemote.setClipboardText (h : b.IsRemote E c) {text : Text}
    (hfits : text.payload.length + packetHeaderSize ≤ Desktop.bufferSize) :
    ∃ b', b.sends [⟨.setClipboardText, text.payload⟩] = some b' ∧ b'.IsRemote E c := by
  obtain ⟨up, down, h⟩ := h
  obtain ⟨pipe, hsends, hcarries⟩ := h.carries.setClipboardText hfits
  refine ⟨_, hsends, up, _, hcarries, h.flag, h.process, h.toServer, ?_⟩
  rw [h.toClient, List.filter_append]
  exact congrArg _ (List.append_nil _).symm

/-- What is done for every client. -/
theorem ByteSystem.iterateClients_eq {γ : Type} {R R' : Peer → γ → Prop} {func : Peer → Option Peer}
    (func' : γ → γ) (hfunc : ∀ b c, R b c → ∃ b', func b = some b' ∧ R' b' (func' c))
    {bs : List Peer} {cs : List γ} (h : List.Forall₂ R bs cs) :
    ∃ bs', iterateClients func bs = some bs' ∧ List.Forall₂ R' bs' (cs.map func') := by
  induction h with
  | nil => exact ⟨[], rfl, List.Forall₂.nil⟩
  | cons hbc _ ih =>
    obtain ⟨b', hb', hR⟩ := hfunc _ _ hbc
    obtain ⟨bs', hbs', hall⟩ := ih
    refine ⟨b' :: bs', ?_, List.Forall₂.cons hR hall⟩
    rw [iterateClients, hb', Option.bind_some, hbs', Option.map_some]

end

/-! ## The whole system

  `simulates` puts the lemmas about one client together: a step on the bytes is a run of `System`,
  often of no event at all, and the clients that it does not touch stay what they were.  `refines`
  is the induction over the run.  Behind it stand the first results that carry over. -/

/-- The same render loop, and the same clients. -/
structure ByteSystem.Refines (E : Setup) (s : ByteSystem) (t : System) : Prop where
  loop : t.loop = s.loop
  lastFrame : t.lastFrame = s.lastFrame
  clients : List.Forall₂ (Peer.IsRemote E) s.mClients t.mClients

namespace ByteSystem

variable {E : Setup} {s s' : ByteSystem} {t : System}

/-- Both begin without clients. -/
theorem refines_init (E : Setup) : init.Refines E System.init := ⟨rfl, rfl, List.Forall₂.nil⟩

/-- One client has changed. -/
theorem Refines.setClient (h : s.Refines E t) {i : Nat} {b : Peer} {c : Remote}
    (hbc : b.IsRemote E c) : (s.setClient i b).Refines E (t.setClient i c) :=
  ⟨h.loop, h.lastFrame, forall₂_set h.clients hbc i⟩

/-- A frame: packed or not, and sent to everybody or to nobody. -/
theorem Refines.frame (h : s.Refines E t) {f : Frame} (hstep : s.frame E f = some s') :
    ∃ t', t.frame E.platform E.atlas.payload f = some t' ∧ s'.Refines E t' := by
  have hlength := h.clients.length_eq
  rw [ByteSystem.frame] at hstep
  by_cases hempty : s.mClients.isEmpty = true
  · have hempty' : t.mClients.isEmpty = true := by
      rw [List.isEmpty_iff, ← List.length_eq_zero_iff] at hempty ⊢
      exact hlength.symm.trans hempty
    rw [if_pos hempty] at hstep
    cases hstep
    exact ⟨t, by rw [System.frame, if_pos hempty'], h⟩
  · have hempty' : ¬t.mClients.isEmpty = true := by
      rw [List.isEmpty_iff, ← List.length_eq_zero_iff] at hempty ⊢
      rwa [← hlength]
    rw [if_neg hempty] at hstep
    obtain ⟨⟨loop, out⟩, hrender, hstep⟩ := Option.bind_eq_some_iff.mp hstep
    rw [System.frame, if_neg hempty', h.loop, hrender, Option.map_some]
    cases out with
    | none =>
      cases hstep
      exact ⟨_, rfl, rfl, h.lastFrame, h.clients⟩
    | some out =>
      obtain ⟨p, rfl, hfits, -⟩ := renderDrawData_sent hrender
      obtain ⟨bs, hbs, hall⟩ := iterateClients_eq
        (Remote.sendDrawData E.atlas.payload ⟨f, s.loop.displaySize⟩ p.bytes)
        (fun b c hbc => hbc.sendDrawData ⟨f, s.loop.displaySize⟩ hfits) h.clients
      dsimp only at hstep
      rw [hbs] at hstep
      cases hstep
      exact ⟨_, rfl, rfl, rfl, hall⟩

/-- **The simulation.**  Each event of the bytes is a run of `System` that is seen as the same. -/
theorem simulates (E : Setup) : Simulates (step E) (System.step E.platform E.atlas.payload)
    ByteEvent.seen Event.seen (Refines E) where
  step s t e s' h hstep := by
    cases e with
    | connect clipboard mBuffer =>
      cases hstep
      have hnew := Peer.isRemote_connect E clipboard mBuffer t.loop.table
      exact ⟨[.connect ⟨-1, -1⟩], _, run_cons.mpr ⟨_, rfl, rfl⟩, rfl, h.loop, h.lastFrame,
        List.rel_append h.clients (List.Forall₂.cons hnew List.Forall₂.nil)⟩
    | leave i =>
      rw [step] at hstep
      split at hstep
      next hi =>
        cases hstep
        refine ⟨[.leave i], { t with mClients := t.mClients.eraseIdx i }, run_cons.mpr ⟨_, ?_, rfl⟩, rfl,
          h.loop, h.lastFrame, forall₂_eraseIdx h.clients i⟩
        have hlen := h.clients.length_eq
        rw [System.step, if_pos (by omega)]
      next => exact absurd hstep (Option.some_ne_none s').symm
    | act i action =>
      obtain ⟨b, hb, hstep⟩ := Option.bind_eq_some_iff.mp hstep
      obtain ⟨b', hact, hstep⟩ := Option.bind_eq_some_iff.mp hstep
      cases hstep
      obtain ⟨c, hc, hbc⟩ := forall₂_getElem? h.clients hb
      -- a tick, and what else is said of interest
      obtain ⟨events, c', hrun, hseen, hbc'⟩ := hbc.act hact hc
      exact ⟨events, _, hrun, hseen, h.setClient hbc'⟩
    | serve i rem =>
      obtain ⟨b, hb, hstep⟩ := Option.bind_eq_some_iff.mp hstep
      obtain ⟨⟨b', calls⟩, hserve, hstep⟩ := Option.bind_eq_some_iff.mp hstep
      cases hstep
      obtain ⟨c, hc, hbc⟩ := forall₂_getElem? h.clients hb
      obtain ⟨events, c', hrun, hseen, hbc'⟩ := hbc.serve hserve hc
      have hset := h.setClient (i := i) hbc'
      exact ⟨events, _, hrun, hseen, congrArg (fun loop => calls.foldl LoopStatics.apply loop) h.loop,
        hset.lastFrame, hset.clients⟩
    | copy text =>
      rw [step, setClipboardText] at hstep
      split at hstep
      next hfits =>
        obtain ⟨bs, hbs, hall⟩ := iterateClients_eq (R := Peer.IsRemote E) id
          (fun b c hbc => Peer.IsRemote.setClipboardText hbc hfits) h.clients
        rw [hbs] at hstep
        cases hstep
        -- `System` has no texts: nothing happens there
        exact ⟨[], t, rfl, rfl, h.loop, h.lastFrame, List.map_id t.mClients ▸ hall⟩
      next => exact absurd hstep (Option.some_ne_none s').symm
    | frame f =>
      obtain ⟨t', ht', h'⟩ := h.frame hstep
      exact ⟨[.frame f], t', run_cons.mpr ⟨t', ht', rfl⟩, rfl, h'⟩
    | iterate i rem texId =>
      obtain ⟨b, hb, hstep⟩ := Option.bind_eq_some_iff.mp hstep
      obtain ⟨b', hiterate, hstep⟩ := Option.bind_eq_some_iff.mp hstep
      cases hstep
      obtain ⟨c, hc, hbc⟩ := forall₂_getElem? h.clients hb
      -- the next packet that is draw data or the font, if there is one
      obtain ⟨events, c', hrun, hseen, hbc'⟩ := hbc.iterate hiterate hc
      exact ⟨events, _, hrun, hseen, h.setClient hbc'⟩

/-- **The bytes do what the packets say.**  Every run of the two programs, byte for byte, is a run of
    `System`: the same clients join and leave, the same frames are rendered, and each client's program
    and the render loop are in the same states. -/
theorem refines (E : Setup) (events : List ByteEvent) (s : ByteSystem)
    (hrun : run (step E) init events = some s) :
    ∃ events' t, run (System.step E.platform E.atlas.payload) System.init events' = some t ∧
      events'.flatMap Event.seen = events.flatMap ByteEvent.seen ∧ s.Refines E t :=
  (simulates E).run events (refines_init E) hrun

/-- **The font arrives whole, behind an open window.**  In every run, a client that has loaded a font
    texture has its window open, and the image is the sysmodule's atlas, pixel for pixel; and the window
    is open if and only if there is draw data. -/
theorem font_whole (E : Setup) (events : List ByteEvent) (s : ByteSystem)
    (hrun : run (step E) init events = some s) (b : Peer) (hb : b ∈ s.mClients) :
    (∀ image, b.font = some image → b.desktop.opened = true ∧
      image = ⟨E.atlas.width, E.atlas.height, E.atlas.pixels⟩) ∧
      (b.desktop.opened = true ↔ b.statics.sDrawData.isSome = true) := by
  obtain ⟨-, t, -, -, href⟩ := (simulates E).run events (refines_init E) hrun
  obtain ⟨i, hi⟩ := List.getElem?_of_mem hb
  obtain ⟨c, -, up, down, hbc⟩ := forall₂_getElem? href.clients hi
  refine ⟨fun image himage => ⟨?_, ?_⟩, by rw [hbc.carries.opened]⟩
  · cases hopened : b.desktop.opened with
    | true => rfl
    | false =>
      -- with the window closed no font texture was handled
      have hnone := (hbc.carries.unopened hopened).2
      exact absurd (himage.symm.trans hnone) (Option.some_ne_none image)
  · rcases hbc.carries.font with hnone | hatlas
    · exact absurd (himage.symm.trans hnone) (Option.some_ne_none image)
    · exact Option.some.inj (himage.symm.trans hatlas)

/-- An atlas of one white pixel. -/
def onePixel : FontAtlas where
  width := 1
  height := 1
  pixels := [255, 255, 255, 255]
  length_pixels := by decide
  fits := by decide

/-- A setup to run: one pixel of an atlas, and no byte behind a packet. -/
def plain : Setup where
  platform := Platform.lp64
  atlas := onePixel
  codes := KeyCodes.named
  widen := widenU8
  behind := 0
  gl := ⟨fun width height => 4 * (width.toNatClampNeg * height.toNatClampNeg)⟩
  taken := rfl

/-- The bytes of the first draw data with a red triangle, and of the font behind it. -/
def firstBytes : List UInt8 :=
  wireAll ([ServerPacket.drawData (packedFrame Platform.lp64 ⟨1280, 720⟩ LoopStatics.init.table
    (triangles [1] one_fits)), .fontTexture].map (ServerPacket.wirePacket onePixel))

/-- A client connects, a triangle is rendered, and the bytes arrive in two pieces; the window that
    opens is smaller than the sysmodule's display. -/
def firstFrame : List ByteEvent :=
  [.connect none fun _ => 0, .act 0 .hello, .frame (triangles [1] one_fits),
    .iterate 0 (.bytes (firstBytes.take 30)) 0, .iterate 0 (.bytes (firstBytes.drop 30)) 0,
    .iterate 0 .wouldBlock 0, .iterate 0 .wouldBlock 0,
    .act 0 (.tick ⟨640, 360⟩ (Vector.replicate 3 0))]

theorem refines_firstFrame : ∃ s events t,
    run (step plain) init firstFrame = some s ∧
      run (System.step Platform.lp64 onePixel.payload) System.init events = some t ∧
      events.flatMap Event.seen = firstFrame.flatMap ByteEvent.seen ∧ s.Refines plain t ∧
      s.mClients.map (fun b => (b.desktop.opened, b.font)) =
        [(true, some ⟨1, 1, [255, 255, 255, 255]⟩)] := by
  have hrun : (run (step plain) init firstFrame).map (fun s => s.mClients.map fun b =>
      (b.desktop.opened, b.font)) = some [(true, some ⟨1, 1, [255, 255, 255, 255]⟩)] := by
    decide +kernel
  obtain ⟨s, hs, hclients⟩ := Option.map_eq_some_iff.mp hrun
  obtain ⟨events, t, ht, hseen, href⟩ := refines plain firstFrame s hs
  exact ⟨s, events, t, hs, ht, hseen, href, hclients⟩

theorem font_whole_firstFrame : ∃ s b, run (step plain) init firstFrame = some s ∧
    b ∈ s.mClients ∧ b.font = some ⟨1, 1, [255, 255, 255, 255]⟩ ∧ b.desktop.opened = true := by
  have hrun : (run (step plain) init firstFrame).bind (fun s => s.mClients[0]?.map Peer.font) =
      some (some ⟨1, 1, [255, 255, 255, 255]⟩) := by
    decide +kernel
  obtain ⟨s, hs, hb⟩ := Option.bind_eq_some_iff.mp hrun
  obtain ⟨b, hb, hfont⟩ := Option.map_eq_some_iff.mp hb
  have hwhole := font_whole plain firstFrame s hs b (List.mem_of_getElem? hb)
  exact ⟨s, b, hs, List.mem_of_getElem? hb, hfont, (hwhole.1 _ hfont).1⟩

end ByteSystem

end Nxdb
