/-
  The server, its clients and the connections between them.

  A `Remote` is one client with its two channels, both FIFO: packets towards the server and packets
  towards the client.  The events are those of the two programs: a client connects or leaves,
  sends a `Hello` or a mouse event, looks at its window (`updateNetworkInput`), or handles the next
  packet; the server handles the next packet of a client or renders a frame.  Any order is a run.

  Each connection keeps a `History` that no code reads: the server's hash table when the client
  connected, the frames handled since then and the frames still in flight.  Two things are proved
  about every run:

  * `ClientInvariant.run`  the rule: what holds for a client that connects and is kept by the four
                           things that can happen to a connection, holds for every client of every
                           state a run reaches;
  * `linked`               the packets in flight are the pending frames, encoded one after the other
                           against the table the client started from, which all frames since then
                           turn into the server's current one.
-/
import Nxdb.ImGuiLoop
import Nxdb.Lib.Run

namespace Nxdb

open Lib

/-! ## One client and its connection

  A `ClientProcess` is the program at the other end, as far as draw data and sizes go, and outlives
  nothing: a client that connects again is another one here.  `Remote` adds what is on the way, and
  the `History` of the connection. -/

/-- A client process: the static variables of `DrawData.cpp`, `io.DisplaySize` and
    `sLastDisplaySize`. -/
structure ClientProcess where
  statics : DrawDataStatics
  displaySize : ImVec2
  sLastDisplaySize : ImVec2

namespace ClientProcess

/-- The lists of the client's previous frame. -/
def prev (c : ClientProcess) : List ImDrawList := c.statics.sDrawDataPrev.getD []

end ClientProcess

/-- `Client::handlePacket` of the desktop client, while the atlas texture is `texId`. -/
def Desktop.handlePacket (texId : Nat) (packet : Packet) (c : ClientProcess) :
    Option ClientProcess :=
  match packet.type with
  | .drawData =>
    (unpackDrawData ⟨c.displaySize, texId⟩ (Mem.ofList packet.payload) packet.payload.length
      c.statics).map fun u => { c with statics := u.st }
  | _ => some c

/-- `updateNetworkInput` with a window of the given size, which the first draw data opens. -/
def updateNetworkInput (windowSize : ImVec2) (c : ClientProcess) :
    ClientProcess × List ClientPacket :=
  if c.statics.sDrawData.isNone then (c, [])
  else
    ({ c with displaySize := windowSize, sLastDisplaySize := windowSize },
      if c.sLastDisplaySize.x ≠ windowSize.x ∨ c.sLastDisplaySize.y ≠ windowSize.y then
        [.updateDisplaySize windowSize]
      else [])

/-- A frame that was sent, and the display size it was packed with. -/
structure SentFrame where
  frame : Frame
  packedAt : ImVec2

/-- A frame that was handled, and the display size it was unpacked with. -/
structure HandledFrame extends SentFrame where
  unpackedAt : ImVec2

/-- What happened on a connection. -/
structure History where
  /-- The server's hash table when the client connected. -/
  connectTable : Delta.Table UInt32
  /-- A `Hello` was sent. -/
  sentHello : Bool
  /-- A frame was sent after the `Hello`. -/
  frameAfterHello : Bool
  /-- The frames the client handled, newest first. -/
  handled : List HandledFrame
  /-- The frames in flight, oldest first. -/
  pending : List SentFrame

namespace History

/-- All frames sent to the client, oldest first. -/
def sent (h : History) : List SentFrame :=
  h.handled.reverse.map HandledFrame.toSentFrame ++ h.pending

/-- The lists of the frames the client handled, oldest first. -/
def handledLists (h : History) : List (List ImDrawList) :=
  h.handled.reverse.map fun g => g.frame.lists

end History

/-- One client, as the server and the network see it. -/
structure Remote where
  mHasSentFontTexture : Bool
  toServer : List ClientPacket
  toClient : List Packet
  process : ClientProcess
  history : History

namespace Remote

/-- A fresh process that connects when the server's table is `t`. -/
def connect (displaySize : ImVec2) (t : Delta.Table UInt32) : Remote where
  mHasSentFontTexture := false
  toServer := []
  toClient := []
  process := ⟨DrawDataStatics.init, displaySize, ⟨0, 0⟩⟩
  history := ⟨t, false, false, [], []⟩

/-- The draw data payloads in flight. -/
def drawDataInFlight (c : Remote) : List (List UInt8) :=
  (c.toClient.filter fun p => p.type = .drawData).map Packet.payload

/-- The client's first packet on a connection. -/
def sendHello (c : Remote) : Remote :=
  { c with toServer := c.toServer ++ [.hello], history := { c.history with sentHello := true } }

/-- Any other packet that queues a rerender. -/
def sendMouse (c : Remote) : Remote := { c with toServer := c.toServer ++ [.updateMouse] }

/-- `updateNetworkInput` of the client. -/
def tick (c : Remote) (windowSize : ImVec2) : Remote :=
  let (process, packets) := updateNetworkInput windowSize c.process
  { c with process := process, toServer := c.toServer ++ packets }

/-- The body of `iterateClients` in `render`. -/
def sendDrawData (font : List UInt8) (f : SentFrame) (out : List UInt8) (c : Remote) : Remote where
  mHasSentFontTexture := true
  toServer := c.toServer
  toClient := c.toClient ++ sendFrame font c.mHasSentFontTexture out
  process := c.process
  history := { c.history with
    frameAfterHello := c.history.frameAfterHello || c.history.sentHello
    pending := c.history.pending ++ [f] }

/-- The history after the next frame in flight was handled. -/
def recordHandled (h : History) (unpackedAt : ImVec2) : History :=
  match h.pending with
  | [] => h
  | f :: rest => { h with handled := ⟨f, unpackedAt⟩ :: h.handled, pending := rest }

/-- The client handles the next packet. -/
def handleNext (texId : Nat) (c : Remote) : Option Remote :=
  match c.toClient with
  | [] => none
  | packet :: rest =>
    (Desktop.handlePacket texId packet c.process).map fun process =>
      { c with
        toClient := rest
        process := process
        history := if packet.type = .drawData then recordHandled c.history c.process.displaySize
          else c.history }

end Remote

/-! ## The system -/

/-- The render loop, its clients, and the last frame. -/
structure System where
  loop : LoopStatics
  mClients : List Remote
  /-- The last frame that was packed. -/
  lastFrame : Option SentFrame

/-- No clients, and nothing rendered. -/
def System.init : System := ⟨LoopStatics.init, [], none⟩

/-- What can happen.  Clients are named by their index in `mClients`. -/
inductive Event where
  | connect (displaySize : ImVec2)
  | leave (i : Nat)
  | hello (i : Nat)
  | mouse (i : Nat)
  | tick (i : Nat) (windowSize : ImVec2)
  | receive (i : Nat)
  | frame (f : Frame)
  | handle (i : Nat) (texId : Nat)

namespace System

/-- One client changes. -/
def setClient (s : System) (i : Nat) (c : Remote) : System :=
  { s with mClients := s.mClients.set i c }

/-- The server handles the next packet of client `i`. -/
def receive (s : System) (i : Nat) : Option System := do
  let c ← s.mClients[i]?
  match c.toServer with
  | [] => none
  | p :: rest =>
    some { s with
      loop := Server.handlePacket s.loop p
      mClients := s.mClients.set i { c with toServer := rest } }

/-- One round of the loop of `runImguiLoop`: without clients nothing is rendered. -/
def frame (P : Platform) (font : List UInt8) (s : System) (f : Frame) : Option System :=
  if s.mClients.isEmpty then some s
  else
    (renderDrawData P f.mouseCursor f.data s.loop).map fun r =>
      match r.2 with
      | none => { s with loop := r.1 }
      | some out =>
        { loop := r.1
          mClients := s.mClients.map (Remote.sendDrawData font ⟨f, s.loop.displaySize⟩ out)
          lastFrame := some ⟨f, s.loop.displaySize⟩ }

/-- One event; `none` if it is not possible. -/
def step (P : Platform) (font : List UInt8) (s : System) : Event → Option System
  | .connect displaySize =>
    some { s with mClients := s.mClients ++ [Remote.connect displaySize s.loop.table] }
  | .leave i => if i < s.mClients.length then some { s with mClients := s.mClients.eraseIdx i }
    else none
  | .hello i => s.mClients[i]?.map fun c => s.setClient i c.sendHello
  | .mouse i => s.mClients[i]?.map fun c => s.setClient i c.sendMouse
  | .tick i windowSize => s.mClients[i]?.map fun c => s.setClient i (c.tick windowSize)
  | .receive i => s.receive i
  | .frame f => s.frame P font f
  | .handle i texId => do
    let c ← s.mClients[i]?
    let c' ← c.handleNext texId
    some (s.setClient i c')

end System

/-- The frames of a run, sent or not. -/
def framesOf (events : List Event) : List Frame :=
  events.filterMap fun
    | .frame f => some f
    | _ => none

/-! ## The invariant rule

  Four things can happen to a connection: it begins, nothing that matters happens to it
  (`SameFrames`), a frame is sent on it, or one is handled.  A property that holds at the beginning
  and is kept by the other three holds for every client of every state, however the events of the
  clients are mixed: `ClientInvariant.run`.  What is proved about clients in later modules is an
  instance of the rule. -/

variable {P : Platform} {font : List UInt8}

/-- Two states of a connection between which no frame was sent and no draw data handled. -/
structure SameFrames (c c' : Remote) : Prop where
  inFlight : c'.drawDataInFlight = c.drawDataInFlight
  statics : c'.process.statics = c.process.statics
  connectTable : c'.history.connectTable = c.history.connectTable
  frameAfterHello : c'.history.frameAfterHello = c.history.frameAfterHello
  handled : c'.history.handled = c.history.handled
  pending : c'.history.pending = c.history.pending

/-- A client is like itself ... -/
theorem SameFrames.refl (c : Remote) : SameFrames c c := ⟨rfl, rfl, rfl, rfl, rfl, rfl⟩

/-- A property of the frames built so far, the server's table, the last frame that was packed and a
    connection that nothing which can happen to the connection breaks. -/
structure ClientInvariant (P : Platform) (font : List UInt8)
    (I : List Frame → Delta.Table UInt32 → Option SentFrame → Remote → Prop) : Prop where
  connect : ∀ past t last displaySize, I past t last (Remote.connect displaySize t)
  idle : ∀ past t last c c', I past t last c → SameFrames c c' → I past t last c'
  unsent : ∀ past t last c f, I past t last c → I (past ++ [f]) t last c
  sent : ∀ past t last c f displaySize, I past t last c →
    I (past ++ [f]) (Delta.store (hashImDrawList P) t f.lists) (some ⟨f, displaySize⟩)
      (c.sendDrawData font ⟨f, displaySize⟩ (packedFrame P displaySize t f).bytes)
  handled : ∀ past t last c payload rest texId u, I past t last c →
    c.toClient = ⟨.drawData, payload⟩ :: rest →
    unpackDrawData ⟨c.process.displaySize, texId⟩ (Mem.ofList payload) payload.length
      c.process.statics = some u →
    I past t last { c with
      toClient := rest
      process := { c.process with statics := u.st }
      history := Remote.recordHandled c.history c.process.displaySize }

section Rule

variable {I : List Frame → Delta.Table UInt32 → Option SentFrame → Remote → Prop}

/-- All clients of a state. -/
def AllClients (I : List Frame → Delta.Table UInt32 → Option SentFrame → Remote → Prop)
    (past : List Frame) (s : System) : Prop :=
  ∀ c ∈ s.mClients, I past s.loop.table s.lastFrame c

/-- Changing one client, with the others as they were. -/
theorem allClients_set {past : List Frame} {s : System} {i : Nat} {c' : Remote}
    (h : AllClients I past s) (hc' : I past s.loop.table s.lastFrame c') :
    AllClients I past (s.setClient i c') := by
  intro b hb
  rcases List.mem_or_eq_of_mem_set hb with hb | rfl
  · exact h b hb
  · exact hc'

/-- ... also when it has said hello ... -/
theorem sameFrames_hello (c : Remote) : SameFrames c c.sendHello := ⟨rfl, rfl, rfl, rfl, rfl, rfl⟩

/-- ... or has moved its mouse. -/
theorem sameFrames_mouse (c : Remote) : SameFrames c c.sendMouse := ⟨rfl, rfl, rfl, rfl, rfl, rfl⟩

/-- Looking at the window changes the display size at most. -/
theorem sameFrames_tick (c : Remote) (windowSize : ImVec2) : SameFrames c (c.tick windowSize) := by
  refine ⟨rfl, ?_, rfl, rfl, rfl, rfl⟩
  show (updateNetworkInput windowSize c.process).1.statics = c.process.statics
  rw [updateNetworkInput]
  split
  · rfl
  · rfl

/-- The client handles the next packet: draw data, or something that does not matter here. -/
theorem ClientInvariant.handleNext (hI : ClientInvariant P font I) {past : List Frame}
    {t : Delta.Table UInt32} {last : Option SentFrame} {c c' : Remote} {texId : Nat}
    (h : I past t last c) (hnext : c.handleNext texId = some c') : I past t last c' := by
  rw [Remote.handleNext] at hnext
  split at hnext
  · exact absurd hnext (Option.some_ne_none c').symm
  next packet rest hqueue =>
    obtain ⟨type, payload⟩ := packet
    obtain ⟨process, hprocess, rfl⟩ := Option.map_eq_some_iff.mp hnext
    by_cases htype : type = .drawData
    · subst htype
      obtain ⟨u, hunpack, rfl⟩ := Option.map_eq_some_iff.mp hprocess
      exact hI.handled past t last c payload rest texId u h hqueue hunpack
    · -- any other packet leaves the process alone
      have hsame : process = c.process := by
        cases type <;> first | exact absurd rfl htype | exact (Option.some.inj hprocess).symm
      have hskip : c.drawDataInFlight = (rest.filter fun p => p.type = .drawData).map
          Packet.payload := by
        rw [Remote.drawDataInFlight, hqueue, List.filter_cons_of_neg (by simpa using htype)]
      rw [hsame, if_neg htype]
      exact hI.idle past t last c _ h ⟨hskip.symm, rfl, rfl, rfl, rfl, rfl⟩

/-- A frame: sent to every client, or to none. -/
theorem ClientInvariant.frame (hI : ClientInvariant P font I) {past : List Frame}
    {s s' : System} {f : Frame} (h : AllClients I past s) (hstep : s.frame P font f = some s') :
    AllClients I (past ++ [f]) s' := by
  have hunsent : AllClients I (past ++ [f]) s := fun c hc => hI.unsent past _ _ c f (h c hc)
  rw [System.frame] at hstep
  by_cases hempty : s.mClients.isEmpty = true
  · rw [if_pos hempty, Option.some.injEq] at hstep
    exact hstep ▸ hunsent
  · rw [if_neg hempty] at hstep
    obtain ⟨⟨loop, out⟩, hrender, rfl⟩ := Option.map_eq_some_iff.mp hstep
    rcases renderDrawData_frame P hrender with ⟨rfl, htab⟩ | ⟨rfl, htab⟩
    · intro c hc
      show I (past ++ [f]) loop.table s.lastFrame c
      rw [htab]
      exact hunsent c hc
    · -- everybody gets the same bytes, packed against the one table
      intro c hc
      obtain ⟨b, hb, rfl⟩ := List.mem_map.mp hc
      show I (past ++ [f]) loop.table _ _
      rw [htab]
      exact hI.sent past _ _ b f s.loop.displaySize (h b hb)

/-- The server handles a packet: the table stays as it is. -/
theorem ClientInvariant.receive (hI : ClientInvariant P font I) {past : List Frame}
    {s s' : System} {i : Nat} (h : AllClients I past s) (hstep : s.receive i = some s') :
    AllClients I past s' := by
  obtain ⟨c, hc, hstep⟩ := Option.bind_eq_some_iff.mp hstep
  split at hstep
  · exact absurd hstep (Option.some_ne_none s').symm
  next p rest hqueue =>
    cases hstep
    intro b hb
    show I past (Server.handlePacket s.loop p).table s.lastFrame b
    rw [Server.table_handlePacket]
    rcases List.mem_or_eq_of_mem_set hb with hb | rfl
    · exact h b hb
    · exact hI.idle past _ _ c _ (h c (List.mem_of_getElem? hc)) ⟨rfl, rfl, rfl, rfl, rfl, rfl⟩

/-- One event. -/
theorem ClientInvariant.step (hI : ClientInvariant P font I) {past : List Frame}
    {s s' : System} {e : Event} (h : AllClients I past s) (hstep : s.step P font e = some s') :
    AllClients I (past ++ framesOf [e]) s' := by
  cases e with
  | frame f => exact hI.frame h hstep
  | connect displaySize =>
    cases hstep
    rw [show framesOf [Event.connect displaySize] = [] from rfl, List.append_nil]
    -- the client that joins is the last of the list, the others were there
    intro b hb
    rcases List.mem_append.mp hb with hb | hb
    · exact h b hb
    · rw [List.mem_singleton.mp hb]
      exact hI.connect past _ _ displaySize
  | leave i =>
    rw [show framesOf [Event.leave i] = [] from rfl, List.append_nil]
    rw [System.step] at hstep
    split at hstep
    · cases hstep
      exact fun b hb => h b (List.mem_of_mem_eraseIdx hb)
    · exact absurd hstep (Option.some_ne_none s').symm
  | hello i =>
    rw [show framesOf [Event.hello i] = [] from rfl, List.append_nil]
    obtain ⟨c, hc, rfl⟩ := Option.map_eq_some_iff.mp hstep
    exact allClients_set h (hI.idle past _ _ c _ (h c (List.mem_of_getElem? hc))
      (sameFrames_hello c))
  | mouse i =>
    rw [show framesOf [Event.mouse i] = [] from rfl, List.append_nil]
    obtain ⟨c, hc, rfl⟩ := Option.map_eq_some_iff.mp hstep
    exact allClients_set h (hI.idle past _ _ c _ (h c (List.mem_of_getElem? hc))
      (sameFrames_mouse c))
  | tick i windowSize =>
    rw [show framesOf [Event.tick i windowSize] = [] from rfl, List.append_nil]
    obtain ⟨c, hc, rfl⟩ := Option.map_eq_some_iff.mp hstep
    exact allClients_set h (hI.idle past _ _ c _ (h c (List.mem_of_getElem? hc))
      (sameFrames_tick c windowSize))
  | receive i =>
    rw [show framesOf [Event.receive i] = [] from rfl, List.append_nil]
    exact hI.receive h hstep
  | handle i texId =>
    rw [show framesOf [Event.handle i texId] = [] from rfl, List.append_nil]
    obtain ⟨c, hc, hstep⟩ := Option.bind_eq_some_iff.mp hstep
    obtain ⟨c', hnext, hstep⟩ := Option.bind_eq_some_iff.mp hstep
    cases hstep
    exact allClients_set h (hI.handleNext (h c (List.mem_of_getElem? hc)) hnext)

/-- **Invariant rule.**  A `ClientInvariant` holds for every client of every state a run reaches. -/
theorem ClientInvariant.run (hI : ClientInvariant P font I) :
    ∀ (events : List Event) {past : List Frame} {s t : System}, AllClients I past s →
      Lib.run (System.step P font) s events = some t →
      AllClients I (past ++ framesOf events) t := by
  intro events
  induction events with
  | nil =>
    intro past s t h hrun
    rw [run_nil] at hrun
    rw [show framesOf [] = [] from rfl, List.append_nil]
    exact Option.some.inj hrun ▸ h
  | cons e events ih =>
    intro past s t h hrun
    obtain ⟨s', hstep, hrest⟩ := run_cons.mp hrun
    have hframes : framesOf (e :: events) = framesOf [e] ++ framesOf events :=
      List.filterMap_append (l := [e])
    rw [hframes, ← List.append_assoc]
    exact ih (hI.step h hstep) hrest

/-- The rule for a run from the start. -/
theorem ClientInvariant.reachable (hI : ClientInvariant P font I) (events : List Event)
    {s : System} (hrun : Lib.run (System.step P font) System.init events = some s) {c : Remote}
    (hc : c ∈ s.mClients) : I (framesOf events) s.loop.table s.lastFrame c := by
  have hinit : AllClients I [] System.init := fun c hc => absurd hc List.not_mem_nil
  exact hI.run events hinit hrun c hc

end Rule

/-! ## What is in flight

  `Linked` ties the two ends of a connection together.  The payloads on the way are the pending
  frames, each packed against the table that the ones before it leave, so the client, whose table is
  that of the frames it has handled, can read the next one (`Linked.receives`). -/

/-- The table after a frame. -/
def tableAfter (P : Platform) (t : Delta.Table UInt32) (f : SentFrame) : Delta.Table UInt32 :=
  Delta.store (hashImDrawList P) t f.frame.lists

/-- The payload is the frame, packed against the table. -/
def Encodes (P : Platform) (t : Delta.Table UInt32) (f : SentFrame) (payload : List UInt8) : Prop :=
  payload = (packedFrame P f.packedAt t f.frame).bytes

/-- The server's table as the client could know it: after the frames it has handled. -/
def Remote.clientTable (P : Platform) (c : Remote) : Delta.Table UInt32 :=
  Delta.stores (hashImDrawList P) c.history.connectTable c.history.handledLists

/-- How a connection relates the server to the client. -/
structure Linked (P : Platform) (past : List Frame) (t : Delta.Table UInt32)
    (last : Option SentFrame) (c : Remote) : Prop where
  inFlight : Delta.InFlight (tableAfter P) (Encodes P) (c.clientTable P) c.history.pending
    c.drawDataInFlight
  table : t = c.history.pending.foldl (tableAfter P) (c.clientTable P)
  past : (c.history.sent.map SentFrame.frame).Sublist past
  last : ∀ g, c.history.sent.getLast? = some g → last = some g
  shown : c.history.handled ≠ [] → ∃ d, c.process.statics = ⟨some d.cmdLists, some d⟩
  hello : c.history.frameAfterHello = true → c.history.sent ≠ []

/-- Clients that agree on their frames agree on what they were sent ... -/
theorem SameFrames.sent {c c' : Remote} (h : SameFrames c c') :
    c'.history.sent = c.history.sent := by
  rw [History.sent, History.sent, h.handled, h.pending]

/-- ... and on the table that they were sent it with. -/
theorem SameFrames.clientTable {c c' : Remote} (h : SameFrames c c') :
    c'.clientTable P = c.clientTable P := by
  rw [Remote.clientTable, Remote.clientTable, History.handledLists, History.handledLists,
    h.handled, h.connectTable]

/-- Sending puts the packet behind those on their way ... -/
theorem drawDataInFlight_sendDrawData (c : Remote) (f : SentFrame) (out : List UInt8) :
    (c.sendDrawData font f out).drawDataInFlight = c.drawDataInFlight ++ [out] := by
  show (List.filter _ (c.toClient ++ sendFrame font c.mHasSentFontTexture out)).map _ = _
  rw [List.filter_append, List.map_append]
  congr 1
  rw [sendFrame]
  cases c.mHasSentFontTexture <;> rfl

/-- ... and the frame behind those that were sent. -/
theorem sent_sendDrawData (c : Remote) (f : SentFrame) (out : List UInt8) :
    (c.sendDrawData font f out).history.sent = c.history.sent ++ [f] := by
  show _ ++ (c.history.pending ++ [f]) = _
  rw [← List.append_assoc]
  rfl

/-- **What the client makes of the next draw data**: it receives the next pending frame. -/
theorem Linked.receives {past : List Frame} {t : Delta.Table UInt32} {last : Option SentFrame}
    {c : Remote} (h : Linked P past t last c) {payload : List UInt8} {rest : List Packet}
    {texId : Nat} {u : UnpackResult} (hqueue : c.toClient = ⟨.drawData, payload⟩ :: rest)
    (hunpack : unpackDrawData ⟨c.process.displaySize, texId⟩ (Mem.ofList payload) payload.length
      c.process.statics = some u) :
    ∃ f fs, c.history.pending = f :: fs ∧
      Delta.InFlight (tableAfter P) (Encodes P) (tableAfter P (c.clientTable P) f) fs
        ((rest.filter fun p => p.type = .drawData).map Packet.payload) ∧
      u.st = ⟨some u.drawData.cmdLists, some u.drawData⟩ ∧
      u.drawData.cmdLists = Delta.receive (hashImDrawList P)
        (rebuild P f.packedAt ⟨c.process.displaySize, texId⟩) ImDrawList.empty (c.clientTable P)
        c.process.prev f.frame.lists := by
  have hflight := h.inFlight
  rw [Remote.drawDataInFlight, hqueue, List.filter_cons_of_pos (by simp), List.map_cons] at hflight
  obtain ⟨f, fs, hpending, hsent, hrest⟩ := hflight.uncons
  replace hsent : payload = (packedFrame P f.packedAt (c.clientTable P) f.frame).bytes := hsent
  have hmem : (Mem.ofList payload).Holds 0
      (packedFrame P f.packedAt (c.clientTable P) f.frame).bytes := by
    rw [← hsent]
    exact Mem.holds_ofList payload
  obtain ⟨v, hv, hlists, -, hst, -⟩ := unpackDrawData_eq ⟨c.process.displaySize, texId⟩
    payload.length c.process.statics hmem
  have huv : u = v := Option.some.inj (hunpack.symm.trans hv)
  subst huv
  rw [lists_packedFrame] at hlists
  exact ⟨f, fs, hpending, hrest, hst, hlists⟩

/-- The table after one more handled frame. -/
theorem clientTable_handled (c : Remote) {f : SentFrame} {fs : List SentFrame}
    {b : Remote} (hpending : c.history.pending = f :: fs) {unpackedAt : ImVec2}
    (hb : b.history = Remote.recordHandled c.history unpackedAt) :
    b.clientTable P = tableAfter P (c.clientTable P) f := by
  rw [Remote.clientTable, hb, Remote.recordHandled, hpending]
  show Delta.stores _ _ ((HandledFrame.mk f unpackedAt :: c.history.handled).reverse.map _) = _
  rw [List.reverse_cons, List.map_append, List.map_cons, List.map_nil, Delta.stores_concat]
  rfl

/-- Handling a frame moves it from those on their way to those handled; together they stay the same
    ... -/
theorem sent_recordHandled {h : History} {f : SentFrame} {fs : List SentFrame}
    (hpending : h.pending = f :: fs) (unpackedAt : ImVec2) :
    (Remote.recordHandled h unpackedAt).sent = h.sent := by
  rw [Remote.recordHandled, hpending]
  show (HandledFrame.mk f unpackedAt :: h.handled).reverse.map HandledFrame.toSentFrame ++ fs = _
  rw [List.reverse_cons, List.map_append, List.append_assoc, History.sent, hpending]
  rfl

/-- ... the lists handled are one frame more ... -/
theorem handledLists_recordHandled {h : History} {f : SentFrame} {fs : List SentFrame}
    (hpending : h.pending = f :: fs) (unpackedAt : ImVec2) :
    (Remote.recordHandled h unpackedAt).handledLists = h.handledLists ++ [f.frame.lists] := by
  rw [Remote.recordHandled, hpending]
  show (HandledFrame.mk f unpackedAt :: h.handled).reverse.map _ = _
  rw [List.reverse_cons, List.map_append]
  rfl

/-- ... and the table of the connection is what it was. -/
@[simp] theorem connectTable_recordHandled (h : History) (unpackedAt : ImVec2) :
    (Remote.recordHandled h unpackedAt).connectTable = h.connectTable := by
  rw [Remote.recordHandled]
  split <;> rfl

section Linked

variable {past : List Frame} {t : Delta.Table UInt32} {last : Option SentFrame} {c : Remote}

/-- A frame the client has handled was built. -/
theorem Linked.handled_mem (h : Linked P past t last c) {g : HandledFrame}
    (hg : g ∈ c.history.handled) : g.frame ∈ past := by
  apply h.past.subset
  rw [History.sent, List.map_append, List.map_map]
  exact List.mem_append_left _ (List.mem_map.mpr ⟨g, List.mem_reverse.mpr hg, rfl⟩)

/-- A frame in flight was built. -/
theorem Linked.pending_mem (h : Linked P past t last c) {f : SentFrame}
    (hf : f ∈ c.history.pending) : f.frame ∈ past := by
  apply h.past.subset
  rw [History.sent, List.map_append]
  exact List.mem_append_right _ (List.mem_map_of_mem hf)

/-- So was every list of the last frame the client has handled. -/
theorem Linked.mem_last (h : Linked P past t last c) {l : ImDrawList}
    (hl : l ∈ Delta.last c.history.handledLists) : ∃ f ∈ past, l ∈ f.lists := by
  obtain ⟨lists, hmem, hl⟩ := Delta.mem_of_mem_last hl
  obtain ⟨g, hg, rfl⟩ := List.mem_map.mp hmem
  exact ⟨g.frame, h.handled_mem (List.mem_reverse.mp hg), hl⟩

/-- The frames handled and the frame handled next are frames that were built, in this order. -/
theorem Linked.handled_next (h : Linked P past t last c) {f : SentFrame}
    {fs : List SentFrame} (hpending : c.history.pending = f :: fs) :
    (c.history.handled.reverse.map (fun g => g.frame) ++ f.frame :: fs.map SentFrame.frame).Sublist
      past := by
  have hpast := h.past
  rw [History.sent, hpending, List.map_append, List.map_map] at hpast
  exact hpast

/-- A client with no draw data in flight has handled every frame sent to it. -/
theorem Linked.handledLists_eq (h : Linked P past t last c)
    (hcaught : c.drawDataInFlight = []) :
    c.history.handledLists = c.history.sent.map fun g => g.frame.lists := by
  have hflight := h.inFlight
  rw [hcaught] at hflight
  rw [History.handledLists, History.sent, hflight.eq_nil, List.append_nil, List.map_map]
  rfl

/-- If it was sent one, it shows draw data, and the last frame it handled is the last one packed. -/
theorem Linked.caughtUp (h : Linked P past t last c) (hcaught : c.drawDataInFlight = [])
    (hsent : c.history.sent ≠ []) :
    ∃ f d, last = some f ∧ Delta.last c.history.handledLists = f.frame.lists ∧
      c.process.statics = ⟨some d.cmdLists, some d⟩ := by
  have hlists := h.handledLists_eq hcaught
  obtain ⟨f, hf⟩ : ∃ f, c.history.sent.getLast? = some f :=
    ⟨_, List.getLast?_eq_some_getLast hsent⟩
  have hhandled : c.history.handled ≠ [] := by
    intro hnil
    rw [History.handledLists, hnil] at hlists
    exact hsent (List.map_eq_nil_iff.mp hlists.symm)
  obtain ⟨d, hd⟩ := h.shown hhandled
  refine ⟨f, d, h.last f hf, ?_, hd⟩
  rw [Delta.last, hlists, List.getLast?_map, hf]
  rfl

end Linked

/-- **Every connection of every run is linked.** -/
theorem linked (P : Platform) (font : List UInt8) : ClientInvariant P font (Linked P) where
  connect past t last displaySize :=
    { inFlight := trivial
      table := rfl
      past := List.nil_sublist past
      last := fun g hg => absurd hg (Option.some_ne_none g).symm
      shown := fun h => absurd rfl h
      hello := fun h => absurd h Bool.false_ne_true }
  idle past t last c c' h hsame :=
    { inFlight := by rw [hsame.clientTable, hsame.pending, hsame.inFlight]; exact h.inFlight
      table := by rw [hsame.clientTable, hsame.pending]; exact h.table
      past := by rw [hsame.sent]; exact h.past
      last := by rw [hsame.sent]; exact h.last
      shown := by rw [hsame.handled, hsame.statics]; exact h.shown
      hello := by rw [hsame.sent, hsame.frameAfterHello]; exact h.hello }
  unsent past t last c f h :=
    { h with past := h.past.trans (List.sublist_append_left past [f]) }
  sent past t last c f displaySize h :=
    { inFlight := by
        -- the server's table is the one all pending frames lead to
        rw [drawDataInFlight_sendDrawData]
        refine Delta.InFlight.concat c.history.pending _ h.inFlight ?_
        show Encodes P (c.history.pending.foldl (tableAfter P) (c.clientTable P)) _ _
        rw [← h.table]
        rfl
      table := by
        show _ = (c.history.pending ++ [SentFrame.mk f displaySize]).foldl (tableAfter P)
          (c.clientTable P)
        rw [List.foldl_append, ← h.table]
        rfl
      past := by
        rw [sent_sendDrawData, List.map_append]
        exact h.past.append (List.Sublist.refl [f])
      last := by
        intro g hg
        rw [sent_sendDrawData, List.getLast?_concat] at hg
        exact hg
      shown := h.shown
      hello := fun _ => by rw [sent_sendDrawData]; exact List.concat_ne_nil _ _ }
  handled past t last c payload rest texId u h hqueue hunpack := by
    -- the first pending frame becomes the newest handled one; what was sent stays the same
    obtain ⟨f, fs, hpending, hflight, hst, -⟩ := h.receives hqueue hunpack
    have hfs : (Remote.recordHandled c.history c.process.displaySize).pending = fs := by
      rw [Remote.recordHandled, hpending]
    have hsent := sent_recordHandled hpending c.process.displaySize
    have htable : Remote.clientTable P { c with
        toClient := rest
        process := { c.process with statics := u.st }
        history := Remote.recordHandled c.history c.process.displaySize } =
          tableAfter P (c.clientTable P) f := clientTable_handled c hpending rfl
    exact
      { inFlight := by
          rw [htable]
          show Delta.InFlight _ _ _ (Remote.recordHandled c.history c.process.displaySize).pending _
          rw [hfs]
          exact hflight
        table := by
          rw [htable]
          show _ = (Remote.recordHandled c.history c.process.displaySize).pending.foldl _ _
          rw [hfs, h.table, hpending]
          rfl
        past := by rw [hsent]; exact h.past
        last := by rw [hsent]; exact h.last
        shown := fun _ => ⟨u.drawData, hst⟩
        hello := fun h' => by
          rw [hsent]
          refine h.hello ?_
          rw [← h', Remote.recordHandled, hpending] }

end Nxdb
