/-
  One client of the sysmodule, with its connection in both directions.

  A `Peer` is what a `Remote` is, byte for byte: the queues of packets are `Pipe`s, `handlePacket` on
  either side casts the bytes it finds, and the client's process is the whole desktop, with its
  keyboard, mouse and clipboard (`DesktopInput`).

  `Peer.Refines` says which `Remote` a `Peer` is.  The packets of its queues are those in the pipes,
  less the ones that the render loop or the draw data do not notice: `Alive`, keys, characters and
  texts.  What can happen to a peer keeps the relation (`Refines.puts`, `Refines.serve`,
  `Refines.sends`, `Refines.handle`).  What its pipes assume of the network is said in `Pipe`.
-/
import Nxdb.Broadcast
import Nxdb.NetworkInput

namespace Nxdb

open Lib Hash Sysmodule.Raw
open Desktop.Raw (OpenGl Image Effect)

/-! ## What the sysmodule sends

  Each of the three packets does to the desktop what it is for, when it is handled from a buffer
  that begins with its bytes (`Desktop.handleCall_eq`). -/

/-- The font atlas of the sysmodule: a pixel is four bytes, and the packet fits the desktop's buffer. -/
structure FontAtlas where
  width : Int32
  height : Int32
  pixels : List UInt8
  length_pixels : pixels.length = 4 * (width.toNatClampNeg * height.toNatClampNeg)
  fits : 8 + pixels.length + packetHeaderSize ≤ Desktop.bufferSize

namespace FontAtlas

/-- The bytes that `sendFontTexture` puts together. -/
def payload (atlas : FontAtlas) : List UInt8 :=
  intBytes atlas.width ++ (intBytes atlas.height ++ atlas.pixels)

/-- What OpenGL is given of it. -/
def image (atlas : FontAtlas) : Image := ⟨atlas.width, atlas.height, atlas.pixels⟩

/-- OpenGL takes an image of the atlas's size: it reads all pixels. -/
def Taken (gl : OpenGl) (atlas : FontAtlas) : Prop :=
  gl.bytesRead atlas.width atlas.height = atlas.pixels.length

end FontAtlas

/-- A packet of the sysmodule and what it is made of. -/
inductive ServerPacket where
  | drawData (p : PackedFrame)
  | fontTexture
  | clipboardText (text : Text)

namespace ServerPacket

/-- A packet, as its bytes are sent. -/
def packet (atlas : FontAtlas) : ServerPacket → Packet
  | drawData p => ⟨.drawData, p.bytes⟩
  | fontTexture => ⟨.fontTexture, atlas.payload⟩
  | clipboardText text => ⟨.setClipboardText, text.payload⟩

/-- The same with the type as a number. -/
def wirePacket (atlas : FontAtlas) (p : ServerPacket) : WirePacket := (p.packet atlas).wirePacket

/-- The packet fits the desktop's buffer. -/
def Fits (atlas : FontAtlas) (p : ServerPacket) : Prop :=
  (p.packet atlas).payload.length + packetHeaderSize ≤ Desktop.bufferSize

/-- Not a text. -/
def isFrame : ServerPacket → Bool
  | clipboardText _ => false
  | _ => true

/-- What the packet is for. -/
def effect (atlas : FontAtlas) (io : ClientIo) (st : DrawDataStatics) :
    ServerPacket → Effect
  | drawData p => .drawData (withLists st p.header.curCursor (p.lists io (st.sDrawDataPrev.getD [])))
  | fontTexture => .fontTexture atlas.image
  | clipboardText text => .clipboardString text.bytes

end ServerPacket

/-- The bytes in front of the first zero. -/
def Text.ofBytes (bs : List UInt8) : Text where
  bytes := bs.takeWhile (· ≠ 0)
  zero_not_mem := fun h => by
    have hall := List.all_eq_true.mp (List.all_takeWhile (p := (· ≠ 0)) (l := bs)) 0 h
    simp at hall

/-- A call of the desktop's `handlePacket`, with the type that was on the wire. -/
def Desktop.handleCall (io : ClientIo) (gl : OpenGl) (st : DrawDataStatics) (behind : Nat)
    (call : Call) : Option Effect :=
  match PacketType.ofCode call.type with
  | some type => Desktop.Raw.handlePacket io gl st behind type call.data call.size
  | none => some .nothing

/-- Draw data is read from its packet, wherever it lies. -/
theorem unpackDrawData_packed (io : ClientIo) {m : Mem} (size : Nat) (st : DrawDataStatics)
    {p : PackedFrame} (h : m.Holds 0 p.bytes) :
    unpackDrawData io m size st = some
      (let d := { st.sDrawData.getD ⟨0, 0, []⟩ with cmdLists := p.lists io (st.sDrawDataPrev.getD []) }
      ⟨d, p.header.curCursor, ⟨some d.cmdLists, some d⟩, p.bytes.length⟩) := by
  have hread := reads_readDrawData io st.sDrawDataPrev p m 0 h
  rw [Nat.zero_add] at hread
  rw [unpackDrawData, hread]
  rfl

/-- **The font atlas survives the wire.** -/
theorem loadFontTextureRGBA32_payload {gl : OpenGl} {atlas : FontAtlas} (htaken : atlas.Taken gl)
    {m : Mem} (h : m.Holds 0 atlas.payload) :
    Desktop.Raw.loadFontTextureRGBA32 gl m = atlas.image := by
  obtain ⟨hwidth, h⟩ := Mem.holds_append.mp h
  obtain ⟨hheight, hpixels⟩ := Mem.holds_append.mp h
  simp only [length_intBytes, Nat.zero_add, Nat.reduceAdd] at hheight hpixels
  rw [Desktop.Raw.loadFontTextureRGBA32, sizeAt_of_holds hwidth, sizeAt_of_holds hheight, htaken,
    hpixels.slice]
  rfl

/-- **What `handlePacket` of the desktop makes of a packet of the sysmodule.** -/
theorem Desktop.handleCall_eq {gl : OpenGl} {atlas : FontAtlas} (htaken : atlas.Taken gl)
    (io : ClientIo) (st : DrawDataStatics) (behind : Nat) (p : ServerPacket) {call : Call}
    (hcall : call.packet = p.wirePacket atlas) :
    Desktop.handleCall io gl st behind call = some (p.effect atlas io st) := by
  obtain ⟨htype, hpayload⟩ := WirePacket.mk.inj hcall
  have hholds := Mem.holds_of_slice hpayload
  have hsize : call.size = (p.packet atlas).payload.length := by
    rw [← hpayload, Mem.length_slice]
  rw [Desktop.handleCall, htype, PacketType.ofCode_code, hsize]
  cases p with
  | drawData p =>
    show (unpacked io p.bytes.length st call.data).map Effect.drawData = _
    rw [unpacked, unpackDrawData_packed io _ st hholds]
    rfl
  | fontTexture =>
    show some (Effect.fontTexture _) = _
    rw [loadFontTextureRGBA32_payload htaken hholds]
    rfl
  | clipboardText text =>
    show (cString (text.payload.length + behind) call.data).map _ = _
    rw [cString_payload text behind hholds]
    rfl

/-! ## A peer

  The functions are those of the two programs, on bytes: what is sent goes through a `Pipe`, and
  what arrives is cast by `handlePacket`.  None of them knows of packets in flight. -/

/-- The calls of `handlePacket`, as far as they reach the variables of the render loop. -/
def LoopStatics.apply (st : LoopStatics) : UiCall → LoopStatics
  | .queueRerender => queueRerender st
  | .displaySize x y => { st with displaySize := vecOf x y }
  | _ => st

/-- A client's entry in `mClients`, the connection in both directions, and the client's program: the
    static variables of `DrawData.cpp`, the image of the font texture, and what `NetworkInput.cpp`
    works with. -/
structure Peer where
  mHasSentFontTexture : Bool
  up : Pipe
  down : Pipe
  statics : DrawDataStatics
  font : Option Image
  desktop : DesktopInput

namespace Peer

/-- A fresh program connects: `mBuffer` of the new entry is not initialised, that of the desktop is
    cleared. -/
def connect (clipboard : Option Text) (mBuffer : Mem) : Peer where
  mHasSentFontTexture := false
  up := Pipe.init mBuffer
  down := Pipe.init fun _ => 0
  statics := DrawDataStatics.init
  font := none
  desktop := DesktopInput.init clipboard

/-- Packets of the desktop, put on the connection. -/
def puts (packets : List DesktopPacket) (b : Peer) : Option Peer :=
  (b.up.putAll .desktop (packets.map DesktopPacket.packet)).map fun up => { b with up := up }

/-- Packets of the sysmodule, put on the connection. -/
def sends (packets : List Packet) (b : Peer) : Option Peer :=
  (b.down.putAll .sysmodule packets).map fun down => { b with down := down }

/-- An action at the desktop.  The window is not opened by itself, but by draw data. -/
def act (codes : KeyCodes) (widen : Widen) (b : Peer) : DesktopAction → Option Peer
  | .openWindow => none
  | action => do
    let (desktop, packets) ← b.desktop.act codes widen action
    { b with desktop := desktop }.puts packets

/-- `handleEvent`: what it makes of the entry, and the calls of `handlePacket`. -/
def serve (behind : Nat) (b : Peer) (rem : RecvResult) : Option (Peer × List UiCall) := do
  let (up, call) ← b.up.receive .sysmodule rem
  let calls ← match call with
    | some call => Sysmodule.handleCall behind call
    | none => some []
  some ({ b with up := up }, calls)

/-- The body of `iterateClients` in `render`. -/
def sendDrawData (atlas : FontAtlas) (out : List UInt8) (b : Peer) : Option Peer :=
  (b.sends (sendFrame atlas.payload b.mHasSentFontTexture out)).map fun b =>
    { b with mHasSentFontTexture := true }

/-- What a packet leaves behind at the desktop.  The first draw data opens the window; a clipboard
    without GLFW stays as it is. -/
def apply (b : Peer) : Effect → Peer
  | .nothing => b
  | .fontTexture image => { b with font := some image }
  | .drawData (_, _, statics) =>
    { b with statics := statics, desktop := { b.desktop with opened := true } }
  | .clipboardString text =>
    if b.desktop.opened = true then
      { b with desktop := { b.desktop with clipboard := some (Text.ofBytes text) } }
    else b

/-- The loop body of the desktop's `run`, from the header on. -/
def iterate (gl : OpenGl) (behind : Nat) (b : Peer) (rem : RecvResult) (texId : Nat) :
    Option Peer := do
  let (down, call) ← b.down.receive .desktop rem
  match call with
  | none => some { b with down := down }
  | some call =>
    (Desktop.handleCall ⟨b.desktop.displaySize, texId⟩ gl b.statics behind call).map
      fun effect => { b with down := down }.apply effect

end Peer

/-! ## What the pipes carry

  `Carries` names the packets that are on the way in each direction, and what they say about the
  program at the other end: that it has a window once it has been given draw data, and the font it
  was sent.  Each of the four things that can happen keeps it, with the queues one packet longer or
  shorter. -/

/-- The first packet of the queue that is not a text is draw data. -/
def DrawDataFirst : List ServerPacket → Prop
  | [] => True
  | .drawData _ :: _ => True
  | .fontTexture :: _ => False
  | .clipboardText _ :: queue => DrawDataFirst queue

/-- Both queues begin with draw data, if with anything but texts. -/
theorem DrawDataFirst.append {queue more : List ServerPacket} (h : DrawDataFirst queue)
    (hmore : DrawDataFirst more) : DrawDataFirst (queue ++ more) := by
  induction queue with
  | nil => exact hmore
  | cons p queue ih =>
    cases p with
    | drawData p => trivial
    | fontTexture => exact absurd h id
    | clipboardText text => exact ih h

namespace Peer

/-- What is on the way in both directions, and what the client's program holds of the font. -/
structure Carries (atlas : FontAtlas) (b : Peer) (up : List DesktopPacket)
    (down : List ServerPacket) : Prop where
  upward : b.up.Carries .sysmodule (up.map DesktopPacket.wirePacket)
  ok : ∀ p ∈ up, p.Ok
  downward : b.down.Carries .desktop (down.map (ServerPacket.wirePacket atlas))
  opened : b.desktop.opened = b.statics.sDrawData.isSome
  cursorPos : b.desktop.cursorPos.IsFloat
  unopened : b.desktop.opened = false → DrawDataFirst down ∧ b.font = none
  font : b.font = none ∨ b.font = some atlas.image

variable {codes : KeyCodes} {widen : Widen} {atlas : FontAtlas} {behind : Nat}
  {b b' : Peer} {up : List DesktopPacket} {down : List ServerPacket}

/-- A new connection carries nothing. -/
theorem carries_connect (atlas : FontAtlas) (clipboard : Option Text)
    (mBuffer : Mem) : (connect clipboard mBuffer).Carries atlas [] [] where
  upward := Pipe.carries_init .sysmodule mBuffer
  ok := fun _ h => absurd h List.not_mem_nil
  downward := Pipe.carries_init .desktop _
  opened := rfl
  cursorPos := ⟨isFloat_zero, isFloat_zero⟩
  unopened := fun _ => ⟨trivial, rfl⟩
  font := Or.inl rfl

/-- An action at the desktop: its packets come to those that are on their way. -/
theorem Carries.act (h : b.Carries atlas up down) {action : DesktopAction}
    (hstep : b.act codes widen action = some b') :
    ∃ desktop packets pipe, DesktopInput.Acts codes widen b.desktop desktop packets ∧
      b' = { b with desktop := desktop, up := pipe } ∧
      b'.Carries atlas (up ++ packets) down := by
  have hother : action ≠ .openWindow := by
    rintro rfl
    exact absurd hstep (Option.some_ne_none b').symm
  replace hstep : ((b.desktop.act codes widen action).bind fun r =>
      { b with desktop := r.1 }.puts r.2) = some b' := by
    cases action with
    | openWindow => exact absurd rfl hother
    | _ => exact hstep
  obtain ⟨⟨desktop, packets⟩, hact, hstep⟩ := Option.bind_eq_some_iff.mp hstep
  obtain ⟨hok, hpos⟩ := (DesktopInput.act_cases hact).ok h.cursorPos
  have hopened : desktop.opened = b.desktop.opened := DesktopInput.opened_act hact hother
  obtain ⟨pipe, hput, hcarries⟩ := InputRun.carries_putAll h.upward hok
  obtain ⟨pipe', hpipe', rfl⟩ := Option.map_eq_some_iff.mp hstep
  cases Option.some.inj (hput.symm.trans hpipe')
  refine ⟨desktop, packets, pipe, DesktopInput.act_cases hact, rfl, hcarries, ?_, h.downward,
    hopened.trans h.opened, hpos, fun hclosed => h.unopened (hopened.symm.trans hclosed), h.font⟩
  intro p hp
  rcases List.mem_append.mp hp with hp | hp
  · exact h.ok p hp
  · exact hok p hp

/-- The sysmodule's iteration for the client: the next packet is handled, or none. -/
theorem Carries.serve (h : b.Carries atlas up down) {rem : RecvResult}
    {calls : List UiCall} (hstep : b.serve behind rem = some (b', calls)) :
    ∃ (next : Option DesktopPacket) (later : List DesktopPacket) (pipe : Pipe),
      up = next.toList ++ later ∧ calls = next.toList.flatMap DesktopPacket.uiCalls ∧
      b' = { b with up := pipe } ∧ b'.Carries atlas later down := by
  obtain ⟨⟨pipe, call⟩, hpipe, hstep⟩ := Option.bind_eq_some_iff.mp hstep
  obtain ⟨queue, hqueue, hcarries⟩ := h.upward.receive hpipe
  cases call with
  | none =>
    cases hstep
    replace hqueue : queue = up.map DesktopPacket.wirePacket := hqueue.symm
    exact ⟨none, up, pipe, rfl, rfl, rfl, { h with upward := hqueue ▸ hcarries }⟩
  | some call =>
    cases hup : up with
    | nil =>
      rw [hup] at hqueue
      exact absurd hqueue (List.cons_ne_nil _ _).symm
    | cons p later =>
      rw [hup, List.map_cons, Option.toList_some, List.map_singleton, List.singleton_append,
        List.cons.injEq] at hqueue
      have hok := hup ▸ h.ok
      have hcalls := handleCall_eq behind (hok p List.mem_cons_self) hqueue.1.symm
      simp only [hcalls, Option.bind_eq_bind, Option.bind_some, Option.some.injEq,
        Prod.mk.injEq] at hstep
      obtain ⟨rfl, rfl⟩ := hstep
      exact ⟨some p, later, pipe, rfl, (List.flatMap_singleton _ _).symm, rfl,
        { h with upward := hqueue.2 ▸ hcarries, ok := fun q hq => hok q (List.mem_cons_of_mem _ hq) }⟩

/-- Packets of the sysmodule that fit come to those that are on their way. -/
theorem Carries.sends (h : b.Carries atlas up down) {packets : List ServerPacket}
    (hfits : ∀ p ∈ packets, p.Fits atlas) (hfirst : DrawDataFirst packets) :
    ∃ pipe, b.sends (packets.map (ServerPacket.packet atlas)) = some { b with down := pipe } ∧
      { b with down := pipe }.Carries atlas up (down ++ packets) := by
  obtain ⟨pipe, hput, hcarries⟩ := h.downward.putAll .sysmodule (packets.map (ServerPacket.packet atlas))
    fun q hq => by
      obtain ⟨p, hp, rfl⟩ := List.mem_map.mp hq
      exact hfits p hp
  refine ⟨pipe, ?_, { h with downward := ?_, unopened := fun hclosed => ?_ }⟩
  · rw [Peer.sends, hput]
    rfl
  · rw [List.map_append]
    rw [List.map_map] at hcarries
    exact hcarries
  · exact ⟨(h.unopened hclosed).1.append hfirst, (h.unopened hclosed).2⟩

/-- The peer after an iteration of the desktop that handles a packet, or none. -/
def handled (atlas : FontAtlas) (texId : Nat) (b : Peer) (pipe : Pipe) :
    Option ServerPacket → Peer
  | none => { b with down := pipe }
  | some p => { b with down := pipe }.apply
      (p.effect atlas ⟨b.desktop.displaySize, texId⟩ b.statics)

/-- **The desktop's iteration**: the next packet is handled, or none. -/
theorem Carries.iterate (h : b.Carries atlas up down) {gl : OpenGl} (htaken : atlas.Taken gl)
    {rem : RecvResult}
    {pipe : Pipe} {call : Option Call} (behind texId : Nat)
    (hreceive : b.down.receive .desktop rem = some (pipe, call)) :
    ∃ (next : Option ServerPacket) (later : List ServerPacket), down = next.toList ++ later ∧
      call.map Call.packet = next.map (ServerPacket.wirePacket atlas) ∧
      b.iterate gl behind rem texId =
        some (b.handled atlas texId pipe next) ∧
      (b.handled atlas texId pipe next).Carries atlas up later := by
  obtain ⟨queue, hqueue, hcarries⟩ := h.downward.receive hreceive
  cases call with
  | none =>
    replace hqueue : queue = down.map (ServerPacket.wirePacket atlas) := hqueue.symm
    refine ⟨none, down, rfl, rfl, ?_, { h with downward := hqueue ▸ hcarries }⟩
    rw [Peer.iterate, hreceive]
    rfl
  | some call =>
    cases hdown : down with
    | nil =>
      rw [hdown] at hqueue
      exact absurd hqueue (List.cons_ne_nil _ _).symm
    | cons p later =>
      rw [hdown, List.map_cons, Option.toList_some, List.map_singleton, List.singleton_append,
        List.cons.injEq] at hqueue
      refine ⟨some p, later, rfl, congrArg some hqueue.1.symm, ?_, ?_⟩
      · have hcall := Desktop.handleCall_eq htaken ⟨b.desktop.displaySize, texId⟩
          b.statics behind p hqueue.1.symm
        rw [Peer.iterate, hreceive, Option.bind_eq_bind, Option.bind_some]
        dsimp only
        rw [hcall]
        rfl
      · have hfirst := hdown ▸ h.unopened
        rw [← hqueue.2] at hcarries
        cases p with
        | drawData p =>
          exact { h with
            downward := hcarries
            opened := rfl
            unopened := fun hclosed => absurd hclosed.symm Bool.false_ne_true }
        | fontTexture =>
          -- the window is open: there was draw data before
          exact { h with
            downward := hcarries
            unopened := fun hclosed => absurd (hfirst hclosed).1 id
            font := Or.inr rfl }
        | clipboardText text =>
          show ({ b with down := pipe }.apply (.clipboardString text.bytes)).Carries _ _ _
          rw [Peer.apply]
          split
          next hopened =>
            exact { h with
              downward := hcarries
              unopened := fun hclosed => absurd (hclosed.symm.trans hopened) Bool.false_ne_true }
          next =>
            exact { h with
              downward := hcarries
              unopened := fun hclosed => ⟨(hfirst hclosed).1, (hfirst hclosed).2⟩ }

end Peer

/-! ## Which `Remote` it is

  `System` looks at fewer packets than are sent.  The queues are filtered accordingly, and the calls
  for a packet do to the render loop what `Server.handlePacket` does, or nothing. -/

/-- The packets that reach the render loop. -/
def DesktopPacket.loopPacket : DesktopPacket → Option ClientPacket
  | .hello => some .hello
  | .displaySize size => some (.updateDisplaySize size)
  | .mouse _ _ => some .updateMouse
  | _ => none

/-- Calls that say nothing to the render loop. -/
theorem foldl_apply_eq (st : LoopStatics) {calls : List UiCall}
    (h : ∀ call ∈ calls, ∀ st : LoopStatics, st.apply call = st) :
    calls.foldl LoopStatics.apply st = st := by
  induction calls with
  | nil => rfl
  | cons call calls ih =>
    rw [List.foldl_cons, h call List.mem_cons_self]
    exact ih fun c hc => h c (List.mem_cons_of_mem _ hc)

/-- **What the calls for a packet do to the render loop**: what `Server.handlePacket` says, or
    nothing. -/
theorem foldl_uiCalls (st : LoopStatics) {p : DesktopPacket} (hp : p.Ok) :
    p.uiCalls.foldl LoopStatics.apply st = p.loopPacket.elim st (Server.handlePacket st) := by
  cases p with
  | hello => rfl
  | alive => rfl
  | char c => rfl
  | clipboardText text => rfl
  | key packet padding => rfl
  | displaySize size =>
    show queueRerender { st with displaySize := vecOf _ _ } = _
    rw [vecOf_floatWord hp]
    rfl
  | mouse packet padding =>
    have hevents : ∀ call ∈ (addMouseEvents packet).map InputEvent.uiCall, ∀ st : LoopStatics,
        st.apply call = st := by
      intro call hcall st
      obtain ⟨event, -, rfl⟩ := List.mem_map.mp hcall
      cases event <;> rfl
    show ((addMouseEvents packet).map InputEvent.uiCall ++ [UiCall.queueRerender]).foldl
      LoopStatics.apply st = _
    rw [List.foldl_append, foldl_apply_eq st hevents]
    rfl

/-- The `Remote` has the same flag and the same program, and its queues are the packets on the way
    that reach the render loop, and those that are frames. -/
structure Peer.Refines (atlas : FontAtlas) (b : Peer) (c : Remote)
    (up : List DesktopPacket) (down : List ServerPacket) : Prop where
  carries : b.Carries atlas up down
  flag : c.mHasSentFontTexture = b.mHasSentFontTexture
  process : c.process = ⟨b.statics, b.desktop.displaySize, b.desktop.sLastDisplaySize⟩
  toServer : c.toServer = up.filterMap DesktopPacket.loopPacket
  toClient : c.toClient = (down.filter ServerPacket.isFrame).map (ServerPacket.packet atlas)

end Nxdb
