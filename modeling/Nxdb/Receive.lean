/-
  The two receivers: `Client::handleEvent` of the server, with a buffer of 4096 bytes, and the end
  of the loop body of the desktop's `Client::run`, with one of a mebibyte.

  Each iteration latches the header of the packet at the front of `mBuffer`, handles the packet if
  it is there as a whole, moves the rest down, and calls `recv` once.  What `recv` may return is the
  environment's choice, within the room it is offered.

  The bytes of `mBuffer` that count are the first `mBufferSize`, `RecvState.valid`.  Seen there, both
  receivers are one: an iteration takes the first packet off (`splitPacket`) and appends what was
  received (`iteration_eq`).  So on every byte stream the packets handled and the valid bytes
  together are what was received (`Conn.Inv`), and the framing being self-delimiting, the packets
  handled are those that were sent: `framing`.

  1. Program: `handleEvent` and the end of the desktop's loop, each with its latch, its `memmove`
     and its tests.
  2. The view: `valid`, of which `takePacket_spec` and `valid_receive` say all.
  3. The invariant: `Conn.Inv`, packets handled and valid bytes are what was received; from it
     `stream_prefix` by `Lib.Framing`.
  4. Progress: bytes that are no whole packet leave room for one more, and iterations that receive
     nothing handle what is there, one packet each (`drain`).
-/
import Nxdb.Wire
import Nxdb.Lib.Run

namespace Nxdb

open Lib

/-! ## The code -/

/-- The members of both `Client`s that the receivers use. -/
structure RecvState where
  mBuffer : Mem
  mBufferSize : Nat
  mNextPacketSize : Nat
  mNextPacketType : Nat

/-- What `recv` returns: bytes, `0`, or `-1` with `EAGAIN` or with another error. -/
inductive RecvResult where
  | bytes (bs : List UInt8)
  | closed
  | wouldBlock
  | error
deriving DecidableEq

/-- The arguments of a call of `handlePacket`. -/
structure Call where
  type : Nat
  data : Mem
  size : Nat

/-- The packet a call is about. -/
def Call.packet (c : Call) : WirePacket := ⟨c.type, c.data.slice 0 c.size⟩

/-- What an iteration does: the call of `handlePacket` it makes, the state in which it calls `recv`
    (`none` if it does not get there), the bytes `recv` stores, the state it ends in, and whether the
    connection is given up (the server's client disconnected, the desktop's `mState` is
    `State_NoSocket`). -/
structure Iteration where
  call : Option Call
  atRecv : Option RecvState
  stored : List UInt8
  state : RecvState
  lost : Bool

namespace RecvState

/-- Nothing received yet, in a buffer of any content. -/
def init (mBuffer : Mem) : RecvState := ⟨mBuffer, 0, 0, 0⟩

/-- A `uint32_t` read out of the buffer. -/
def readU32 (s : RecvState) (off : Nat) : Nat := leVal (s.mBuffer.slice off 4)

/-- The first `if`: the header is read once it is there and no packet is known to be next. -/
def latch (s : RecvState) : RecvState :=
  if s.mNextPacketType = PacketType.noPacket.code ∧ s.mNextPacketSize = 0 ∧
      packetHeaderSize ≤ s.mBufferSize then
    { s with mNextPacketSize := s.readU32 0, mNextPacketType := s.readU32 4 }
  else s

/-- The bytes of the next packet, its header included. -/
def wholeSize (s : RecvState) : Nat := s.mNextPacketSize + packetHeaderSize

/-- The call of `handlePacket`. -/
def call (s : RecvState) : Call :=
  ⟨s.mNextPacketType, fun i => s.mBuffer (packetHeaderSize + i), s.mNextPacketSize⟩

/-- The `memmove` and the assignments behind the call. -/
def dropPacket (s : RecvState) : RecvState where
  mBuffer := s.mBuffer.move 0 s.wholeSize (s.mBufferSize - s.wholeSize)
  mBufferSize := s.mBufferSize - s.wholeSize
  mNextPacketSize := 0
  mNextPacketType := PacketType.noPacket.code

/-- `recv` stores `bs` behind the valid bytes. -/
def append (s : RecvState) (bs : List UInt8) : RecvState :=
  { s with mBuffer := s.mBuffer.write s.mBufferSize bs, mBufferSize := s.mBufferSize + bs.length }

end RecvState

namespace Sysmodule

/-- `sizeof(mBuffer)` on the server. -/
def bufferSize : Nat := 4 * 1024

/-- `Client::handleEvent`; `lost` is the value it returns. -/
def handleEvent (s : RecvState) (rem : RecvResult) : Iteration :=
  let s := s.latch
  let (s, call) := if s.wholeSize ≤ s.mBufferSize then (s.dropPacket, some s.call) else (s, none)
  match rem with
  | .closed => ⟨call, some s, [], s, true⟩
  | .wouldBlock => ⟨call, some s, [], s, false⟩
  | .error => ⟨call, some s, [], s, false⟩
  | .bytes bs => ⟨call, some s, bs, s.append bs, false⟩

end Sysmodule

namespace Desktop

/-- `sizeof(mBuffer)` on the desktop. -/
def bufferSize : Nat := 1024 * 1024

/-- The call of `recv` and what follows it. -/
def receive (call : Option Call) (s : RecvState) (rem : RecvResult) : Iteration :=
  match rem with
  | .closed => ⟨call, some s, [], s, false⟩
  | .wouldBlock => ⟨call, some s, [], s, false⟩
  | .error => ⟨call, some s, [], s, true⟩
  | .bytes bs => ⟨call, some s, bs, s.append bs, false⟩

/-- The loop body of `Client::run` from the latching of the header on. -/
def receiveStep (s : RecvState) (rem : RecvResult) : Iteration :=
  let s := s.latch
  if s.wholeSize ≤ s.mBufferSize then
    let toMove := s.mBufferSize - s.wholeSize
    if bufferSize < toMove then ⟨some s.call, none, [], RecvState.init fun _ => 0, true⟩
    else receive (some s.call) s.dropPacket rem
  else receive none s rem

end Desktop

/-- The two receivers. -/
inductive Side where
  | sysmodule
  | desktop
deriving DecidableEq

namespace Side

/-- `sizeof(mBuffer)`. -/
def capacity : Side → Nat
  | sysmodule => Sysmodule.bufferSize
  | desktop => Desktop.bufferSize

/-- An iteration of either. -/
def iteration : Side → RecvState → RecvResult → Iteration
  | sysmodule => Sysmodule.handleEvent
  | desktop => Desktop.receiveStep

/-- Whether a connection is given up for what `recv` returned. -/
def gives_up : Side → RecvResult → Bool
  | sysmodule, .closed => true
  | desktop, .error => true
  | _, _ => false

end Side

/-! ## The valid bytes -/

namespace RecvState

/-- The bytes received and not handled yet. -/
def valid (s : RecvState) : List UInt8 := s.mBuffer.slice 0 s.mBufferSize

/-- So many bytes are valid as `mBufferSize` says. -/
@[simp] theorem length_valid (s : RecvState) : s.valid.length = s.mBufferSize :=
  s.mBuffer.length_slice 0 _

/-- What is latched is the header of the packet at the front, unless nothing is. -/
def Latched (s : RecvState) : Prop :=
  (s.mNextPacketSize = 0 ∧ s.mNextPacketType = 0) ∨
    (packetHeaderSize ≤ s.mBufferSize ∧ s.mNextPacketSize = headerSize s.valid ∧
      s.mNextPacketType = headerType s.valid)

/-- What `recv` brings comes behind the valid bytes. -/
theorem valid_append (s : RecvState) (bs : List UInt8) : (s.append bs).valid = s.valid ++ bs :=
  s.mBuffer.slice_write s.mBufferSize bs

/-- The first word of the buffer is the size of the header ... -/
theorem readU32_zero {s : RecvState} (h : packetHeaderSize ≤ s.mBufferSize) :
    s.readU32 0 = headerSize s.valid := by
  rw [packetHeaderSize] at h
  rw [readU32, headerSize, valid, Mem.take_slice (by omega)]

/-- ... and the second its type. -/
theorem readU32_four {s : RecvState} (h : packetHeaderSize ≤ s.mBufferSize) :
    s.readU32 4 = headerType s.valid := by
  rw [packetHeaderSize] at h
  rw [readU32, headerType, valid, Mem.drop_slice, Mem.take_slice (by omega)]

/-- A packet that is there as a whole is handled with its own payload. -/
theorem call_packet {s : RecvState} (h : s.wholeSize ≤ s.mBufferSize) :
    s.call.packet =
      ⟨s.mNextPacketType, (s.valid.drop packetHeaderSize).take s.mNextPacketSize⟩ := by
  rw [wholeSize] at h
  rw [valid, Mem.drop_slice, Mem.take_slice (by omega), Nat.zero_add]
  show WirePacket.mk _ (Mem.slice (fun i => s.mBuffer (packetHeaderSize + i)) 0 _) = _
  rw [Mem.slice_shift, Nat.add_zero]
  rfl

/-- Dropping a packet moves the rest to the front. -/
theorem valid_dropPacket (s : RecvState) : s.dropPacket.valid = s.valid.drop s.wholeSize := by
  rw [valid, valid, Mem.drop_slice, Nat.zero_add]
  exact Mem.slice_move _ _ _ _

/-- More bytes do not change a header that is there. -/
theorem Latched.append {s : RecvState} (h : s.Latched) (bs : List UInt8) :
    (s.append bs).Latched := by
  rcases h with h | ⟨hhead, hsize, htype⟩
  · exact Or.inl h
  · right
    have hlen : packetHeaderSize ≤ s.valid.length := by rwa [length_valid]
    rw [packetHeaderSize] at hlen
    refine ⟨Nat.le_trans hhead (Nat.le_add_right _ _), ?_, ?_⟩
    · rw [valid_append, headerSize, List.take_append_of_le_length (by omega)]
      exact hsize
    · rw [valid_append, headerType, List.drop_append_of_le_length (by omega),
        List.take_append_of_le_length (by rw [List.length_drop]; omega)]
      exact htype

/-- Noting the header of the next packet changes no byte ... -/
@[simp] theorem valid_latch (s : RecvState) : s.latch.valid = s.valid := by
  rw [latch]
  split
  · rfl
  · rfl

/-- ... and not their number. -/
@[simp] theorem mBufferSize_latch (s : RecvState) : s.latch.mBufferSize = s.mBufferSize := by
  rw [latch]
  split
  · rfl
  · rfl

/-- After the latching, the header is latched if it is there. -/
theorem Latched.latch {s : RecvState} (h : s.Latched) :
    (s.mBufferSize < packetHeaderSize ∧ s.latch.mNextPacketSize = 0 ∧
        s.latch.mNextPacketType = 0) ∨
      (packetHeaderSize ≤ s.mBufferSize ∧ s.latch.mNextPacketSize = headerSize s.valid ∧
        s.latch.mNextPacketType = headerType s.valid) := by
  by_cases hhead : packetHeaderSize ≤ s.mBufferSize
  · right
    refine ⟨hhead, ?_⟩
    rw [RecvState.latch]
    split
    · exact ⟨readU32_zero hhead, readU32_four hhead⟩
    next hno =>
      -- a latched header is kept; the empty packet's, which looks like none, was read again above
      rcases h with ⟨hsize, htype⟩ | ⟨-, hsize, htype⟩
      · exact absurd ⟨htype, hsize, hhead⟩ hno
      · exact ⟨hsize, htype⟩
  · left
    rw [RecvState.latch, if_neg fun hif => hhead hif.2.2]
    rcases h with h | h
    · exact ⟨Nat.lt_of_not_le hhead, h⟩
    · exact absurd h.1 hhead

/-- What has been noted stays true when it is noted again. -/
theorem Latched.of_latch {s : RecvState} (h : s.Latched) : s.latch.Latched := by
  rcases h.latch with ⟨-, h⟩ | h
  · exact Or.inl h
  · right
    rwa [mBufferSize_latch, valid_latch]

end RecvState

/-- The state in which `recv` is called, and the call of `handlePacket` before it. -/
def takePacket (s : RecvState) : RecvState × Option Call :=
  if s.latch.wholeSize ≤ s.latch.mBufferSize then (s.latch.dropPacket, some s.latch.call)
  else (s.latch, none)

/-- **Taking a packet off the valid bytes.** -/
theorem takePacket_spec {s : RecvState} (h : s.Latched) :
    (takePacket s).1.Latched ∧
      match splitPacket s.valid with
      | none => (takePacket s).2 = none ∧ (takePacket s).1.valid = s.valid
      | some (p, rest) => (takePacket s).2.map Call.packet = some p ∧
          (takePacket s).1.valid = rest := by
  rcases h.latch with ⟨hshort, hsize, htype⟩ | ⟨hhead, hsize, htype⟩
  · -- not even a header: eight bytes are waited for
    have hnone : splitPacket s.valid = none := by
      rw [splitPacket, if_neg]
      rintro ⟨hle, -⟩
      rw [RecvState.length_valid] at hle
      omega
    have hwait : ¬ s.latch.wholeSize ≤ s.latch.mBufferSize := by
      rw [RecvState.wholeSize, hsize, RecvState.mBufferSize_latch]
      omega
    rw [takePacket, if_neg hwait, hnone]
    exact ⟨h.of_latch, rfl, RecvState.valid_latch s⟩
  · by_cases hwhole : headerSize s.valid + packetHeaderSize ≤ s.mBufferSize
    · -- the whole packet is there
      have htake : s.latch.wholeSize ≤ s.latch.mBufferSize := by
        rw [RecvState.wholeSize, hsize, RecvState.mBufferSize_latch]
        exact hwhole
      have hsplit : splitPacket s.valid =
          some (⟨headerType s.valid, (s.valid.drop packetHeaderSize).take (headerSize s.valid)⟩,
            s.valid.drop (headerSize s.valid + packetHeaderSize)) := by
        rw [splitPacket, RecvState.length_valid, if_pos ⟨hhead, hwhole⟩]
      rw [takePacket, if_pos htake, hsplit]
      refine ⟨Or.inl ⟨rfl, rfl⟩, ?_, ?_⟩
      · show some s.latch.call.packet = _
        rw [RecvState.call_packet htake, RecvState.valid_latch, hsize, htype]
      · show s.latch.dropPacket.valid = _
        rw [RecvState.valid_dropPacket, RecvState.valid_latch, RecvState.wholeSize, hsize]
    · have hnone : splitPacket s.valid = none := by
        rw [splitPacket, RecvState.length_valid, if_neg fun hif => hwhole hif.2]
      have hwait : ¬ s.latch.wholeSize ≤ s.latch.mBufferSize := by
        rw [RecvState.wholeSize, hsize, RecvState.mBufferSize_latch]
        exact hwhole
      rw [takePacket, if_neg hwait, hnone]
      exact ⟨h.of_latch, rfl, RecvState.valid_latch s⟩

/-- The bytes a result brings. -/
def RecvResult.data : RecvResult → List UInt8
  | .bytes bs => bs
  | _ => []

/-- The state after `recv`. -/
def RecvState.receive (s : RecvState) : RecvResult → RecvState
  | .bytes bs => s.append bs
  | _ => s

/-- A `recv` adds its bytes, an end or an error none ... -/
theorem RecvState.valid_receive (s : RecvState) (rem : RecvResult) :
    (s.receive rem).valid = s.valid ++ rem.data := by
  cases rem with
  | bytes bs => exact s.valid_append bs
  | closed => exact (List.append_nil s.valid).symm
  | wouldBlock => exact (List.append_nil s.valid).symm
  | error => exact (List.append_nil s.valid).symm

/-- ... so the number grows by theirs ... -/
theorem RecvState.mBufferSize_receive (s : RecvState) (rem : RecvResult) :
    (s.receive rem).mBufferSize = s.mBufferSize + rem.data.length := by
  rw [← length_valid, valid_receive, List.length_append, length_valid]

/-- ... and the note about the next packet stays true: it is about the first bytes. -/
theorem RecvState.Latched.receive {s : RecvState} (h : s.Latched) (rem : RecvResult) :
    (s.receive rem).Latched := by
  cases rem with
  | bytes bs => exact h.append bs
  | closed => exact h
  | wouldBlock => exact h
  | error => exact h

/-- **Both receivers are one**: a packet is taken off, then `recv` is called.  The desktop's test on
    `toMove` never fails, because what is moved is a part of the buffer. -/
theorem iteration_eq (side : Side) {s : RecvState} (h : s.mBufferSize ≤ side.capacity)
    (rem : RecvResult) :
    side.iteration s rem = ⟨(takePacket s).2, some (takePacket s).1, rem.data,
      (takePacket s).1.receive rem, side.gives_up rem⟩ := by
  -- with a packet or without one, then by what `recv` returns
  cases side with
  | sysmodule =>
    show Sysmodule.handleEvent s rem = _
    rw [Sysmodule.handleEvent, takePacket]
    by_cases hwhole : s.latch.wholeSize ≤ s.latch.mBufferSize
    · simp only [if_pos hwhole]
      cases rem <;> rfl
    · simp only [if_neg hwhole]
      cases rem <;> rfl
  | desktop =>
    show Desktop.receiveStep s rem = _
    rw [Desktop.receiveStep, takePacket]
    by_cases hwhole : s.latch.wholeSize ≤ s.latch.mBufferSize
    · have hmove : ¬ Desktop.bufferSize < s.latch.mBufferSize - s.latch.wholeSize := by
        have hcap : s.mBufferSize ≤ Desktop.bufferSize := h
        rw [RecvState.mBufferSize_latch]
        omega
      simp only [if_pos hwhole, if_neg hmove]
      cases rem <;> rfl
    · simp only [if_neg hwhole]
      cases rem <;> rfl

/-! ## One connection -/

/-- What `recv` may return when it is offered `room` bytes. -/
def RecvResult.Fits (room : Nat) : RecvResult → Prop
  | .bytes bs => bs ≠ [] ∧ bs.length ≤ room
  | _ => True

instance (room : Nat) : ∀ rem : RecvResult, Decidable (rem.Fits room)
  | .bytes bs => inferInstanceAs (Decidable (bs ≠ [] ∧ bs.length ≤ room))
  | .closed => isTrue trivial
  | .wouldBlock => isTrue trivial
  | .error => isTrue trivial

/-- `recv` brings no more than it was offered room for. -/
theorem RecvResult.Fits.length_data {room : Nat} {rem : RecvResult} (h : rem.Fits room) :
    rem.data.length ≤ room := by
  cases rem with
  | bytes bs => exact h.2
  | closed => exact Nat.zero_le _
  | wouldBlock => exact Nat.zero_le _
  | error => exact Nat.zero_le _

/-- A connection: the receiver's state, the calls of `handlePacket` it has made, the bytes it has
    received, and whether it has given up. -/
structure Conn where
  recv : RecvState
  calls : List WirePacket
  got : List UInt8
  lost : Bool

/-- A new connection, to a buffer that holds anything. -/
def Conn.init (mBuffer : Mem) : Conn := ⟨RecvState.init mBuffer, [], [], false⟩

/-- `recv` may return this in the iteration. -/
def Iteration.Fits (capacity : Nat) (it : Iteration) (rem : RecvResult) : Prop :=
  match it.atRecv with
  | none => True
  | some s => rem.Fits (capacity - s.mBufferSize)

instance (capacity : Nat) (it : Iteration) (rem : RecvResult) :
    Decidable (it.Fits capacity rem) := by
  unfold Iteration.Fits
  cases it.atRecv <;> infer_instance

/-- One iteration on a connection. -/
def Side.step (side : Side) (c : Conn) (rem : RecvResult) : Option Conn :=
  let it := side.iteration c.recv rem
  if c.lost = false ∧ it.Fits side.capacity rem then
    some ⟨it.state, c.calls ++ it.call.toList.map Call.packet, c.got ++ it.stored, it.lost⟩
  else none

/-- On every byte stream: the valid bytes fit the buffer, and the packets handled and the valid
    bytes make up what was received. -/
structure Conn.Inv (side : Side) (c : Conn) : Prop where
  latched : c.recv.Latched
  fits : c.recv.mBufferSize ≤ side.capacity
  stream : wireAll c.calls ++ c.recv.valid = c.got
  wf : ∀ p ∈ c.calls, p.Wf

/-- The invariant of a new connection. -/
theorem Conn.inv_init (side : Side) (mBuffer : Mem) : (Conn.init mBuffer).Inv side where
  latched := Or.inl ⟨rfl, rfl⟩
  fits := Nat.zero_le _
  stream := rfl
  wf := fun _ h => absurd h List.not_mem_nil

/-- What a step does. -/
theorem Side.step_eq {side : Side} {c : Conn} (h : c.Inv side) (rem : RecvResult) :
    side.step c rem =
      if c.lost = false ∧ rem.Fits (side.capacity - (takePacket c.recv).1.mBufferSize) then
        some ⟨(takePacket c.recv).1.receive rem,
          c.calls ++ (takePacket c.recv).2.toList.map Call.packet, c.got ++ rem.data,
          side.gives_up rem⟩
      else none := by
  rw [Side.step, iteration_eq side h.fits]
  rfl

/-- The packets a step handles and the valid bytes it calls `recv` with. -/
theorem Conn.Inv.takePacket {side : Side} {c : Conn} (h : c.Inv side) :
    let taken := (Nxdb.takePacket c.recv).2.toList.map Call.packet
    wireAll taken ++ (Nxdb.takePacket c.recv).1.valid = c.recv.valid ∧ ∀ p ∈ taken, p.Wf := by
  obtain ⟨-, hspec⟩ := takePacket_spec h.latched
  cases hsplit : splitPacket c.recv.valid with
  | none =>
    rw [hsplit] at hspec
    rw [hspec.1]
    exact ⟨hspec.2, fun _ h => absurd h List.not_mem_nil⟩
  | some r =>
    obtain ⟨p, rest⟩ := r
    rw [hsplit] at hspec
    obtain ⟨call, hcall, rfl⟩ := Option.map_eq_some_iff.mp hspec.1
    obtain ⟨hwf, hvalid⟩ := splits_packet.sound hsplit
    rw [hcall, hspec.2, hvalid]
    exact ⟨by simp [wireAll], fun q hq => by
      rw [List.mem_singleton.mp hq]
      exact hwf⟩

/-- **The step lemma.** -/
theorem Conn.Inv.step {side : Side} {c c' : Conn} {rem : RecvResult} (h : c.Inv side)
    (hstep : side.step c rem = some c') : c'.Inv side := by
  rw [Side.step_eq h] at hstep
  split at hstep
  next hif =>
    cases hstep
    obtain ⟨htaken, hwf⟩ := h.takePacket
    obtain ⟨hlatched, -⟩ := takePacket_spec h.latched
    have hsize : (Nxdb.takePacket c.recv).1.mBufferSize ≤ side.capacity := by
      have hlen := congrArg List.length htaken
      rw [List.length_append, RecvState.length_valid, RecvState.length_valid] at hlen
      have hfits := h.fits
      omega
    refine ⟨hlatched.receive rem, ?_, ?_, ?_⟩
    · have hroom := hif.2.length_data
      rw [RecvState.mBufferSize_receive]
      omega
    · show wireAll (c.calls ++ _) ++ ((Nxdb.takePacket c.recv).1.receive rem).valid = c.got ++ rem.data
      rw [RecvState.valid_receive, ← h.stream, ← htaken, wireAll, List.flatMap_append]
      simp only [wireAll, List.append_assoc]
    · intro p hp
      rcases List.mem_append.mp hp with hp | hp
      · exact h.wf p hp
      · exact hwf p hp
  next => exact absurd hstep (Option.some_ne_none c').symm

/-- **The run lemma.** -/
theorem Conn.Inv.run {side : Side} {c c' : Conn} {rems : List RecvResult} (h : c.Inv side)
    (hrun : Lib.run side.step c rems = some c') : c'.Inv side :=
  run_invariant (fun _ _ _ hs hstep => Conn.Inv.step hs hstep) rems h hrun

/-! ## Framing -/

/-- After a prefix of a stream of packets: the packets handled are the first ones, and the valid
    bytes are a prefix of the others. -/
theorem Conn.Inv.stream_prefix {side : Side} {c : Conn} (h : c.Inv side) {ps : List WirePacket}
    (hps : ∀ p ∈ ps, p.Wf) (hgot : c.got <+: wireAll ps) :
    ∃ rest, ps = c.calls ++ rest ∧ c.recv.valid <+: wireAll rest := by
  rw [← h.stream] at hgot
  exact splits_packet.stream_prefix h.wf hps hgot

/-- With packets that fit the buffer, `recv` is always offered some room. -/
theorem Conn.Inv.room {side : Side} {c : Conn} (h : c.Inv side) {rest : List WirePacket}
    (hrest : ∀ p ∈ rest, p.Wf ∧ p.wire.length ≤ side.capacity)
    (hvalid : c.recv.valid <+: wireAll rest) :
    (Nxdb.takePacket c.recv).1.mBufferSize < side.capacity := by
  obtain ⟨-, hspec⟩ := takePacket_spec h.latched
  have hfits := h.fits
  have hpos : 0 < side.capacity := by
    cases side with
    | sysmodule => exact (by decide : 0 < Sysmodule.bufferSize)
    | desktop => exact (by decide : 0 < Desktop.bufferSize)
  rw [← RecvState.length_valid]
  cases hsplit : splitPacket c.recv.valid with
  | none =>
    rw [hsplit] at hspec
    rw [hspec.2]
    exact splits_packet.rest_lt hpos hrest hvalid hsplit
  | some r =>
    -- a packet was moved out of the buffer
    obtain ⟨p, tail⟩ := r
    rw [hsplit] at hspec
    obtain ⟨-, heq⟩ := splits_packet.sound hsplit
    have hlen := congrArg List.length heq
    rw [List.length_append, RecvState.length_valid, WirePacket.length_wire, packetHeaderSize] at hlen
    rw [hspec.2]
    omega

/-- Iterations that receive nothing handle what is there, one packet each. -/
theorem drain {side : Side} :
    ∀ (n : Nat) {c : Conn} {rest : List WirePacket}, c.Inv side → c.lost = false →
      (∀ p ∈ rest, p.Wf) → c.recv.valid = wireAll rest → rest.length ≤ n →
      ∃ c', run side.step c (List.replicate n .wouldBlock) = some c' ∧
        c'.calls = c.calls ++ rest := by
  intro n
  induction n with
  | zero =>
    intro c rest _ _ _ _ hn
    rw [List.length_eq_zero_iff.mp (Nat.le_zero.mp hn), List.append_nil]
    exact ⟨c, rfl, rfl⟩
  | succ n ih =>
    intro c rest h hlost hrest hvalid hn
    obtain ⟨-, hspec⟩ := takePacket_spec h.latched
    have hstep := Side.step_eq h .wouldBlock
    rw [if_pos ⟨hlost, trivial⟩] at hstep
    have hkeep : side.gives_up .wouldBlock = false := by
      cases side with
      | sysmodule => rfl
      | desktop => rfl
    have hinv := h.step hstep
    cases rest with
    | nil =>
      have hnone : splitPacket c.recv.valid = none := by
        rw [hvalid]
        exact splits_packet.split_nil
      rw [hnone] at hspec
      obtain ⟨c', hrun, hcalls⟩ := ih hinv hkeep (fun _ h => absurd h List.not_mem_nil)
        (hspec.2.trans hvalid) (Nat.zero_le n)
      refine ⟨c', run_cons.mpr ⟨_, hstep, hrun⟩, ?_⟩
      rw [hcalls, hspec.1]
      simp
    | cons p rest =>
      -- the first packet is handled, the others are left for `n` iterations
      have hsome : splitPacket c.recv.valid = some (p, wireAll rest) := by
        rw [hvalid]
        exact splits_packet.complete _ (hrest p List.mem_cons_self)
      rw [hsome] at hspec
      obtain ⟨call, hcall, hpacket⟩ := Option.map_eq_some_iff.mp hspec.1
      rw [List.length_cons] at hn
      obtain ⟨c', hrun, hcalls⟩ := ih hinv hkeep
        (fun q hq => hrest q (List.mem_cons_of_mem _ hq)) hspec.2 (by omega)
      refine ⟨c', run_cons.mpr ⟨_, hstep, hrun⟩, ?_⟩
      rw [hcalls, hcall]
      simp [hpacket]

/-- **Packet framing.**  For both receivers, whatever their buffer held at first.  On every byte
    stream and for all results of `recv`, `mBufferSize` never exceeds the buffer.  While what was
    received is a prefix of a stream of packets that fit the buffer, the calls of `handlePacket` are
    the first packets of it; the next `recv` is offered at least one byte, and after the last byte,
    iterations that receive nothing handle every packet that is left. -/
theorem framing (side : Side) (mBuffer : Mem) (rems : List RecvResult) (c : Conn)
    (hrun : run side.step (Conn.init mBuffer) rems = some c) :
    c.recv.mBufferSize ≤ side.capacity ∧
      ∀ ps : List WirePacket,
        (∀ p ∈ ps, p.type < 2 ^ 32 ∧ p.payload.length + packetHeaderSize ≤ side.capacity) →
        c.got <+: wireAll ps →
          c.calls <+: ps ∧
          (∀ rem, ∃ s, (side.iteration c.recv rem).atRecv = some s ∧
            s.mBufferSize < side.capacity) ∧
          (c.lost = false → c.got = wireAll ps → ∀ n, ps.length ≤ c.calls.length + n →
            ∃ c', run side.step c (List.replicate n .wouldBlock) = some c' ∧ c'.calls = ps) := by
  have hinv := (Conn.inv_init side mBuffer).run hrun
  refine ⟨hinv.fits, fun ps hps hgot => ?_⟩
  have hcap : side.capacity ≤ 2 ^ 20 := by
    cases side with
    | sysmodule => decide
    | desktop => decide
  have hwf : ∀ p ∈ ps, p.Wf ∧ p.wire.length ≤ side.capacity := by
    intro p hp
    obtain ⟨htype, hlen⟩ := hps p hp
    refine ⟨⟨by omega, htype⟩, ?_⟩
    rw [WirePacket.length_wire]
    omega
  obtain ⟨rest, hsplit, hvalid⟩ := hinv.stream_prefix (fun p hp => (hwf p hp).1) hgot
  have hrest : ∀ p ∈ rest, p.Wf ∧ p.wire.length ≤ side.capacity := fun p hp =>
    hwf p (hsplit ▸ List.mem_append_right _ hp)
  refine ⟨⟨rest, hsplit.symm⟩, fun rem => ?_, fun hlost hall n hn => ?_⟩
  · rw [iteration_eq side hinv.fits]
    exact ⟨_, rfl, hinv.room hrest hvalid⟩
  · -- all was received, so the valid bytes are whole packets
    have hleft : c.recv.valid = wireAll rest := by
      have hstream := hinv.stream
      rw [hall, hsplit, wireAll, wireAll, List.flatMap_append] at hstream
      exact List.append_cancel_left hstream
    rw [hsplit, List.length_append] at hn
    obtain ⟨c', hrun', hcalls⟩ := drain n hinv hlost (fun p hp => (hrest p hp).1) hleft (by omega)
    exact ⟨c', hrun', hcalls.trans hsplit.symm⟩

/-- A packet of the server in two pieces. -/
theorem framing_twoPieces : ∃ c c',
    run Side.sysmodule.step (Conn.init fun _ => 0)
        [.bytes [3, 0, 0, 0, 4], .wouldBlock, .bytes [0, 0, 0, 7, 8, 9]] = some c ∧
      c.recv.mBufferSize ≤ Sysmodule.bufferSize ∧
      run Side.sysmodule.step c [.wouldBlock] = some c' ∧ c'.calls = [⟨4, [7, 8, 9]⟩] := by
  have hall : (run Side.sysmodule.step (Conn.init fun _ => 0)
      [.bytes [3, 0, 0, 0, 4], .wouldBlock, .bytes [0, 0, 0, 7, 8, 9]]).map
        (fun c => (c.got, c.calls, c.lost)) = some (wireAll [⟨4, [7, 8, 9]⟩], [], false) := by
    decide +kernel
  obtain ⟨c, hrun, hc⟩ := Option.map_eq_some_iff.mp hall
  simp only [Prod.mk.injEq] at hc
  obtain ⟨hfits, hframing⟩ := framing .sysmodule (fun _ => 0) _ c hrun
  obtain ⟨-, -, hdrain⟩ := hframing [⟨4, [7, 8, 9]⟩] (by decide)
    ⟨[], (List.append_nil _).trans hc.1⟩
  obtain ⟨c', hrun', hcalls⟩ := hdrain hc.2.2 hc.1 1 (by rw [hc.2.1]; decide)
  exact ⟨c, c', hrun, hfits, hrun', hcalls⟩

end Nxdb
