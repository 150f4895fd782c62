/-
  One direction of a connection: the sender, the network and the receiver.

  The sender's calls put the bytes of a packet behind those that are in flight, the receiver's
  iterations take bytes off the front, as many as `recv` happens to return, and hand packets to
  `handlePacket`.  The network is a byte stream that knows nothing of packets.

  Every call that sends is taken to accept all its bytes, and the connection to last; `recv` returns
  some of the bytes in flight, or nothing for now (`EAGAIN`).

  Seen from outside a pipe is a queue of packets (`Carries`): what is in flight and what the receiver
  holds in its buffer, whole packets and pieces, are the bytes of the queue.  Sending puts a packet at
  the end (`Carries.put`), an iteration takes the first one or none, and calls `handlePacket` for it
  (`Carries.receive`).

  On a socket that blocks, as the two programs have them, `recv` returns only with bytes.  Since each
  `recv` lets one packet through, all of the queue can be handled iff it has at most one packet more
  than there are bytes in flight (`Carries.blocking_iff`).
-/
import Nxdb.Send
import Nxdb.Receive
import Nxdb.ImGuiLoop

namespace Nxdb

open Lib

/-! ## The code -/

/-- A packet on the wire. -/
def Packet.wirePacket (p : Packet) : WirePacket := ⟨p.type.code, p.payload⟩

/-- The bytes in flight, oldest first, and the receiver. -/
structure Pipe where
  inFlight : List UInt8
  recv : RecvState

namespace Pipe

/-- A new connection, to a receiver whose buffer holds anything. -/
def init (mBuffer : Mem) : Pipe := ⟨[], RecvState.init mBuffer⟩

/-- `sendPacketImpl`, where each call accepts all that it is asked to send. -/
def put (sender : Sender) (type : PacketType) (payload : List UInt8) (p : Pipe) : Option Pipe :=
  (sender.sendPacketImpl type payload
    ((sender.requestSizes payload.length).map SendResult.accepted)).map fun calls =>
      { p with inFlight := p.inFlight ++ onWire calls }

/-- Packets are sent one after the other. -/
def putAll (sender : Sender) : List Packet → Pipe → Option Pipe
  | [], p => some p
  | packet :: packets, p => (p.put sender packet.type packet.payload).bind (putAll sender packets)

/-- An iteration of the receiver, and the call of `handlePacket` it makes.  What `recv` brings is in
    flight; the connection does not end. -/
def receive (side : Side) (p : Pipe) (rem : RecvResult) : Option (Pipe × Option Call) :=
  let it := side.iteration p.recv rem
  if it.Fits side.capacity rem ∧ rem.data <+: p.inFlight ∧ it.lost = false then
    some (⟨p.inFlight.drop rem.data.length, it.state⟩, it.call)
  else none

end Pipe

/-! ## Sending

  With all bytes accepted the loop of the desktop's `sendPacketImpl` comes to its end, and both
  functions put the packet behind what is in flight. -/

/-- With as many results as there are pieces, the loop comes to its end. -/
theorem Desktop.sendLoop_pieces (buffer : List UInt8) : ∀ sizeLeft : Nat,
    ∃ calls, Desktop.sendLoop buffer sizeLeft
      ((Desktop.pieceSizes sizeLeft).map SendResult.accepted) = some calls := by
  intro sizeLeft
  induction sizeLeft using Nat.strong_induction_on with
  | h sizeLeft ih =>
    cases sizeLeft with
    | zero => exact ⟨[], rfl⟩
    | succ sizeLeft =>
      obtain ⟨sendSize, hsend, hpos, hmax, hpieces⟩ :=
        Desktop.pieceSizes_next (Nat.succ_pos sizeLeft)
      obtain ⟨calls, hcalls⟩ := ih (sizeLeft + 1 - sendSize) (by omega)
      rw [hpieces, List.map_cons, Desktop.sendLoop]
      simp only [hsend, hcalls, Option.map_some]
      exact ⟨_, rfl⟩

/-- **The bytes of a packet are put behind those in flight.** -/
theorem Pipe.put_eq (sender : Sender) (type : PacketType) (payload : List UInt8) (p : Pipe) :
    p.put sender type payload =
      some { p with inFlight := p.inFlight ++ (WirePacket.mk type.code payload).wire } := by
  obtain ⟨calls, hcalls⟩ : ∃ calls, sender.sendPacketImpl type payload
      ((sender.requestSizes payload.length).map SendResult.accepted) = some calls := by
    cases sender with
    | sysmodule => exact ⟨_, rfl⟩
    | desktop =>
      obtain ⟨calls, hcalls⟩ := Desktop.sendLoop_pieces payload payload.length
      refine ⟨⟨headerBytes payload.length type.code, .accepted packetHeaderSize⟩ :: calls, ?_⟩
      show (Desktop.sendLoop payload payload.length _).map _ = _
      rw [hcalls, Option.map_some]
  obtain ⟨-, -, hreq⟩ := calls_sendPacketImpl hcalls
  rw [put, hcalls, Option.map_some, onWire_of_acceptsAll ((acceptsAll_iff hcalls).mpr rfl), hreq]
  rfl

/-! ## A queue of packets

  `Carries` is the invariant: valid bytes and bytes in flight together are the packets of the queue,
  one behind the other.  An iteration splits the first packet off iff it is there as a whole, which
  is `takePacket_spec` of `Receive`. -/

/-- The packets of the queue, in order, are what the receiver holds and what is in flight. -/
structure Pipe.Carries (side : Side) (p : Pipe) (queue : List WirePacket) : Prop where
  latched : p.recv.Latched
  fits : p.recv.mBufferSize ≤ side.capacity
  stream : p.recv.valid ++ p.inFlight = wireAll queue
  wf : ∀ q ∈ queue, q.Wf ∧ q.wire.length ≤ side.capacity

namespace Pipe

variable {side : Side} {p : Pipe} {queue : List WirePacket}

theorem carries_init (side : Side) (mBuffer : Mem) : (init mBuffer).Carries side [] where
  latched := Or.inl ⟨rfl, rfl⟩
  fits := Nat.zero_le _
  stream := rfl
  wf := fun _ h => absurd h List.not_mem_nil

/-- A packet that fits the receiver's buffer comes to the end of the queue. -/
theorem Carries.put (h : p.Carries side queue) (sender : Sender) (packet : Packet)
    (hfits : packet.payload.length + packetHeaderSize ≤ side.capacity) :
    ∃ p', p.put sender packet.type packet.payload = some p' ∧
      p'.Carries side (queue ++ [packet.wirePacket]) := by
  have hcap : side.capacity ≤ 2 ^ 20 := by
    cases side with
    | sysmodule => decide
    | desktop => decide
  refine ⟨_, put_eq sender packet.type packet.payload p, h.latched, h.fits, ?_, ?_⟩
  · show p.recv.valid ++ (p.inFlight ++ _) = _
    rw [← List.append_assoc, h.stream, wireAll, wireAll, List.flatMap_append, List.flatMap_singleton]
    rfl
  · intro q hq
    rcases List.mem_append.mp hq with hq | hq
    · exact h.wf q hq
    · rw [List.mem_singleton.mp hq]
      refine ⟨⟨?_, packet.type.code_lt⟩, ?_⟩
      · show packet.payload.length < 2 ^ 32
        omega
      · rw [WirePacket.length_wire, Nat.add_comm]
        exact hfits

/-- So do several. -/
theorem Carries.putAll (sender : Sender) : ∀ (packets : List Packet) {p : Pipe}
    {queue : List WirePacket}, p.Carries side queue →
      (∀ q ∈ packets, q.payload.length + packetHeaderSize ≤ side.capacity) →
        ∃ p', p.putAll sender packets = some p' ∧
          p'.Carries side (queue ++ packets.map Packet.wirePacket) := by
  intro packets
  induction packets with
  | nil =>
    intro p queue h _
    exact ⟨p, rfl, by rwa [List.map_nil, List.append_nil]⟩
  | cons packet packets ih =>
    intro p queue h hfits
    obtain ⟨p₁, hput, h₁⟩ := h.put sender packet (hfits packet List.mem_cons_self)
    obtain ⟨p', hall, h'⟩ := ih h₁ fun q hq => hfits q (List.mem_cons_of_mem _ hq)
    refine ⟨p', ?_, ?_⟩
    · show (p.put sender packet.type packet.payload).bind (Pipe.putAll sender packets) = _
      rw [hput, Option.bind_some, hall]
    · rw [List.append_assoc] at h'
      exact h'

/-- **What an iteration takes off** is the first packet, or nothing. -/
theorem Carries.takePacket (h : p.Carries side queue) :
    ∃ rest, queue = (takePacket p.recv).2.toList.map Call.packet ++ rest ∧
      (takePacket p.recv).1.valid ++ p.inFlight = wireAll rest ∧
      (takePacket p.recv).1.Latched := by
  obtain ⟨hlatched, hspec⟩ := takePacket_spec h.latched
  cases hsplit : splitPacket p.recv.valid with
  | none =>
    rw [hsplit] at hspec
    refine ⟨queue, ?_, ?_, hlatched⟩
    · rw [hspec.1]
      rfl
    · rw [hspec.2]
      exact h.stream
  | some r =>
    -- the first packet of the buffer is the first one of the queue
    obtain ⟨q, tail⟩ := r
    rw [hsplit] at hspec
    obtain ⟨call, hcall, hpacket⟩ := Option.map_eq_some_iff.mp hspec.1
    obtain ⟨hwf, hvalid⟩ := splits_packet.sound hsplit
    have hstream : wireAll [q] ++ (tail ++ p.inFlight) = wireAll queue := by
      rw [← h.stream, hvalid, List.append_assoc, wireAll, List.flatMap_singleton]
    have hone : ∀ a ∈ [q], a.Wf := fun a ha => List.mem_singleton.mp ha ▸ hwf
    obtain ⟨rest, hrest, -⟩ := splits_packet.stream_prefix hone (fun a ha => (h.wf a ha).1)
      ⟨[], (List.append_nil _).trans hstream⟩
    refine ⟨rest, ?_, ?_, hlatched⟩
    · rw [hrest, hcall, ← hpacket]
      rfl
    · rw [hspec.2]
      rw [hrest, wireAll, wireAll, List.flatMap_append] at hstream
      exact List.append_cancel_left hstream

/-- What is left in the buffer is not more than there was. -/
theorem Carries.size_takePacket (h : p.Carries side queue) :
    (Nxdb.takePacket p.recv).1.mBufferSize +
      8 * (Nxdb.takePacket p.recv).2.toList.length ≤ p.recv.mBufferSize := by
  obtain ⟨rest, hqueue, hvalid, -⟩ := h.takePacket
  have hlen := congrArg List.length h.stream
  have hlen' := congrArg List.length hvalid
  rw [hqueue, wireAll, List.flatMap_append, List.length_append, List.length_append,
    RecvState.length_valid] at hlen
  rw [List.length_append, RecvState.length_valid, wireAll] at hlen'
  have hcall : 8 * (Nxdb.takePacket p.recv).2.toList.length ≤
      (((Nxdb.takePacket p.recv).2.toList.map Call.packet).flatMap WirePacket.wire).length := by
    cases (Nxdb.takePacket p.recv).2 with
    | none => exact Nat.le_refl 0
    | some call =>
      rw [Option.toList_some, List.map_singleton, List.flatMap_singleton, WirePacket.length_wire]
      exact Nat.le_add_right 8 _
  omega

/-- An iteration, on a pipe that carries packets. -/
theorem Carries.receive_eq (h : p.Carries side queue) (rem : RecvResult) :
    p.receive side rem =
      if rem.Fits (side.capacity - (Nxdb.takePacket p.recv).1.mBufferSize) ∧
          rem.data <+: p.inFlight ∧ side.gives_up rem = false then
        some (⟨p.inFlight.drop rem.data.length, (Nxdb.takePacket p.recv).1.receive rem⟩,
          (Nxdb.takePacket p.recv).2)
      else none := by
  rw [receive, iteration_eq side h.fits]
  rfl

/-- **An iteration takes the first packet or none**, and `handlePacket` is called for it. -/
theorem Carries.receive (h : p.Carries side queue) {rem : RecvResult} {p' : Pipe}
    {call : Option Call} (hreceive : p.receive side rem = some (p', call)) :
    ∃ rest, queue = call.toList.map Call.packet ++ rest ∧ p'.Carries side rest := by
  rw [h.receive_eq] at hreceive
  split at hreceive
  next hif =>
    rw [Option.some.injEq, Prod.mk.injEq] at hreceive
    obtain ⟨rfl, rfl⟩ := hreceive
    obtain ⟨hfit, ⟨later, hlater⟩, -⟩ := hif
    obtain ⟨rest, hqueue, hvalid, hlatched⟩ := h.takePacket
    have hroom := hfit.length_data
    have hsize := h.size_takePacket
    have hfits := h.fits
    refine ⟨rest, hqueue, hlatched.receive rem, ?_, ?_, fun q hq => ?_⟩
    · show ((Nxdb.takePacket p.recv).1.receive rem).mBufferSize ≤ side.capacity
      rw [RecvState.mBufferSize_receive]
      omega
    · show ((Nxdb.takePacket p.recv).1.receive rem).valid ++ p.inFlight.drop rem.data.length = _
      rw [RecvState.valid_receive, ← hlater, List.drop_left, List.append_assoc, hlater, hvalid]
    · exact h.wf q (hqueue ▸ List.mem_append_right _ hq)
  next => exact absurd hreceive (Option.some_ne_none _).symm

theorem gives_up_bytes (side : Side) (bs : List UInt8) : side.gives_up (.bytes bs) = false := by
  cases side <;> rfl

/-- No byte is on its way, in flight or in the receiver's buffer. -/
def Settled (p : Pipe) : Prop := p.inFlight = [] ∧ p.recv.mBufferSize = 0

/-- No byte is on its way if and only if no packet is. -/
theorem Carries.settled_iff (h : p.Carries side queue) : p.Settled ↔ queue = [] := by
  have hstream := h.stream
  constructor
  · rintro ⟨hflight, hsize⟩
    have hvalid : p.recv.valid = [] := by
      rw [← List.length_eq_zero_iff, RecvState.length_valid]
      exact hsize
    rw [hflight, hvalid, List.append_nil] at hstream
    cases hqueue : queue with
    | nil => rfl
    | cons q later =>
      rw [hqueue, wireAll, List.flatMap_cons] at hstream
      exact absurd (List.append_eq_nil_iff.mp hstream.symm).1 (splits_packet.ne_nil _)
  · rintro rfl
    obtain ⟨hvalid, hflight⟩ := List.append_eq_nil_iff.mp hstream
    refine ⟨hflight, ?_⟩
    rw [← RecvState.length_valid, hvalid, List.length_nil]

/-! ## A socket that blocks

  Each iteration needs a byte.  A packet that is still in flight in part has one of its own, so what
  can be missing is a byte for the packets that are in the buffer as a whole: `Carries.length_le`
  counts them, and one byte at a time leads as far as possible (`Carries.reaches_last`). -/

/-- An iteration in which `recv` brings bytes. -/
def receiveBytes (side : Side) (p : Pipe) (bs : List UInt8) : Option Pipe :=
  (p.receive side (.bytes bs)).map Prod.fst

/-- All bytes have arrived, and behind the packet that the next iteration handles there is nothing. -/
def LastPacket (p : Pipe) : Prop :=
  p.inFlight = [] ∧ (Nxdb.takePacket p.recv).1.mBufferSize = 0

/-- There is always room for a byte: the next packet is moved out of the buffer, or is not there as a
    whole. -/
theorem Carries.room (h : p.Carries side queue) :
    (Nxdb.takePacket p.recv).1.mBufferSize < side.capacity := by
  obtain ⟨-, hspec⟩ := takePacket_spec h.latched
  have hsize := h.size_takePacket
  have hfits := h.fits
  cases hcall : (Nxdb.takePacket p.recv).2 with
  | some call =>
    rw [hcall, Option.toList_some, List.length_singleton] at hsize
    omega
  | none =>
    have hpos : 0 < side.capacity := by
      cases side with
      | sysmodule => decide
      | desktop => decide
    cases hsplit : splitPacket p.recv.valid with
    | some r =>
      rw [hsplit, hcall] at hspec
      exact absurd hspec.1.symm (Option.some_ne_none _)
    | none =>
      have hlt := splits_packet.rest_lt hpos h.wf ⟨p.inFlight, h.stream⟩ hsplit
      rw [RecvState.length_valid] at hlt
      omega

/-- The next byte can be received. -/
theorem Carries.receive_byte (h : p.Carries side queue) {b : UInt8} {later : List UInt8}
    (hflight : p.inFlight = b :: later) :
    p.receive side (.bytes [b]) =
      some (⟨later, (Nxdb.takePacket p.recv).1.receive (.bytes [b])⟩,
        (Nxdb.takePacket p.recv).2) := by
  have hroom := h.room
  have hfit : (RecvResult.bytes [b]).Fits
      (side.capacity - (Nxdb.takePacket p.recv).1.mBufferSize) := by
    refine ⟨List.cons_ne_nil b [], ?_⟩
    rw [List.length_singleton]
    omega
  rw [h.receive_eq, if_pos ⟨hfit, ⟨later, hflight.symm⟩, gives_up_bytes side [b]⟩, hflight]
  rfl

/-- Every packet has bytes. -/
theorem length_le_wireAll (queue : List WirePacket) : queue.length ≤ (wireAll queue).length := by
  induction queue with
  | nil => exact Nat.le_refl 0
  | cons q queue ih =>
    rw [wireAll, List.flatMap_cons, List.length_append, WirePacket.length_wire, packetHeaderSize,
      List.length_cons]
    rw [wireAll] at ih
    omega

/-- A packet that is not in the buffer as a whole has a byte in flight, and so has each one behind
    it. -/
theorem Carries.length_le (h : p.Carries side queue)
    (hcall : (Nxdb.takePacket p.recv).2 = none) : queue.length ≤ p.inFlight.length := by
  obtain ⟨-, hspec⟩ := takePacket_spec h.latched
  cases hqueue : queue with
  | nil => exact Nat.zero_le _
  | cons q later =>
    have hwf := (h.wf q (hqueue ▸ List.mem_cons_self)).1
    have hstream : p.recv.valid ++ p.inFlight = q.wire ++ wireAll later := by
      rw [h.stream, hqueue, wireAll, List.flatMap_cons]
      rfl
    have hnone : splitPacket p.recv.valid = none := by
      cases hsplit : splitPacket p.recv.valid with
      | none => rfl
      | some r =>
        rw [hsplit, hcall] at hspec
        exact absurd hspec.1.symm (Option.some_ne_none _)
    have hshort := splits_packet.lt_of_none hwf ⟨p.inFlight, hstream⟩ hnone
    have hrest := length_le_wireAll later
    have hlen := congrArg List.length hstream
    rw [List.length_append, List.length_append] at hlen
    rw [List.length_cons]
    omega

/-- **What an iteration with bytes does**: it takes the first packet or none, and a byte at least. -/
theorem Carries.receiveBytes (h : p.Carries side queue) {bs : List UInt8} {p' : Pipe}
    (hstep : p.receiveBytes side bs = some p') :
    ∃ rest, p'.Carries side rest ∧ queue.length ≤ rest.length + 1 ∧
      p'.inFlight.length + 1 ≤ p.inFlight.length := by
  obtain ⟨⟨p₁, call⟩, hreceive, rfl⟩ := Option.map_eq_some_iff.mp hstep
  obtain ⟨rest, hqueue, h'⟩ := h.receive hreceive
  refine ⟨rest, h', ?_, ?_⟩
  · rw [hqueue, List.length_append, List.length_map]
    cases call with
    | none => exact Nat.le_trans (Nat.le_of_eq (Nat.zero_add _)) (Nat.le_succ _)
    | some call =>
      rw [Option.toList_some, List.length_singleton]
      omega
  · rw [h.receive_eq] at hreceive
    split at hreceive
    next hif =>
      obtain ⟨⟨hne, -⟩, ⟨later, hlater⟩, -⟩ := hif
      rw [Option.some.injEq, Prod.mk.injEq] at hreceive
      rw [← hreceive.1]
      have hpos := List.length_pos_iff.mpr hne
      have hlen := congrArg List.length hlater
      rw [List.length_append] at hlen
      show (p.inFlight.drop bs.length).length + 1 ≤ p.inFlight.length
      rw [List.length_drop]
      replace hlen : bs.length + later.length = p.inFlight.length := hlen
      omega
    next => exact absurd hreceive (Option.some_ne_none _).symm

/-- With one packet more than bytes in flight, or fewer, one byte after the other leads to the last
    packet. -/
theorem Carries.reaches_last (inFlight : List UInt8) : ∀ {p : Pipe} {queue : List WirePacket},
    p.inFlight = inFlight → p.Carries side queue → queue.length ≤ inFlight.length + 1 →
      ∃ pieces p', run (Pipe.receiveBytes side) p pieces = some p' ∧ p'.LastPacket := by
  induction inFlight with
  | nil =>
    intro p queue hflight h hlen
    refine ⟨[], p, rfl, hflight, ?_⟩
    obtain ⟨rest, hqueue, hvalid, -⟩ := h.takePacket
    have hrest : rest = [] := by
      cases hcall : (Nxdb.takePacket p.recv).2 with
      | none =>
        have hnone := h.length_le hcall
        rw [hflight, List.length_nil] at hnone
        have hall := congrArg List.length hqueue
        rw [List.length_append] at hall
        exact List.length_eq_zero_iff.mp (by omega)
      | some call =>
        rw [hcall] at hqueue
        have hall := congrArg List.length hqueue
        rw [List.length_append, List.length_map, Option.toList_some, List.length_singleton] at hall
        rw [List.length_nil] at hlen
        exact List.length_eq_zero_iff.mp (by omega)
    rw [hrest, hflight, List.append_nil] at hvalid
    have hsize := congrArg List.length hvalid
    rwa [RecvState.length_valid] at hsize
  | cons b later ih =>
    intro p queue hflight h hlen
    have hreceive := h.receive_byte hflight
    obtain ⟨rest, hqueue, h'⟩ := h.receive hreceive
    have hrest : rest.length ≤ later.length + 1 := by
      have hall := congrArg List.length hqueue
      rw [List.length_append, List.length_map] at hall
      cases hcall : (Nxdb.takePacket p.recv).2 with
      | none =>
        -- nothing is handled, but then a byte of every packet is still in flight
        have hnone := h.length_le hcall
        rw [hflight, List.length_cons] at hnone
        omega
      | some call =>
        rw [hcall, Option.toList_some, List.length_singleton] at hall
        rw [List.length_cons] at hlen
        omega
    obtain ⟨pieces, p', hrun, hlast⟩ := ih rfl h' hrest
    refine ⟨[b] :: pieces, p', run_cons.mpr ⟨_, ?_, hrun⟩, hlast⟩
    rw [Pipe.receiveBytes, hreceive, Option.map_some]

/-- **A socket that blocks.**  Where `recv` returns with bytes or not at all, the receiver can come to
    handle all packets of the queue iff there is at most one more than bytes in flight. -/
theorem Carries.blocking_iff (h : p.Carries side queue) :
    (∃ pieces p', run (Pipe.receiveBytes side) p pieces = some p' ∧ p'.LastPacket) ↔
      queue.length ≤ p.inFlight.length + 1 := by
  constructor
  · rintro ⟨pieces, p', hrun, hlast⟩
    -- with each piece the queue gets shorter by no more than the bytes do
    induction pieces generalizing p queue with
    | nil =>
      cases Option.some.inj hrun
      obtain ⟨hflight, hsize⟩ := hlast
      obtain ⟨rest, hqueue, hvalid, -⟩ := h.takePacket
      have hlen := congrArg List.length hvalid
      rw [List.length_append, RecvState.length_valid, hsize, hflight, List.length_nil] at hlen
      have hrest := length_le_wireAll rest
      have hall := congrArg List.length hqueue
      rw [List.length_append, List.length_map] at hall
      have hone := Option.length_toList_le (o := (Nxdb.takePacket p'.recv).2)
      omega
    | cons bs pieces ih =>
      obtain ⟨p₁, hstep, hrest⟩ := run_cons.mp hrun
      obtain ⟨rest, h', hqueue, hflight⟩ := h.receiveBytes hstep
      have hle := ih h' hrest
      omega
  · exact h.reaches_last p.inFlight rfl

end Pipe

end Nxdb
