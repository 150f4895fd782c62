/-
  The desktop across connections.

  When `recv` or a send fails, `mState` becomes `State_NoSocket`, the iteration goes on to its end,
  and the following ones call `start` until there is a new connection.  Neither `start` nor `run`
  touches `mBuffer`, `mBufferSize` and what is latched, so what the lost connection left there
  stands in front of the new one's bytes: `Client.Inv`.  `reconnect_clean`: in a run in which
  nothing is left whenever `start` succeeds, the packets handled on each connection are the first
  ones of its own stream.
-/
import Nxdb.Receive
import Nxdb.Send

namespace Nxdb

open Lib

/-! ## The code -/

/-- `Client::State` of the desktop. -/
inductive State where
  | noSocket
  | connecting
  | connected
deriving DecidableEq

/-- A call of `sendPacketImpl`: its arguments, and what `write` and `send` return. -/
structure Sending where
  type : PacketType
  buffer : List UInt8
  rets : List SendResult

/-- The state after `sendPacketImpl`. -/
def Sending.mState (p : Sending) (mState : State) : Option State :=
  (Desktop.sendPacketImpl p.type p.buffer p.rets).map fun calls =>
    if calls.any (fun c => decide (c.result = .failed)) then .noSocket else mState

/-- Sends one after the other; the first that fails sets `mState`, and the others run all the
    same. -/
def sendAll : State → List Sending → Option State
  | mState, [] => some mState
  | mState, p :: ps => (p.mState mState).bind fun mState => sendAll mState ps

/-- The desktop's `Client`, and what is known of the connection it is on: the bytes that were in the
    buffer when it was established, the bytes received on it, and the packets handled since. -/
structure Client where
  recv : RecvState
  mState : State
  mHasSentHello : Bool
  left : List UInt8
  got : List UInt8
  calls : List WirePacket

/-- One turn of the loop of `run`: `start`, which succeeds or not, or an iteration, with the results
    for the `Hello`, the other packets it sends, and the result of `recv`. -/
inductive Turn where
  | start (connected : Bool)
  | iterate (hello : List SendResult) (others : List Sending) (rem : RecvResult)

namespace Client

/-- No connection yet, and the buffer filled with zeros. -/
def init : Client := ⟨RecvState.init fun _ => 0, .noSocket, false, [], [], []⟩

/-- The branch of `run` for `State_NoSocket`. -/
def start (s : Client) (connected : Bool) : Client :=
  if connected then ⟨s.recv, .connecting, false, s.recv.valid, [], []⟩
  else { s with mHasSentHello := false }

/-- The packets an iteration sends. -/
def sends (s : Client) (hello : List SendResult) (others : List Sending) : List Sending :=
  if s.mHasSentHello then others else ⟨.hello, le 4 0, hello⟩ :: others

/-- The rest of the loop body: the packets are sent, then the receive step runs, also if a send has
    failed. -/
def iterate (s : Client) (hello : List SendResult) (others : List Sending) (rem : RecvResult) :
    Option Client :=
  (sendAll s.mState (s.sends hello others)).bind fun mState =>
    let it := Desktop.receiveStep s.recv rem
    if it.Fits Desktop.bufferSize rem then
      some ⟨it.state, if it.lost then .noSocket else mState, true, s.left, s.got ++ it.stored,
        s.calls ++ it.call.toList.map Call.packet⟩
    else none

/-- A turn of the loop in `Client::run`; it is `start` exactly when there is no socket. -/
def step (s : Client) : Turn → Option Client
  | .start connected => if s.mState = .noSocket then some (s.start connected) else none
  | .iterate hello others rem =>
    if s.mState = .noSocket then none else s.iterate hello others rem

/-! ## What is parsed on a connection -/

/-- The client seen as one connection that delivered what was left first. -/
def conn (s : Client) : Conn := ⟨s.recv, s.calls, s.left ++ s.got, false⟩

/-- The packets handled since the connection was established, and the valid bytes, make up what was
    left and what was received. -/
def Inv (s : Client) : Prop := s.conn.Inv .desktop

/-- The invariant at the start of the program. -/
theorem inv_init : init.Inv := Conn.inv_init .desktop fun _ => 0

/-- A new connection keeps it: the bytes that are left in the buffer stand before those it brings. -/
theorem Inv.start {s : Client} (h : s.Inv) (connected : Bool) : (s.start connected).Inv := by
  cases connected with
  | false => exact ⟨h.latched, h.fits, h.stream, h.wf⟩
  | true =>
    refine ⟨h.latched, h.fits, ?_, fun _ hp => absurd hp List.not_mem_nil⟩
    show [] ++ s.recv.valid = s.recv.valid ++ []
    rw [List.nil_append, List.append_nil]

/-- An iteration does to the connection what one receive step does. -/
theorem iterate_conn {s s' : Client} {hello : List SendResult} {others : List Sending}
    {rem : RecvResult} (h : s.iterate hello others rem = some s') :
    s'.left = s.left ∧
      ∃ lost, Side.desktop.step s.conn rem = some ⟨s'.recv, s'.calls, s'.left ++ s'.got, lost⟩ := by
  obtain ⟨mState, -, hit⟩ := Option.bind_eq_some_iff.mp h
  dsimp only at hit
  split at hit
  next hfits =>
    cases hit
    refine ⟨rfl, (Desktop.receiveStep s.recv rem).lost, ?_⟩
    rw [← List.append_assoc]
    exact if_pos ⟨rfl, hfits⟩
  next => exact absurd hit (Option.some_ne_none s').symm

/-- What a turn does. -/
theorem step_cases {s s' : Client} {turn : Turn} (h : s.step turn = some s') :
    (∃ connected, turn = .start connected ∧ s' = s.start connected) ∨
      ∃ hello others rem, turn = .iterate hello others rem ∧
        s.iterate hello others rem = some s' := by
  cases turn with
  | start connected =>
    rw [step] at h
    split at h
    next => exact Or.inl ⟨connected, rfl, (Option.some.inj h).symm⟩
    next => exact absurd h (Option.some_ne_none s').symm
  | iterate hello others rem =>
    rw [step] at h
    split at h
    next => exact absurd h (Option.some_ne_none s').symm
    next => exact Or.inr ⟨hello, others, rem, rfl, h⟩

/-- **The step lemma.** -/
theorem Inv.step {s s' : Client} {turn : Turn} (h : s.Inv) (hstep : s.step turn = some s') :
    s'.Inv := by
  rcases step_cases hstep with ⟨connected, rfl, rfl⟩ | ⟨hello, others, rem, rfl, hit⟩
  · exact h.start connected
  · obtain ⟨-, lost, hconn⟩ := iterate_conn hit
    have hinv := Conn.Inv.step h hconn
    exact ⟨hinv.latched, hinv.fits, hinv.stream, hinv.wf⟩

end Client

/-- When `start` succeeds, no byte is left in the buffer. -/
def StartsEmpty (s : Client) : Turn → Prop
  | .start true => s.recv.mBufferSize = 0
  | _ => True

instance (s : Client) : ∀ turn : Turn, Decidable (StartsEmpty s turn)
  | .start true => inferInstanceAs (Decidable (s.recv.mBufferSize = 0))
  | .start false => isTrue trivial
  | .iterate .. => isTrue trivial

/-- Then nothing of an earlier connection is left on any. -/
theorem Client.left_step {s s' : Client} {turn : Turn} (hleft : s.left = [])
    (hstep : s.step turn = some s') (hempty : StartsEmpty s turn) : s'.left = [] := by
  rcases step_cases hstep with ⟨connected, rfl, rfl⟩ | ⟨hello, others, rem, rfl, hit⟩
  · cases connected with
    | false => exact hleft
    | true =>
      rw [StartsEmpty] at hempty
      show s.recv.valid = []
      rw [RecvState.valid, hempty]
      rfl
  · exact (iterate_conn hit).1.trans hleft

/-- **Reconnecting starts a clean stream.**  In every run, with any losses and any results of `recv`
    and of the sends, in which no byte is left in the buffer whenever `start` succeeds: if what was
    received on the connection is a prefix of a stream of packets, then the packets handled on it
    are the first ones of that stream. -/
theorem reconnect_clean (turns : List Turn) (s : Client)
    (hrun : run Client.step Client.init turns = some s)
    (hempty : Along Client.step (fun s turn _ => StartsEmpty s turn) Client.init turns)
    (ps : List WirePacket) (hps : ∀ p ∈ ps, p.Wf) (hgot : s.got <+: wireAll ps) :
    s.calls <+: ps := by
  have hboth : s.Inv ∧ s.left = [] :=
    Along.invariant (fun s => s.Inv ∧ s.left = [])
      (fun _ _ _ h hstep hq => ⟨h.1.step hstep, Client.left_step h.2 hstep hq⟩)
      turns ⟨Client.inv_init, rfl⟩ hempty hrun
  obtain ⟨hinv, hleft⟩ := hboth
  have hprefix : s.conn.got <+: wireAll ps := by
    show s.left ++ s.got <+: wireAll ps
    rw [hleft]
    exact hgot
  obtain ⟨rest, hsplit, -⟩ := Conn.Inv.stream_prefix hinv hps hprefix
  exact ⟨rest, hsplit.symm⟩

/-- An iteration that sends nothing but the `Hello`, if it has not been sent. -/
def Turn.receive (rem : RecvResult) : Turn := .iterate [.accepted 8, .accepted 4] [] rem

/-- Two clipboard texts. -/
def hiText : WirePacket := ⟨PacketType.setClipboardText.code, [104, 105, 0]⟩

/-- A text of one letter. -/
def aText : WirePacket := ⟨PacketType.setClipboardText.code, [97, 0]⟩

/-- A connection is lost after its packet has been handled, and the next one brings another. -/
theorem reconnect_clean_handled : ∃ s,
    run Client.step Client.init [.start true, .receive (.bytes hiText.wire),
        .receive .error, .start false, .start true, .receive (.bytes aText.wire),
        .receive .wouldBlock] = some s ∧
      s.calls <+: [aText] := by
  have hgot : (run Client.step Client.init [.start true, .receive (.bytes hiText.wire),
      .receive .error, .start false, .start true, .receive (.bytes aText.wire),
      .receive .wouldBlock]).map Client.got = some (wireAll [aText]) := by
    decide +kernel
  obtain ⟨s, hrun, hs⟩ := Option.map_eq_some_iff.mp hgot
  exact ⟨s, hrun, reconnect_clean _ s hrun (by decide +kernel) [aText] (by decide)
    ⟨[], (List.append_nil _).trans hs⟩⟩

/-- A connection is lost behind the header of a packet; the size and the type stay latched, and the
    header of the next connection's packet is handled as the missing payload. -/
theorem reconnect_fails : ∃ s,
    run Client.step Client.init [.start true, .receive (.bytes (hiText.wire.take 8)),
        .receive .error, .start true, .receive (.bytes aText.wire), .receive .wouldBlock] =
      some s ∧
      s.got = wireAll [aText] ∧ s.calls = [⟨PacketType.setClipboardText.code, [2, 0, 0]⟩] ∧
      ¬ s.calls <+: [aText] := by
  have hall : (run Client.step Client.init [.start true,
      .receive (.bytes (hiText.wire.take 8)), .receive .error, .start true,
      .receive (.bytes aText.wire), .receive .wouldBlock]).map (fun s => (s.got, s.calls)) =
        some (wireAll [aText], [⟨PacketType.setClipboardText.code, [2, 0, 0]⟩]) := by
    decide +kernel
  obtain ⟨s, hrun, hs⟩ := Option.map_eq_some_iff.mp hall
  simp only [Prod.mk.injEq] at hs
  refine ⟨s, hrun, hs.1, hs.2, ?_⟩
  rw [hs.2]
  decide

end Nxdb
