/-
  `Hello` opens every connection of the desktop.

  `run` sends `Hello` when `mHasSentHello` is not set, and the flag is cleared in two places: by
  `start`, where it succeeds, and by `run`, where it finds `State_NoSocket`.  A send that fails, in a
  callback or in `handlePacket` as well as in `run` itself, sets `mState` and nothing else; the rest
  of the loop body goes on sending on the connection that is lost.  So the flag may be set with no
  connection, or with one that is lost, but on a connection that is not lost it says whether `Hello`
  was the first packet: `HelloRun.Inv`, and from it `hello_opens`.

  1. Program: `turn` is one call of `start` or one iteration of `run`, with all that may be sent in
     it, in order.
  2. Specification: `Opens`, for the packets sent on one connection.
  3. The crux is that a send that fails leaves the flag alone, so it may be set on a connection that
     is lost; `Inv` says what it means on one that is not, and `Opens` of what was sent on either.
-/
import Nxdb.Reconnect

namespace Nxdb

open Lib

/-! ## The code

  A turn is one round of the desktop's loop with all that is sent in it, by whoever, in the order of
  the calls.  What becomes of the packets on the way is not looked at here. -/

/-- What `start` returns: `1` where `socket` fails, `2` where `connect` does, `0` otherwise. -/
inductive StartResult where
  | socketFailed
  | connectFailed
  | connected
deriving DecidableEq

/-- The packets that are sent besides `Hello` and `Alive`: by `updateNetworkInput` and by the
    callbacks that `glfwPollEvents` runs, in a tick or while draw data is handled. -/
inductive InputPacket where
  | displaySize
  | cursorPos
  | clipboardText
  | mouseButton
  | mouseScroll
  | key
  | char
deriving DecidableEq

/-- The type of the packet. -/
def InputPacket.type : InputPacket → PacketType
  | displaySize => .updateDisplaySize
  | cursorPos => .updateMouse
  | clipboardText => .setClipboardText
  | mouseButton => .updateMouse
  | mouseScroll => .updateMouse
  | key => .updateKey
  | char => .updateChar

/-- A call of `sendPacket` for one of them. -/
structure InputSending where
  packet : InputPacket
  buffer : List UInt8
  rets : List SendResult

/-- The calls for a packet of the user's. -/
def InputSending.sending (p : InputSending) : Sending := ⟨p.packet.type, p.buffer, p.rets⟩

/-- One turn of the loop: `start`, or the loop body with the results of sending `Hello` (if it is
    sent) and `Alive` (if its timer has run out), the packets of a tick, those sent while a packet is
    handled, and the result of `recv`. -/
inductive HelloTurn where
  | start (result : StartResult)
  | iterate (hello : List SendResult) (alive : Option (List SendResult))
      (ticked handled : List InputSending) (rem : RecvResult)

namespace HelloTurn

/-- The packets besides `Hello`, in order. -/
def others (alive : Option (List SendResult)) (ticked handled : List InputSending) : List Sending :=
  alive.toList.map (fun rets => ⟨.alive, le 4 0, rets⟩) ++ ticked.map InputSending.sending ++
    handled.map InputSending.sending

/-- The turn as one of the desktop. -/
def turn : HelloTurn → Turn
  | start result => .start (decide (result = .connected))
  | iterate hello alive ticked handled rem => .iterate hello (others alive ticked handled) rem

end HelloTurn

/-- The desktop, and the types of the packets handed to `sendPacketImpl`: on the connection it is on
    or has lost last, and on each one before. -/
structure HelloRun where
  client : Client
  sent : List PacketType
  past : List (List PacketType)

namespace HelloRun

/-- Where the constructor calls `start`. -/
def init : HelloRun := ⟨Client.init, [], []⟩

/-- One turn, and the packets it hands to `sendPacketImpl`. -/
def step (s : HelloRun) (t : HelloTurn) : Option HelloRun :=
  (s.client.step t.turn).map fun client =>
    match t with
    | .start result =>
      if result = .connected then ⟨client, [], s.past ++ [s.sent]⟩ else { s with client }
    | .iterate hello alive ticked handled _ =>
      { s with
        client
        sent := s.sent ++
          (s.client.sends hello (HelloTurn.others alive ticked handled)).map Sending.type }

/-! ## The law and its invariant

  The law is about the list of types handed to `sendPacketImpl` on a connection.  `Hello` is first
  among the packets of an iteration, and no other packet is one, so the flag decides: set, and there
  is a `Hello` in front already; not set, and nothing has been sent. -/

/-- The first packet, if there is one, is `Hello`, and there is no other `Hello`. -/
structure Opens (sent : List PacketType) : Prop where
  first : ∀ type ∈ sent.head?, type = .hello
  once : sent.count .hello ≤ 1

/-- Every connection is opened by `Hello`, and `mHasSentHello` says of one that is not lost whether it
    has been sent. -/
structure Inv (s : HelloRun) : Prop where
  past : ∀ sent ∈ s.past, Opens sent
  opens : Opens s.sent
  unsent : s.client.mState ≠ .noSocket → s.client.mHasSentHello = false → s.sent = []
  hasSent : s.client.mState ≠ .noSocket → s.client.mHasSentHello = true →
    s.sent.head? = some .hello

theorem Opens.nil : Opens [] := ⟨fun _ h => absurd h (Option.some_ne_none _).symm, Nat.zero_le 1⟩

/-- No packet besides it is a `Hello`. -/
theorem hello_not_mem_others (alive : Option (List SendResult)) (ticked handled : List InputSending) :
    PacketType.hello ∉ (HelloTurn.others alive ticked handled).map Sending.type := by
  have hinput : ∀ ps : List InputSending, PacketType.hello ∉
      (ps.map InputSending.sending).map Sending.type := by
    intro ps hmem
    rw [List.map_map] at hmem
    obtain ⟨p, -, hp⟩ := List.mem_map.mp hmem
    have htype : p.packet.type = .hello := hp
    cases hpacket : p.packet with
    | _ => exact absurd (hpacket ▸ htype) (by decide)
  unfold HelloTurn.others
  rw [List.map_append, List.map_append, List.mem_append, List.mem_append]
  rintro ((halive | hticked) | hhandled)
  · rw [List.map_map] at halive
    obtain ⟨rets, -, hrets⟩ := List.mem_map.mp halive
    exact absurd hrets (by simp)
  · exact hinput ticked hticked
  · exact hinput handled hhandled

/-- Packets that are no `Hello`, behind one that opens the connection. -/
theorem Opens.append {sent more : List PacketType} (h : Opens sent)
    (hhead : sent.head? = some .hello) (hmore : PacketType.hello ∉ more) : Opens (sent ++ more) := by
  obtain ⟨type, rest, rfl⟩ := List.exists_cons_of_ne_nil (l := sent) (by rintro rfl; simp at hhead)
  refine ⟨h.first, ?_⟩
  rw [List.count_append, List.count_eq_zero.mpr hmore]
  exact h.once

/-- `Hello` in front of packets that are none. -/
theorem Opens.cons {more : List PacketType} (hmore : PacketType.hello ∉ more) :
    Opens (.hello :: more) := by
  refine ⟨fun type h => (Option.some.inj h).symm, ?_⟩
  rw [List.count_cons_self, List.count_eq_zero.mpr hmore]

/-- With `start` the connection is a new one, on which nothing has been sent, or there is none. -/
theorem Inv.start {s : HelloRun} (hs : s.Inv) (result : StartResult)
    (hstate : s.client.mState = .noSocket) : Inv
      (if result = .connected then
        ⟨s.client.start (decide (result = .connected)), [], s.past ++ [s.sent]⟩
      else { s with client := s.client.start (decide (result = .connected)) }) := by
  by_cases hconnected : result = .connected
  · rw [if_pos hconnected, decide_eq_true hconnected]
    refine ⟨fun sent hsent => ?_, Opens.nil, fun _ _ => rfl, fun _ h => Bool.noConfusion h⟩
    rcases List.mem_append.mp hsent with hsent | hsent
    · exact hs.past sent hsent
    · rw [List.mem_singleton.mp hsent]
      exact hs.opens
  · rw [if_neg hconnected, decide_eq_false hconnected]
    exact ⟨hs.past, hs.opens, fun hno => absurd hstate hno, fun hno => absurd hstate hno⟩

/-- What an iteration leaves of the flag. -/
theorem mHasSentHello_iterate {s s' : Client} {hello : List SendResult} {others : List Sending}
    {rem : RecvResult} (h : s.iterate hello others rem = some s') : s'.mHasSentHello = true := by
  obtain ⟨mState, -, hit⟩ := Option.bind_eq_some_iff.mp h
  dsimp only at hit
  split at hit
  next => exact (Option.some.inj hit) ▸ rfl
  next => exact absurd hit (Option.some_ne_none s').symm

/-- **One turn.** -/
theorem Inv.step {s s' : HelloRun} {t : HelloTurn} (hs : s.Inv) (h : s.step t = some s') : s'.Inv := by
  obtain ⟨client, hclient, rfl⟩ := Option.map_eq_some_iff.mp h
  cases t with
  | start result =>
    unfold Client.step HelloTurn.turn at hclient
    dsimp only at hclient
    split at hclient
    next hstate =>
      obtain rfl := Option.some.inj hclient
      exact hs.start result hstate
    next => exact absurd hclient (Option.some_ne_none client).symm
  | iterate hello alive ticked handled rem =>
    unfold Client.step HelloTurn.turn at hclient
    dsimp only at hclient ⊢
    split at hclient
    next => exact absurd hclient (Option.some_ne_none client).symm
    next hstate =>
      have hmore := hello_not_mem_others alive ticked handled
      have hflag := mHasSentHello_iterate hclient
      -- the connection is not lost yet, so the flag says whether `Hello` was sent on it
      have hsent : Opens (s.sent ++
          (s.client.sends hello (HelloTurn.others alive ticked handled)).map Sending.type) ∧
          (s.sent ++ (s.client.sends hello (HelloTurn.others alive ticked handled)).map
            Sending.type).head? = some .hello := by
        unfold Client.sends
        cases hhello : s.client.mHasSentHello with
        | true =>
          have hhead := hs.hasSent hstate hhello
          rw [if_pos rfl]
          refine ⟨hs.opens.append hhead hmore, ?_⟩
          rw [List.head?_append, hhead]
          rfl
        | false =>
          rw [hs.unsent hstate hhello, if_neg Bool.false_ne_true, List.nil_append, List.map_cons]
          exact ⟨Opens.cons hmore, rfl⟩
      refine ⟨hs.past, hsent.1, fun _ hno => ?_, fun _ _ => hsent.2⟩
      rw [hflag] at hno
      exact Bool.noConfusion hno

theorem Inv.init : HelloRun.init.Inv :=
  ⟨fun _ h => absurd h List.not_mem_nil, Opens.nil, fun h => absurd rfl h, fun h => absurd rfl h⟩

/-- **`Hello` opens every connection.**  In every run, with any failures of `socket`, `connect`,
    `write`, `send` and `recv` and any packets in between: on every connection the first packet that
    is handed to `sendPacketImpl` is `Hello`, and no other one is. -/
theorem hello_opens (ts : List HelloTurn) (s : HelloRun) (hrun : run step init ts = some s) :
    ∀ sent ∈ s.past ++ [s.sent], Opens sent := by
  have hs : s.Inv := run_invariant (fun _ _ _ h hstep => h.step hstep) ts Inv.init hrun
  intro sent hsent
  rcases List.mem_append.mp hsent with hsent | hsent
  · exact hs.past sent hsent
  · rw [List.mem_singleton.mp hsent]
    exact hs.opens

/-- `connect` fails; then there is a connection, which is lost when the key that is released in the
    first tick is sent; and then another one. -/
def lostOnce : List HelloTurn :=
  [.start .connectFailed, .start .connected,
    .iterate [.accepted 8, .accepted 4] none [⟨.key, [0, 0], [.accepted 8, .failed]⟩] []
      .wouldBlock,
    .start .socketFailed, .start .connected,
    .iterate [.accepted 8, .accepted 4] (some [.accepted 8, .accepted 4]) [] [] .wouldBlock]

theorem opens_lostOnce : ∃ s, run step init lostOnce = some s ∧
    s.past ++ [s.sent] = [[], [.hello, .updateKey], [.hello, .alive]] ∧
    ∀ sent ∈ s.past ++ [s.sent], Opens sent := by
  have hlog : (run step init lostOnce).map (fun s => s.past ++ [s.sent]) =
      some [[], [.hello, .updateKey], [.hello, .alive]] := by
    decide +kernel
  obtain ⟨s, hrun, hsent⟩ := Option.map_eq_some_iff.mp hlog
  exact ⟨s, hrun, hsent, hello_opens lostOnce s hrun⟩

end HelloRun

end Nxdb
