/-
  What the receivers wait for.

  Both sockets are created in blocking mode, so a `recv` with nothing to receive waits for the peer.

  * An iteration handles one packet and then calls `recv`, whatever is left in the buffer: a packet
    that came in the same piece as the one before it waits for the peer to send more.
    `no_waiting_iff`: this happens iff an iteration starts with a second complete packet.
  * The desktop ignores the `0` that `recv` returns at the end of the stream and for a buffer with
    no room.  `not_stuck_iff`: a state can get on iff a complete packet is in the buffer, or there
    is room in it and the stream has not ended.

  1. `NoneWaiting` and `AtMostOnePacket`: the property behind an iteration and the condition before
     it.
  2. `Link` adds to a connection whether the peer has closed it.  What can get on is `Progress`;
     `Dead` is what cannot: the buffer is full, or the stream has ended, and there is no packet in
     it.
  3. That a dead end stays one is an invariant (`Dead.step`), and that everything else gets on is
     by exhibiting what `recv` returns (`exists_progress`).
-/
import Nxdb.Receive

namespace Nxdb

open Lib

/-- The buffer contains a complete packet: a header and the payload it announces. -/
def RecvState.HoldsPacket (s : RecvState) : Prop :=
  packetHeaderSize ≤ s.mBufferSize ∧ s.readU32 0 + packetHeaderSize ≤ s.mBufferSize

instance (s : RecvState) : Decidable s.HoldsPacket := by
  unfold RecvState.HoldsPacket
  infer_instance

/-- A packet waits in the buffer exactly if one can be split off its bytes. -/
theorem holdsPacket_iff (s : RecvState) : s.HoldsPacket ↔ splitPacket s.valid ≠ none := by
  rw [RecvState.HoldsPacket, splitPacket, RecvState.length_valid]
  constructor
  · rintro ⟨hhead, hwhole⟩
    rw [RecvState.readU32_zero hhead] at hwhole
    rw [if_pos ⟨hhead, hwhole⟩]
    exact Option.some_ne_none _
  · intro h
    by_contra hno
    apply h
    rw [if_neg]
    rintro ⟨hhead, hwhole⟩
    rw [← RecvState.readU32_zero hhead] at hwhole
    exact hno ⟨hhead, hwhole⟩

/-! ## Packets that wait behind a `recv`

  What is in the buffer when `recv` is called is what the iteration began with, less the packet it
  has handled.  So a complete packet is there iff the iteration began with two. -/

/-- `recv` is not called while the buffer contains a complete packet. -/
def NoneWaiting (side : Side) (c : Conn) (rem : RecvResult) : Prop :=
  ∀ s, (side.iteration c.recv rem).atRecv = some s → ¬ s.HoldsPacket

/-- Behind the first packet in the buffer there is no second complete one. -/
def AtMostOnePacket (v : List UInt8) : Prop :=
  ∀ p rest, splitPacket v = some (p, rest) → splitPacket rest = none

/-- One iteration. -/
theorem Conn.Inv.noneWaiting_iff {side : Side} {c : Conn} (h : c.Inv side) (rem : RecvResult) :
    NoneWaiting side c rem ↔ AtMostOnePacket c.recv.valid := by
  obtain ⟨-, hspec⟩ := takePacket_spec h.latched
  have hat : (side.iteration c.recv rem).atRecv = some (Nxdb.takePacket c.recv).1 := by
    rw [iteration_eq side h.fits]
  have hwait : NoneWaiting side c rem ↔ splitPacket (Nxdb.takePacket c.recv).1.valid = none := by
    rw [NoneWaiting, hat]
    constructor
    · intro hnone
      by_contra hsome
      exact hnone _ rfl ((holdsPacket_iff _).mpr hsome)
    · intro hnone s hs
      rw [← Option.some.inj hs, holdsPacket_iff]
      exact fun hsome => hsome hnone
  -- `recv` is called behind the first packet, if there is one
  rw [hwait]
  cases hsplit : splitPacket c.recv.valid with
  | none =>
    rw [hsplit] at hspec
    rw [hspec.2]
    constructor
    · intro _ p rest hsome
      exact absurd (hsplit.symm.trans hsome) (Option.some_ne_none _).symm
    · exact fun _ => hsplit
  | some r =>
    obtain ⟨p, rest⟩ := r
    rw [hsplit] at hspec
    rw [hspec.2]
    constructor
    · intro hnone q rest' hsome
      rw [hsplit, Option.some.injEq, Prod.mk.injEq] at hsome
      rw [← hsome.2]
      exact hnone
    · exact fun hone => hone p rest hsplit

/-- **No complete packet waits behind a `recv`.**  For both receivers, on every byte stream and for
    all results of `recv`: no `recv` of the run is called with a complete packet in the buffer iff
    no iteration of the run starts with a second one. -/
theorem no_waiting_iff (side : Side) (mBuffer : Mem) (rems : List RecvResult) :
    Along side.step (fun c rem _ => NoneWaiting side c rem) (Conn.init mBuffer) rems ↔
      Along side.step (fun c _ _ => AtMostOnePacket c.recv.valid) (Conn.init mBuffer) rems :=
  along_iff (fun c _ => c.Inv side) (fun _ rem _ _ h _ => h.noneWaiting_iff rem)
    (fun _ _ _ _ h hstep _ => h.step hstep) rems (Conn.inv_init side mBuffer)

/-- Two `Alive` packets in one piece. -/
def twoAlive : List UInt8 := wireAll [⟨2, []⟩, ⟨2, []⟩]

/-- With both receivers, the second packet waits behind the second `recv`. -/
theorem no_waiting_fails :
    ¬ Along Side.sysmodule.step (fun c rem _ => NoneWaiting .sysmodule c rem)
        (Conn.init fun _ => 0) [.bytes twoAlive, .wouldBlock] ∧
      ¬ Along Side.desktop.step (fun c rem _ => NoneWaiting .desktop c rem)
        (Conn.init fun _ => 0) [.bytes twoAlive, .wouldBlock] := by
  have hwaits : ∀ side : Side, ((run side.step (Conn.init fun _ => 0) [.bytes twoAlive]).bind
      fun c => (side.iteration c.recv .wouldBlock).atRecv.map
        fun s => decide s.HoldsPacket) = some true := by
    intro side
    cases side with
    | sysmodule => decide +kernel
    | desktop => decide +kernel
  have hboth : ∀ side : Side, ¬ Along side.step (fun c rem _ => NoneWaiting side c rem)
      (Conn.init fun _ => 0) [.bytes twoAlive, .wouldBlock] := by
    intro side h
    obtain ⟨c, -, hrun, -, hnone⟩ := Along.last (i := RecvResult.wouldBlock)
      [RecvResult.bytes twoAlive] h
    have hside := hwaits side
    rw [hrun, Option.bind_some] at hside
    obtain ⟨s, hs, hholds⟩ := Option.map_eq_some_iff.mp hside
    exact hnone s hs (of_decide_eq_true hholds)
  exact ⟨hboth .sysmodule, hboth .desktop⟩

/-! ## Dead ends of the desktop

  A dead link has no packet to handle and no byte to come.  It stays dead, as `recv` can only return
  `0` on it, and nothing is done with that (`Link.Dead.stuck`).  On any other link some result of
  `recv` gets the loop on (`Link.exists_progress`).  The two together are `not_stuck_iff`. -/

/-- The desktop's connection, and whether `recv` has reported the end of the stream. -/
structure Link where
  conn : Conn
  ended : Bool

/-- A connection on which nothing has come yet. -/
def Link.init (mBuffer : Mem) : Link := ⟨Conn.init mBuffer, false⟩

/-- The room `recv` is offered in the next iteration. -/
def Link.room (l : Link) (rem : RecvResult) : Nat :=
  match (Desktop.receiveStep l.conn.recv rem).atRecv with
  | none => 0
  | some s => Desktop.bufferSize - s.mBufferSize

/-- One iteration.  With no room, and from the end of the stream on, `recv` returns `0`; with room,
    `0` says that the stream has ended. -/
def Link.step (l : Link) (rem : RecvResult) : Option Link :=
  if (l.room rem = 0 ∨ l.ended = true) ∧ rem ≠ .closed then none
  else (Side.desktop.step l.conn rem).map fun conn =>
    ⟨conn, l.ended || (decide (rem = .closed) && decide (0 < l.room rem))⟩

/-- The iteration stores a byte, handles a packet or sets `mState` to `State_NoSocket`. -/
def Link.Progress (l : Link) (rem : RecvResult) : Prop :=
  let it := Desktop.receiveStep l.conn.recv rem
  it.stored ≠ [] ∨ it.call ≠ none ∨ it.lost = true

/-- Whatever `recv` returns from here on, no iteration gets anywhere. -/
def Link.Stuck (l : Link) : Prop :=
  ∀ rems l₁ rem l₂, run Link.step l rems = some l₁ → l₁.step rem = some l₂ → ¬ l₁.Progress rem

/-- No packet to handle, and nothing more to receive. -/
structure Link.Dead (l : Link) : Prop where
  inv : l.conn.Inv .desktop
  none_whole : splitPacket l.conn.recv.valid = none
  no_more : Desktop.bufferSize ≤ l.conn.recv.mBufferSize ∨ l.ended = true

/-- The room, in terms of the packet that is taken first. -/
theorem Link.room_eq {l : Link} (h : l.conn.Inv .desktop) (rem : RecvResult) :
    l.room rem = Desktop.bufferSize - (takePacket l.conn.recv).1.mBufferSize := by
  have hit := iteration_eq .desktop h.fits rem
  replace hit : Desktop.receiveStep l.conn.recv rem = _ := hit
  rw [Link.room, hit]

/-- With nothing to handle, `recv` is called with the bytes that were there before. -/
theorem mBufferSize_takePacket {s : RecvState} (h : s.Latched) (hnone : splitPacket s.valid = none) :
    (takePacket s).1.mBufferSize = s.mBufferSize := by
  obtain ⟨-, hspec⟩ := takePacket_spec h
  rw [hnone] at hspec
  rw [← RecvState.length_valid, hspec.2, RecvState.length_valid]

/-- On a dead link `recv` can only return `0`. -/
theorem Link.Dead.closed {l l' : Link} {rem : RecvResult} (h : l.Dead)
    (hstep : l.step rem = some l') : rem = .closed := by
  by_contra hne
  have hnone : l.room rem = 0 ∨ l.ended = true := by
    rw [Link.room_eq h.inv, mBufferSize_takePacket h.inv.latched h.none_whole]
    rcases h.no_more with hfull | hended
    · left
      omega
    · exact Or.inr hended
  rw [Link.step, if_pos ⟨hnone, hne⟩] at hstep
  exact Option.some_ne_none l' hstep.symm

/-- A dead link stays dead. -/
theorem Link.Dead.step {l l' : Link} {rem : RecvResult} (h : l.Dead)
    (hstep : l.step rem = some l') : l'.Dead := by
  obtain rfl := h.closed hstep
  obtain ⟨-, hspec⟩ := takePacket_spec h.inv.latched
  rw [h.none_whole] at hspec
  rw [Link.step, if_neg fun hif => hif.2 rfl] at hstep
  obtain ⟨conn, hconn, rfl⟩ := Option.map_eq_some_iff.mp hstep
  have hinv := h.inv.step hconn
  rw [Side.step_eq h.inv] at hconn
  split at hconn
  next =>
    -- neither the valid bytes nor the room has changed
    cases hconn
    refine ⟨hinv, ?_, ?_⟩
    · show splitPacket (takePacket l.conn.recv).1.valid = none
      rw [hspec.2]
      exact h.none_whole
    · show Desktop.bufferSize ≤ (takePacket l.conn.recv).1.mBufferSize ∨ _
      rw [mBufferSize_takePacket h.inv.latched h.none_whole]
      rcases h.no_more with hfull | hended
      · exact Or.inl hfull
      · right
        show (l.ended || _) = true
        rw [hended, Bool.true_or]
  next => exact absurd hconn (Option.some_ne_none conn).symm

/-- And it gets nowhere. -/
theorem Link.Dead.no_progress {l l' : Link} {rem : RecvResult} (h : l.Dead)
    (hstep : l.step rem = some l') : ¬ l.Progress rem := by
  obtain rfl := h.closed hstep
  obtain ⟨-, hspec⟩ := takePacket_spec h.inv.latched
  rw [h.none_whole] at hspec
  have hit : Desktop.receiveStep l.conn.recv .closed = _ :=
    iteration_eq .desktop h.inv.fits .closed
  rw [Link.Progress, hit, hspec.1]
  rintro (hstored | hcall | hlost)
  · exact hstored rfl
  · exact hcall rfl
  · exact Bool.false_ne_true hlost

/-- A dead link is stuck. -/
theorem Link.Dead.stuck {l : Link} (h : l.Dead) : l.Stuck := by
  intro rems l₁ rem l₂ hrun hstep
  have hdead : l₁.Dead := run_invariant (fun _ _ _ hd hs => Link.Dead.step hd hs) rems h hrun
  exact hdead.no_progress hstep

/-- The invariant of the connection, along the runs of the link. -/
theorem Link.inv_run {l l' : Link} {rems : List RecvResult} (h : l.conn.Inv .desktop)
    (hrun : run Link.step l rems = some l') : l'.conn.Inv .desktop := by
  have hone : ∀ (l : Link) (rem : RecvResult) (l' : Link), l.conn.Inv .desktop →
      l.step rem = some l' → l'.conn.Inv .desktop := by
    intro l rem l' hl hstep
    rw [Link.step] at hstep
    split at hstep
    next => exact absurd hstep (Option.some_ne_none l').symm
    next =>
      obtain ⟨conn, hconn, rfl⟩ := Option.map_eq_some_iff.mp hstep
      exact hl.step hconn
  exact run_invariant hone rems h hrun

/-- With a packet to handle, or with room on a stream that has not ended, some result of `recv`
    gets the loop on. -/
theorem Link.exists_progress {l : Link} (hinv : l.conn.Inv .desktop) (hstate : l.conn.lost = false)
    (hgo : splitPacket l.conn.recv.valid ≠ none ∨
      (l.conn.recv.mBufferSize < Desktop.bufferSize ∧ l.ended = false)) :
    ∃ rem l', l.step rem = some l' ∧ l.Progress rem := by
  obtain ⟨-, hspec⟩ := takePacket_spec hinv.latched
  obtain ⟨rem, hallowed, hfits, hprogress⟩ : ∃ rem : RecvResult,
      ((l.room rem = 0 ∨ l.ended = true) → rem = .closed) ∧
      rem.Fits (Desktop.bufferSize - (takePacket l.conn.recv).1.mBufferSize) ∧
      (rem.data ≠ [] ∨ (takePacket l.conn.recv).2 ≠ none) := by
    cases hsplit : splitPacket l.conn.recv.valid with
    | some r =>
      -- the packet is handled, whatever `recv` returns
      obtain ⟨p, rest⟩ := r
      rw [hsplit] at hspec
      obtain ⟨call, hcall, -⟩ := Option.map_eq_some_iff.mp hspec.1
      exact ⟨.closed, fun _ => rfl, trivial, Or.inr (by rw [hcall]; exact Option.some_ne_none _)⟩
    | none =>
      -- one byte arrives
      obtain ⟨hroom, hended⟩ := hgo.resolve_left fun hsome => hsome hsplit
      have hsize := mBufferSize_takePacket hinv.latched hsplit
      refine ⟨.bytes [0], ?_, ⟨List.cons_ne_nil _ _, ?_⟩, Or.inl (List.cons_ne_nil _ _)⟩
      · rw [Link.room_eq hinv, hsize, hended]
        rintro (hfull | hend)
        · omega
        · exact absurd hend Bool.false_ne_true
      · rw [hsize]
        show 1 ≤ _
        omega
  have hconn := Side.step_eq hinv rem
  rw [if_pos ⟨hstate, hfits⟩] at hconn
  have hit : Desktop.receiveStep l.conn.recv rem = _ := iteration_eq .desktop hinv.fits rem
  obtain ⟨l', hstep⟩ : ∃ l', l.step rem = some l' := by
    rw [Link.step, if_neg fun hif => hif.2 (hallowed hif.1), hconn]
    exact ⟨_, rfl⟩
  refine ⟨rem, l', hstep, ?_⟩
  rw [Link.Progress, hit]
  rcases hprogress with hdata | hcall
  · exact Or.inl hdata
  · exact Or.inr (Or.inl hcall)

/-- The first bytes of a connection. -/
theorem Link.run_bytes (mBuffer : Mem) {bs : List UInt8} (hne : bs ≠ [])
    (hlen : bs.length ≤ Desktop.bufferSize) :
    run Link.step (Link.init mBuffer) [.bytes bs] =
      some ⟨⟨(RecvState.init mBuffer).append bs, [], bs, false⟩, false⟩ := by
  have hinv := Conn.inv_init .desktop mBuffer
  have hconn := Side.step_eq hinv (.bytes bs)
  have hfits : RecvResult.Fits (Desktop.bufferSize - 0) (.bytes bs) := ⟨hne, hlen⟩
  rw [if_pos ⟨rfl, hfits⟩] at hconn
  have hempty : (takePacket (Link.init mBuffer).conn.recv).1.mBufferSize = 0 := rfl
  have hroom : ¬ ((Link.init mBuffer).room (.bytes bs) = 0 ∨ (Link.init mBuffer).ended = true) := by
    rw [Link.room_eq hinv, hempty]
    rintro (hfull | hend)
    · exact absurd hfull (by decide)
    · exact Bool.false_ne_true hend
  have hstep : (Link.init mBuffer).step (.bytes bs) =
      some ⟨⟨(RecvState.init mBuffer).append bs, [], bs, false⟩, false⟩ := by
    rw [Link.step, if_neg fun hif => hroom hif.1]
    show Option.map _ (Side.desktop.step (Conn.init mBuffer) _) = _
    rw [hconn]
    rfl
  exact run_cons.mpr ⟨_, hstep, rfl⟩

/-- **The desktop's receive loop and its dead ends.**  A state with `mState` other than
    `State_NoSocket`, reached on any byte stream and with any results of `recv`, is not stuck iff
    the buffer contains a complete packet, or it has room and the stream has not ended. -/
theorem not_stuck_iff (mBuffer : Mem) (rems : List RecvResult) (l : Link)
    (hrun : run Link.step (Link.init mBuffer) rems = some l) (hstate : l.conn.lost = false) :
    ¬ l.Stuck ↔ l.conn.recv.HoldsPacket ∨
      (l.conn.recv.mBufferSize < Desktop.bufferSize ∧ l.ended = false) := by
  have hinv : l.conn.Inv .desktop := Link.inv_run (Conn.inv_init .desktop mBuffer) hrun
  rw [holdsPacket_iff]
  constructor
  · intro hstuck
    by_contra hno
    apply hstuck
    refine Link.Dead.stuck ⟨hinv, ?_, ?_⟩
    · by_contra hsome
      exact hno (Or.inl hsome)
    · by_contra hmore
      rw [not_or, Nat.not_le, Bool.not_eq_true] at hmore
      exact hno (Or.inr hmore)
  · intro hgo hstuck
    obtain ⟨rem, l', hstep, hprogress⟩ := Link.exists_progress hinv hstate hgo
    exact hstuck [] l rem l' rfl hstep hprogress

/-- Half of a header length in the buffer, and two whole packets in it: there is a way on. -/
theorem not_stuck_buffered :
    (∃ l, run Link.step (Link.init fun _ => 0) [.bytes [5, 0]] = some l ∧
      l.conn.recv.mBufferSize = 2 ∧ ¬ l.Stuck) ∧
    (∃ l, run Link.step (Link.init fun _ => 0) [.bytes twoAlive] = some l ∧
      l.conn.recv.HoldsPacket ∧ ¬ l.Stuck) := by
  have hpart := @Link.run_bytes (fun _ => 0) [5, 0] (List.cons_ne_nil _ _) (by decide)
  have htwo := @Link.run_bytes (fun _ => 0) twoAlive (List.cons_ne_nil _ _) (by decide)
  have hholds : ((RecvState.init fun _ => 0).append twoAlive).HoldsPacket := by decide +kernel
  constructor
  · have hroom : ((RecvState.init fun _ => 0).append [5, 0]).mBufferSize < Desktop.bufferSize := by
      decide
    exact ⟨_, hpart, rfl,
      (not_stuck_iff (fun _ => 0) [.bytes [5, 0]] _ hpart rfl).mpr (Or.inr ⟨hroom, rfl⟩)⟩
  · exact ⟨_, htwo, hholds,
      (not_stuck_iff (fun _ => 0) [.bytes twoAlive] _ htwo rfl).mpr (Or.inl hholds)⟩

/-- A header that announces 4 GiB, and a buffer full of what follows. -/
def oversized : List UInt8 := List.replicate Desktop.bufferSize 255

/-- Nothing can be split off: the packet that is announced is larger than the buffer. -/
theorem splitPacket_oversized : splitPacket oversized = none := by
  have hsize : headerSize oversized = 4294967295 := by
    rw [headerSize, oversized, List.take_replicate]
    rfl
  rw [splitPacket, if_neg]
  rintro ⟨-, hwhole⟩
  rw [hsize, oversized, List.length_replicate] at hwhole
  exact absurd hwhole (by decide)

/-- The end of the stream is a dead end, and so is a packet larger than the buffer. -/
theorem not_stuck_fails :
    (∃ l, run Link.step (Link.init fun _ => 0) [.closed] = some l ∧ l.conn.lost = false ∧
      l.Stuck) ∧
    ∃ l, run Link.step (Link.init fun _ => 0) [.bytes oversized] = some l ∧ l.conn.lost = false ∧
      l.Stuck := by
  have hinit : (Link.init fun _ => 0).conn.Inv .desktop := Conn.inv_init .desktop _
  constructor
  · have hall : (run Link.step (Link.init fun _ => 0) [.closed]).map
        (fun l => (l.conn.lost, l.conn.recv.valid, l.ended)) = some (false, [], true) := by
      decide +kernel
    obtain ⟨l, hrun, hl⟩ := Option.map_eq_some_iff.mp hall
    simp only [Prod.mk.injEq] at hl
    refine ⟨l, hrun, hl.1, Link.Dead.stuck ⟨Link.inv_run hinit hrun, ?_, Or.inr hl.2.2⟩⟩
    rw [hl.2.1]
    exact splits_packet.split_nil
  · have hlen : oversized.length = Desktop.bufferSize := List.length_replicate
    have hne : oversized ≠ [] := by
      intro hnil
      rw [hnil] at hlen
      exact absurd hlen (by decide)
    have hrun := Link.run_bytes (fun _ => 0) hne (Nat.le_of_eq hlen)
    have hvalid : ((RecvState.init fun _ => 0).append oversized).valid = oversized := by
      rw [RecvState.valid_append]
      rfl
    have hsize : ((RecvState.init fun _ => 0).append oversized).mBufferSize =
        Desktop.bufferSize := by
      rw [← RecvState.length_valid, hvalid, hlen]
    refine ⟨_, hrun, rfl, Link.Dead.stuck ⟨Link.inv_run hinit hrun, ?_, Or.inl ?_⟩⟩
    · exact (congrArg splitPacket hvalid).trans splitPacket_oversized
    · exact Nat.le_of_eq hsize.symm

end Nxdb
