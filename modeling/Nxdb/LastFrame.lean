/-
  What a client comes to show.

  A client's `recv` blocks, and lets one packet through each time it returns; so a client that the
  sysmodule sends nothing more can come to the end of what is on its way iff that are not more packets
  than bytes in flight, but for one (`catchUp_iff`).

  What a client shows with nothing on its way to it is the last frame that was packed (`shows_last`),
  list by list: if it was there before the first frame, if no frame has fewer lists than the one
  before, and if the hashes tell the lists apart from each other and from an empty slot of the table.
-/
import Nxdb.ByteSystem
import Nxdb.LateJoin

namespace Nxdb

open Lib Hash Sysmodule.Raw

/-! ## Catching up

  An iteration with bytes is one of the pipe to the client (`Downward.iterate_iff`), and `Pipe` says
  how far those lead.  So the answer is about the numbers of packets and of bytes alone. -/

theorem Peer.down_handled (atlas : FontAtlas) (texId : Nat) (b : Peer) (pipe : Pipe)
    (next : Option ServerPacket) : (b.handled atlas texId pipe next).down = pipe := by
  cases next with
  | none => rfl
  | some p =>
    cases p with
    | drawData p => rfl
    | fontTexture => rfl
    | clipboardText text =>
      show ({ b with down := pipe }.apply (.clipboardString text.bytes)).down = pipe
      rw [apply]
      split
      · rfl
      · rfl

namespace ByteSystem

variable {E : Setup} {s : ByteSystem}

/-- Iterations of the client's loop in which `recv` brings bytes. -/
def bringing (i texId : Nat) (pieces : List (List UInt8)) : List ByteEvent :=
  pieces.map fun bs => .iterate i (.bytes bs) texId

/-- Client `i` carries packets, with this pipe to it. -/
def Downward (E : Setup) (i : Nat) (s : ByteSystem) (p : Pipe) : Prop :=
  ∃ b up down, s.mClients[i]? = some b ∧ b.Carries E.atlas up down ∧ b.down = p

/-- An iteration with bytes is one of the pipe, and the other way round. -/
theorem Downward.iterate_iff {i : Nat} {p : Pipe} (h : Downward E i s p) (texId : Nat)
    (bs : List UInt8) :
    (∀ s', s.step E (.iterate i (.bytes bs) texId) = some s' →
      ∃ p', p.receiveBytes .desktop bs = some p' ∧ Downward E i s' p') ∧
    (∀ p', p.receiveBytes .desktop bs = some p' →
      ∃ s', s.step E (.iterate i (.bytes bs) texId) = some s' ∧ Downward E i s' p') := by
  obtain ⟨b, up, down, hb, hcarries, rfl⟩ := h
  obtain ⟨hi, -⟩ := List.getElem?_eq_some_iff.mp hb
  have hstep : s.step E (.iterate i (.bytes bs) texId) =
      (b.iterate E.gl E.behind (.bytes bs) texId).bind fun b' => some (s.setClient i b') := by
    rw [step, hb]
    rfl
  cases hreceive : b.down.receive .desktop (.bytes bs) with
  | none =>
    have hiterate : b.iterate E.gl E.behind (.bytes bs) texId = none := by
      rw [Peer.iterate, hreceive]
      rfl
    rw [hstep, hiterate, Pipe.receiveBytes, hreceive]
    exact ⟨fun s' hs' => absurd hs' (Option.some_ne_none s').symm,
      fun p' hp' => absurd hp' (Option.some_ne_none p').symm⟩
  | some r =>
    obtain ⟨pipe, call⟩ := r
    obtain ⟨next, later, -, -, hiterate, hb'⟩ := hcarries.iterate E.taken E.behind texId hreceive
    have hdownward : Downward E i (s.setClient i (b.handled E.atlas texId pipe next)) pipe :=
      ⟨_, up, later, List.getElem?_set_self hi, hb', Peer.down_handled E.atlas texId b pipe next⟩
    rw [hstep, hiterate, Pipe.receiveBytes, hreceive]
    constructor
    · intro s' hs'
      cases Option.some.inj hs'
      exact ⟨pipe, rfl, hdownward⟩
    · intro p' hp'
      cases Option.some.inj hp'
      exact ⟨_, rfl, hdownward⟩

/-- Iterations with bytes lead to the last packet iff the pipe's do. -/
theorem Downward.last_iff {i : Nat} (texId : Nat) (pieces : List (List UInt8)) :
    ∀ {s : ByteSystem} {p : Pipe}, Downward E i s p →
      ((∃ s' b', run (step E) s (bringing i texId pieces) = some s' ∧
          s'.mClients[i]? = some b' ∧ b'.down.LastPacket) ↔
        ∃ p', run (Pipe.receiveBytes .desktop) p pieces = some p' ∧ p'.LastPacket) := by
  induction pieces with
  | nil =>
    rintro s p ⟨b, up, down, hb, -, rfl⟩
    constructor
    · rintro ⟨s', b', hrun, hb', hlast⟩
      cases Option.some.inj hrun
      cases Option.some.inj (hb.symm.trans hb')
      exact ⟨b.down, rfl, hlast⟩
    · rintro ⟨p', hrun, hlast⟩
      cases Option.some.inj hrun
      exact ⟨s, b, rfl, hb, hlast⟩
  | cons bs pieces ih =>
    intro s p h
    obtain ⟨hto, hfrom⟩ := h.iterate_iff texId bs
    constructor
    · rintro ⟨s', b', hrun, hb', hlast⟩
      obtain ⟨s₁, hs₁, hrest⟩ := run_cons.mp hrun
      obtain ⟨p₁, hp₁, h₁⟩ := hto s₁ hs₁
      obtain ⟨p', hp', hlast'⟩ := (ih h₁).mp ⟨s', b', hrest, hb', hlast⟩
      exact ⟨p', run_cons.mpr ⟨p₁, hp₁, hp'⟩, hlast'⟩
    · rintro ⟨p', hrun, hlast⟩
      obtain ⟨p₁, hp₁, hrest⟩ := run_cons.mp hrun
      obtain ⟨s₁, hs₁, h₁⟩ := hfrom p₁ hp₁
      obtain ⟨s', b', hs', hb', hlast'⟩ := (ih h₁).mpr ⟨p', hrest, hlast⟩
      exact ⟨s', b', run_cons.mpr ⟨s₁, hs₁, hs'⟩, hb', hlast'⟩

/-- **Catching up with a `recv` that blocks.**  In every state of every run, for every client:
    iterations of its loop, in each of which `recv` brings bytes, can lead to where the next one
    handles the last packet on its way, iff these packets are at most one more than the bytes in
    flight. -/
theorem catchUp_iff (E : Setup) (events : List ByteEvent) (s : ByteSystem)
    (hrun : run (step E) init events = some s) (i : Nat) (b : Peer) (hb : s.mClients[i]? = some b)
    (texId : Nat) :
    ∃ up down, b.Carries E.atlas up down ∧
      ((∃ pieces s' b', run (step E) s (bringing i texId pieces) = some s' ∧
          s'.mClients[i]? = some b' ∧ b'.down.LastPacket) ↔
        down.length ≤ b.down.inFlight.length + 1) := by
  obtain ⟨-, t, -, -, href⟩ := (simulates E).run events (refines_init E) hrun
  obtain ⟨c, -, up, down, hbc⟩ := forall₂_getElem? href.clients hb
  refine ⟨up, down, hbc.carries, ?_⟩
  have hblocking := hbc.carries.downward.blocking_iff
  rw [List.length_map] at hblocking
  rw [← hblocking]
  exact exists_congr fun pieces =>
    Downward.last_iff texId pieces ⟨b, up, down, hb, hbc.carries, rfl⟩

end ByteSystem

/-! ## Clients that were there first

  `connectTable` is written once, when the client connects, and the table is written by frames only.
  So in a run in which nobody joins behind the first frame all clients have begun with the table of
  zeros. -/

section

variable {P : Platform} {font : List UInt8}

/-- Where a client's `connectTable` comes from: it had it before the event, or the event is that it
    connects. -/
theorem connectTable_step {t t' : System} {e : Event} (hstep : t.step P font e = some t') {c' : Remote}
    (hc' : c' ∈ t'.mClients) :
    (∃ c ∈ t.mClients, c'.history.connectTable = c.history.connectTable) ∨
      ∃ displaySize, e = .connect displaySize ∧ c'.history.connectTable = t.loop.table := by
  -- most events change one client
  have hset : ∀ {i : Nat} {c c₁ : Remote}, t.mClients[i]? = some c →
      c₁.history.connectTable = c.history.connectTable → c' ∈ t.mClients.set i c₁ →
      ∃ c ∈ t.mClients, c'.history.connectTable = c.history.connectTable := by
    intro i c c₁ hc hsame hmem
    rcases List.mem_or_eq_of_mem_set hmem with hold | rfl
    · exact ⟨c', hold, rfl⟩
    · exact ⟨c, List.mem_of_getElem? hc, hsame⟩
  cases e with
  | connect displaySize =>
    cases hstep
    rcases List.mem_append.mp hc' with hold | hnew
    · exact Or.inl ⟨c', hold, rfl⟩
    · rw [List.mem_singleton.mp hnew]
      exact Or.inr ⟨displaySize, rfl, rfl⟩
  | leave i =>
    rw [System.step] at hstep
    split at hstep
    · cases hstep
      exact Or.inl ⟨c', List.mem_of_mem_eraseIdx hc', rfl⟩
    · exact absurd hstep (Option.some_ne_none t').symm
  | hello i =>
    obtain ⟨c, hc, rfl⟩ := Option.map_eq_some_iff.mp hstep
    exact Or.inl (hset hc (sameFrames_hello c).connectTable hc')
  | mouse i =>
    obtain ⟨c, hc, rfl⟩ := Option.map_eq_some_iff.mp hstep
    exact Or.inl (hset hc (sameFrames_mouse c).connectTable hc')
  | tick i windowSize =>
    obtain ⟨c, hc, rfl⟩ := Option.map_eq_some_iff.mp hstep
    exact Or.inl (hset hc (sameFrames_tick c windowSize).connectTable hc')
  | receive i =>
    obtain ⟨c, hc, hstep⟩ := Option.bind_eq_some_iff.mp hstep
    split at hstep
    · exact absurd hstep (Option.some_ne_none t').symm
    next p rest hqueue =>
      cases hstep
      have hsame : ({ c with toServer := rest } : Remote).history.connectTable =
        c.history.connectTable := rfl
      exact Or.inl (hset hc hsame hc')
  | frame f =>
    refine Or.inl ?_
    replace hstep : t.frame P font f = some t' := hstep
    rw [System.frame] at hstep
    split at hstep
    · cases hstep
      exact ⟨c', hc', rfl⟩
    · obtain ⟨⟨loop, out⟩, -, rfl⟩ := Option.map_eq_some_iff.mp hstep
      cases out with
      | none => exact ⟨c', hc', rfl⟩
      | some out =>
        obtain ⟨c, hc, rfl⟩ := List.mem_map.mp hc'
        exact ⟨c, hc, rfl⟩
  | handle i texId =>
    obtain ⟨c, hc, hstep⟩ := Option.bind_eq_some_iff.mp hstep
    obtain ⟨c₁, hnext, hstep⟩ := Option.bind_eq_some_iff.mp hstep
    cases hstep
    refine Or.inl (hset hc ?_ hc')
    rw [Remote.handleNext] at hnext
    split at hnext
    · exact absurd hnext (Option.some_ne_none c₁).symm
    · obtain ⟨process, -, rfl⟩ := Option.map_eq_some_iff.mp hnext
      dsimp only
      split
      · exact connectTable_recordHandled c.history c.process.displaySize
      · rfl

/-- Only frames change the table. -/
theorem table_step {t t' : System} {e : Event} (hstep : t.step P font e = some t')
    (hframe : ∀ f, e ≠ .frame f) : t'.loop.table = t.loop.table := by
  cases e with
  | frame f => exact absurd rfl (hframe f)
  | connect displaySize =>
    cases hstep
    rfl
  | leave i =>
    rw [System.step] at hstep
    split at hstep
    · cases hstep
      rfl
    · exact absurd hstep (Option.some_ne_none t').symm
  | hello i =>
    obtain ⟨c, -, rfl⟩ := Option.map_eq_some_iff.mp hstep
    rfl
  | mouse i =>
    obtain ⟨c, -, rfl⟩ := Option.map_eq_some_iff.mp hstep
    rfl
  | tick i windowSize =>
    obtain ⟨c, -, rfl⟩ := Option.map_eq_some_iff.mp hstep
    rfl
  | receive i =>
    obtain ⟨c, -, hstep⟩ := Option.bind_eq_some_iff.mp hstep
    split at hstep
    · exact absurd hstep (Option.some_ne_none t').symm
    -- a packet writes the input and the size, not the table
    next p rest hqueue =>
      cases hstep
      exact Server.table_handlePacket t.loop p
  | handle i texId =>
    obtain ⟨c, -, hstep⟩ := Option.bind_eq_some_iff.mp hstep
    obtain ⟨c₁, -, hstep⟩ := Option.bind_eq_some_iff.mp hstep
    cases hstep
    rfl

/-- Every client has connected when the table was as it began. -/
def AllFirst (t : System) : Prop :=
  ∀ c ∈ t.mClients, c.history.connectTable = LoopStatics.init.table

/-- **Clients of a run in which none joins behind the first frame.** -/
theorem allFirst_run {early late : List Event} {t : System}
    (hrun : run (System.step P font) System.init (early ++ late) = some t)
    (hearly : ∀ e ∈ early, ∀ f, e ≠ .frame f)
    (hlate : ∀ e ∈ late, ∀ displaySize, e ≠ .connect displaySize) : AllFirst t := by
  rw [run_append] at hrun
  obtain ⟨t₁, hrun₁, hrun₂⟩ := Option.bind_eq_some_iff.mp hrun
  have hfirst : t₁.loop.table = LoopStatics.init.table ∧ AllFirst t₁ := by
    refine run_invariant_of (Q := fun e => ∀ f, e ≠ Event.frame f)
      (fun u e u' he (hu : u.loop.table = LoopStatics.init.table ∧ AllFirst u) hstep => ?_) early hearly
      ⟨rfl, fun c hc => absurd hc List.not_mem_nil⟩ hrun₁
    refine ⟨(table_step hstep he).trans hu.1, fun c' hc' => ?_⟩
    rcases connectTable_step hstep hc' with ⟨c, hc, hsame⟩ | ⟨-, -, hsame⟩
    · exact hsame.trans (hu.2 c hc)
    · exact hsame.trans hu.1
  refine run_invariant_of (Q := fun e => ∀ displaySize, e ≠ Event.connect displaySize)
    (fun u e u' he hu hstep c' hc' => ?_) late hlate hfirst.2 hrun₂
  rcases connectTable_step hstep hc' with ⟨c, hc, hsame⟩ | ⟨displaySize, hconnect, -⟩
  · exact hsame.trans (hu c hc)
  · exact absurd hconnect (he displaySize)

/-- Only a client that has handled a frame shows anything. -/
theorem shownHandled : ClientInvariant P font fun past t last c => Linked P past t last c ∧
    (c.history.handled = [] → c.process.statics.sDrawData = none) where
  connect past t last displaySize := ⟨(linked P font).connect past t last displaySize, fun _ => rfl⟩
  idle past t last c c' h hsame := by
    refine ⟨(linked P font).idle past t last c c' h.1 hsame, ?_⟩
    rw [hsame.handled, hsame.statics]
    exact h.2
  unsent past t last c f h := ⟨(linked P font).unsent past t last c f h.1, h.2⟩
  sent past t last c f displaySize h := ⟨(linked P font).sent past t last c f displaySize h.1, h.2⟩
  handled past t last c payload rest texId u h hqueue hunpack := by
    refine ⟨(linked P font).handled past t last c payload rest texId u h.1 hqueue hunpack,
      fun hnil => ?_⟩
    obtain ⟨f, fs, hpending, -⟩ := h.1.receives hqueue hunpack
    replace hnil : (Remote.recordHandled c.history c.process.displaySize).handled = [] := hnil
    rw [Remote.recordHandled, hpending] at hnil
    exact absurd hnil (List.cons_ne_nil _ _)

end

/-! ## What is shown

  A client of this kind that has handled frames which never get shorter holds their lists one by
  one: the last frame has refreshed, or the earlier ones have, every index it has.  With nothing in
  flight the last frame it handled is the last one packed.  The statement for the bytes follows
  through `refines`. -/

/-- The table begins with zeros. -/
theorem init_table_ne {hash : UInt32} (h : hash ≠ 0) (i : Nat) :
    LoopStatics.init.table i ≠ some hash := by
  intro heq
  by_cases hi : i < sMaxDrawLists
  · rw [LoopStatics.table, tableOf_of_lt hi] at heq
    exact h ((Option.some.inj heq).symm.trans (Vector.getElem_replicate hi))
  · have hnone : LoopStatics.init.table i = none :=
      Vector.getElem?_eq_none (Nat.le_of_not_lt hi)
    exact Option.some_ne_none _ (heq.symm.trans hnone)

/-- The list, packed at some display size, and unpacked at some size with some texture. -/
def Rebuilt (P : Platform) (l dst : ImDrawList) : Prop :=
  ∃ packedAt io, dst = rebuild P packedAt io l

/-- The client shows the lists of the frame and no others, each rebuilt. -/
def ShowsFrame (P : Platform) (c : ClientProcess) (f : Frame) : Prop :=
  ∃ d, c.statics.sDrawData = some d ∧ List.Forall₂ (Rebuilt P) f.lists d.cmdLists

/-- What a client that was there first holds of the frames it has handled. -/
def FirstClient (P : Platform) (c : Remote) : Prop :=
  Delta.FirstMirror (Rebuilt P) c.history.handledLists c.process.prev

/-- One more frame, not shorter than those before. -/
theorem FirstClient.handled {P : Platform} {S : ImDrawList → Prop}
    (hinj : Delta.KeyInj (hashImDrawList P) S) (hne : ∀ l, S l → hashImDrawList P l ≠ 0)
    {past : List Frame} {t : Delta.Table UInt32} {last : Option SentFrame} {c : Remote}
    (hlink : Linked P past t last c) (hclient : FirstClient P c)
    (hfirst : c.history.connectTable = LoopStatics.init.table) (hgrow : NeverShorter past)
    (hS : ∀ l, InFrames past l → S l) {payload : List UInt8} {rest : List Packet} {texId : Nat}
    {u : UnpackResult} (hqueue : c.toClient = ⟨.drawData, payload⟩ :: rest)
    (hunpack : unpackDrawData ⟨c.process.displaySize, texId⟩ (Mem.ofList payload) payload.length
      c.process.statics = some u) :
    FirstClient P { c with
      toClient := rest
      process := { c.process with statics := u.st }
      history := Remote.recordHandled c.history c.process.displaySize } := by
  obtain ⟨f, fs, hpending, -, hst, hlists⟩ := hlink.receives hqueue hunpack
  have hnew : ∀ l ∈ f.frame.lists, S l := fun l hl =>
    hS l ⟨f.frame, hlink.pending_mem (hpending ▸ List.mem_cons_self), hl⟩
  have hlen := Delta.length_last_le (hlink.length_handled_le hgrow hpending)
  -- the table began with zeros, and no list hashes to 0
  have hzero : ∀ i, ∀ l ∈ f.frame.lists,
      c.history.connectTable i ≠ some (hashImDrawList P l) := by
    intro i l hl
    rw [hfirst]
    exact init_table_ne (hne l (hnew l hl)) i
  have hstep := Delta.FirstMirror.receive (d := ImDrawList.empty) hinj hclient hlen
    (fun l hl => hS l (hlink.mem_last hl)) hnew
    (fun l => (⟨f.packedAt, ⟨c.process.displaySize, texId⟩, rfl⟩ : Rebuilt P l (rebuild P _ _ l)))
    hzero
  have hprev : u.st.sDrawDataPrev.getD [] = u.drawData.cmdLists := by rw [hst]; rfl
  show Delta.FirstMirror _ (Remote.recordHandled c.history c.process.displaySize).handledLists
    (u.st.sDrawDataPrev.getD [])
  rw [handledLists_recordHandled hpending, hprev, hlists]
  exact hstep

/-- **Every client of every run** that was there first, as long as frames never get shorter. -/
theorem firstClient {P : Platform} {font : List UInt8} {S : ImDrawList → Prop}
    (hinj : Delta.KeyInj (hashImDrawList P) S) (hne : ∀ l, S l → hashImDrawList P l ≠ 0) :
    ClientInvariant P font fun past t last c =>
      Linked P past t last c ∧
        (c.history.connectTable = LoopStatics.init.table → NeverShorter past →
          (∀ l, InFrames past l → S l) → FirstClient P c) where
  connect past t last displaySize :=
    ⟨(linked P font).connect past t last displaySize, fun _ _ _ => Delta.FirstMirror.init⟩
  idle past t last c c' h hsame := by
    refine ⟨(linked P font).idle past t last c c' h.1 hsame, fun hfirst hgrow hS => ?_⟩
    have hclient := h.2 (hsame.connectTable ▸ hfirst) hgrow hS
    rw [FirstClient, ClientProcess.prev, History.handledLists] at hclient ⊢
    rw [hsame.statics, hsame.handled]
    exact hclient
  unsent past t last c f h := by
    refine ⟨(linked P font).unsent past t last c f h.1, fun hfirst hgrow hS => ?_⟩
    exact h.2 hfirst (List.pairwise_append.mp hgrow).1 fun l hl => hS l (hl.append f)
  sent past t last c f displaySize h := by
    refine ⟨(linked P font).sent past t last c f displaySize h.1, fun hfirst hgrow hS => ?_⟩
    exact h.2 hfirst (List.pairwise_append.mp hgrow).1 fun l hl => hS l (hl.append f)
  handled past t last c payload rest texId u h hqueue hunpack := by
    refine ⟨(linked P font).handled past t last c payload rest texId u h.1 hqueue hunpack,
      fun hfirst hgrow hS => ?_⟩
    rw [connectTable_recordHandled] at hfirst
    exact FirstClient.handled hinj hne h.1 (h.2 hfirst hgrow hS) hfirst hgrow hS hqueue hunpack

/-- Seen from outside, no frame is rendered. -/
theorem not_frame_of_seen {events : List Event} (h : framesSeen (events.flatMap Event.seen) = []) :
    ∀ e ∈ events, ∀ f, e ≠ .frame f := by
  rintro e he f rfl
  have hmem : f ∈ framesSeen (events.flatMap Event.seen) :=
    List.mem_filterMap.mpr ⟨.frame f, List.mem_flatMap.mpr ⟨_, he, List.mem_singleton_self _⟩, rfl⟩
  rw [h] at hmem
  exact absurd hmem List.not_mem_nil

/-- Seen from outside, nobody joins. -/
theorem not_connect_of_seen {events : List Event} (h : Seen.joined ∉ events.flatMap Event.seen) :
    ∀ e ∈ events, ∀ displaySize, e ≠ .connect displaySize := by
  rintro e he displaySize rfl
  exact h (List.mem_flatMap.mpr ⟨_, he, List.mem_singleton_self _⟩)

/-- **A client that has caught up shows the last frame.**  In `System`: if the client was there
    first, the frames never get shorter, and the hashes are neither equal nor `0`. -/
theorem showsFrame_of_caughtUp {P : Platform} {font : List UInt8} {events : List Event} {t : System}
    (hrun : run (System.step P font) System.init events = some t)
    (hinj : Delta.KeyInj (hashImDrawList P) (InFrames (framesOf events)))
    (hne : ∀ l, InFrames (framesOf events) l → hashImDrawList P l ≠ 0)
    (hgrow : NeverShorter (framesOf events)) {c : Remote} (hc : c ∈ t.mClients)
    (hfirst : c.history.connectTable = LoopStatics.init.table) (hcaught : c.drawDataInFlight = [])
    (hshown : c.process.statics.sDrawData ≠ none) :
    ∃ f, t.lastFrame = some f ∧ f.frame ∈ framesOf events ∧ ShowsFrame P c.process f.frame := by
  obtain ⟨hlink, hclient⟩ := (firstClient hinj hne).reachable events hrun hc
  replace hclient := hclient hfirst hgrow fun l hl => hl
  have hhandled : c.history.handled ≠ [] := fun hnil =>
    hshown ((shownHandled.reachable events hrun hc).2 hnil)
  have hsent : c.history.sent ≠ [] := by
    rw [History.sent]
    exact fun hnil => hhandled (by simpa using (List.append_eq_nil_iff.mp hnil).1)
  obtain ⟨f, d, hf, hlast, hd⟩ := hlink.caughtUp hcaught hsent
  have hmem : f.frame ∈ framesOf events := by
    obtain ⟨g, hg⟩ : ∃ g, c.history.sent.getLast? = some g :=
      ⟨_, List.getLast?_eq_some_getLast hsent⟩
    have hfg : f = g := Option.some.inj (hf.symm.trans (hlink.last g hg))
    exact hlink.past.subset (List.mem_map.mpr ⟨g, List.mem_of_getLast? hg, by rw [hfg]⟩)
  have hprev : c.process.prev = d.cmdLists := by
    rw [ClientProcess.prev, hd]
    rfl
  obtain ⟨hlen, -, hlists⟩ := hclient
  rw [hlast, hprev] at hlen
  rw [hlast] at hlists
  refine ⟨f, hf, hmem, d, by rw [hd], List.forall₂_iff_get.mpr ⟨hlen.symm, fun i hi hi' => ?_⟩⟩
  obtain ⟨dst, hdst, hrebuilt⟩ := hlists i _ (List.getElem?_eq_getElem hi)
  rw [hprev, List.getElem?_eq_getElem hi', Option.some.injEq] at hdst
  subst hdst
  exact hrebuilt

namespace ByteSystem

/-- What the client shows, as `System` has it. -/
def shown (b : Peer) : ClientProcess := ⟨b.statics, b.desktop.displaySize, b.desktop.sLastDisplaySize⟩

/-- **What is shown is the last frame.**  In every run of the bytes in which nobody joins behind the
    first frame, the frames never get shorter, and the hashes of the lists are neither equal nor `0`: a
    client with no byte on its way to it, if it shows anything, shows the lists of the last frame that
    was packed and no others, each as it was packed and unpacked at some size. -/
theorem shows_last (E : Setup) (early late : List ByteEvent) (s : ByteSystem)
    (hrun : run (step E) init (early ++ late) = some s)
    (hearly : framesSeen (early.flatMap ByteEvent.seen) = [])
    (hlate : Seen.joined ∉ late.flatMap ByteEvent.seen)
    (hinj : Delta.KeyInj (hashImDrawList E.platform)
      (InFrames (framesSeen (late.flatMap ByteEvent.seen))))
    (hne : ∀ l, InFrames (framesSeen (late.flatMap ByteEvent.seen)) l →
      hashImDrawList E.platform l ≠ 0)
    (hgrow : NeverShorter (framesSeen (late.flatMap ByteEvent.seen)))
    (b : Peer) (hb : b ∈ s.mClients) (hsettled : b.down.Settled)
    (hshown : b.statics.sDrawData ≠ none) :
    ∃ f, s.lastFrame = some f ∧ f.frame ∈ framesSeen (late.flatMap ByteEvent.seen) ∧
      ShowsFrame E.platform (shown b) f.frame := by
  rw [run_append] at hrun
  obtain ⟨s₁, hrun₁, hrun₂⟩ := Option.bind_eq_some_iff.mp hrun
  obtain ⟨early', t₁, hrun₁', hseen₁, href₁⟩ := (simulates E).run early (refines_init E) hrun₁
  obtain ⟨late', t, hrun₂', hseen₂, href⟩ := (simulates E).run late href₁ hrun₂
  -- both parts of the run are runs of the system of packets
  have hrun' : run (System.step E.platform E.atlas.payload) System.init (early' ++ late') = some t := by
    rw [run_append, hrun₁', Option.bind_some, hrun₂']
  have hframes : framesOf (early' ++ late') = framesSeen (late.flatMap ByteEvent.seen) := by
    rw [framesOf_eq, List.flatMap_append, hseen₁, hseen₂, framesSeen, List.filterMap_append]
    exact (congrArg (· ++ _) hearly).trans (List.nil_append _)
  have hfirst : AllFirst t := allFirst_run hrun' (not_frame_of_seen (hseen₁ ▸ hearly))
    (not_connect_of_seen (hseen₂ ▸ hlate))
  obtain ⟨i, hi⟩ := List.getElem?_of_mem hb
  obtain ⟨c, hc, up, down, hbc⟩ := forall₂_getElem? href.clients hi
  have hmem := List.mem_of_getElem? hc
  -- no byte is in flight, so no draw data is
  have hcaught : c.drawDataInFlight = [] := by
    have hdown := List.map_eq_nil_iff.mp (hbc.carries.downward.settled_iff.mp hsettled)
    rw [Remote.drawDataInFlight, hbc.toClient, hdown]
    rfl
  rw [← hframes] at hinj hne hgrow ⊢
  obtain ⟨f, hf, hfmem, hshows⟩ := showsFrame_of_caughtUp hrun' hinj hne hgrow hmem
    (hfirst c hmem) hcaught (by rw [hbc.process]; exact hshown)
  have hprocess : c.process = shown b := hbc.process
  exact ⟨f, href.lastFrame ▸ hf, hfmem, hprocess ▸ hshows⟩

/-- The first draw data and the font have just been sent. -/
theorem catchUp_firstFrame : ∃ s pieces s' b',
    run (step plain) init (firstFrame.take 3) = some s ∧
      run (step plain) s (bringing 0 7 pieces) = some s' ∧ s'.mClients[0]? = some b' ∧
      b'.down.LastPacket := by
  have hall : (run (step plain) init (firstFrame.take 3)).bind (fun s => s.mClients[0]?.map fun b =>
      b.down.recv.mBufferSize) = some 0 := by
    decide +kernel
  obtain ⟨s, hrun, hs⟩ := Option.bind_eq_some_iff.mp hall
  obtain ⟨b, hb, hempty⟩ := Option.map_eq_some_iff.mp hs
  obtain ⟨up, down, hcarries, hiff⟩ := catchUp_iff plain (firstFrame.take 3) s hrun 0 b hb 7
  -- all bytes of the packets are in flight
  have hlen : down.length ≤ b.down.inFlight.length := by
    have hstream := congrArg List.length hcarries.downward.stream
    have hpackets := Pipe.length_le_wireAll (down.map (ServerPacket.wirePacket plain.atlas))
    rw [List.length_append, RecvState.length_valid, hempty] at hstream
    rw [List.length_map] at hpackets
    omega
  obtain ⟨pieces, s', b', hrun', hb', hlast⟩ := hiff.mpr (Nat.le_succ_of_le hlen)
  exact ⟨s, pieces, s', b', hrun, hrun', hb', hlast⟩

theorem shows_last_firstFrame : ∃ s b f, run (step plain) init firstFrame = some s ∧
    b ∈ s.mClients ∧ s.lastFrame = some f ∧ ShowsFrame Platform.lp64 (shown b) f.frame := by
  have hall : (run (step plain) init firstFrame).bind (fun s => s.mClients[0]?.map fun b =>
      (b.down.inFlight, b.down.recv.mBufferSize, b.statics.sDrawData.isSome)) = some ([], 0, true) := by
    decide +kernel
  obtain ⟨s, hrun, hs⟩ := Option.bind_eq_some_iff.mp hall
  obtain ⟨b, hb, hs⟩ := Option.map_eq_some_iff.mp hs
  simp only [Prod.mk.injEq] at hs
  have hred : ∀ l, InFrames (framesSeen ((firstFrame.drop 2).flatMap ByteEvent.seen)) l →
      IsRedOrGreen l := by
    rintro l ⟨f, hf, hl⟩
    replace hf : f ∈ [triangles [1] one_fits] := hf
    rw [List.mem_singleton.mp hf] at hl
    exact isRedOrGreen_of_mem (h := by decide) hl (by simp)
  obtain ⟨f, hf, -, hshows⟩ := shows_last plain (firstFrame.take 2) (firstFrame.drop 2) s hrun rfl
    (by simp [firstFrame, ByteEvent.seen]) (keyInj_redOrGreen.mono hred)
    (fun l hl => hash_redOrGreen (hred l hl)) (List.pairwise_singleton _ _) b (List.mem_of_getElem? hb) ⟨hs.1, hs.2.1⟩
    (fun hnone => by simp [hnone] at hs)
  exact ⟨s, b, f, hrun, List.mem_of_getElem? hb, hf, hshows⟩

end ByteSystem

end Nxdb
