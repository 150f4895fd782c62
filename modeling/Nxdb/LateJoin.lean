/-
  Several clients, and clients that join late.

  The server packs a frame once, against one hash table, and sends the same bytes to everybody.  A
  client that connects when the table is already filled is sent marks for lists it never had, and
  shows empty lists for them; the frame its `Hello` queues does not help, because `queueRerender`
  makes the server pack the frame again but against the same table.

  `lateJoin_iff` is the exact condition, for every run with frames that never get shorter and every
  client that has handled all its draw data: the geometry of the last frame is shown iff every list
  that has any was refreshed, that is, some frame since the client connected had at that index a
  list other than the one the table held when it connected.

  1. The condition is about frames: `RefreshedSince`, with the table of the moment the client
     connected.
  2. The invariant `LateClient` instantiates `Delta.LateMirror` at a connection: handled frames on
     the client's side, pending ones in flight.
  3. `Broadcast.linked` ties the two ends of the connection together, and at a client that has
     caught up `LateMirror.shows_iff` is the theorem.
-/
import Nxdb.Broadcast

namespace Nxdb

open Lib

/-- What a user sees of a list: its indices and vertex colours. -/
structure Geometry where
  idxBuffer : List UInt16
  colours : List UInt32
deriving DecidableEq

/-- The geometry of a list. -/
def ImDrawList.geometry (l : ImDrawList) : Geometry :=
  ⟨l.idxBuffer, l.vtxBuffer.map ImDrawVert.col⟩

/-- Packing and unpacking keep the geometry, at any sizes. -/
theorem geometry_rebuild (P : Platform) (displaySize : ImVec2) (io : ClientIo) (l : ImDrawList) :
    (rebuild P displaySize io l).geometry = l.geometry := by
  rw [ImDrawList.geometry, rebuild_idxBuffer, rebuild_colours]
  rfl

/-- The lists that occur in some frames. -/
def InFrames (frames : List Frame) (l : ImDrawList) : Prop := ∃ f ∈ frames, l ∈ f.lists

/-- A list of some frames is one of more frames. -/
theorem InFrames.append {frames : List Frame} {l : ImDrawList} (h : InFrames frames l) (f : Frame) :
    InFrames (frames ++ [f]) l := by
  obtain ⟨g, hg, hl⟩ := h
  exact ⟨g, List.mem_append_left _ hg, hl⟩

/-- The number of lists never decreases. -/
def NeverShorter (frames : List Frame) : Prop :=
  frames.Pairwise fun f g => f.lists.length ≤ g.lists.length

/-- The client shows at every index the geometry of the frame's list. -/
def ShowsGeometry (c : ClientProcess) (f : Frame) : Prop :=
  ∃ d, c.statics.sDrawData = some d ∧
    ∀ (i : Nat) (l : ImDrawList), f.lists[i]? = some l →
      ∃ dst, d.cmdLists[i]? = some dst ∧ dst.geometry = l.geometry

/-- Every list with any geometry was refreshed: some frame since the client connected had at its
    index a list whose hash was not in the table when the client connected. -/
def RefreshedSince (P : Platform) (h : History) (f : Frame) : Prop :=
  ∀ (i : Nat) (l : ImDrawList), f.lists[i]? = some l → l.geometry ≠ ImDrawList.empty.geometry →
    ∃ g ∈ h.sent, ∃ a, g.frame.lists[i]? = some a ∧ h.connectTable i ≠ some (hashImDrawList P a)

variable {P : Platform} {font : List UInt8}

/-- While frames never get shorter, those that were handled are not longer than the next one. -/
theorem Linked.length_handled_le {past : List Frame} {t : Delta.Table UInt32}
    {last : Option SentFrame} {c : Remote} (hlink : Linked P past t last c)
    (hgrow : NeverShorter past) {f : SentFrame} {fs : List SentFrame}
    (hpending : c.history.pending = f :: fs) :
    ∀ g ∈ c.history.handledLists, g.length ≤ f.frame.lists.length := by
  intro g hg
  obtain ⟨b, hb, rfl⟩ := List.mem_map.mp hg
  have hgrowing := List.pairwise_append.mp (hgrow.sublist (hlink.handled_next hpending))
  exact hgrowing.2.2 b.frame (List.mem_map_of_mem hb) f.frame List.mem_cons_self

/-- What a client holds of the frames it has handled. -/
def LateClient (P : Platform) (c : Remote) : Prop :=
  Delta.LateMirror (hashImDrawList P) ImDrawList.geometry ImDrawList.empty.geometry
    c.history.connectTable c.history.handledLists (c.process.prev.map ImDrawList.geometry)

/-- One more frame, not shorter than those before. -/
theorem LateClient.handled {S : ImDrawList → Prop} (hinj : Delta.KeyInj (hashImDrawList P) S)
    {past : List Frame} {t : Delta.Table UInt32} {last : Option SentFrame} {c : Remote}
    (hlink : Linked P past t last c) (hlate : LateClient P c) (hgrow : NeverShorter past)
    (hS : ∀ l, InFrames past l → S l) {payload : List UInt8} {rest : List Packet} {texId : Nat}
    {u : UnpackResult} (hqueue : c.toClient = ⟨.drawData, payload⟩ :: rest)
    (hunpack : unpackDrawData ⟨c.process.displaySize, texId⟩ (Mem.ofList payload) payload.length
      c.process.statics = some u) :
    LateClient P { c with
      toClient := rest
      process := { c.process with statics := u.st }
      history := Remote.recordHandled c.history c.process.displaySize } := by
  obtain ⟨f, fs, hpending, -, hst, hlists⟩ := hlink.receives hqueue hunpack
  have hnew : ∀ l ∈ f.frame.lists, S l := fun l hl =>
    hS l ⟨f.frame, hlink.pending_mem (hpending ▸ List.mem_cons_self), hl⟩
  have hlen := hlink.length_handled_le hgrow hpending
  have hstep := Delta.LateMirror.receive hinj hlate (Delta.length_last_le hlen)
    (fun l hl => hS l (hlink.mem_last hl)) hnew
  have hprev : u.st.sDrawDataPrev.getD [] = u.drawData.cmdLists := by rw [hst]; rfl
  show Delta.LateMirror _ _ _ (Remote.recordHandled c.history c.process.displaySize).connectTable
    (Remote.recordHandled c.history c.process.displaySize).handledLists
    ((u.st.sDrawDataPrev.getD []).map _)
  rw [handledLists_recordHandled hpending, connectTable_recordHandled, hprev, hlists,
    Delta.map_receive]
  simp only [geometry_rebuild]
  exact hstep

/-- **Every client of every run**, as long as frames never get shorter. -/
theorem lateClient {S : ImDrawList → Prop} (hinj : Delta.KeyInj (hashImDrawList P) S) :
    ClientInvariant P font fun past t last c =>
      Linked P past t last c ∧
        (NeverShorter past → (∀ l, InFrames past l → S l) → LateClient P c) where
  connect past t last displaySize :=
    ⟨(linked P font).connect past t last displaySize, fun _ _ => Delta.LateMirror.init⟩
  idle past t last c c' h hsame := by
    refine ⟨(linked P font).idle past t last c c' h.1 hsame, fun hgrow hS => ?_⟩
    have hlate := h.2 hgrow hS
    rw [LateClient, ClientProcess.prev, History.handledLists] at hlate ⊢
    rw [hsame.statics, hsame.connectTable, hsame.handled]
    exact hlate
  unsent past t last c f h := by
    refine ⟨(linked P font).unsent past t last c f h.1, fun hgrow hS => ?_⟩
    exact h.2 (List.pairwise_append.mp hgrow).1 fun l hl => hS l (hl.append f)
  sent past t last c f displaySize h := by
    refine ⟨(linked P font).sent past t last c f displaySize h.1, fun hgrow hS => ?_⟩
    exact h.2 (List.pairwise_append.mp hgrow).1 fun l hl => hS l (hl.append f)
  handled past t last c payload rest texId u h hqueue hunpack :=
    ⟨(linked P font).handled past t last c payload rest texId u h.1 hqueue hunpack,
      fun hgrow hS => LateClient.handled hinj h.1 (h.2 hgrow hS) hgrow hS hqueue hunpack⟩

/-- Showing a frame's geometry, as a statement about the list of geometries. -/
theorem showsGeometry_iff {c : ClientProcess} {d : ImDrawData} (hd : c.statics.sDrawData = some d)
    (f : Frame) :
    ShowsGeometry c f ↔ ∀ (i : Nat) (l : ImDrawList), f.lists[i]? = some l →
      (d.cmdLists.map ImDrawList.geometry)[i]? = some l.geometry := by
  constructor
  · rintro ⟨d', hd', hall⟩ i l hl
    rw [hd] at hd'
    obtain ⟨dst, hdst, hgeo⟩ := hall i l hl
    rw [List.getElem?_map, Option.some.inj hd', hdst, Option.map_some, hgeo]
  · intro hall
    refine ⟨d, hd, fun i l hl => ?_⟩
    have hi := hall i l hl
    rw [List.getElem?_map] at hi
    exact Option.map_eq_some_iff.mp hi

/-- An index was refreshed by the frames a client was sent. -/
theorem refreshed_sent_iff (h : History) (i : Nat) :
    Delta.Refreshed (hashImDrawList P) h.connectTable (h.sent.map fun g => g.frame.lists) i ↔
      ∃ g ∈ h.sent, ∃ a, g.frame.lists[i]? = some a ∧
        h.connectTable i ≠ some (hashImDrawList P a) := by
  constructor
  · rintro ⟨lists, hmem, a, ha, hne⟩
    obtain ⟨g, hg, rfl⟩ := List.mem_map.mp hmem
    exact ⟨g, hg, a, ha, hne⟩
  · rintro ⟨g, hg, a, ha, hne⟩
    exact ⟨g.frame.lists, List.mem_map_of_mem hg, a, ha, hne⟩

/-- **Late joining and several clients.**  In every run of frames that never get shorter and whose
    distinct lists have distinct hashes, for every connected client that has handled all draw data
    sent to it, a frame having been sent after its `Hello`: it shows the geometry of the last frame
    packed iff every list of that frame with any geometry was refreshed since it connected. -/
theorem lateJoin_iff (events : List Event) {s : System}
    (hrun : run (System.step P font) System.init events = some s)
    (hinj : Delta.KeyInj (hashImDrawList P) (InFrames (framesOf events)))
    (hgrow : NeverShorter (framesOf events)) {c : Remote} (hc : c ∈ s.mClients)
    (hcaught : c.drawDataInFlight = []) (hsent : c.history.frameAfterHello = true) :
    ∃ f, s.lastFrame = some f ∧
      (ShowsGeometry c.process f.frame ↔ RefreshedSince P c.history f.frame) := by
  obtain ⟨hlink, hlate⟩ := (lateClient hinj).reachable events hrun hc
  replace hlate := hlate hgrow fun l hl => hl
  have hlists := hlink.handledLists_eq hcaught
  obtain ⟨f, d, hf, hlast, hd⟩ := hlink.caughtUp hcaught (hlink.hello hsent)
  have hprev : c.process.prev = d.cmdLists := by rw [ClientProcess.prev, hd]; rfl
  have hiff := hlate.shows_iff
  rw [hlast, hprev] at hiff
  refine ⟨f, hf, ?_⟩
  rw [showsGeometry_iff (by rw [hd]), hiff, hlists]
  constructor
  · intro h i l hl hne
    exact (refreshed_sent_iff c.history i).mp (h i l hl hne)
  · intro h i l hl hne
    exact (refreshed_sent_iff c.history i).mpr (h i l hl hne)

/-- A client sees a red and a green triangle; a second one connects, and its `Hello` queues the same
    frame again. -/
def joinLate : List Event :=
  [.connect ⟨1280, 720⟩, .hello 0, .receive 0, .frame (triangles [1, 2] two_fit), .handle 0 1,
   .handle 0 2, .connect ⟨1280, 720⟩, .hello 1, .receive 1,
   .frame (triangles [1, 2] two_fit), .handle 1 1, .handle 1 2]

/-- The lists of the example ... -/
theorem isRedOrGreen_of_joinLate {l : ImDrawList} (h : InFrames (framesOf joinLate) l) :
    IsRedOrGreen l := by
  obtain ⟨f, hf, hl⟩ := h
  replace hf : f ∈ [triangles [1, 2] two_fit, triangles [1, 2] two_fit] := hf
  simp only [List.mem_cons, List.not_mem_nil, or_false, or_self] at hf
  rw [hf] at hl
  exact isRedOrGreen_of_mem (h := by decide) hl (by simp)

/-- ... and its frames, of which each has as many as the first. -/
theorem neverShorter_joinLate : NeverShorter (framesOf joinLate) := by
  show List.Pairwise _ [triangles [1, 2] two_fit, triangles [1, 2] two_fit]
  rw [List.pairwise_pair]

/-- The run is possible, and the second client has caught up. -/
theorem joinLate_run : ∃ s c, run (System.step Platform.lp64 []) System.init joinLate = some s ∧
    s.mClients[1]? = some c ∧ c.drawDataInFlight = [] ∧ c.history.frameAfterHello = true ∧
    (s.lastFrame.map fun f => f.frame.lists.map ImDrawList.geometry) =
      some [(triangle 1).geometry, (triangle 2).geometry] ∧
    (c.process.statics.sDrawData.map fun d => d.cmdLists.map ImDrawList.geometry) =
      some [ImDrawList.empty.geometry, ImDrawList.empty.geometry] := by
  have hrun : ((run (System.step Platform.lp64 []) System.init joinLate).bind fun s =>
      s.mClients[1]?.map fun c => (c.drawDataInFlight, c.history.frameAfterHello,
        s.lastFrame.map fun f => f.frame.lists.map ImDrawList.geometry,
        c.process.statics.sDrawData.map fun d => d.cmdLists.map ImDrawList.geometry)) =
      some ([], true, some [(triangle 1).geometry, (triangle 2).geometry],
        some [ImDrawList.empty.geometry, ImDrawList.empty.geometry]) := by decide +kernel
  obtain ⟨s, hs, hrun⟩ := Option.bind_eq_some_iff.mp hrun
  obtain ⟨c, hc, hrun⟩ := Option.map_eq_some_iff.mp hrun
  simp only [Prod.mk.injEq] at hrun
  exact ⟨s, c, hs, hc, hrun⟩

theorem lateJoin_iff_joinLate : ∃ s c f,
    run (System.step Platform.lp64 []) System.init joinLate = some s ∧ c ∈ s.mClients ∧
      s.lastFrame = some f ∧
      (ShowsGeometry c.process f.frame ↔ RefreshedSince Platform.lp64 c.history f.frame) := by
  obtain ⟨s, c, hrun, hc, hcaught, hsent, -⟩ := joinLate_run
  obtain ⟨f, hf, hiff⟩ := lateJoin_iff joinLate hrun
    (keyInj_redOrGreen.mono fun _ => isRedOrGreen_of_joinLate) neverShorter_joinLate
    (List.mem_of_getElem? hc) hcaught hsent
  exact ⟨s, c, f, hrun, List.mem_of_getElem? hc, hf, hiff⟩

/-- The second client shows two empty lists. -/
theorem lateJoin_fails :
    Delta.KeyInj (hashImDrawList Platform.lp64) (InFrames (framesOf joinLate)) ∧
      (∀ l, InFrames (framesOf joinLate) l → hashImDrawList Platform.lp64 l ≠ 0) ∧
      NeverShorter (framesOf joinLate) ∧
      ∃ s c f, run (System.step Platform.lp64 []) System.init joinLate = some s ∧
        c ∈ s.mClients ∧ c.drawDataInFlight = [] ∧ c.history.frameAfterHello = true ∧
        s.lastFrame = some f ∧ ¬ ShowsGeometry c.process f.frame := by
  obtain ⟨s, c, hrun, hc, hcaught, hsent, hframe, hshown⟩ := joinLate_run
  obtain ⟨f, hf, hlists⟩ := Option.map_eq_some_iff.mp hframe
  refine ⟨keyInj_redOrGreen.mono fun _ => isRedOrGreen_of_joinLate,
    fun l hl => hash_redOrGreen (isRedOrGreen_of_joinLate hl), neverShorter_joinLate,
    s, c, f, hrun, List.mem_of_getElem? hc, hcaught, hsent, hf, ?_⟩
  rintro ⟨d, hd, hall⟩
  rw [hd, Option.map_some, Option.some.injEq] at hshown
  -- at index 0 the frame has the red triangle and the client nothing
  have hred := congrArg (fun gs => gs[0]?) hlists
  have hnone := congrArg (fun gs => gs[0]?) hshown
  rw [List.getElem?_map] at hred hnone
  obtain ⟨l, hl, hgeo⟩ := Option.map_eq_some_iff.mp hred
  obtain ⟨dst, hdst, hempty⟩ := Option.map_eq_some_iff.mp hnone
  obtain ⟨dst', hdst', hsame⟩ := hall 0 l hl
  have hdsts : dst = dst' := Option.some.inj (hdst.symm.trans hdst')
  rw [← hdsts, hempty, hgeo] at hsame
  exact absurd hsame (by decide)

end Nxdb
