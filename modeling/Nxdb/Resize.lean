/-
  Resizing the client's window.

  Positions travel as fractions of a display: the server divides by the size it knows, the client
  multiplies by its own.  The two agree again once an `UpdateDisplaySize` has been handled, which
  also queues a rerender.  But whether a list is sent again is decided by the hash of its pixel
  positions alone, so a list that was packed or unpacked at another size, and has not changed
  since, stays as it is.

  `resize_settled` is about every run with one number of lists: once the draw data have arrived, a
  list is shown within one quantum of the server's exactly if the two sizes of the frame that
  changed it last suit its vertices (`Sizes.Suit`, an inequality on the coordinates).  They do if
  the two are one size, not larger than the client's, that clamps the vertices as the client's own
  does (`suit_of_oneSize`); a list that was packed at one size and unpacked at another, as
  `UpdateDisplaySize` and draw data cross on the way, stays in the wrong place (`resize_fails`).

  1. The condition is about the frame that last changed a list: `LastChangeSuits`, with the sizes
     it was packed and unpacked at.
  2. One coordinate: `arrives_within_iff`, the arithmetic of packing at one size and unpacking at
     another, against the size now.
  3. Which frame it was: `Delta.TagMirror`, with the sizes as the tag; `ResizedClient` is its
     instance at a connection.
  4. `suit_of_oneSize` is a readable class of lists that meet the condition, `resize_fails` the run
     in which a rerender does not help.
-/
import Nxdb.Broadcast

namespace Nxdb

open Lib

variable {P : Platform} {font : List UInt8}

/-- The sizes a frame was packed and unpacked with. -/
structure Sizes where
  packedAt : ImVec2
  unpackedAt : ImVec2
deriving DecidableEq

/-- The vertex positions of a list, as they arrive. -/
def arrivingPositions (P : Platform) (sizes : Sizes) (l : ImDrawList) : List ImVec2 :=
  l.vtxBuffer.map fun v => (unpackVert sizes.unpackedAt (packVert P sizes.packedAt v)).pos

/-- The positions of a list, which is all that depends on the sizes here. -/
def ImDrawList.positions (l : ImDrawList) : List ImVec2 := l.vtxBuffer.map ImDrawVert.pos

/-- What becomes of them depends on the two sizes and the list, and not on the texture. -/
theorem positions_rebuild (packedAt : ImVec2) (io : ClientIo) (l : ImDrawList) :
    (rebuild P packedAt io l).positions = arrivingPositions P ⟨packedAt, io.displaySize⟩ l := by
  rw [ImDrawList.positions, rebuild_vtxBuffer, List.map_map]
  rfl

/-- The frames a client handled with their sizes, newest first. -/
def History.resized (h : History) : List (Sizes × List ImDrawList) :=
  h.handled.map fun g => (⟨g.packedAt, g.unpackedAt⟩, g.frame.lists)

/-- One axis: a coordinate packed on a display of length `packedAt` and unpacked on one of length
    `unpackedAt` is less than a quantum off on a display of length `size`.  Both sides are
    multiplied by 4095. -/
def LandsWithin (packedAt unpackedAt size x : ℚ) : Prop :=
  |quantise packedAt 4095 (clamp x 0 packedAt) * unpackedAt - 4095 * clamp x 0 size| < size

instance (packedAt unpackedAt size x : ℚ) : Decidable (LandsWithin packedAt unpackedAt size x) := by
  unfold LandsWithin
  infer_instance

/-- A frame of these sizes brings the vertex to within a quantum on a display of size `size`. -/
def Sizes.Suit (sizes : Sizes) (size : ImVec2) (v : ImDrawVert) : Prop :=
  LandsWithin sizes.packedAt.x sizes.unpackedAt.x size.x v.pos.x ∧
    LandsWithin sizes.packedAt.y sizes.unpackedAt.y size.y v.pos.y

instance (sizes : Sizes) (size : ImVec2) (v : ImDrawVert) : Decidable (sizes.Suit size v) := by
  unfold Sizes.Suit
  infer_instance

/-- The frame that last changed the list `l` at index `i` was of sizes that suit its vertices. -/
def LastChangeSuits (size : ImVec2) (h : History) (i : Nat) (l : ImDrawList) : Prop :=
  ∃ sizes, Delta.lastChange i h.resized = some sizes ∧ ∀ v ∈ l.vtxBuffer, sizes.Suit size v

/-- The client connected before the first frame: the table had its initial value everywhere. -/
def ConnectedFirst (h : History) : Prop := ∀ i, i < sMaxDrawLists → h.connectTable i = some 0

instance (h : History) : Decidable (ConnectedFirst h) := by unfold ConnectedFirst; infer_instance

/-- The position is that of the server's vertex, clamped to the display, to within a quantum. -/
def PosWithin (size : ImVec2) (src dst : ImDrawVert) : Prop :=
  |dst.pos.x - clamp src.pos.x 0 size.x| < size.x / 4095 ∧
    |dst.pos.y - clamp src.pos.y 0 size.y| < size.y / 4095

instance (size : ImVec2) (src dst : ImDrawVert) : Decidable (PosWithin size src dst) := by
  unfold PosWithin
  infer_instance

/-- The client shows every vertex of the frame to within a quantum of its own display. -/
def ShowsPositions (c : ClientProcess) (f : Frame) : Prop :=
  ∃ d, c.statics.sDrawData = some d ∧
    List.Forall₂ (fun src dst => List.Forall₂ (PosWithin c.displaySize) src.vtxBuffer dst.vtxBuffer)
      f.lists d.cmdLists

/-! ## One list

  `LandsWithin` is an inequality on one axis, of the coordinate and three lengths: those that it was
  packed and unpacked with and the client's own.  It says exactly when the coordinate arrives within
  a quantum (`arrives_within_iff`), and so for a vertex and for a list. -/

/-- Less than a quantum below is less than a quantum off. -/
theorem abs_lt_of_withinBelow {quantum src dst : ℚ} (h : WithinBelow quantum src dst) :
    |dst - src| < quantum := by
  obtain ⟨hle, hlt⟩ := h
  rw [abs_lt]
  constructor
  · linarith
  · linarith

/-- A clamped coordinate scales to `[0, 4095]`, also on a display of length 0 or less. -/
theorem scale_clamp_mem (v s : ℚ) :
    0 ≤ scale (clamp v 0 s) s 4095 ∧ scale (clamp v 0 s) s 4095 ≤ 4095 := by
  rcases lt_or_ge 0 s with hs | hs
  · obtain ⟨h0, h1⟩ := clamp_mem (v := v) hs.le
    exact_mod_cast scaled_mem (N := 4095) hs h0 h1
  · -- the clamp yields one of its two ends
    have hends : clamp v 0 s = 0 ∨ clamp v 0 s = s := by
      rw [clamp]
      split
      · exact Or.inl rfl
      · split
        · exact Or.inr rfl
        · exact Or.inl (le_antisymm (by linarith) (by linarith))
    rcases hends with h | h
    · rw [h, scale, zero_div, zero_mul]
      exact ⟨le_rfl, by norm_num⟩
    · rcases eq_or_ne s 0 with h0 | h0
      · rw [h, scale, h0, div_zero, zero_mul]
        exact ⟨le_rfl, by norm_num⟩
      · rw [h, scale, div_self h0, one_mul]
        exact ⟨by norm_num, by norm_num⟩

/-- One axis: where the coordinate arrives is within a quantum iff `LandsWithin` says so. -/
theorem arrives_within_iff (packedAt unpackedAt size x : ℚ) :
    |unscale (toField12 P (scale (clamp x 0 packedAt) packedAt 4095)) 4095 unpackedAt
        - clamp x 0 size| < size / 4095 ↔
      LandsWithin packedAt unpackedAt size x := by
  obtain ⟨h0, h1⟩ := scale_clamp_mem x packedAt
  have hfield : (toField12 P (scale (clamp x 0 packedAt) packedAt 4095)).toNat =
      quantise packedAt 4095 (clamp x 0 packedAt) := toNat_toField12 P h0 h1
  have hpos : (0 : ℚ) < 4095 := by norm_num
  have hmul : (quantise packedAt 4095 (clamp x 0 packedAt) : ℚ) * unpackedAt
        - 4095 * clamp x 0 size =
      ((quantise packedAt 4095 (clamp x 0 packedAt) : ℚ) / (4095 : ℕ) * unpackedAt
        - clamp x 0 size) * 4095 := by
    push_cast
    ring
  rw [unscale, hfield, LandsWithin, hmul, abs_mul, abs_of_pos hpos]
  exact lt_div_iff₀ hpos

/-- **One vertex** is shown to within a quantum iff the sizes of its frame suit it. -/
theorem posWithin_iff_suit (sizes : Sizes) (size : ImVec2) {v w : ImDrawVert}
    (h : w.pos = (unpackVert sizes.unpackedAt (packVert P sizes.packedAt v)).pos) :
    PosWithin size v w ↔ sizes.Suit size v := by
  rw [PosWithin, h]
  exact and_congr (arrives_within_iff sizes.packedAt.x sizes.unpackedAt.x size.x v.pos.x)
    (arrives_within_iff sizes.packedAt.y sizes.unpackedAt.y size.y v.pos.y)

/-- All vertices of a list arrive to within a quantum iff the sizes suit them. -/
theorem forall₂_posWithin_iff {sizes : Sizes} {size : ImVec2} {src dst : List ImDrawVert}
    (h : dst.map ImDrawVert.pos =
      src.map fun v => (unpackVert sizes.unpackedAt (packVert P sizes.packedAt v)).pos) :
    List.Forall₂ (PosWithin size) src dst ↔ ∀ v ∈ src, sizes.Suit size v := by
  induction src generalizing dst with
  | nil =>
    rw [List.map_eq_nil_iff.mp h]
    exact ⟨fun _ v hv => absurd hv List.not_mem_nil, fun _ => List.Forall₂.nil⟩
  | cons v src ih =>
    obtain ⟨w, dst, rfl, hpos, hrest⟩ := List.map_eq_cons_iff.mp h
    rw [List.forall₂_cons, ih hrest, posWithin_iff_suit sizes size hpos, List.forall_mem_cons]

/-- **A class that suits**: packed and unpacked on one display, not longer than the client's, that
    clamps the coordinate as the client's does (it is the same or the coordinate lies on it). -/
theorem landsWithin_of_oneSize {packedAt size x : ℚ} (hpos : 0 < packedAt) (hle : packedAt ≤ size)
    (hclamp : clamp x 0 packedAt = clamp x 0 size) : LandsWithin packedAt packedAt size x := by
  rw [← arrives_within_iff (P := Platform.lp64), ← hclamp]
  obtain ⟨hwithin, -, -⟩ := unscale_posField Platform.lp64 hpos x
  refine lt_of_lt_of_le (abs_lt_of_withinBelow hwithin) ?_
  exact div_le_div_of_nonneg_right hle (by norm_num)

/-- The same for both axes of a vertex. -/
theorem suit_of_oneSize {packedAt size : ImVec2} {v : ImDrawVert} (hx : 0 < packedAt.x)
    (hy : 0 < packedAt.y) (hlex : packedAt.x ≤ size.x) (hley : packedAt.y ≤ size.y)
    (hclamp : clampVert packedAt v = clampVert size v) :
    (⟨packedAt, packedAt⟩ : Sizes).Suit size v := by
  have hpos := congrArg ImDrawVert.pos hclamp
  exact ⟨landsWithin_of_oneSize hx hlex (congrArg ImVec2.x hpos),
    landsWithin_of_oneSize hy hley (congrArg ImVec2.y hpos)⟩

/-! ## Whole runs

  By `TagMirror` of `Lib/Delta` the client shows of each list what the frame that changed it last
  has brought, with the sizes of that frame.  So what is shown is within a quantum iff these sizes
  suit the vertices; when they do is a matter of arithmetic, and of the order in which sizes and
  frames cross. -/

/-- What a client holds of the frames it has handled: each list's positions as the frame that last
    changed it brought them. -/
def ResizedClient (P : Platform) (c : Remote) : Prop :=
  Delta.TagMirror (arrivingPositions P) c.history.resized (c.process.prev.map ImDrawList.positions)

/-- The newest frame of the history is the last one handled. -/
theorem newest_resized (h : History) : Delta.newest h.resized = Delta.last h.handledLists := by
  rw [Delta.newest, Delta.last, History.resized, History.handledLists, List.head?_map,
    List.getLast?_map, List.getLast?_reverse, Option.map_map]
  rfl

/-- One more frame, of as many lists as the others. -/
theorem ResizedClient.handled {S : ImDrawList → Prop} {n : Nat}
    (hinj : Delta.KeyInj (hashImDrawList P) S) (hne : ∀ l, S l → hashImDrawList P l ≠ 0)
    {past : List Frame} {t : Delta.Table UInt32} {last : Option SentFrame} {c : Remote}
    (hlink : Linked P past t last c) (hresized : ResizedClient P c)
    (hfirst : ConnectedFirst c.history)
    (hpast : ∀ f ∈ past, f.lists.length = n ∧ ∀ l ∈ f.lists, S l) {payload : List UInt8}
    {rest : List Packet} {texId : Nat} {u : UnpackResult}
    (hqueue : c.toClient = ⟨.drawData, payload⟩ :: rest)
    (hunpack : unpackDrawData ⟨c.process.displaySize, texId⟩ (Mem.ofList payload) payload.length
      c.process.statics = some u) :
    ResizedClient P { c with
      toClient := rest
      process := { c.process with statics := u.st }
      history := Remote.recordHandled c.history c.process.displaySize } := by
  obtain ⟨f, fs, hpending, -, hst, hlists⟩ := hlink.receives hqueue hunpack
  have hnew := hpast f.frame (hlink.pending_mem (hpending ▸ List.mem_cons_self))
  have hold : ∀ a ∈ Delta.newest c.history.resized, S a := by
    intro a ha
    rw [newest_resized] at ha
    obtain ⟨g, hg, hag⟩ := hlink.mem_last ha
    exact (hpast g hg).2 a hag
  have hlen : c.history.resized ≠ [] →
      (Delta.newest c.history.resized).length = f.frame.lists.length := by
    intro hnil
    cases hhandled : c.history.handled with
    | nil => exact absurd (by rw [History.resized, hhandled]; rfl) hnil
    | cons g gs =>
      have hg : g.frame ∈ past := hlink.handled_mem (hhandled ▸ List.mem_cons_self)
      rw [History.resized, hhandled]
      exact (hpast g.frame hg).1.trans hnew.1.symm
  -- the first frame is sent in full, because no list hashes to the table's initial value
  have hstart : c.history.resized = [] → ∀ (i : Nat) (a : ImDrawList), f.frame.lists[i]? = some a →
      c.clientTable P i ≠ some (hashImDrawList P a) := by
    intro hnil i a ha
    have hhandled : c.history.handled = [] := List.map_eq_nil_iff.mp hnil
    have hi : i < sMaxDrawLists :=
      Nat.lt_of_lt_of_le (List.getElem?_eq_some_iff.mp ha).1 f.frame.length_lists_le
    have hzero : c.clientTable P i = some 0 := by
      rw [Remote.clientTable, History.handledLists, hhandled]
      exact hfirst i hi
    rw [hzero]
    exact fun heq => hne a (hnew.2 a (List.mem_of_getElem? ha)) (Option.some.inj heq).symm
  have htable : ∀ (i : Nat) (a : ImDrawList), (Delta.newest c.history.resized)[i]? = some a →
      c.clientTable P i = some (hashImDrawList P a) := by
    intro i a ha
    rw [newest_resized] at ha
    exact Delta.stores_of_last ha
  have hstep : Delta.TagMirror (arrivingPositions P)
      ((⟨f.packedAt, c.process.displaySize⟩, f.frame.lists) :: c.history.resized) _ :=
    Delta.TagMirror.receive (d := []) hinj hresized hlen hold hnew.2 hstart htable
  have hhist : (Remote.recordHandled c.history c.process.displaySize).resized =
      (⟨f.packedAt, c.process.displaySize⟩, f.frame.lists) :: c.history.resized := by
    rw [Remote.recordHandled, hpending]
    rfl
  have hprev : u.st.sDrawDataPrev.getD [] = u.drawData.cmdLists := by rw [hst]; rfl
  show Delta.TagMirror _ (Remote.recordHandled c.history c.process.displaySize).resized
    ((u.st.sDrawDataPrev.getD []).map _)
  rw [hhist, hprev, hlists, Delta.map_receive]
  simp only [positions_rebuild]
  exact hstep

/-- **Every client of every run** that was there before the first frame. -/
theorem resizedClient {S : ImDrawList → Prop} (n : Nat)
    (hinj : Delta.KeyInj (hashImDrawList P) S) (hne : ∀ l, S l → hashImDrawList P l ≠ 0) :
    ClientInvariant P font fun past t last c =>
      Linked P past t last c ∧
        (ConnectedFirst c.history →
          (∀ f ∈ past, f.lists.length = n ∧ ∀ l ∈ f.lists, S l) → ResizedClient P c) where
  connect past t last displaySize :=
    ⟨(linked P font).connect past t last displaySize, fun _ _ => Delta.TagMirror.init⟩
  idle past t last c c' h hsame := by
    refine ⟨(linked P font).idle past t last c c' h.1 hsame, fun hfirst hpast => ?_⟩
    rw [ConnectedFirst, hsame.connectTable] at hfirst
    have hresized := h.2 hfirst hpast
    rw [ResizedClient, ClientProcess.prev, History.resized] at hresized ⊢
    rw [hsame.statics, hsame.handled]
    exact hresized
  unsent past t last c f h := by
    refine ⟨(linked P font).unsent past t last c f h.1, fun hfirst hpast => ?_⟩
    exact h.2 hfirst fun g hg => hpast g (List.mem_append_left _ hg)
  sent past t last c f displaySize h := by
    refine ⟨(linked P font).sent past t last c f displaySize h.1, fun hfirst hpast => ?_⟩
    exact h.2 hfirst fun g hg => hpast g (List.mem_append_left _ hg)
  handled past t last c payload rest texId u h hqueue hunpack := by
    refine ⟨(linked P font).handled past t last c payload rest texId u h.1 hqueue hunpack,
      fun hfirst hpast => ?_⟩
    rw [ConnectedFirst, connectTable_recordHandled] at hfirst
    exact ResizedClient.handled hinj hne h.1 (h.2 hfirst hpast) hfirst hpast hqueue hunpack

/-- **Resize and delta encoding.**  In every run of frames with one number of lists and distinct,
    non-zero hashes for distinct lists, for every client that was connected before the first frame
    and was sent one: once all draw data have arrived, the client shows every vertex of the last
    frame to within a quantum iff each of its lists was last changed in a frame of sizes that suit
    its vertices. -/
theorem resize_settled (events : List Event) {s : System} {n : Nat}
    (hrun : run (System.step P font) System.init events = some s)
    (hinj : Delta.KeyInj (hashImDrawList P) fun l => ∃ f ∈ framesOf events, l ∈ f.lists)
    (hne : ∀ f ∈ framesOf events, ∀ l ∈ f.lists, hashImDrawList P l ≠ 0)
    (hconst : ∀ f ∈ framesOf events, f.lists.length = n) {c : Remote} (hc : c ∈ s.mClients)
    (hfirst : ConnectedFirst c.history) (hsent : c.history.sent ≠ [])
    (hclient : c.drawDataInFlight = []) :
    ∃ f, s.lastFrame = some f ∧
      (ShowsPositions c.process f.frame ↔
        ∀ i l, f.frame.lists[i]? = some l →
          LastChangeSuits c.process.displaySize c.history i l) := by
  obtain ⟨hlink, hresized⟩ := (resizedClient n hinj
    fun l ⟨f, hf, hl⟩ => hne f hf l hl).reachable events hrun hc
  replace hresized := hresized hfirst fun f hf => ⟨hconst f hf, fun l hl => ⟨f, hf, hl⟩⟩
  obtain ⟨f, d, hf, hlast, hd⟩ := hlink.caughtUp hclient hsent
  have hnewest : Delta.newest c.history.resized = f.frame.lists := by rw [newest_resized, hlast]
  have hprev : c.process.prev = d.cmdLists := by rw [ClientProcess.prev, hd]; rfl
  have hlen := hresized.length_eq
  rw [hnewest, List.length_map, hprev] at hlen
  -- the list shown at an index is the frame's, at the sizes of the last change
  have hshown : ∀ i (hi : i < f.frame.lists.length) (hi' : i < d.cmdLists.length),
      List.Forall₂ (PosWithin c.process.displaySize) f.frame.lists[i].vtxBuffer
          d.cmdLists[i].vtxBuffer ↔
        LastChangeSuits c.process.displaySize c.history i f.frame.lists[i] := by
    intro i hi hi'
    have hget : (Delta.newest c.history.resized)[i]? = some f.frame.lists[i] := by
      rw [hnewest]
      exact List.getElem?_eq_getElem hi
    obtain ⟨sizes, htag, hview⟩ := hresized.shown i _ hget
    rw [hprev, List.getElem?_map, List.getElem?_eq_getElem hi', Option.map_some,
      Option.some.injEq] at hview
    rw [forall₂_posWithin_iff hview]
    constructor
    · exact fun h => ⟨sizes, htag, h⟩
    · rintro ⟨sizes', htag', h⟩
      rwa [Option.some.inj (htag.symm.trans htag')]
  refine ⟨f, hf, ?_⟩
  constructor
  · rintro ⟨d', hd', hall⟩ i l hl
    rw [hd, Option.some.injEq] at hd'
    subst hd'
    obtain ⟨hi, rfl⟩ := List.getElem?_eq_some_iff.mp hl
    have hi' : i < d.cmdLists.length := hlen ▸ hi
    exact (hshown i hi hi').mp ((List.forall₂_iff_get.mp hall).2 i hi hi')
  · intro hsuits
    refine ⟨d, by rw [hd], List.forall₂_iff_get.mpr ⟨hlen.symm, fun i hi hi' => ?_⟩⟩
    exact (hshown i hi hi').mpr (hsuits i _ (List.getElem?_eq_getElem hi))

/-- The green triangle is packed and unpacked at 1536x768, and is left alone when the window grows
    to 1600x900. -/
def growThenKeep : List Event :=
  [.connect ⟨1280, 720⟩, .frame (triangles [1] one_fits), .handle 0 1, .handle 0 2,
   .tick 0 ⟨1536, 768⟩, .receive 0, .frame (triangles [2] one_fits), .handle 0 2,
   .tick 0 ⟨1600, 900⟩, .receive 0, .frame (triangles [2] one_fits), .handle 0 2]

/-- The green triangle is in flight when the window is halved, and is packed again after that. -/
def changeThenResize : List Event :=
  [.connect ⟨1280, 720⟩, .frame (triangles [1] one_fits), .handle 0 1, .handle 0 2,
   .frame (triangles [2] one_fits), .tick 0 ⟨640, 360⟩, .handle 0 2, .receive 0,
   .frame (triangles [2] one_fits), .handle 0 2]

/-- A frame of one red or green list. -/
theorem isRedOrGreen_single {c : UInt32} {h : [c].length ≤ sMaxDrawLists} (hc : c = 1 ∨ c = 2) :
    (triangles [c] h).lists.length = 1 ∧ ∀ l ∈ (triangles [c] h).lists, IsRedOrGreen l := by
  refine ⟨rfl, fun l hl => isRedOrGreen_of_mem hl fun b hb => ?_⟩
  rw [List.mem_singleton.mp hb]
  exact hc

/-- The frames of both runs. -/
theorem frames_redGreenGreen {f : Frame}
    (h : f ∈ [triangles [1] one_fits, triangles [2] one_fits, triangles [2] one_fits]) :
    f.lists.length = 1 ∧ ∀ l ∈ f.lists, IsRedOrGreen l := by
  simp only [List.mem_cons, List.not_mem_nil, or_false, or_self] at h
  rcases h with rfl | rfl
  · exact isRedOrGreen_single (Or.inl rfl)
  · exact isRedOrGreen_single (Or.inr rfl)

theorem resize_settled_growThenKeep : ∃ s c f,
    run (System.step Platform.lp64 []) System.init growThenKeep = some s ∧ c ∈ s.mClients ∧
      s.lastFrame = some f ∧ c.process.displaySize = ⟨1600, 900⟩ ∧
      ShowsPositions c.process f.frame := by
  have hrun : ((run (System.step Platform.lp64 []) System.init growThenKeep).bind fun s =>
      s.mClients[0]?.bind fun c => s.lastFrame.map fun f =>
        decide (ConnectedFirst c.history ∧ c.history.sent.length = 3 ∧
          c.drawDataInFlight = [] ∧ c.process.displaySize = ⟨1600, 900⟩ ∧
          f.frame.lists = [triangle 2] ∧
          Delta.lastChange 0 c.history.resized = some ⟨⟨1536, 768⟩, ⟨1536, 768⟩⟩)) =
        some true := by
    decide +kernel
  obtain ⟨s, hs, hrun⟩ := Option.bind_eq_some_iff.mp hrun
  obtain ⟨c, hc, hrun⟩ := Option.bind_eq_some_iff.mp hrun
  obtain ⟨f, hf, hrun⟩ := Option.map_eq_some_iff.mp hrun
  obtain ⟨hfirst, hsent, hclient, hsize, hlists, hchanged⟩ := of_decide_eq_true hrun
  obtain ⟨g, hg, hshows⟩ := resize_settled growThenKeep (n := 1) hs
    (keyInj_redOrGreen.mono fun l ⟨f, hf, hl⟩ => (frames_redGreenGreen hf).2 l hl)
    (fun f hf l hl => hash_redOrGreen ((frames_redGreenGreen hf).2 l hl))
    (fun f hf => (frames_redGreenGreen hf).1) (List.mem_of_getElem? hc) hfirst
    (fun hnil => by rw [hnil] at hsent; exact absurd hsent (by decide)) hclient
  have hgf : g = f := Option.some.inj (hg.symm.trans hf)
  subst hgf
  refine ⟨s, c, g, hs, List.mem_of_getElem? hc, hg, hsize, hshows.mpr fun i l hl => ?_⟩
  rw [hlists, List.getElem?_singleton] at hl
  split at hl
  · subst i
    refine ⟨_, hchanged, fun v hv => ?_⟩
    cases Option.some.inj hl
    rw [hsize]
    have hclamp : ∀ v ∈ (triangle 2).vtxBuffer,
        clampVert ⟨1536, 768⟩ v = clampVert ⟨1600, 900⟩ v := by decide +kernel
    exact suit_of_oneSize (by decide) (by decide) (by decide +kernel) (by decide +kernel)
      (hclamp v hv)
  · exact absurd hl (by simp)

/-- The green triangle stays at half its coordinates. -/
theorem resize_fails :
    Delta.KeyInj (hashImDrawList Platform.lp64)
        (fun l => ∃ f ∈ framesOf changeThenResize, l ∈ f.lists) ∧
      (∀ f ∈ framesOf changeThenResize, ∀ l ∈ f.lists, hashImDrawList Platform.lp64 l ≠ 0) ∧
      (∀ f ∈ framesOf changeThenResize, f.lists.length = 1) ∧
      ∃ s c f, run (System.step Platform.lp64 []) System.init changeThenResize = some s ∧
        c ∈ s.mClients ∧ ConnectedFirst c.history ∧ c.toServer = [] ∧ c.toClient = [] ∧
        s.lastFrame = some f ∧ f.packedAt = c.process.displaySize ∧
        ¬ ShowsPositions c.process f.frame := by
  refine ⟨keyInj_redOrGreen.mono fun l ⟨f, hf, hl⟩ => (frames_redGreenGreen hf).2 l hl,
    fun f hf l hl => hash_redOrGreen ((frames_redGreenGreen hf).2 l hl),
    fun f hf => (frames_redGreenGreen hf).1, ?_⟩
  have hrun : ((run (System.step Platform.lp64 []) System.init changeThenResize).bind fun s =>
      s.mClients[0]?.bind fun c => s.lastFrame.bind fun f => c.process.statics.sDrawData.map
        fun d => decide (ConnectedFirst c.history ∧ c.toServer.length = 0 ∧ c.toClient = [] ∧
          f.packedAt = c.process.displaySize ∧
          ¬ List.Forall₂ (fun src dst =>
              List.Forall₂ (PosWithin c.process.displaySize) src.vtxBuffer dst.vtxBuffer)
            f.frame.lists d.cmdLists)) = some true := by decide +kernel
  obtain ⟨s, hs, hrun⟩ := Option.bind_eq_some_iff.mp hrun
  obtain ⟨c, hc, hrun⟩ := Option.bind_eq_some_iff.mp hrun
  obtain ⟨f, hf, hrun⟩ := Option.bind_eq_some_iff.mp hrun
  obtain ⟨d, hd, hrun⟩ := Option.map_eq_some_iff.mp hrun
  obtain ⟨hfirst, hserver, hclient, hpacked, hwrong⟩ := of_decide_eq_true hrun
  refine ⟨s, c, f, hs, List.mem_of_getElem? hc, hfirst, List.length_eq_zero_iff.mp hserver, hclient,
    hf, hpacked, ?_⟩
  rintro ⟨d', hd', hall⟩
  rw [hd] at hd'
  exact hwrong (Option.some.inj hd' ▸ hall)

end Nxdb
