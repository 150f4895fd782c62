/-
  One client from the first frame on: does the delta encoding keep it in step?

  A `Session` is the server's hash table and the client's previous frame; `exchange` packs a frame
  and unpacks its bytes.  What the client must agree on is the `shape` of a list: its indices, its
  vertex colours and the number of its commands.

  The table keeps the hashes of a longer frame when a shorter one follows, the client does not keep
  its lists.  So a list that comes back behind the end of the previous frame, at the index where
  the server has seen it last, is marked as unchanged and arrives empty; the server stores the
  number of lists it packed (`sNumPrevDrawLists`) and never looks at it.  `deltaMirror_iff` says
  that nothing else goes wrong: a run mirrors every frame iff every list behind the previous
  frame's end differs from the one stored there.
-/
import Nxdb.Codec
import Nxdb.Lib.Run

namespace Nxdb

open Lib

/-! ## The part of a list both sides must agree on

  Sizes are left out, so the result is the same for clients of any size: `rebuild` keeps the shape
  whatever it divides and multiplies by (`shape_rebuild`). -/

/-- What is compared of a list: all that does not depend on the display size. -/
structure ListShape where
  idxBuffer : List UInt16
  colours : List UInt32
  cmdCount : Nat
deriving DecidableEq

/-- The shape of a list. -/
def ImDrawList.shape (l : ImDrawList) : ListShape where
  idxBuffer := l.idxBuffer
  colours := l.vtxBuffer.map ImDrawVert.col
  cmdCount := l.cmdBuffer.length

/-- A list that is not empty does not look like the empty one. -/
theorem shape_ne_empty {l : ImDrawList} (h : l.NonEmpty) : l.shape ≠ ImDrawList.empty.shape := by
  intro heq
  obtain ⟨hidx, hcol, hcmd⟩ := ListShape.mk.inj heq
  refine h ⟨hcmd, ?_, by rw [hidx]; rfl⟩
  rw [← List.length_map (f := ImDrawVert.col), hcol]
  rfl

/-- The client shows as many lists as the frame has, each of the shape of the frame's. -/
def Mirrors (client : DrawDataStatics) (f : Frame) : Prop :=
  ∃ d, client.sDrawData = some d ∧ d.cmdLists.map ImDrawList.shape = f.lists.map ImDrawList.shape

variable (P : Platform)

/-- Packing and unpacking keep the shape, at any sizes. -/
theorem shape_rebuild (displaySize : ImVec2) (io : ClientIo) (l : ImDrawList) :
    (rebuild P displaySize io l).shape = l.shape := by
  rw [ImDrawList.shape, rebuild_idxBuffer, rebuild_colours, length_rebuild_cmdBuffer]
  rfl

/-! ## A session

  `exchange_spec` says what a frame does to the two ends, as `Delta.store` on the one and
  `Delta.receive` on the other; from there on it is the library's theory of one sender and one
  receiver, with the lists of the run as the domain on which hashes tell apart. -/

/-- The two ends: the table of hashes and the client's lists. -/
structure Session where
  server : PackState
  client : DrawDataStatics

namespace Session

/-- Nothing has been sent. -/
def init : Session := ⟨PackState.init, DrawDataStatics.init⟩

/-- The lists of the client's previous frame, none before the first. -/
def prev (s : Session) : List ImDrawList := s.client.sDrawDataPrev.getD []

end Session

/-- One frame from the server to the client, whose atlas texture at that moment is the second part
    of the input. -/
def exchange (displaySize : ImVec2) (s : Session) (i : Frame × Nat) : Option Session := do
  let r ← packImDrawData P displaySize i.1.mouseCursor s.server i.1.data
  let u ← unpackDrawData ⟨displaySize, i.2⟩ (Mem.ofList r.out) r.out.length s.client
  return ⟨r.st, u.st⟩

/-- **The exchange.**  It always succeeds; the table stores the frame, the client receives it. -/
theorem exchange_spec (displaySize : ImVec2) (s : Session) (i : Frame × Nat) :
    ∃ s' d, exchange P displaySize s i = some s' ∧
      tableOf s'.server.sPrevDrawListHashes =
        Delta.store (hashImDrawList P) (tableOf s.server.sPrevDrawListHashes) i.1.lists ∧
      s'.server.sNumPrevDrawLists = i.1.lists.length ∧
      s'.client = ⟨some d.cmdLists, some d⟩ ∧
      d.cmdLists = Delta.receive (hashImDrawList P) (rebuild P displaySize ⟨displaySize, i.2⟩)
        ImDrawList.empty (tableOf s.server.sPrevDrawListHashes) s.prev i.1.lists := by
  obtain ⟨r, hpack, hout, htab, hnum⟩ := packImDrawData_frame P displaySize s.server i.1
  have hmem : (Mem.ofList r.out).Holds 0
      (packedFrame P displaySize (tableOf s.server.sPrevDrawListHashes) i.1).bytes := by
    rw [← hout]
    exact Mem.holds_ofList r.out
  obtain ⟨u, hunpack, hlists, -, hst, -⟩ :=
    unpackDrawData_eq ⟨displaySize, i.2⟩ r.out.length s.client hmem
  rw [lists_packedFrame] at hlists
  refine ⟨⟨r.st, u.st⟩, u.drawData, ?_, htab, hnum, hst, hlists⟩
  rw [exchange, hpack, Option.bind_eq_bind, Option.bind_some, hunpack]
  rfl

/-- Every list at an index the previous frame did not have differs from the one stored there. -/
def FreshBehind (server : PackState) (f : Frame) : Prop :=
  ∀ i l, f.lists[i]? = some l → server.sNumPrevDrawLists ≤ i →
    server.sPrevDrawListHashes[i]? ≠ some (hashImDrawList P l)

/-- The lists that occur in a run. -/
def InRun (frames : List (Frame × Nat)) (l : ImDrawList) : Prop := ∃ i ∈ frames, l ∈ i.1.lists

/-- What a run maintains as long as every frame is mirrored. -/
structure InStep (frames : List (Frame × Nat)) (s : Session) (rest : List (Frame × Nat)) :
    Prop where
  mirror : Delta.Mirror (hashImDrawList P) ImDrawList.shape (InRun frames)
    (tableOf s.server.sPrevDrawListHashes) (s.prev.map ImDrawList.shape)
  count : s.server.sNumPrevDrawLists = s.prev.length
  rest : ∀ i ∈ rest, i ∈ frames

/-- Before the first frame the two are in step. -/
theorem inStep_init (frames : List (Frame × Nat)) : InStep P frames Session.init frames where
  mirror := fun _ h => absurd h (Nat.not_lt_zero _)
  count := rfl
  rest := fun _ h => h

section Step

variable {P} {displaySize : ImVec2} {frames : List (Frame × Nat)} {s s' : Session}
  {i : Frame × Nat} {rest : List (Frame × Nat)}

/-- A frame is mirrored iff it is fresh behind the previous one. -/
theorem InStep.mirrors_iff (hinj : Delta.KeyInj (hashImDrawList P) (InRun frames))
    (h : InStep P frames s (i :: rest)) (hstep : exchange P displaySize s i = some s') :
    Mirrors s'.client i.1 ↔ FreshBehind P s.server i.1 := by
  obtain ⟨s₁, d, hs₁, -, -, hclient, hd⟩ := exchange_spec P displaySize s i
  have hs' : s₁ = s' := Option.some.inj (hs₁.symm.trans hstep)
  subst hs'
  have hrun : ∀ l ∈ i.1.lists, InRun frames l := fun l hl => ⟨i, h.rest i List.mem_cons_self, hl⟩
  have hshape : d.cmdLists.map ImDrawList.shape = Delta.receive (hashImDrawList P) ImDrawList.shape
      ImDrawList.empty.shape (tableOf s.server.sPrevDrawListHashes) (s.prev.map ImDrawList.shape)
      i.1.lists := by
    rw [hd, Delta.map_receive]
    simp only [shape_rebuild]
  have hiff := Delta.receive_eq_iff hinj h.mirror hrun
    fun l hl => shape_ne_empty (i.1.nonEmpty l hl)
  rw [← hshape, List.length_map, ← h.count] at hiff
  rw [Mirrors, hclient]
  constructor
  · rintro ⟨d', hd', hmir⟩
    exact hiff.mp (Option.some.inj hd' ▸ hmir)
  · exact fun hfresh => ⟨d, rfl, hiff.mpr hfresh⟩

/-- A mirrored frame leaves the two sides in step. -/
theorem InStep.exchange (h : InStep P frames s (i :: rest))
    (hstep : Nxdb.exchange P displaySize s i = some s') (hmir : Mirrors s'.client i.1) :
    InStep P frames s' rest := by
  obtain ⟨s₁, d, hs₁, htab, hnum, hclient, hd⟩ := exchange_spec P displaySize s i
  have hs' : s₁ = s' := Option.some.inj (hs₁.symm.trans hstep)
  subst hs'
  have hprev : s₁.prev = d.cmdLists := by rw [Session.prev, hclient]; rfl
  refine ⟨?_, ?_, fun j hj => h.rest j (List.mem_cons_of_mem _ hj)⟩
  · obtain ⟨d', hd', hshape⟩ := hmir
    rw [hclient] at hd'
    rw [hprev, htab, Option.some.inj hd', hshape]
    exact Delta.mirror_store fun l hl => ⟨i, h.rest i List.mem_cons_self, hl⟩
  · rw [hnum, hprev, hd, Delta.length_receive]

end Step

/-- **Delta mirror.**  For every run of frames whose distinct lists have distinct hashes, whatever
    the client's atlas texture does meanwhile: every frame is mirrored iff every frame is fresh
    behind the one before. -/
theorem deltaMirror_iff (displaySize : ImVec2) (frames : List (Frame × Nat))
    (hinj : Delta.KeyInj (hashImDrawList P) (InRun frames)) :
    Along (exchange P displaySize) (fun _ i s' => Mirrors s'.client i.1) Session.init frames ↔
      Along (exchange P displaySize) (fun s i _ => FreshBehind P s.server i.1) Session.init
        frames :=
  along_iff (InStep P frames) (fun _ _ _ _ h hstep => h.mirrors_iff hinj hstep)
    (fun _ _ _ _ h hstep hfresh => h.exchange hstep ((h.mirrors_iff hinj hstep).mpr hfresh))
    frames (inStep_init P frames)

/-- Red and green, then red alone. -/
def shrink : List (Frame × Nat) :=
  [(triangles [1, 2] two_fit, 1), (triangles [1] one_fits, 1)]

/-- Then both again. -/
def growAgain : Frame × Nat := (triangles [1, 2] two_fit, 1)

/-- All lists of the example are red or green. -/
theorem isRedOrGreen_of_inRun {l : ImDrawList} (h : InRun (shrink ++ [growAgain]) l) :
    IsRedOrGreen l := by
  obtain ⟨i, hi, hl⟩ := h
  simp only [shrink, growAgain, List.cons_append, List.nil_append, List.mem_cons,
    List.not_mem_nil, or_false] at hi
  rcases hi with rfl | rfl | rfl
  · exact isRedOrGreen_of_mem (h := by decide) hl (by simp)
  · exact isRedOrGreen_of_mem (h := by decide) hl (by simp)
  · exact isRedOrGreen_of_mem (h := by decide) hl (by simp)

theorem deltaMirror_iff_shrinkGrow :
    Along (exchange Platform.lp64 ⟨1280, 720⟩) (fun _ i s' => Mirrors s'.client i.1) Session.init
        (shrink ++ [growAgain]) ↔
      Along (exchange Platform.lp64 ⟨1280, 720⟩)
        (fun s i _ => FreshBehind Platform.lp64 s.server i.1) Session.init
        (shrink ++ [growAgain]) :=
  deltaMirror_iff Platform.lp64 ⟨1280, 720⟩ (shrink ++ [growAgain])
    (keyInj_redOrGreen.mono fun _ => isRedOrGreen_of_inRun)

/-- When the green triangle comes back, the client shows an empty list in its place. -/
theorem deltaMirror_fails :
    Delta.KeyInj (hashImDrawList Platform.lp64) (InRun (shrink ++ [growAgain])) ∧
      (∀ l, InRun (shrink ++ [growAgain]) l → hashImDrawList Platform.lp64 l ≠ 0) ∧
      ¬ Along (exchange Platform.lp64 ⟨1280, 720⟩) (fun _ i s' => Mirrors s'.client i.1)
        Session.init (shrink ++ [growAgain]) := by
  refine ⟨keyInj_redOrGreen.mono fun _ => isRedOrGreen_of_inRun,
    fun l hl => hash_redOrGreen (isRedOrGreen_of_inRun hl), fun h => ?_⟩
  have hshown : ((run (exchange Platform.lp64 ⟨1280, 720⟩) Session.init
      (shrink ++ [growAgain])).bind
        fun t => t.client.sDrawData.map fun d => d.cmdLists.map ImDrawList.shape) =
          some [(triangle 1).shape, ImDrawList.empty.shape] := by decide +kernel
  obtain ⟨s, t, -, hrun, d, hd, hshape⟩ := Along.last shrink h
  rw [hrun, Option.bind_some, hd, Option.map_some, hshape] at hshown
  exact absurd hshown (by decide +kernel)

end Nxdb
