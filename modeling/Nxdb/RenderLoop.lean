/-
  `render`, frame after frame: which changes does the hash of the frame show?

  `calcDrawDataHash` adds the hashes of the lists modulo 2^32, and without a queued rerender a frame
  is sent only if this sum differs from that of the frame rendered before.  The sum shows a change
  of a single list (`showsChange_single`) and no change of their order (`showsChange_perm`).
  `sendsChanged_along_iff` says that nothing else decides: a run sends every changed frame iff,
  whenever the hashes of the lists change and no rerender is queued, their sum does.

  1. Program: `renderDrawData` with the sum of the last frame in `LoopStatics`, and the packets
     that queue a rerender.
  2. `SumStored` ties the sum that is stored to the frame that was rendered last; the theorem is
     then about one step.
  3. What the sum shows is arithmetic modulo 2^32: one summand changes it (`sum_single`), their
     order does not (`sum_perm`).
-/
import Nxdb.ImGuiLoop
import Nxdb.Lib.Run
import Mathlib.Data.List.Perm.Basic
import Mathlib.Data.UInt

namespace Nxdb

open Lib

variable (P : Platform)

/-- The hashes of the lists, in drawing order. -/
def listHashes (data : ImDrawData) : List UInt32 := data.cmdLists.map (hashImDrawList P)

theorem calcDrawDataHash_eq_sum (data : ImDrawData) :
    calcDrawDataHash P data = (listHashes P data).sum := by
  rw [calcDrawDataHash, listHashes, List.sum_eq_foldl, List.foldl_map]

/-- **What `render` decides.**  It stores the new sum, and packs and sends the frame if and only if
    a rerender was queued or the sum is a new one. -/
theorem renderDrawData_spec {mouseCursor : Int32} {data : ImDrawData} {st st' : LoopStatics}
    {out : Option (List UInt8)} (h : renderDrawData P mouseCursor data st = some (st', out)) :
    st'.lastDrawDataHash = calcDrawDataHash P data ∧
      ((∃ r, packImDrawData P st.displaySize mouseCursor st.pack data = some r ∧
          out = some r.out) ↔
        st.sRerender = true ∨ st.lastDrawDataHash ≠ calcDrawDataHash P data) := by
  rw [renderDrawData] at h
  by_cases hsend : st.sRerender = true ∨ st.lastDrawDataHash ≠ calcDrawDataHash P data
  · rw [if_pos hsend, Option.bind_eq_bind, Option.bind_eq_some_iff] at h
    obtain ⟨r, hpack, h⟩ := h
    by_cases hfits : r.out.length ≤ sDrawDataBufferSize
    · rw [if_pos hfits, Option.some.injEq, Prod.mk.injEq] at h
      obtain ⟨rfl, rfl⟩ := h
      exact ⟨rfl, fun _ => hsend, fun _ => ⟨r, hpack, rfl⟩⟩
    · rw [if_neg hfits] at h
      exact absurd h (Option.some_ne_none _).symm
  · rw [if_neg hsend, Option.some.injEq, Prod.mk.injEq] at h
    obtain ⟨rfl, rfl⟩ := h
    refine ⟨rfl, ?_, fun hsends => absurd hsends hsend⟩
    rintro ⟨r, -, hnone⟩
    exact absurd hnone.symm (Option.some_ne_none _)

/-! ## What the sum shows

  A sum of words loses the order, and nothing else when a single summand changes. -/

/-- One changed list always shows. -/
theorem sum_single {x y : UInt32} (before after : List UInt32) (h : x ≠ y) :
    (before ++ x :: after).sum ≠ (before ++ y :: after).sum := by
  rw [List.sum_append, List.sum_append, List.sum_cons, List.sum_cons]
  intro heq
  have hcons : x + after.sum = y + after.sum := (UInt32.add_right_inj _).mp heq
  exact h ((UInt32.add_left_inj _).mp hcons)

/-- Another order never does. -/
theorem sum_perm {hs hs' : List UInt32} (h : hs.Perm hs') : hs.sum = hs'.sum := by
  induction h with
  | nil => rfl
  | cons x _ ih => rw [List.sum_cons, List.sum_cons, ih]
  | swap x y hs =>
    calc y + (x + hs.sum) = y + x + hs.sum := (UInt32.add_assoc _ _ _).symm
      _ = x + y + hs.sum := by rw [UInt32.add_comm y x]
      _ = x + (y + hs.sum) := UInt32.add_assoc _ _ _
  | trans _ _ ih₁ ih₂ => exact ih₁.trans ih₂

/-! ## Runs

  The invariant is that `lastDrawDataHash` is the sum of the frame rendered last, sent or not.  Then
  a step sends a changed frame iff a rerender is queued or the sum has changed. -/

/-- A packet of a client, or a round of the loop. -/
inductive LoopEvent where
  | packet (p : ClientPacket)
  | frame (mouseCursor : Int32) (data : ImDrawData)

/-- The render loop, with the list hashes of the frame rendered last and the bytes sent for it. -/
structure RenderRun where
  statics : LoopStatics
  rendered : Option (List UInt32)
  sent : Option (List UInt8)

namespace RenderRun

/-- Nothing was rendered yet. -/
def init : RenderRun := ⟨LoopStatics.init, none, none⟩

/-- One event: a packet sets the variables, a round renders. -/
def step (s : RenderRun) : LoopEvent → Option RenderRun
  | .packet p => some { s with statics := Server.handlePacket s.statics p }
  | .frame mouseCursor data =>
    (renderDrawData P mouseCursor data s.statics).map fun r =>
      ⟨r.1, some (listHashes P data), r.2⟩

/-- A frame whose list hashes are not those of the frame before is packed and sent. -/
def SendsChanged (s : RenderRun) (e : LoopEvent) (s' : RenderRun) : Prop :=
  match e with
  | .packet _ => True
  | .frame mouseCursor data => ∀ hs, s.rendered = some hs → hs ≠ listHashes P data →
      ∃ r, packImDrawData P s.statics.displaySize mouseCursor s.statics.pack data = some r ∧
        s'.sent = some r.out

/-- A rerender is queued, or the change of the list hashes changes their sum. -/
def ShowsChange (s : RenderRun) : LoopEvent → Prop
  | .packet _ => True
  | .frame _ data => ∀ hs, s.rendered = some hs → hs ≠ listHashes P data →
      s.statics.sRerender = true ∨ hs.sum ≠ (listHashes P data).sum

/-- `lastDrawDataHash` is the sum for the frame rendered last. -/
def SumStored (s : RenderRun) : Prop :=
  ∀ hs, s.rendered = some hs → s.statics.lastDrawDataHash = hs.sum

section Step

variable {P} {s s' : RenderRun}

/-- Every round stores the sum of the frame it renders, sent or not. -/
theorem SumStored.step {e : LoopEvent} (h : SumStored s) (hstep : s.step P e = some s') :
    SumStored s' := by
  cases e with
  | packet p =>
    rw [RenderRun.step, Option.some.injEq] at hstep
    subst hstep
    intro hs hrendered
    rw [← h hs hrendered]
    cases p <;> rfl
  | frame mouseCursor data =>
    obtain ⟨r, hr, rfl⟩ := Option.map_eq_some_iff.mp hstep
    rintro hs hrendered
    have heq : listHashes P data = hs := Option.some.inj hrendered
    rw [← heq, ← calcDrawDataHash_eq_sum]
    exact (renderDrawData_spec P hr).1

/-- One step: a changed frame is sent iff the sum shows the change. -/
theorem sendsChanged_iff {e : LoopEvent} (h : SumStored s) (hstep : s.step P e = some s') :
    SendsChanged P s e s' ↔ ShowsChange P s e := by
  cases e with
  | packet p => exact Iff.rfl
  | frame mouseCursor data =>
    obtain ⟨r, hr, rfl⟩ := Option.map_eq_some_iff.mp hstep
    rw [SendsChanged, ShowsChange]
    refine forall_congr' fun hs => forall_congr' fun hrendered => forall_congr' fun _ => ?_
    have hsum : s.statics.lastDrawDataHash ≠ calcDrawDataHash P data ↔
        hs.sum ≠ (listHashes P data).sum := by
      rw [h hs hrendered, calcDrawDataHash_eq_sum]
    rw [← hsum]
    exact (renderDrawData_spec P hr).2

end Step

/-- **Changed frames are sent.**  For every run of packets and frames: every frame whose list hashes
    differ from those of the frame before is packed and sent if and only if, each time, a rerender
    is queued or the sum of the hashes differs, too. -/
theorem sendsChanged_along_iff (es : List LoopEvent) :
    Along (step P) (SendsChanged P) init es ↔
      Along (step P) (fun s e _ => ShowsChange P s e) init es :=
  along_iff (P := SendsChanged P) (Q := fun s e _ => ShowsChange P s e) (fun s _ => SumStored s)
    (fun _ _ _ _ h hstep => sendsChanged_iff h hstep) (fun _ _ _ _ h hstep _ => h.step hstep) es
    (fun _ h => absurd h.symm (Option.some_ne_none _))

/-- A change of a single list is sent. -/
theorem showsChange_single {s : RenderRun} {mouseCursor : Int32} {data : ImDrawData} {x y : UInt32}
    {before after : List UInt32} (hrendered : s.rendered = some (before ++ x :: after))
    (hdata : listHashes P data = before ++ y :: after) :
    ShowsChange P s (.frame mouseCursor data) := by
  intro hs hhs hne
  have heq : before ++ x :: after = hs := Option.some.inj (hrendered.symm.trans hhs)
  subst heq
  rw [hdata] at hne ⊢
  refine Or.inr (sum_single before after fun hxy => hne ?_)
  rw [hxy]

/-- The same lists in another order are sent only if a rerender is queued. -/
theorem showsChange_perm {s : RenderRun} {mouseCursor : Int32} {data : ImDrawData}
    {hs : List UInt32} (hrendered : s.rendered = some hs) (hperm : hs.Perm (listHashes P data))
    (hne : hs ≠ listHashes P data) :
    ShowsChange P s (.frame mouseCursor data) ↔ s.statics.sRerender = true := by
  constructor
  · intro h
    rcases h hs hrendered hne with hqueued | hsum
    · exact hqueued
    · exact absurd (sum_perm hperm) hsum
  · intro hqueued _ _ _
    exact Or.inl hqueued

/-- A red triangle in front of a green one. -/
def redGreen : LoopEvent := .frame 0 (triangles [1, 2] two_fit).data

/-- The green one in front. -/
def greenRed : LoopEvent := .frame 0 (triangles [2, 1] two_fit).data

/-- The swapped triangles are not sent. -/
theorem not_sendsChanged_swapped :
    ((run (step Platform.lp64) init [redGreen, greenRed]).map sent) = some none ∧
      ¬Along (step Platform.lp64) (SendsChanged Platform.lp64) init [redGreen, greenRed] := by
  have hsent : (run (step Platform.lp64) init [redGreen, greenRed]).map sent = some none := by
    decide +kernel
  refine ⟨hsent, fun h => ?_⟩
  have hchanged : ∃ hs, (run (step Platform.lp64) init [redGreen]).map rendered = some (some hs) ∧
      hs ≠ listHashes Platform.lp64 (triangles [2, 1] two_fit).data :=
    ⟨listHashes Platform.lp64 (triangles [1, 2] two_fit).data, by decide +kernel,
      by decide +kernel⟩
  obtain ⟨hs, hrendered, hne⟩ := hchanged
  obtain ⟨s, t, hfirst, hboth, hsends⟩ := Along.last [redGreen] h
  rw [hfirst, Option.map_some, Option.some.injEq] at hrendered
  obtain ⟨r, -, hr⟩ := hsends hs hrendered hne
  rw [List.singleton_append] at hboth
  rw [hboth, Option.map_some, Option.some.injEq, hr] at hsent
  exact absurd hsent (Option.some_ne_none _)

end RenderRun

end Nxdb
