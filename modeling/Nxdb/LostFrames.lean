/-
  A client that not all frames get to.

  The desktop's program outlives its connections: `start` makes a new one and leaves `sDrawDataPrev` as
  it is.  The sysmodule packs every frame once, for all its clients, and stores the hashes, whoever is
  there to receive it.  So a client may miss frames, those between two of its connections, and those
  that were on their way when a connection was lost; and the frames that get to it are packed against
  all the others.  A frame gets to it whole, or not at all.

  `shows_held` says what it shows, in every run and whichever frames get through, without a word about
  hashes: at each index the list of the last frame that got through and changed the index, packed and
  unpacked with the sizes of that moment; an index that is missing from a frame that gets through is
  forgotten with it, and shows an empty list until it is sent in full again, as the entry in the table
  of hashes outlives the frame.  So a list that was changed in a frame that got lost stays as it was
  before, and it does so until it changes again (`stays_stale`): neither the `Hello` of the new
  connection nor any other rerender brings it back.
-/
import Nxdb.DeltaMirror

namespace Nxdb

open Lib

/-! ## The code

  The sender stores every frame, the receiver is given some of them: one session, with the
  deliveries marked. -/

/-- A frame, the display size that it is packed with, and the display size and atlas texture that it is
    unpacked with, if it gets through. -/
structure Passage where
  frame : Frame
  packedAt : ImVec2
  unpackedAt : Option ClientIo

variable (P : Platform)

/-- The sysmodule packs the frame; the client, if it gets there, unpacks it. -/
def pass (s : Session) (p : Passage) : Option Session := do
  let r ← packImDrawData P p.packedAt p.frame.mouseCursor s.server p.frame.data
  match p.unpackedAt with
  | none => return ⟨r.st, s.client⟩
  | some io =>
    let u ← unpackDrawData io (Mem.ofList r.out) r.out.length s.client
    return ⟨r.st, u.st⟩

/-! ## What the client has

  `heldList` is defined by the passages alone, newest first.  That the receiver has these lists is
  the library's statement about one sender and a lossy receiver; what a frame does to the two ends
  is `pass_spec`. -/

/-- The lists of a passage, and what its lists are packed and unpacked with. -/
def Passage.entry (p : Passage) : Option (ImVec2 × ClientIo) × List ImDrawList :=
  (p.unpackedAt.map fun io => (p.packedAt, io), p.frame.lists)

/-- The passages of a run, newest first. -/
def passed (passages : List Passage) : List (Option (ImVec2 × ClientIo) × List ImDrawList) :=
  (passages.map Passage.entry).reverse

/-- The list that the client has at an index: what became of the one that was brought last, an empty
    one if there is none.  A frame that gets through without the index takes it away. -/
def heldList (passages : List Passage) (i : Nat) : ImDrawList :=
  (Delta.held i (passed passages)).elim ImDrawList.empty fun h => rebuild P h.1.1 h.1.2 h.2

/-- The lists that occur in some passages. -/
def InPassages (passages : List Passage) (l : ImDrawList) : Prop := ∃ p ∈ passages, l ∈ p.frame.lists

/-- The lists that the client shows, none before the first frame. -/
def Session.shown (s : Session) : List ImDrawList :=
  (s.client.sDrawData.map ImDrawData.cmdLists).getD []

/-- What is kept of the passages so far; the previous lists are those that are shown. -/
structure Keeps (S : ImDrawList → Prop) (hist : List (Option (ImVec2 × ClientIo) × List ImDrawList))
    (s : Session) : Prop where
  mirror : Delta.LossyMirror (hashImDrawList P) (fun tag : ImVec2 × ClientIo => rebuild P tag.1 tag.2)
    ImDrawList.empty S hist (tableOf s.server.sPrevDrawListHashes) s.prev
  shown : s.shown = s.prev

variable {P}

/-- More passages, more lists. -/
theorem InPassages.mono {passages passages' : List Passage} {l : ImDrawList}
    (h : InPassages passages l) (hsub : passages ⊆ passages') : InPassages passages' l := by
  obtain ⟨p, hp, hl⟩ := h
  exact ⟨p, hsub hp, hl⟩

/-- Later frames count first. -/
theorem passed_append (passages later : List Passage) :
    passed (passages ++ later) = passed later ++ passed passages := by
  rw [passed, List.map_append, List.reverse_append]
  rfl

/-- The table begins with zeros. -/
theorem keeps_init {S : ImDrawList → Prop} (hne : ∀ l, S l → hashImDrawList P l ≠ 0) :
    Keeps P S [] Session.init := by
  refine ⟨Delta.LossyMirror.init fun i l hl heq => ?_, rfl⟩
  replace heq : (Vector.replicate sMaxDrawLists (0 : UInt32))[i]? = some (hashImDrawList P l) := heq
  obtain ⟨hi, hget⟩ := Vector.getElem?_eq_some_iff.mp heq
  rw [Vector.getElem_replicate] at hget
  exact hne l hl hget.symm

/-- **One passage.**  It always succeeds; if the frame gets through, the client shows as many lists as
    it has. -/
theorem pass_spec {S : ImDrawList → Prop} (hinj : Delta.KeyInj (hashImDrawList P) S)
    {hist : List (Option (ImVec2 × ClientIo) × List ImDrawList)} {s : Session} (h : Keeps P S hist s)
    (p : Passage) (hS : ∀ l ∈ p.frame.lists, S l) :
    ∃ s', pass P s p = some s' ∧ Keeps P S (p.entry :: hist) s' ∧
      (p.unpackedAt.isSome = true → s'.shown.length = p.frame.lists.length) := by
  obtain ⟨frame, packedAt, unpackedAt⟩ := p
  obtain ⟨r, hpack, hout, htab, -⟩ := packImDrawData_frame P packedAt s.server frame
  -- the frame is packed in any case; it is lost or unpacked
  cases unpackedAt with
  | none =>
    refine ⟨⟨r.st, s.client⟩, ?_, ?_, fun hsome => absurd hsome Bool.false_ne_true⟩
    · rw [pass, hpack]
      rfl
    · exact ⟨htab ▸ h.mirror.lose hinj hS, h.shown⟩
  | some io =>
    have hmem : (Mem.ofList r.out).Holds 0
        (packedFrame P packedAt (tableOf s.server.sPrevDrawListHashes) frame).bytes := by
      rw [← hout]
      exact Mem.holds_ofList r.out
    obtain ⟨u, hunpack, hlists, -, hst, -⟩ := unpackDrawData_eq io r.out.length s.client hmem
    rw [lists_packedFrame] at hlists
    have hprev : (⟨r.st, u.st⟩ : Session).prev = u.drawData.cmdLists := by
      rw [Session.prev, hst]
      rfl
    have hshown : (⟨r.st, u.st⟩ : Session).shown = u.drawData.cmdLists := by
      rw [Session.shown, hst]
      rfl
    refine ⟨⟨r.st, u.st⟩, ?_, ⟨?_, hshown.trans hprev.symm⟩, fun _ => ?_⟩
    · rw [pass, hpack, Option.bind_eq_bind, Option.bind_some]
      dsimp only
      rw [hunpack]
      rfl
    · rw [htab, hprev, hlists]
      exact h.mirror.receive hinj hS
    · rw [hshown, hlists, Delta.length_receive]

/-- **A run.**  Every run is possible, and keeps what it should. -/
theorem run_pass {S : ImDrawList → Prop} (hinj : Delta.KeyInj (hashImDrawList P) S) :
    ∀ (passages : List Passage), (∀ l, InPassages passages l → S l) → ∀ {s : Session}
      {hist : List (Option (ImVec2 × ClientIo) × List ImDrawList)}, Keeps P S hist s →
        ∃ s', run (pass P) s passages = some s' ∧ Keeps P S (passed passages ++ hist) s' := by
  intro passages
  induction passages with
  | nil => exact fun _ s hist h => ⟨s, rfl, h⟩
  | cons p passages ih =>
    intro hS s hist h
    obtain ⟨s₁, hstep, hkeeps, -⟩ :=
      pass_spec hinj h p fun l hl => hS l ⟨p, List.mem_cons_self, hl⟩
    obtain ⟨s', hrun, hkeeps'⟩ := ih (fun l ⟨q, hq, hl⟩ =>
      hS l ⟨q, List.mem_cons_of_mem p hq, hl⟩) hkeeps
    refine ⟨s', run_cons.mpr ⟨s₁, hstep, hrun⟩, ?_⟩
    have hpassed : passed (p :: passages) = passed passages ++ [p.entry] := by
      rw [← List.singleton_append, passed_append]
      rfl
    rw [hpassed, List.append_assoc]
    exact hkeeps'

/-! ## What it shows

  Both results read what is held off the passages: `shows_held` behind a frame that got through,
  `stays_stale` behind any number of frames in which the list is the same. -/

/-- **What a client shows that misses frames.**  In every run of frames whose lists have hashes that are
    neither equal nor `0`, and whichever of the frames get through: a client that has just been given
    one shows as many lists as the frame has, and each of them is what was brought last to its index,
    with the sizes of that moment, or empty if nothing was since a frame without the index got
    through. -/
theorem shows_held (P : Platform) (passages : List Passage) (p : Passage)
    (hinj : Delta.KeyInj (hashImDrawList P) (InPassages (passages ++ [p])))
    (hne : ∀ l, InPassages (passages ++ [p]) l → hashImDrawList P l ≠ 0)
    (hthrough : p.unpackedAt.isSome = true) :
    ∃ s, run (pass P) Session.init (passages ++ [p]) = some s ∧
      s.shown = p.frame.lists.mapIdx fun i _ => heldList P (passages ++ [p]) i := by
  obtain ⟨s₁, hrun₁, hkeeps₁⟩ := run_pass hinj passages
    (fun l hl => hl.mono (List.subset_append_left passages [p])) (keeps_init hne)
  obtain ⟨s, hstep, hkeeps, hlength⟩ := pass_spec hinj hkeeps₁ p
    fun l hl => ⟨p, List.mem_append_right passages (List.mem_singleton_self p), hl⟩
  replace hlength := hlength hthrough
  refine ⟨s, ?_, ?_⟩
  · rw [run_append, hrun₁, Option.bind_some]
    exact run_cons.mpr ⟨s, hstep, rfl⟩
  · apply List.ext_getElem?
    intro i
    rw [List.getElem?_mapIdx]
    by_cases hi : i < s.shown.length
    · have hheld : s.shown.getD i ImDrawList.empty = heldList P (passages ++ [p]) i := by
        rw [hkeeps.shown, hkeeps.mirror.holds, List.append_nil, heldList, passed_append]
        rfl
      rw [List.getD_eq_getElem?_getD, List.getElem?_eq_getElem hi, Option.getD_some] at hheld
      rw [List.getElem?_eq_getElem hi, List.getElem?_eq_getElem (hlength ▸ hi), hheld]
      rfl
    · rw [List.getElem?_eq_none (Nat.le_of_not_lt hi),
        List.getElem?_eq_none (hlength ▸ Nat.le_of_not_lt hi)]
      rfl

/-- A red triangle gets through, a green one gets lost, and then it gets through. -/
def redShown : Passage := ⟨triangles [1] one_fits, ⟨1280, 720⟩, some ⟨⟨1280, 720⟩, 1⟩⟩

/-- The list becomes green, in a frame that gets lost ... -/
def greenLost : Passage := ⟨triangles [2] one_fits, ⟨1280, 720⟩, none⟩

/-- ... and stays green, in one that gets through. -/
def greenThrough : Passage := ⟨triangles [2] one_fits, ⟨1280, 720⟩, some ⟨⟨1280, 720⟩, 1⟩⟩

theorem isRedOrGreen_of_inPassages {l : ImDrawList} {passages : List Passage}
    (hall : ∀ p ∈ passages, p ∈ [redShown, greenLost, greenThrough]) (h : InPassages passages l) :
    IsRedOrGreen l := by
  obtain ⟨p, hp, hl⟩ := h
  have hcase := hall p hp
  simp only [List.mem_cons, List.not_mem_nil, or_false] at hcase
  rcases hcase with rfl | rfl | rfl
  · exact isRedOrGreen_of_mem (h := by decide) hl (by simp)
  · exact isRedOrGreen_of_mem (h := by decide) hl (by simp)
  · exact isRedOrGreen_of_mem (h := by decide) hl (by simp)

/-- The green triangle is the same in both frames, and so it is not sent again: what is shown is the
    red one. -/
theorem shows_held_lostGreen : ∃ s,
    run (pass Platform.lp64) Session.init ([redShown, greenLost] ++ [greenThrough]) = some s ∧
      s.shown.map ImDrawList.shape = [(triangle 1).shape] := by
  have hall : ∀ l, InPassages ([redShown, greenLost] ++ [greenThrough]) l → IsRedOrGreen l :=
    fun l => isRedOrGreen_of_inPassages fun p hp => hp
  obtain ⟨s, hrun, hshown⟩ := shows_held Platform.lp64 [redShown, greenLost] greenThrough
    (keyInj_redOrGreen.mono hall) (fun l hl => hash_redOrGreen (hall l hl)) rfl
  refine ⟨s, hrun, ?_⟩
  rw [hshown]
  decide +kernel

/-- **A list that is out of date stays so.**  From any point of any run on, as long as a list is the same
    in every frame, the client has at its index what it had at that point, whichever frames get
    through. -/
theorem stays_stale (P : Platform) (passages later : List Passage) (p : Passage) (i : Nat)
    (l : ImDrawList)
    (hinj : Delta.KeyInj (hashImDrawList P) (InPassages (passages ++ p :: later)))
    (hne : ∀ l, InPassages (passages ++ p :: later) l → hashImDrawList P l ≠ 0)
    (hp : p.frame.lists[i]? = some l) (hlater : ∀ q ∈ later, q.frame.lists[i]? = some l) :
    ∃ s s', run (pass P) Session.init (passages ++ [p]) = some s ∧ run (pass P) s later = some s' ∧
      s'.shown.getD i ImDrawList.empty = s.shown.getD i ImDrawList.empty := by
  have hsplit : passages ++ p :: later = (passages ++ [p]) ++ later := by
    rw [List.append_assoc, List.singleton_append]
  obtain ⟨s, hrun, hkeeps⟩ := run_pass hinj (passages ++ [p])
    (fun l hl => hl.mono (hsplit ▸ List.subset_append_left _ later)) (keeps_init hne)
  obtain ⟨s', hrun', hkeeps'⟩ := run_pass hinj later
    (fun l hl => hl.mono (hsplit ▸ List.subset_append_right (passages ++ [p]) later)) hkeeps
  refine ⟨s, s', hrun, hrun', ?_⟩
  have hstands : Delta.stands i (passed (passages ++ [p]) ++ []) = some l := by
    rw [passed_append]
    exact Delta.stands_cons hp
  have hall : ∀ e ∈ passed later, e.2[i]? = some l := by
    intro e he
    obtain ⟨q, hq, rfl⟩ := List.mem_map.mp (List.mem_reverse.mp he)
    exact hlater q hq
  rw [hkeeps'.shown, hkeeps.shown, hkeeps'.mirror.holds, hkeeps.mirror.holds,
    (Delta.held_of_unchanged hstands (passed later) hall).2]

theorem stays_stale_green : ∃ s s',
    run (pass Platform.lp64) Session.init ([redShown] ++ [greenLost]) = some s ∧
      run (pass Platform.lp64) s [greenThrough, greenThrough] = some s' ∧
      s'.shown.getD 0 ImDrawList.empty = s.shown.getD 0 ImDrawList.empty := by
  have hall : ∀ l, InPassages ([redShown] ++ greenLost :: [greenThrough, greenThrough]) l →
      IsRedOrGreen l := fun l => isRedOrGreen_of_inPassages fun p hp => by
    simpa [or_assoc] using hp
  exact stays_stale Platform.lp64 [redShown] [greenThrough, greenThrough] greenLost 0 (triangle 2)
    (keyInj_redOrGreen.mono hall) (fun l hl => hash_redOrGreen (hall l hl)) rfl
    fun q hq => by simp_all [greenThrough, Frame.lists, triangles]

end Nxdb
