/-
  What the ticks of the desktop send of its clipboard.

  A tick notes the hash of what it sees, `0` for nothing, and the next one looks only whether the hash
  is another one.  With hashes that tell the texts apart, that is whether the content is another one,
  no text and an empty text being the same (`counted`); so what is sent is what should be
  (`ticks_iff`), until a tick sees nothing where the one before has seen a text: the hashes differ, and
  it asks for the length of a string that is not there.
-/
import Nxdb.Clipboard
import Nxdb.HashWord
import Mathlib.Data.List.Chain

namespace Nxdb

open Lib Hash

/-- What `sendPacketImpl` is given: `textSize` bytes from the beginning of the string on. -/
def Text.payload (t : Text) : List UInt8 := (t.bytes ++ [0]).take t.textSize

namespace Clipboards

/-- A tick that sees a content of the clipboard. -/
def seen (widen : Widen) (s : Clipboards) (content : Option Text) : Option Clipboards :=
  ({ s with clipboard := content } : Clipboards).tick widen

/-! ## What should be sent

  `changes` is written without hashes: it compares each content with the one before. -/

/-- An empty text counts as none. -/
def counted (content : Option Text) : Option Text := content.filter fun text => text.bytes ≠ []

/-- The texts that are sent, with their zeros: those that differ from the content of the tick before,
    and fit. -/
def changes : Option Text → List (Option Text) → List (List UInt8)
  | _, [] => []
  | previous, content :: rest =>
    (match content with
      | some text =>
        if counted content ≠ counted previous ∧ text.textSize ≤ maxTextSize then [text.bytes ++ [0]]
        else []
      | none => []) ++ changes content rest

/-- The hashes of the texts that are not empty are not `0`, and tell them apart. -/
def HashesTell (widen : Widen) (contents : List (Option Text)) : Prop :=
  ∀ c ∈ contents, ∀ t ∈ counted c, hashMurmurStr widen t.bytes ≠ 0 ∧
    ∀ d ∈ contents, ∀ u ∈ counted d, hashMurmurStr widen t.bytes = hashMurmurStr widen u.bytes → t = u

instance (widen : Widen) (contents : List (Option Text)) : Decidable (HashesTell widen contents) :=
  inferInstanceAs (Decidable (∀ c ∈ contents, ∀ t ∈ counted c, _ ∧ ∀ d ∈ contents, ∀ u ∈ counted d,
    _ → t = u))

/-- A tick sees nothing only where the one before has seen nothing, or an empty text. -/
def NothingAfterNothing (previous content : Option Text) : Prop :=
  content = none → counted previous = none

instance (previous content : Option Text) : Decidable (NothingAfterNothing previous content) :=
  inferInstanceAs (Decidable (_ → _))

/-! ## One tick

  Of a tick three things can come: it has no result (`seen_none`), or it sends the content, or it
  sends nothing; in the last two the hash is noted (`seen_some`), and `Noted` holds for the next
  one. -/

section Tick

variable {widen : Widen} {s : Clipboards}

theorem hashMurmurStr_nil (widen : Widen) : hashMurmurStr widen [] = 0 := by
  have hparts := hashMurmurImpl_eq (by decide : ([] : List UInt8).length < 2 ^ 32) 0 widen
  exact hparts.trans (by decide : finalMix (0 ^^^ 0 ^^^ 0) = 0)

/-- The hash does not tell an empty text from none. -/
theorem hash_counted (content : Option Text) :
    clipboardStringHash widen (counted content) = clipboardStringHash widen content := by
  cases content with
  | none => rfl
  | some text =>
    by_cases hempty : text.bytes = []
    · have hnone : counted (some text) = none := by simp [counted, hempty]
      rw [hnone]
      show (0 : UInt32) = hashMurmurStr widen text.bytes
      rw [hempty, hashMurmurStr_nil]
    · have hsome : counted (some text) = some text := by simp [counted, hempty]
      rw [hsome]

/-- The hashes of two contents are the same if and only if the contents are. -/
theorem hash_eq_iff {contents : List (Option Text)} (htell : HashesTell widen contents)
    {c d : Option Text} (hc : c ∈ contents) (hd : d ∈ contents) :
    clipboardStringHash widen c = clipboardStringHash widen d ↔ counted c = counted d := by
  constructor
  · intro h
    rw [← hash_counted c, ← hash_counted d] at h
    have hfirst := htell c hc
    have hsecond := htell d hd
    cases hcc : counted c with
    | none =>
      cases hcd : counted d with
      | none => rfl
      | some u =>
        rw [hcc, hcd] at h
        exact absurd h.symm (hsecond u hcd).1
    | some t =>
      cases hcd : counted d with
      | none =>
        rw [hcc, hcd] at h
        exact absurd h (hfirst t hcc).1
      | some u =>
        rw [hcc, hcd] at h
        exact congrArg some ((hfirst t hcc).2 d hd u hcd h)
  · intro h
    rw [← hash_counted c, ← hash_counted d, h]

/-- What has been noted is the hash of what the tick before has seen. -/
def Noted (widen : Widen) (s : Clipboards) : Prop :=
  s.sLastClipboardStringHash = clipboardStringHash widen s.clipboard

/-- A tick that sees nothing behind a text does not end well. -/
theorem seen_none {contents : List (Option Text)} (htell : HashesTell widen contents)
    (hs : s.Noted widen) (hmem : s.clipboard ∈ contents) (hnone : none ∈ contents)
    (htext : counted s.clipboard ≠ none) : s.seen widen none = none := by
  have hne : clipboardStringHash widen none ≠ s.sLastClipboardStringHash := by
    rw [hs]
    exact fun h => htext ((hash_eq_iff htell hnone hmem).mp h).symm
  unfold seen tick sends
  rw [if_pos hne]
  rfl

/-- What a tick sends is behind what was sent before, and the hash is noted. -/
theorem seen_of_sends {content : Option Text} {texts : List Text}
    (h : ({ s with clipboard := content } : Clipboards).sends widen = some texts) :
    ∃ s', s.seen widen content = some s' ∧ s'.clipboard = content ∧ s'.Noted widen ∧
      s'.toServer = s.toServer ++ texts :=
  ⟨_, Option.map_eq_some_iff.mpr ⟨texts, h, rfl⟩, rfl, rfl, rfl⟩

/-- Any other tick sends the content if it is another one and fits, and notes its hash. -/
theorem seen_some {contents : List (Option Text)} (htell : HashesTell widen contents)
    (hs : s.Noted widen) (hmem : s.clipboard ∈ contents) {content : Option Text}
    (hcontent : content ∈ contents) (hok : NothingAfterNothing s.clipboard content) :
    ∃ s', s.seen widen content = some s' ∧ s'.clipboard = content ∧ s'.Noted widen ∧
      ∀ rest, s'.toServer.map Text.payload ++ changes content rest =
        s.toServer.map Text.payload ++ changes s.clipboard (content :: rest) := by
  have hiff := hash_eq_iff htell hcontent hmem
  rw [← hs] at hiff
  cases content with
  | none =>
    -- nothing after nothing: the hash of no text is the one that is noted
    have hsame : clipboardStringHash widen none = s.sLastClipboardStringHash :=
      hiff.mpr (hok rfl).symm
    have hsends : ({ s with clipboard := none } : Clipboards).sends widen = some [] := by
      unfold sends
      exact if_neg fun h => h hsame
    obtain ⟨s', hseen, hclip, hnoted, hsent⟩ := seen_of_sends hsends
    refine ⟨s', hseen, hclip, hnoted, fun rest => ?_⟩
    rw [hsent, List.append_nil]
    rfl
  | some text =>
    have hsends : ({ s with clipboard := some text } : Clipboards).sends widen = _ := sends_some rfl
    obtain ⟨s', hseen, hclip, hnoted, hsent⟩ := seen_of_sends hsends
    refine ⟨s', hseen, hclip, hnoted, fun rest => ?_⟩
    have hpayload : text.payload = text.bytes ++ [0] :=
      List.take_of_length_le (by simp [Text.textSize])
    rw [hsent, List.map_append, List.append_assoc]
    congr 1
    show _ = (if counted (some text) ≠ counted s.clipboard ∧ _ then [text.bytes ++ [0]] else [])
      ++ changes (some text) rest
    congr 1
    -- the hash differs iff the counted bytes do, so what fits is sent iff it is a change
    by_cases hchange : counted (some text) ≠ counted s.clipboard ∧ text.textSize ≤ maxTextSize
    · rw [if_pos hchange, if_pos ⟨fun h => hchange.1 (hiff.mp h), hchange.2⟩, List.map_singleton,
        hpayload]
    · rw [if_neg hchange, if_neg fun h => hchange ⟨fun heq => h.1 (hiff.mpr heq), h.2⟩]
      rfl

end Tick

/-! ## The theorem -/

/-- The ticks from some state on. -/
theorem ticks_iff_from (widen : Widen) (all : List (Option Text)) (htell : HashesTell widen all)
    (contents : List (Option Text)) : ∀ s : Clipboards, s.Noted widen → s.clipboard ∈ all →
      (∀ c ∈ contents, c ∈ all) →
      ((∃ t, run (seen widen) s contents = some t ∧
          t.toServer.map Text.payload = s.toServer.map Text.payload ++ changes s.clipboard contents) ↔
        (s.clipboard :: contents).IsChain NothingAfterNothing) := by
  induction contents with
  | nil =>
    intro s _ _ _
    exact ⟨fun _ => .singleton _, fun _ => ⟨s, rfl, (List.append_nil _).symm⟩⟩
  | cons content rest ih =>
    intro s hs hmem hall
    have hcontent : content ∈ all := hall content List.mem_cons_self
    rw [List.isChain_cons_cons]
    by_cases hok : NothingAfterNothing s.clipboard content
    · obtain ⟨s', hseen, hclip, hs', hsent⟩ := seen_some htell hs hmem hcontent hok
      have hrest := ih s' hs' (hclip ▸ hcontent) fun c hc => hall c (List.mem_cons_of_mem _ hc)
      rw [hclip, hsent] at hrest
      constructor
      · rintro ⟨t, hrun, hsame⟩
        obtain ⟨s₁, hs₁, hrun⟩ := run_cons.mp hrun
        have heq : s₁ = s' := Option.some.inj (hs₁.symm.trans hseen)
        subst heq
        exact ⟨hok, hrest.mp ⟨t, hrun, hsame⟩⟩
      · rintro ⟨-, hchain⟩
        obtain ⟨t, hrun, hsame⟩ := hrest.mpr hchain
        exact ⟨t, run_cons.mpr ⟨s', hseen, hrun⟩, hsame⟩
    · -- nothing behind a text: the run has no result
      constructor
      · rintro ⟨t, hrun, -⟩
        obtain ⟨s₁, hs₁, -⟩ := run_cons.mp hrun
        obtain ⟨hnone, htext⟩ := Classical.not_imp.mp hok
        subst hnone
        rw [seen_none htell hs hmem hcontent htext] at hs₁
        exact absurd hs₁ (by simp)
      · rintro ⟨h, -⟩
        exact absurd h hok

/-- **The ticks of a run.**  For every sequence of contents whose hashes tell its texts apart: the
    ticks all have a result and send exactly the contents that are another one than that of the tick
    before and fit, in order and with their zeros, if and only if no tick sees nothing directly behind
    one that saw a text that is not empty. -/
theorem ticks_iff (widen : Widen) (contents : List (Option Text))
    (htell : HashesTell widen contents) :
    (∃ s, run (seen widen) (init none) contents = some s ∧
        s.toServer.map Text.payload = changes none contents) ↔
      (none :: contents).IsChain NothingAfterNothing := by
  have htell' : HashesTell widen (none :: contents) := by
    intro c hc t ht
    rcases List.mem_cons.mp hc with rfl | hc
    · exact absurd ht (by simp [counted])
    refine ⟨(htell c hc t ht).1, fun d hd u hu => ?_⟩
    rcases List.mem_cons.mp hd with rfl | hd
    · exact absurd hu (by simp [counted])
    · exact (htell c hc t ht).2 d hd u hu
  exact ticks_iff_from widen (none :: contents) htell' contents (init none) rfl List.mem_cons_self
    fun c hc => List.mem_cons_of_mem _ hc

/-- A text, the same again, an empty one, none, and another text. -/
def emptiedFirst : List (Option Text) :=
  [some (letters 3), some (letters 3), some Text.empty, none, some (letters 4)]

theorem ticks_emptiedFirst :
    ∃ s, run (seen widenSigned) (init none) emptiedFirst = some s ∧
      s.toServer.map Text.payload = [[97, 97, 97, 0], [0], [97, 97, 97, 97, 0]] :=
  (ticks_iff widenSigned emptiedFirst (by decide +kernel)).mpr (by decide +kernel)

/-- A text, and then an image. -/
def imageNext : List (Option Text) := [some (letters 1), none]

theorem not_ticks_imageNext :
    HashesTell widenSigned imageNext ∧ run (seen widenSigned) (init none) imageNext = none ∧
      ¬∃ s, run (seen widenSigned) (init none) imageNext = some s ∧
        s.toServer.map Text.payload = changes none imageNext := by
  have hnone : run (seen widenSigned) (init none) imageNext = none := by decide +kernel
  refine ⟨by decide +kernel, hnone, ?_⟩
  rintro ⟨s, hs, -⟩
  rw [hnone] at hs
  exact absurd hs (by simp)

end Clipboards

end Nxdb
