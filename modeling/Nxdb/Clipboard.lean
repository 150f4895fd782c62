/-
  The clipboard of the remote UI.

  The sysmodule does not keep a text that is copied in its own UI: it sends it to the desktop, which
  puts it into the desktop's clipboard, finds in its next tick that the hash of the clipboard is not
  the one it has noted, and sends the text back.  What is pasted in the UI is the text that came back.

  The invariant (`Echo`) follows a text around this loop: the text copied last is the last one on its
  way to the desktop, or in the clipboard; and the text whose hash is noted is the last one on its way
  to the sysmodule, or the one that is pasted, as long as it fits into a packet of 512 bytes.

  `paste_iff`: a paste behind a copy that has gone all the way gives the text that was copied, if and
  only if the text fits, and its hash is not taken for that of no text at all.

  1. Program: the copy in the UI, `clipboardStringHash` and `tick` of the desktop, the two
     deliveries; a text is bytes without a zero (`Text`).
  2. Specification: `PastesCopied`, and `PastesEchoed` as amended, each of a step of a run.
  3. Hashes that collide are excluded for the texts of the run only (`NoCollisions`), among them no
     text at all, whose hash is noted as `0`.
  4. `Echo` has one field for each half of the loop; each of the six steps keeps it, and
     `paste_iff` reads it off where nothing is in flight.
-/
import Nxdb.Hash
import Nxdb.Lib.Run

namespace Nxdb

open Lib Hash

/-! ## The code

  Both clipboards, and the texts on their way between them.  A tick is the part of
  `updateNetworkInput` that looks at the clipboard; a text that takes more than 512 bytes, its zero
  included, is noted there and not sent. -/

/-- The text of a `const char*`: the bytes before the zero that ends it. -/
structure Text where
  bytes : List UInt8
  zero_not_mem : 0 ∉ bytes
deriving DecidableEq

namespace Text

/-- No text, as which `sCurClipboardString` begins. -/
def empty : Text := ⟨[], List.not_mem_nil⟩

/-- `std::strlen(text) + sizeof('\0')`. -/
def textSize (t : Text) : Nat := t.bytes.length + 1

end Text

/-- The largest text, with its zero, that the desktop sends. -/
def maxTextSize : Nat := 512

/-- The clipboard packets on their way in both directions, the desktop's clipboard, which can be
    without a text, the hash that the desktop has noted and the text that the sysmodule has.  Besides:
    the text copied last, if it was in the UI; whether there has been a tick since, with no packet on
    its way; and whether any tick has noted a hash other than `0`. -/
structure Clipboards where
  toClient : List Text
  clipboard : Option Text
  sLastClipboardStringHash : UInt32
  toServer : List Text
  sCurClipboardString : Text
  copied : Option Text
  ticked : Bool
  noted : Bool
deriving DecidableEq

/-- A copy on either side, a delivery in either direction, or a tick. -/
inductive ClipEvent where
  | copyInUI (text : Text)
  | copyOnDesktop (text : Text)
  | deliverToClient
  | tick
  | deliverToServer
  | paste
deriving DecidableEq

namespace Clipboards

/-- Nothing was copied in the UI; the desktop's clipboard holds what it holds. -/
def init (clipboard : Option Text) : Clipboards := ⟨[], clipboard, 0, [], Text.empty, none, false, false⟩

/-- `Platform_SetClipboardTextFn`, with one client. -/
def setClipboardText (s : Clipboards) (text : Text) : Clipboards :=
  { s with toClient := s.toClient ++ [text], copied := some text, ticked := false }

/-- `Platform_GetClipboardTextFn`. -/
def getClipboardText (s : Clipboards) : Text := s.sCurClipboardString

/-- A program of the desktop sets the clipboard. -/
def copyOnDesktop (s : Clipboards) (text : Text) : Clipboards :=
  { s with clipboard := some text, copied := none, ticked := false }

section

variable (widen : Widen)

/-- `clipboard ? hk::util::hashMurmur(clipboard) : 0`. -/
def clipboardStringHash : Option Text → UInt32
  | some text => hashMurmurStr widen text.bytes
  | none => 0

/-- `updateNetworkInput`, as far as the clipboard goes: what it sends.  There is no length of a text
    that is not there. -/
def sends (s : Clipboards) : Option (List Text) :=
  if clipboardStringHash widen s.clipboard ≠ s.sLastClipboardStringHash then
    s.clipboard.map fun text => if text.textSize ≤ maxTextSize then [text] else []
  else some []

/-- `updateNetworkInput`, as far as the clipboard goes. -/
def tick (s : Clipboards) : Option Clipboards :=
  (s.sends widen).map fun texts =>
    { s with
      toServer := s.toServer ++ texts
      sLastClipboardStringHash := clipboardStringHash widen s.clipboard
      ticked := s.ticked || (s.copied.isSome && s.toClient.isEmpty && s.toServer.isEmpty)
      noted := s.noted || clipboardStringHash widen s.clipboard != 0 }

/-- One event. -/
def step (s : Clipboards) : ClipEvent → Option Clipboards
  | .copyInUI text => some (s.setClipboardText text)
  | .copyOnDesktop text => some (s.copyOnDesktop text)
  | .deliverToClient =>
    match s.toClient with
    | text :: rest => some { s with toClient := rest, clipboard := some text }
    | [] => none
  | .tick => s.tick widen
  | .deliverToServer =>
    match s.toServer with
    | text :: rest => some { s with toServer := rest, sCurClipboardString := text }
    | [] => none
  | .paste => some s

end

/-! ## The law -/

/-- The text was copied in the UI, nothing was copied since, and it has gone all the way: no packet is
    on its way, nor was there any at some tick since. -/
def Settled (s : Clipboards) (text : Text) : Prop :=
  s.copied = some text ∧ s.toClient = [] ∧ s.toServer = [] ∧ s.ticked = true

/-- A paste gives the text that was copied. -/
def PastesCopied (s : Clipboards) (e : ClipEvent) (_ : Clipboards) : Prop :=
  e = .paste → ∀ text ∈ s.copied, s.Settled text → s.getClipboardText = text

instance (s : Clipboards) (text : Text) : Decidable (s.Settled text) :=
  inferInstanceAs (Decidable (_ ∧ _ ∧ _ ∧ _))

instance (s : Clipboards) (e : ClipEvent) (s' : Clipboards) : Decidable (PastesCopied s e s') :=
  inferInstanceAs (Decidable (_ → ∀ text ∈ s.copied, s.Settled text → s.getClipboardText = text))

/-- The text fits, and if its hash is `0`, then it is empty, or a text of another hash has been in the
    desktop's clipboard before. -/
def Echoed (widen : Widen) (s : Clipboards) (text : Text) : Prop :=
  text.textSize ≤ maxTextSize ∧
    (hashMurmurStr widen text.bytes = 0 → text = Text.empty ∨ s.noted = true)

/-- A text that is pasted when it has gone all the way is one that can be. -/
def PastesEchoed (widen : Widen) (s : Clipboards) (e : ClipEvent) (_ : Clipboards) : Prop :=
  e = .paste → ∀ text ∈ s.copied, s.Settled text → s.Echoed widen text

instance (widen : Widen) (s : Clipboards) (text : Text) : Decidable (s.Echoed widen text) :=
  inferInstanceAs (Decidable (_ ∧ (_ → _)))

instance (widen : Widen) (s : Clipboards) (e : ClipEvent) (s' : Clipboards) :
    Decidable (PastesEchoed widen s e s') :=
  inferInstanceAs (Decidable (_ → ∀ text ∈ s.copied, s.Settled text → s.Echoed widen text))

/-- The texts that are copied. -/
def texts : List ClipEvent → List Text
  | [] => []
  | .copyInUI text :: events => text :: texts events
  | .copyOnDesktop text :: events => text :: texts events
  | _ :: events => texts events

/-- Two of the texts have the same hash only if they are one text. -/
def NoCollisions (widen : Widen) (ts : List Text) : Prop :=
  ∀ t ∈ ts, ∀ u ∈ ts, hashMurmurStr widen t.bytes = hashMurmurStr widen u.bytes → t = u

instance (widen : Widen) (ts : List Text) : Decidable (NoCollisions widen ts) :=
  inferInstanceAs (Decidable (∀ t ∈ ts, ∀ u ∈ ts, _ → t = u))

/-! ## The invariant

  Two texts are followed: the one copied last, until it is in the desktop's clipboard (`arriving`),
  and the one whose hash is noted, until it is the one that is pasted.  A delivery and a tick hand a
  text on from one place to the next, and a copy begins anew.  That equal hashes are equal texts is
  needed at one place, where a tick finds the hash it has noted. -/

/-- What will be in the clipboard when all packets have come. -/
def arriving (s : Clipboards) : Option Text := s.toClient.getLast?.or s.clipboard

/-- What will be pasted when all packets have come. -/
def returning (s : Clipboards) : Text := s.toServer.getLast?.getD s.sCurClipboardString

/-- Where the text is that was copied last, and what the tick before has left: nothing, if no hash has
    been noted, or else a text whose hash it is. -/
structure Echo (widen : Widen) (ts : List Text) (s : Clipboards) : Prop where
  clipboard_mem : ∀ text ∈ s.clipboard, text ∈ ts
  toClient_mem : ∀ text ∈ s.toClient, text ∈ ts
  arriving : ∀ text ∈ s.copied, s.arriving = some text
  ticked : s.ticked = true → s.toClient = [] ∧
    s.sLastClipboardStringHash = clipboardStringHash widen s.clipboard
  fits : ∀ text ∈ s.sCurClipboardString :: s.toServer, text.textSize ≤ maxTextSize
  fresh : s.noted = false →
    s.sLastClipboardStringHash = 0 ∧ s.toServer = [] ∧ s.sCurClipboardString = Text.empty
  noted : s.noted = true → s.clipboard.isSome = true ∧ ∃ text ∈ ts,
    s.sLastClipboardStringHash = hashMurmurStr widen text.bytes ∧
      (text.textSize ≤ maxTextSize → s.returning = text)

variable {widen : Widen} {ts : List Text} {s s' : Clipboards}

/-- The invariant at the start ... -/
theorem Echo.init (clipboard : Option Text) (hts : ∀ text ∈ clipboard, text ∈ ts) :
    (Clipboards.init clipboard).Echo widen ts where
  clipboard_mem := hts
  toClient_mem _ h := absurd h List.not_mem_nil
  arriving text h := absurd h (by simp [Clipboards.init])
  ticked h := absurd h Bool.false_ne_true
  fits text h := by
    rw [List.mem_singleton.mp h]
    show Text.empty.textSize ≤ maxTextSize
    decide
  fresh _ := ⟨rfl, rfl, rfl⟩
  noted h := absurd h Bool.false_ne_true

/-- ... behind a copy in the UI ... -/
theorem Echo.setClipboardText (hs : s.Echo widen ts) {text : Text} (htext : text ∈ ts) :
    (s.setClipboardText text).Echo widen ts where
  clipboard_mem := hs.clipboard_mem
  toClient_mem u hu := by
    rcases List.mem_append.mp hu with hu | hu
    · exact hs.toClient_mem u hu
    · exact List.mem_singleton.mp hu ▸ htext
  arriving u hu := by
    show ((s.toClient ++ [text]).getLast?).or s.clipboard = some u
    rw [List.getLast?_concat, Option.some_or]
    exact hu
  ticked h := absurd h Bool.false_ne_true
  fits := hs.fits
  fresh := hs.fresh
  noted := hs.noted

/-- ... behind one on the desktop ... -/
theorem Echo.copyOnDesktop (hs : s.Echo widen ts) {text : Text} (htext : text ∈ ts) :
    (s.copyOnDesktop text).Echo widen ts where
  clipboard_mem u hu := Option.some.inj hu ▸ htext
  toClient_mem := hs.toClient_mem
  arriving u hu := absurd hu (by simp [Clipboards.copyOnDesktop])
  ticked h := absurd h Bool.false_ne_true
  fits := hs.fits
  fresh := hs.fresh
  noted h := ⟨rfl, (hs.noted h).2⟩

/-- The desktop takes a packet. -/
theorem Echo.deliverToClient (hs : s.Echo widen ts) {text : Text} {rest : List Text}
    (hqueue : s.toClient = text :: rest) :
    ({ s with toClient := rest, clipboard := some text } : Clipboards).Echo widen ts where
  clipboard_mem u hu := by
    rw [← Option.some.inj hu]
    exact hs.toClient_mem text (hqueue ▸ List.mem_cons_self)
  toClient_mem u hu := hs.toClient_mem u (hqueue ▸ List.mem_cons_of_mem _ hu)
  arriving u hu := by
    have hold : s.arriving = some u := hs.arriving u hu
    rw [Clipboards.arriving, hqueue, List.getLast?_cons, Option.some_or] at hold
    show rest.getLast?.or (some text) = some u
    rw [← hold]
    cases rest.getLast? <;> rfl
  ticked h := by
    have hnil := (hs.ticked h).1
    rw [hqueue] at hnil
    exact absurd hnil (List.cons_ne_nil _ _)
  fits := hs.fits
  fresh := hs.fresh
  noted h := ⟨rfl, (hs.noted h).2⟩

/-- The sysmodule takes a packet. -/
theorem Echo.deliverToServer (hs : s.Echo widen ts) {text : Text} {rest : List Text}
    (hqueue : s.toServer = text :: rest) :
    ({ s with toServer := rest, sCurClipboardString := text } : Clipboards).Echo widen ts where
  clipboard_mem := hs.clipboard_mem
  toClient_mem := hs.toClient_mem
  arriving := hs.arriving
  ticked := hs.ticked
  fits u hu := hs.fits u (hqueue ▸ List.mem_cons_of_mem _ hu)
  fresh h := by
    have hnil := (hs.fresh h).2.1
    rw [hqueue] at hnil
    exact absurd hnil (List.cons_ne_nil _ _)
  noted h := by
    obtain ⟨hsome, u, hu, hhash, hreturns⟩ := hs.noted h
    refine ⟨hsome, u, hu, hhash, fun hfits => ?_⟩
    have hold : s.returning = u := hreturns hfits
    rw [Clipboards.returning, hqueue, List.getLast?_cons] at hold
    exact hold

/-- What a tick does when the clipboard has a text. -/
theorem sends_some {text : Text} (htext : s.clipboard = some text) :
    s.sends widen = some (if hashMurmurStr widen text.bytes ≠ s.sLastClipboardStringHash ∧
      text.textSize ≤ maxTextSize then [text] else []) := by
  unfold sends
  rw [htext]
  show (if hashMurmurStr widen text.bytes ≠ _ then _ else _) = _
  by_cases hhash : hashMurmurStr widen text.bytes ≠ s.sLastClipboardStringHash
  · rw [if_pos hhash]
    by_cases hfits : text.textSize ≤ maxTextSize
    · rw [if_pos ⟨hhash, hfits⟩, Option.map_some, if_pos hfits]
    · rw [if_neg fun h => hfits h.2, Option.map_some, if_neg hfits]
  · rw [if_neg hhash, if_neg fun h => hhash h.1]

/-- A clipboard that has no text never had one. -/
theorem Echo.not_noted (hs : s.Echo widen ts) (hnone : s.clipboard = none) : s.noted = false := by
  by_contra h
  have hsome := (hs.noted ((Bool.not_eq_false _).mp h)).1
  rw [hnone] at hsome
  exact Bool.false_ne_true hsome

/-- So a tick does not ask for the length of a text that is not there. -/
theorem Echo.sends_none (hs : s.Echo widen ts) (hnone : s.clipboard = none) :
    s.sends widen = some [] := by
  unfold sends
  rw [hnone, (hs.fresh (hs.not_noted hnone)).1]
  exact if_neg fun h => h rfl

/-- Behind the tick that a copied text waits for, no packet is on its way to the desktop. -/
theorem Echo.tick_ticked (hs : s.Echo widen ts)
    (h : (s.ticked || (s.copied.isSome && s.toClient.isEmpty && s.toServer.isEmpty)) = true) :
    s.toClient = [] := by
  rw [Bool.or_eq_true, Bool.and_eq_true, Bool.and_eq_true] at h
  rcases h with h | ⟨⟨-, h⟩, -⟩
  · exact (hs.ticked h).1
  · exact List.isEmpty_iff.mp h

/-- A tick without a text in the clipboard. -/
theorem Echo.tick_none (hs : s.Echo widen ts) (hnone : s.clipboard = none)
    (h : s.tick widen = some s') : s'.Echo widen ts := by
  unfold tick at h
  rw [hs.sends_none hnone, Option.map_some, Option.some.injEq] at h
  subst h
  have hzero : clipboardStringHash widen s.clipboard = 0 := by rw [hnone]; rfl
  have hfresh : s.noted = false := hs.not_noted hnone
  have hnoted : (s.noted || clipboardStringHash widen s.clipboard != 0) = false := by
    rw [hfresh, hzero]
    rfl
  constructor
  · exact hs.clipboard_mem
  · exact hs.toClient_mem
  · exact hs.arriving
  · exact fun h => ⟨hs.tick_ticked h, rfl⟩
  · show ∀ text ∈ s.sCurClipboardString :: (s.toServer ++ []), _
    rw [List.append_nil]
    exact hs.fits
  · exact fun _ => ⟨hzero, by rw [List.append_nil]; exact (hs.fresh hfresh).2.1, (hs.fresh hfresh).2.2⟩
  · exact fun h => absurd (hnoted.symm.trans h) Bool.false_ne_true

/-- A tick with a text in the clipboard.  If its hash is the one that is noted, the tick does nothing;
    if not, the text is sent, or does not fit. -/
theorem Echo.tick_some (hs : s.Echo widen ts) {text : Text} (htext : s.clipboard = some text)
    (h : s.tick widen = some s') : s'.Echo widen ts := by
  have hmem : text ∈ ts := hs.clipboard_mem text htext
  have hclip : clipboardStringHash widen s.clipboard = hashMurmurStr widen text.bytes := by
    rw [htext]
    rfl
  have hsome : s.clipboard.isSome = true := by rw [htext]; rfl
  unfold tick at h
  rw [sends_some htext, Option.map_some, Option.some.injEq] at h
  subst h
  constructor
  · exact hs.clipboard_mem
  · exact hs.toClient_mem
  · exact hs.arriving
  · exact fun h => ⟨hs.tick_ticked h, rfl⟩
  · intro u hu
    rcases List.mem_cons.mp hu with rfl | hu
    · exact hs.fits _ List.mem_cons_self
    rcases List.mem_append.mp hu with hu | hu
    · exact hs.fits u (List.mem_cons_of_mem _ hu)
    · rw [List.mem_ite_nil_right] at hu
      rw [List.mem_singleton.mp hu.2]
      exact hu.1.2
  · intro h
    rw [Bool.or_eq_false_iff, bne_eq_false_iff_eq, hclip] at h
    obtain ⟨hlast, hqueue, hcur⟩ := hs.fresh h.1
    refine ⟨hclip.trans h.2, ?_, hcur⟩
    rw [if_neg fun hsent => hsent.1 (h.2.trans hlast.symm), List.append_nil]
    exact hqueue
  · intro h
    refine ⟨hsome, ?_⟩
    by_cases hhash : hashMurmurStr widen text.bytes = s.sLastClipboardStringHash
    · -- the tick before has noted the hash already
      have hnoted : s.noted = true := by
        by_contra hne
        rw [Bool.not_eq_true] at hne
        rw [hne, Bool.false_or, bne_iff_ne, hclip, hhash] at h
        exact h (hs.fresh hne).1
      obtain ⟨-, u, hu, hlast, hreturns⟩ := hs.noted hnoted
      refine ⟨u, hu, hclip.trans (hhash.trans hlast), fun hfits => ?_⟩
      show ((s.toServer ++ _).getLast?).getD s.sCurClipboardString = u
      rw [if_neg fun hsent => hsent.1 hhash, List.append_nil]
      exact hreturns hfits
    · refine ⟨text, hmem, hclip, fun hfits => ?_⟩
      show ((s.toServer ++ _).getLast?).getD s.sCurClipboardString = text
      rw [if_pos ⟨hhash, hfits⟩, List.getLast?_concat, Option.getD_some]

/-- ... and so behind every event. -/
theorem Echo.step (hs : s.Echo widen ts) {e : ClipEvent} (he : ∀ text ∈ texts [e], text ∈ ts)
    (h : s.step widen e = some s') : s'.Echo widen ts := by
  cases e with
  | copyInUI text =>
    exact Option.some.inj h ▸ hs.setClipboardText (he text List.mem_cons_self)
  | copyOnDesktop text => exact Option.some.inj h ▸ hs.copyOnDesktop (he text List.mem_cons_self)
  | deliverToClient =>
    cases hqueue : s.toClient with
    | nil => simp [Clipboards.step, hqueue] at h
    | cons text rest =>
      simp only [Clipboards.step, hqueue, Option.some.injEq] at h
      exact h ▸ hs.deliverToClient hqueue
  | tick =>
    cases htext : s.clipboard with
    | some text => exact hs.tick_some htext h
    | none => exact hs.tick_none htext h
  | deliverToServer =>
    cases hqueue : s.toServer with
    | nil => simp [Clipboards.step, hqueue] at h
    | cons text rest =>
      simp only [Clipboards.step, hqueue, Option.some.injEq] at h
      exact h ▸ hs.deliverToServer hqueue
  | paste => exact Option.some.inj h ▸ hs

theorem texts_cons (e : ClipEvent) (events : List ClipEvent) :
    texts (e :: events) = texts [e] ++ texts events := by
  cases e <;> rfl

/-! ## The theorem

  A text that has gone all the way is in the clipboard with its hash noted, so by the invariant it
  is the text that is pasted, if it was sent (`Echo.settled`).  It was not sent if it is too long,
  or if its hash is `0`, which is what is noted for no text: then what is pasted is an older
  text. -/

/-- A text that has gone all the way is in the clipboard, and its hash has been noted. -/
theorem Echo.settled (hs : s.Echo widen ts) {text : Text} (h : s.Settled text) :
    text ∈ ts ∧ s.sLastClipboardStringHash = hashMurmurStr widen text.bytes ∧
      s.returning = s.sCurClipboardString := by
  obtain ⟨hcopied, hclient, hserver, hticked⟩ := h
  have harriving : s.arriving = some text := hs.arriving text hcopied
  unfold Clipboards.arriving at harriving
  rw [hclient] at harriving
  have hclip : s.clipboard = some text := harriving
  have hlast := (hs.ticked hticked).2
  rw [hclip] at hlast
  refine ⟨hs.clipboard_mem text hclip, hlast, ?_⟩
  unfold Clipboards.returning
  rw [hserver]
  rfl

/-- **A text that has gone all the way** is pasted, if and only if it can be. -/
theorem Echo.pastes_iff (hs : s.Echo widen ts) (hno : NoCollisions widen ts) {text : Text}
    (h : s.Settled text) : s.getClipboardText = text ↔ s.Echoed widen text := by
  obtain ⟨hmem, hlast, hreturning⟩ := hs.settled h
  constructor
  · intro hpaste
    have hcur : s.sCurClipboardString = text := hpaste
    refine ⟨hs.fits text (hcur ▸ List.mem_cons_self), fun _ => ?_⟩
    cases hnoted : s.noted with
    | true => exact Or.inr rfl
    | false => exact Or.inl (hcur ▸ (hs.fresh hnoted).2.2)
  · rintro ⟨hfits, hzero⟩
    show s.sCurClipboardString = text
    cases hnoted : s.noted with
    | true =>
      -- the text whose hash was noted is this one, and the last that was sent
      obtain ⟨-, u, hu, hhash, hreturns⟩ := hs.noted hnoted
      have hsame : u = text := hno u hu text hmem (hhash.symm.trans hlast)
      subst hsame
      exact hreturning.symm.trans (hreturns hfits)
    | false =>
      obtain ⟨hnone, -, hcur⟩ := hs.fresh hnoted
      rcases hzero (hlast.symm.trans hnone) with hempty | htrue
      · exact hcur.trans hempty.symm
      · exact absurd (hnoted.symm.trans htrue) Bool.false_ne_true

/-- **Copy then paste.**  In every run of copies in the UI and on the desktop, deliveries, ticks and
    pastes, in which no two of the texts share a hash: every paste of a text that was copied in the UI
    last and has gone all the way gives that text, if and only if each text so pasted fits, and its hash
    is not mistaken for that of a clipboard without a text. -/
theorem paste_iff (widen : Widen) (clipboard : Option Text) (events : List ClipEvent)
    (hno : NoCollisions widen (clipboard.toList ++ texts events)) :
    Along (step widen) PastesCopied (init clipboard) events ↔
      Along (step widen) (PastesEchoed widen) (init clipboard) events := by
  let ts := clipboard.toList ++ texts events
  refine along_iff (fun s rest => s.Echo widen ts ∧ ∀ text ∈ texts rest, text ∈ ts)
    (fun s e rest s' hs _ => ?_) (fun s e rest s' hs h _ => ?_) events ⟨?_, ?_⟩
  · exact forall_congr' fun _ => forall_congr' fun text => forall_congr' fun _ =>
      forall_congr' fun hsettled => hs.1.pastes_iff hno hsettled
  · obtain ⟨hecho, hrest⟩ := hs
    rw [texts_cons] at hrest
    exact ⟨hecho.step (fun text htext => hrest text (List.mem_append_left _ htext)) h,
      fun text htext => hrest text (List.mem_append_right _ htext)⟩
  · exact Echo.init clipboard fun text htext =>
      List.mem_append_left _ (Option.mem_toList.mpr htext)
  · exact fun text htext => List.mem_append_right _ htext

theorem zero_not_mem_replicate (n : Nat) : (0 : UInt8) ∉ List.replicate n 97 :=
  fun h => absurd (List.eq_of_mem_replicate h) (by decide)

/-- So many `a`. -/
def letters (n : Nat) : Text := ⟨List.replicate n 97, zero_not_mem_replicate n⟩

theorem textSize_letters (n : Nat) : (letters n).textSize = n + 1 :=
  congrArg (· + 1) List.length_replicate

/-- The desktop has a text, another one is copied in the UI, and pasted when it has come back. -/
def roundTrip (text : Text) : List ClipEvent :=
  [.tick, .deliverToServer, .copyInUI text, .deliverToClient, .tick, .deliverToServer, .paste]

theorem pastes_roundTrip :
    Along (step widenSigned) PastesCopied (init (some (letters 3))) (roundTrip (letters 4)) :=
  (paste_iff widenSigned (some (letters 3)) (roundTrip (letters 4)) (by decide +kernel)).mpr
    (by decide +kernel)

/-- A text is copied in the UI, and goes all the way as far as it is sent. -/
def copiesOnce (text : Text) : List ClipEvent := [.copyInUI text, .deliverToClient, .tick]

/-- A text that is too long, or whose hash is that of none, is not sent by the desktop. -/
theorem run_copiesOnce (widen : Widen) {text : Text}
    (hunsent : ¬(hashMurmurStr widen text.bytes ≠ 0 ∧ text.textSize ≤ maxTextSize)) :
    ∃ s, run (step widen) (init none) (copiesOnce text) = some s ∧ s.Settled text ∧
      s.getClipboardText = Text.empty := by
  let s : Clipboards :=
    { (init none).setClipboardText text with toClient := [], clipboard := some text }
  have hsends : s.sends widen = some [] := by
    rw [sends_some (s := s) rfl]
    exact congrArg some (if_neg hunsent)
  exact ⟨_, run_cons.mpr ⟨_, rfl, run_cons.mpr ⟨s, rfl, run_cons.mpr
      ⟨_, Option.map_eq_some_iff.mpr ⟨[], hsends, rfl⟩, rfl⟩⟩⟩,
    ⟨rfl, rfl, rfl, rfl⟩, rfl⟩

/-- So what is pasted is the text of before, which is none. -/
theorem not_pastes_of_unsent (widen : Widen) {text : Text}
    (hunsent : ¬(hashMurmurStr widen text.bytes ≠ 0 ∧ text.textSize ≤ maxTextSize))
    (hne : Text.empty ≠ text) :
    ¬Along (step widen) PastesCopied (init none) (copiesOnce text ++ [.paste]) := by
  intro h
  obtain ⟨s, hrun, hsettled, hpaste⟩ := run_copiesOnce widen hunsent
  obtain ⟨s', _, hrun', -, hpastes⟩ := Along.last _ h
  have hsame : s' = s := Option.some.inj (hrun'.symm.trans hrun)
  subst hsame
  exact hne (hpaste.symm.trans (hpastes rfl text hsettled.1 hsettled))

/-- The bytes of `ajrfjpbr`. -/
def zeroHashBytes : List UInt8 := [97, 106, 114, 102, 106, 112, 98, 114]

theorem zero_not_mem_zeroHashBytes : 0 ∉ zeroHashBytes := by decide

/-- A text whose hash is `0`. -/
def zeroHash : Text := ⟨zeroHashBytes, zero_not_mem_zeroHashBytes⟩

/-- A single text does not collide. -/
theorem noCollisions_copiesOnce (widen : Widen) (text : Text) :
    NoCollisions widen (texts (copiesOnce text)) := by
  intro t ht u hu _
  exact (List.mem_singleton.mp ht).trans (List.mem_singleton.mp hu).symm

/-- A text that is too long, and one that is taken for none. -/
theorem not_pastes_copiesOnce :
    (NoCollisions widenSigned (texts (copiesOnce (letters 512))) ∧
      ¬Along (step widenSigned) PastesCopied (init none) (copiesOnce (letters 512) ++ [.paste])) ∧
    (NoCollisions widenSigned (texts (copiesOnce zeroHash)) ∧
      ¬Along (step widenSigned) PastesCopied (init none) (copiesOnce zeroHash ++ [.paste])) := by
  refine ⟨⟨noCollisions_copiesOnce _ _, ?_⟩, noCollisions_copiesOnce _ _, ?_⟩
  · refine not_pastes_of_unsent widenSigned (fun h => ?_) fun h => ?_
    · have hfits := h.2
      rw [textSize_letters] at hfits
      exact absurd hfits (by decide)
    · have hsize := congrArg Text.textSize h
      rw [textSize_letters] at hsize
      exact absurd hsize (by decide)
  · exact not_pastes_of_unsent widenSigned (fun h => absurd (by decide +kernel) h.1) (by decide)

end Clipboards

end Nxdb
