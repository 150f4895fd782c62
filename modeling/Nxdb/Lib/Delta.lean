/-
  Delta encoding of a sequence of lists against a table of keys.

  A sender transmits a sequence of frames, each a list of items.  It keeps a `Table`: for every
  index the key of the item it last sent there.  An item whose key is the stored one is sent as a
  mark (`none`), any other item in full (`encode`), and the table is overwritten index by index
  (`store`).  The receiver keeps only the frame it built last and resolves a mark at index `i` to
  its own item at `i`, or to a default item if it has none there (`patch`).

  The two memories are not the same: a shorter frame leaves the sender's table longer than the
  receiver's list, and a receiver that joins late has no list at all.  Four mirrors say what the
  receiver holds nevertheless:

  * `Mirror`      one receiver from the start; `receive_eq_iff` is the exact condition under which
                  a frame arrives whole;
  * `LateMirror`  a receiver that joined when the table was already filled: an index is right iff
                  some frame since then changed it (`Refreshed`);
  * `FirstMirror` one receiver that joined when the table had no item's key, whose view of an item may
                  change from frame to frame: it has all items, each seen in some way;
  * `TagMirror`   one receiver whose view of an item depends on a tag of the frame that brought it;
                  an index shows the tag of the last frame that changed it (`lastChange`);
  * `LossyMirror` one receiver that not all frames get to, with such a view: at each index it has
                  what the last frame brought that got through and changed the index (`held`).

  `InFlight` relates a queue of messages to the frames they encode.
-/
import Mathlib.Data.List.Basic

namespace Nxdb.Lib.Delta

variable {α β κ : Type}

/-- The sender's memory: the key stored at each index, `none` where it has no slot. -/
abbrev Table (κ : Type) := Nat → Option κ

variable (key : α → κ) (view : α → β) (d : β)

/-- A frame as sent: a mark for an item whose key is stored at its index, the item otherwise. -/
def encode [DecidableEq κ] (t : Table κ) (f : List α) : List (Option α) :=
  f.mapIdx fun i a => if t i = some (key a) then none else some a

/-- Encoding keeps the number of items ... -/
@[simp] theorem length_encode [DecidableEq κ] {key : α → κ} {t : Table κ} {f : List α} :
    (encode key t f).length = f.length := by
  simp [encode]

/-- ... and goes by index: an item is left out where its key is the stored one. -/
theorem getElem?_encode [DecidableEq κ] {key : α → κ} {t : Table κ} {f : List α} (i : Nat) :
    (encode key t f)[i]? = f[i]?.map fun a => if t i = some (key a) then none else some a := by
  rw [encode, List.getElem?_mapIdx]

/-- Only items of the frame are sent in full. -/
theorem mem_of_some_mem_encode [DecidableEq κ] {key : α → κ} {t : Table κ} {f : List α} {a : α}
    (h : some a ∈ encode key t f) : a ∈ f := by
  obtain ⟨i, hi⟩ := List.getElem?_of_mem h
  rw [getElem?_encode] at hi
  obtain ⟨b, hb, heq⟩ := Option.map_eq_some_iff.mp hi
  by_cases hkey : t i = some (key b)
  · rw [if_pos hkey] at heq
    exact absurd heq (Option.some_ne_none a).symm
  · rw [if_neg hkey] at heq
    exact Option.some.inj heq ▸ List.mem_of_getElem? hb

/-- The table after a frame. -/
def store (t : Table κ) (f : List α) : Table κ := fun i => (f[i]?.map key).or (t i)

/-- The receiver's frame: a mark becomes the previous item at the index, or the default. -/
def patch (prev : List β) (msg : List (Option β)) : List β :=
  msg.mapIdx fun i e => e.getD (prev.getD i d)

/-- What the receiver makes of a frame, seen through `view`. -/
def receive [DecidableEq κ] (t : Table κ) (prev : List β) (f : List α) : List β :=
  patch d prev ((encode key t f).map (Option.map view))

variable {key view d} {t : Table κ} {prev : List β} {f : List α}

/-- **The receiver's item at an index.** -/
theorem getElem?_receive [DecidableEq κ] (i : Nat) :
    (receive key view d t prev f)[i]? =
      f[i]?.map fun a => if t i = some (key a) then prev.getD i d else view a := by
  rw [receive, patch, List.getElem?_mapIdx, List.getElem?_map, getElem?_encode]
  cases hf : f[i]? with
  | none => rfl
  | some a =>
    by_cases h : t i = some (key a)
    · simp [h]
    · simp [h]

/-- A receiver has as many items as the frame. -/
@[simp] theorem length_receive [DecidableEq κ] :
    (receive key view d t prev f).length = f.length := by
  simp [receive, patch, encode]

/-- Seen through `g`, the receiver receives what a receiver with the view through `g` receives. -/
theorem map_receive [DecidableEq κ] {γ : Type} (g : β → γ) :
    (receive key view d t prev f).map g =
      receive key (fun a => g (view a)) (g d) t (prev.map g) f := by
  apply List.ext_getElem?
  intro i
  rw [List.getElem?_map, getElem?_receive, getElem?_receive, Option.map_map]
  congr 1
  funext a
  by_cases h : t i = some (key a)
  · rw [Function.comp_apply, if_pos h, if_pos h, List.getD_eq_getElem?_getD,
      List.getD_eq_getElem?_getD, List.getElem?_map, Option.getD_map]
  · rw [Function.comp_apply, if_neg h, if_neg h]

/-- The table has the keys of the frame where the frame has items ... -/
theorem store_of_some {i : Nat} {a : α} (h : f[i]? = some a) : store key t f i = some (key a) := by
  rw [store, h]; rfl

/-- ... and what it had before behind them: keys outlive a frame that is longer. -/
theorem store_of_none {i : Nat} (h : f[i]? = none) : store key t f i = t i := by
  rw [store, h]; rfl

/-- A sender that walks the frame with an index stores the head at `s` and the rest from `s + 1` on:
    together the whole frame from `s` on, and nothing below `s`. -/
theorem store_cons_shift {t₀ t₁ t₂ : Table κ} {s : Nat} {a : α} (hhead : t₁ s = some (key a))
    (hother : ∀ i, i ≠ s → t₁ i = t₀ i)
    (hrest : ∀ i, t₂ (s + 1 + i) = store key (fun j => t₁ (s + 1 + j)) f i)
    (hlow : ∀ i, i < s + 1 → t₂ i = t₁ i) :
    (∀ i, t₂ (s + i) = store key (fun j => t₀ (s + j)) (a :: f) i) ∧ ∀ i, i < s → t₂ i = t₀ i := by
  constructor
  · intro i
    cases i with
    | zero => exact (hlow s (Nat.lt_succ_self s)).trans hhead
    | succ i =>
      rw [show s + (i + 1) = s + 1 + i by omega, hrest i, store, store, List.getElem?_cons_succ,
        hother (s + 1 + i) (by omega), show s + 1 + i = s + (i + 1) by omega]
  · intro i hi
    rw [hlow i (by omega), hother i (by omega)]

/-- The keys tell the items of `S` apart. -/
def KeyInj (key : α → κ) (S : α → Prop) : Prop := ∀ a b, S a → S b → key a = key b → a = b

/-- Keys that tell some items apart tell fewer of them apart. -/
theorem KeyInj.mono {S S' : α → Prop} (h : KeyInj key S) (hsub : ∀ a, S' a → S a) :
    KeyInj key S' :=
  fun a b ha hb => h a b (hsub a ha) (hsub b hb)

/-! ## One receiver from the start

  The receiver has exactly what the sender's table says it has, up to the length of the last frame.
  Behind it the table remembers more than the receiver does, which is where a frame can go wrong. -/

/-- The receiver's list agrees with the table wherever it has an item. -/
def Mirror (key : α → κ) (view : α → β) (S : α → Prop) (t : Table κ) (prev : List β) : Prop :=
  ∀ i, i < prev.length → ∃ a, S a ∧ t i = some (key a) ∧ prev[i]? = some (view a)

/-- No item behind the receiver's list has the key that is stored at its index. -/
def NoReturn (key : α → κ) (t : Table κ) (n : Nat) (f : List α) : Prop :=
  ∀ i a, f[i]? = some a → n ≤ i → t i ≠ some (key a)

/-- The frame just shown is mirrored by the table it leaves behind. -/
theorem mirror_store {S : α → Prop} (hS : ∀ a ∈ f, S a) :
    Mirror key view S (store key t f) (f.map view) := by
  intro i hi
  rw [List.length_map] at hi
  have hget := List.getElem?_eq_getElem hi
  exact ⟨f[i], hS _ (List.getElem_mem hi), store_of_some hget, by rw [List.getElem?_map, hget]; rfl⟩

/-- **A frame arrives whole iff nothing behind the receiver's list is marked.**  Within the list a
    mark is resolved rightly because the keys are injective; behind it a mark becomes the default,
    which no item of the frame looks like. -/
theorem receive_eq_iff [DecidableEq κ] {S : α → Prop} (hinj : KeyInj key S)
    (hm : Mirror key view S t prev) (hS : ∀ a ∈ f, S a) (hd : ∀ a ∈ f, view a ≠ d) :
    receive key view d t prev f = f.map view ↔ NoReturn key t prev.length f := by
  constructor
  · -- a mark behind the list would show the default
    intro h i a hfi hi hkey
    have hget := congrArg (fun l => l[i]?) h
    simp only [getElem?_receive, List.getElem?_map, hfi, Option.map_some, if_pos hkey] at hget
    have hnone : prev[i]? = none := List.getElem?_eq_none hi
    rw [List.getD_eq_getElem?_getD, hnone] at hget
    exact hd a (List.mem_of_getElem? hfi) (Option.some.inj hget).symm
  · intro h
    apply List.ext_getElem?
    intro i
    rw [getElem?_receive, List.getElem?_map]
    cases hfi : f[i]? with
    | none => rfl
    | some a =>
      by_cases hkey : t i = some (key a)
      · -- marked: the stored key is the one of the receiver's own item
        have hi : i < prev.length := Nat.lt_of_not_le fun hle => h i a hfi hle hkey
        obtain ⟨b, hb, htb, hprev⟩ := hm i hi
        have hab : a = b := hinj a b (hS a (List.mem_of_getElem? hfi)) hb
          (Option.some.inj (hkey.symm.trans htb))
        simp [hkey, List.getD_eq_getElem?_getD, hprev, hab]
      · simp [hkey]

/-! ## A receiver that joins late

  The table at the time of joining says what is missing: an index is right as soon as one frame
  since then has sent it in full, and until then every mark stands for something the receiver has
  never had. -/

/-- The table after a sequence of frames. -/
def stores (key : α → κ) (t : Table κ) (fs : List (List α)) : Table κ := fs.foldl (store key) t

/-- The last frame of a sequence. -/
def last (fs : List (List α)) : List α := fs.getLast?.getD []

/-- Some frame of the sequence has at index `i` an item other than the one stored beforehand. -/
def Refreshed (key : α → κ) (t : Table κ) (fs : List (List α)) (i : Nat) : Prop :=
  ∃ f ∈ fs, ∃ a, f[i]? = some a ∧ t i ≠ some (key a)

/-- The last frame of a run is the one that was added. -/
@[simp] theorem last_concat (fs : List (List α)) (f : List α) : last (fs ++ [f]) = f := by
  simp [last]

/-- An item of the last frame is one of a frame. -/
theorem mem_of_mem_last {fs : List (List α)} {a : α} (h : a ∈ last fs) : ∃ g ∈ fs, a ∈ g := by
  rw [last] at h
  cases hlast : fs.getLast? with
  | none =>
    rw [hlast] at h
    exact absurd h List.not_mem_nil
  | some g =>
    rw [hlast] at h
    exact ⟨g, List.mem_of_getLast? hlast, h⟩

/-- A bound on all frames is one on the last. -/
theorem length_last_le {fs : List (List α)} {n : Nat} (h : ∀ g ∈ fs, g.length ≤ n) :
    (last fs).length ≤ n := by
  rw [last]
  cases hlast : fs.getLast? with
  | none => exact Nat.zero_le n
  | some g => exact h g (List.mem_of_getLast? hlast)

/-- The table after one more frame. -/
theorem stores_concat (fs : List (List α)) (f : List α) :
    stores key t (fs ++ [f]) = store key (stores key t fs) f := by
  simp [stores]

/-- While an index is not refreshed, the table keeps its old entry there. -/
theorem stores_of_not_refreshed :
    ∀ (fs : List (List α)) (t : Table κ) {i : Nat}, ¬ Refreshed key t fs i →
      stores key t fs i = t i := by
  intro fs
  induction fs with
  | nil => exact fun _ _ _ => rfl
  | cons f fs ih =>
    intro t i h
    have hstep : store key t f i = t i := by
      cases hf : f[i]? with
      | none => exact store_of_none hf
      | some a =>
        rw [store_of_some hf]
        by_contra hne
        exact h ⟨f, List.mem_cons_self, a, hf, fun heq => hne heq.symm⟩
    have hrest : ¬ Refreshed key (store key t f) fs i := by
      rintro ⟨g, hg, a, hga, hne⟩
      exact h ⟨g, List.mem_cons_of_mem _ hg, a, hga, hstep ▸ hne⟩
    show stores key (store key t f) fs i = t i
    rw [ih _ hrest, hstep]

/-- An index of the last frame holds that frame's key. -/
theorem stores_of_last {fs : List (List α)} {i : Nat} {a : α} (h : (last fs)[i]? = some a) :
    stores key t fs i = some (key a) := by
  rcases List.eq_nil_or_concat fs with rfl | ⟨gs, g, rfl⟩
  · simp [last] at h
  · rw [List.concat_eq_append] at h ⊢
    rw [last_concat] at h
    rw [stores_concat, store_of_some h]

/-- What a receiver holds that joined when the table was `t` and was sent `fs` since then: as many
    items as the last frame, the right one at every refreshed index and the default elsewhere. -/
structure LateMirror (key : α → κ) (view : α → β) (d : β) (t : Table κ) (fs : List (List α))
    (prev : List β) : Prop where
  length_eq : prev.length = (last fs).length
  bound : ∀ f ∈ fs, f.length ≤ (last fs).length
  fresh : ∀ i a, (last fs)[i]? = some a → Refreshed key t fs i → prev[i]? = some (view a)
  stale : ∀ i a, (last fs)[i]? = some a → ¬ Refreshed key t fs i → prev[i]? = some d

/-- Before the first frame nothing is held. -/
theorem LateMirror.init : LateMirror key view d t [] ([] : List β) where
  length_eq := rfl
  bound := fun _ h => absurd h List.not_mem_nil
  fresh := fun i a h => by simp [last] at h
  stale := fun i a h => by simp [last] at h

/-- An index is refreshed by an earlier frame, or by the last. -/
theorem refreshed_concat {fs : List (List α)} {i : Nat} :
    Refreshed key t (fs ++ [f]) i ↔
      Refreshed key t fs i ∨ ∃ a, f[i]? = some a ∧ t i ≠ some (key a) := by
  constructor
  · rintro ⟨g, hg, a, hga, hne⟩
    rcases List.mem_append.mp hg with hg | hg
    · exact Or.inl ⟨g, hg, a, hga, hne⟩
    · rw [List.mem_singleton] at hg
      exact Or.inr ⟨a, hg ▸ hga, hne⟩
  · rintro (⟨g, hg, a, hga, hne⟩ | ⟨a, hfa, hne⟩)
    · exact ⟨g, List.mem_append_left _ hg, a, hga, hne⟩
    · exact ⟨f, List.mem_append_right _ (List.mem_singleton.mpr rfl), a, hfa, hne⟩

/-- A refreshed index lies inside the last frame when the frames never get shorter. -/
theorem LateMirror.lt_of_refreshed {fs : List (List α)} (h : LateMirror key view d t fs prev)
    {i : Nat} (hr : Refreshed key t fs i) : i < (last fs).length := by
  obtain ⟨g, hg, a, hga, -⟩ := hr
  exact Nat.lt_of_lt_of_le (List.getElem?_eq_some_iff.mp hga).1 (h.bound g hg)

/-- **One more frame for a late receiver.** -/
theorem LateMirror.receive [DecidableEq κ] {fs : List (List α)} {S : α → Prop}
    (hinj : KeyInj key S) (h : LateMirror key view d t fs prev) (hlen : (last fs).length ≤ f.length)
    (hlast : ∀ a ∈ last fs, S a) (hS : ∀ a ∈ f, S a) :
    LateMirror key view d t (fs ++ [f]) (receive key view d (stores key t fs) prev f) where
  length_eq := by rw [length_receive, last_concat]
  bound := by
    intro g hg
    rw [last_concat]
    rcases List.mem_append.mp hg with hg | hg
    · exact Nat.le_trans (h.bound g hg) hlen
    · exact (List.mem_singleton.mp hg) ▸ Nat.le_refl _
  fresh := by
    intro i a hfi hr
    rw [last_concat] at hfi
    rw [getElem?_receive, hfi, Option.map_some]
    by_cases hold : Refreshed key t fs i
    · -- refreshed before: the receiver's old item is the last frame's
      have hi := h.lt_of_refreshed hold
      have hget := List.getElem?_eq_getElem hi
      rw [stores_of_last hget]
      by_cases hkey : key (last fs)[i] = key a
      · have hab := hinj _ a (hlast _ (List.getElem_mem hi)) (hS a (List.mem_of_getElem? hfi)) hkey
        rw [if_pos (congrArg some hkey), List.getD_eq_getElem?_getD, h.fresh i _ hget hold, hab]
        rfl
      · rw [if_neg fun heq => hkey (Option.some.inj heq)]
    · -- refreshed by this frame: the table still holds the old entry, so the item is sent in full
      obtain ⟨b, hfb, hne⟩ := (refreshed_concat.mp hr).resolve_left hold
      have hab : a = b := Option.some.inj (hfi.symm.trans hfb)
      rw [stores_of_not_refreshed fs t hold, if_neg (hab ▸ hne)]
  stale := by
    intro i a hfi hr
    rw [last_concat] at hfi
    have hold : ¬ Refreshed key t fs i := fun h' => hr (refreshed_concat.mpr (Or.inl h'))
    have hkey : t i = some (key a) := by
      by_contra hne
      exact hr (refreshed_concat.mpr (Or.inr ⟨a, hfi, hne⟩))
    rw [getElem?_receive, hfi, Option.map_some, stores_of_not_refreshed fs t hold, if_pos hkey,
      List.getD_eq_getElem?_getD]
    cases hlf : (last fs)[i]? with
    | none =>
      have hnone : prev[i]? = none := by
        rw [List.getElem?_eq_none_iff, h.length_eq]
        exact List.getElem?_eq_none_iff.mp hlf
      rw [hnone]; rfl
    | some b => rw [h.stale i b hlf hold]; rfl

/-- **A late receiver shows the last frame iff every index was refreshed**, save for the items that
    look like the default. -/
theorem LateMirror.shows_iff {fs : List (List α)} (h : LateMirror key view d t fs prev) :
    (∀ (i : Nat) (a : α), (last fs)[i]? = some a → prev[i]? = some (view a)) ↔
      ∀ (i : Nat) (a : α), (last fs)[i]? = some a → view a ≠ d → Refreshed key t fs i := by
  constructor
  · intro hshown i a hi hd
    by_contra hr
    have hview := (h.stale i a hi hr).symm.trans (hshown i a hi)
    exact hd (Option.some.inj hview).symm
  · intro hall i a hi
    by_cases hr : Refreshed key t fs i
    · exact h.fresh i a hi hr
    · have hd : view a = d := by
        by_contra hd
        exact hr (hall i a hi hd)
      rw [hd]
      exact h.stale i a hi hr

/-! ## A receiver that joins first

  No item has a key that the table has at the beginning, so every item is sent in full once, and a
  mark always stands for something the receiver has.  What it makes of an item is a relation `R`
  here, that may hold of several values. -/

/-- What a receiver holds that was there before any item's key was stored: each item of the last
    frame, seen in a way that `R` allows. -/
structure FirstMirror (R : α → β → Prop) (fs : List (List α)) (prev : List β) : Prop where
  length_eq : prev.length = (last fs).length
  bound : ∀ f ∈ fs, f.length ≤ (last fs).length
  shown : ∀ (i : Nat) (a : α), (last fs)[i]? = some a → ∃ b, prev[i]? = some b ∧ R a b

/-- Before the first frame nothing is held. -/
theorem FirstMirror.init {R : α → β → Prop} : FirstMirror R [] ([] : List β) where
  length_eq := rfl
  bound := fun _ h => absurd h List.not_mem_nil
  shown := fun i a h => by simp [last] at h

/-- **One more frame for a receiver that was there first**, not shorter than the last one. -/
theorem FirstMirror.receive [DecidableEq κ] {R : α → β → Prop} {fs : List (List α)} {S : α → Prop}
    (hinj : KeyInj key S) (h : FirstMirror R fs prev) (hlen : (last fs).length ≤ f.length)
    (hlast : ∀ a ∈ last fs, S a) (hS : ∀ a ∈ f, S a) (hview : ∀ a, R a (view a))
    (hfirst : ∀ i, ∀ a ∈ f, t i ≠ some (key a)) :
    FirstMirror R (fs ++ [f]) (receive key view d (stores key t fs) prev f) where
  length_eq := by rw [length_receive, last_concat]
  bound := by
    intro g hg
    rw [last_concat]
    rcases List.mem_append.mp hg with hg | hg
    · exact Nat.le_trans (h.bound g hg) hlen
    · exact (List.mem_singleton.mp hg) ▸ Nat.le_refl _
  shown := by
    intro i a hfi
    rw [last_concat] at hfi
    rw [getElem?_receive, hfi, Option.map_some]
    have hmem := List.mem_of_getElem? hfi
    cases hget : (last fs)[i]? with
    | some b =>
      rw [stores_of_last hget]
      by_cases hkey : key b = key a
      · -- unchanged: the receiver's item is this one
        have hab := hinj b a (hlast b (List.mem_of_getElem? hget)) (hS a hmem) hkey
        obtain ⟨c, hc, hR⟩ := h.shown i b hget
        rw [if_pos (congrArg some hkey), List.getD_eq_getElem?_getD, hc, Option.getD_some]
        exact ⟨c, rfl, hab ▸ hR⟩
      · rw [if_neg fun heq => hkey (Option.some.inj heq)]
        exact ⟨view a, rfl, hview a⟩
    | none =>
      -- no frame was that long, so the table has its old entry there
      have hnot : ¬ Refreshed key t fs i := by
        rintro ⟨g, hg, b, hgb, -⟩
        have hi := (List.getElem?_eq_some_iff.mp hgb).1
        have hle := List.getElem?_eq_none_iff.mp hget
        have hbound := h.bound g hg
        omega
      rw [stores_of_not_refreshed fs t hnot, if_neg (hfirst i a hmem)]
      exact ⟨view a, rfl, hview a⟩

/-! ## A receiver whose view depends on the frame that brought the item

  Frames carry a tag, and an item is seen with the tag of the frame that brought it; a mark keeps
  the earlier one.  So an index has the tag of the last frame that changed it. -/

section Tagged

variable {τ : Type} [DecidableEq α]

/-- The tag of the last frame that changed index `i`; the history is newest first. -/
def lastChange (i : Nat) : List (τ × List α) → Option τ
  | [] => none
  | (tag, f) :: hist =>
    if (hist.head?.bind fun h => h.2[i]?) = f[i]? then lastChange i hist else some tag

/-- The items of the newest frame, none before the first. -/
def newest (hist : List (τ × List α)) : List α := (hist.head?.map Prod.snd).getD []

/-- What a receiver holds that was there from the start: at each index the newest item, as the tag
    of the last change shows it. -/
structure TagMirror (view : τ → α → β) (hist : List (τ × List α)) (prev : List β) : Prop where
  length_eq : prev.length = (newest hist).length
  shown : ∀ i a, (newest hist)[i]? = some a →
    ∃ tag, lastChange i hist = some tag ∧ prev[i]? = some (view tag a)

/-- Before the first frame nothing is held. -/
theorem TagMirror.init {view : τ → α → β} : TagMirror view ([] : List (τ × List α)) [] where
  length_eq := rfl
  shown := fun i a h => by simp [newest] at h

/-- **One more frame**, of the length of the one before (or the first one, over a table that holds
    none of its keys). -/
theorem TagMirror.receive [DecidableEq κ] {view : τ → α → β} {hist : List (τ × List α)} {tag : τ}
    {S : α → Prop} (hinj : KeyInj key S) (h : TagMirror view hist prev)
    (hlen : hist ≠ [] → (newest hist).length = f.length)
    (hnew : ∀ a ∈ newest hist, S a) (hS : ∀ a ∈ f, S a)
    (hfirst : hist = [] → ∀ i a, f[i]? = some a → t i ≠ some (key a))
    (htable : ∀ i a, (newest hist)[i]? = some a → t i = some (key a)) :
    TagMirror view ((tag, f) :: hist) (receive key (view tag) d t prev f) where
  length_eq := by rw [length_receive]; rfl
  shown := by
    intro i a hfi
    replace hfi : f[i]? = some a := hfi
    rw [getElem?_receive, hfi, Option.map_some, lastChange, hfi]
    cases hist with
    | nil => exact ⟨tag, by simp, by rw [if_neg (hfirst rfl i a hfi)]⟩
    | cons g hist =>
      have hi : i < (newest (g :: hist)).length := by
        rw [hlen (List.cons_ne_nil _ _)]
        exact (List.getElem?_eq_some_iff.mp hfi).1
      have hget := List.getElem?_eq_getElem hi
      have hhead : ((g :: hist).head?.bind fun h => h.2[i]?) = some (newest (g :: hist))[i] := hget
      rw [htable i _ hget, hhead]
      by_cases hab : (newest (g :: hist))[i] = a
      · -- unchanged: the item is marked and keeps its tag
        obtain ⟨tag', hlast, hprev⟩ := h.shown i _ hget
        refine ⟨tag', by rw [if_pos (congrArg some hab)]; exact hlast, ?_⟩
        rw [if_pos (by rw [hab]), List.getD_eq_getElem?_getD, hprev, hab]
        rfl
      · have hkey : key (newest (g :: hist))[i] ≠ key a := fun hk =>
          hab (hinj _ a (hnew _ (List.getElem_mem hi)) (hS a (List.mem_of_getElem? hfi)) hk)
        refine ⟨tag, by rw [if_neg fun heq => hab (Option.some.inj heq)], ?_⟩
        rw [if_neg fun heq => hkey (Option.some.inj heq)]

end Tagged

/-! ## A receiver that not all frames get to

  The table follows all frames, the receiver those that get through (with a tag).  What stands in
  the table at an index is the item of the last frame that had the index (`stands`), what the
  receiver has is the item of the last one that changed it and got through (`held`). -/

section Lossy

variable {τ : Type}

/-- The item that the sender has sent or marked last at index `i`; the history is newest first. -/
def stands (i : Nat) : List (Option τ × List α) → Option α
  | [] => none
  | (_, f) :: hist => f[i]?.or (stands i hist)

/-- A frame from which the item at an index is sent in full stands there. -/
theorem stands_cons {i : Nat} {a : α} {e : Option τ × List α} {hist : List (Option τ × List α)}
    (h : e.2[i]? = some a) : stands i (e :: hist) = some a := by
  rw [stands, h]; rfl

variable [DecidableEq α]

/-- What the receiver has at index `i`, with the tag of the frame that brought it: a frame without a
    tag is lost, one that gets through brings what it changes, and takes away what it does not have. -/
def held (i : Nat) : List (Option τ × List α) → Option (τ × α)
  | [] => none
  | (none, _) :: hist => held i hist
  | (some tag, f) :: hist =>
    f[i]?.bind fun a => if stands i hist = some a then held i hist else some (tag, a)

/-- As long as the item at an index stays the same, the receiver keeps what it has there, whatever
    gets through. -/
theorem held_of_unchanged {i : Nat} {a : α} {hist : List (Option τ × List α)}
    (ha : stands i hist = some a) : ∀ newer : List (Option τ × List α),
      (∀ e ∈ newer, e.2[i]? = some a) →
        stands i (newer ++ hist) = some a ∧ held i (newer ++ hist) = held i hist := by
  intro newer
  induction newer with
  | nil => exact fun _ => ⟨ha, rfl⟩
  | cons e newer ih =>
    intro hall
    have hget : e.2[i]? = some a := hall e List.mem_cons_self
    obtain ⟨hstands, hheld⟩ := ih fun e' he' => hall e' (List.mem_cons_of_mem e he')
    refine ⟨stands_cons hget, ?_⟩
    obtain ⟨_ | tag, f⟩ := e
    · exact hheld
    · show (f[i]?.bind fun b => if stands i (newer ++ hist) = some b then held i (newer ++ hist)
        else some (tag, b)) = held i hist
      rw [hget, Option.bind_some, if_pos hstands, hheld]

/-- What the two sides have, whichever frames got through: the receiver `held`, with the default for
    nothing, and the table what `stands`. -/
structure LossyMirror (key : α → κ) (view : τ → α → β) (d : β) (S : α → Prop)
    (hist : List (Option τ × List α)) (t : Table κ) (prev : List β) : Prop where
  holds : ∀ i, prev.getD i d = (held i hist).elim d fun h => view h.1 h.2
  table : ∀ i a, S a → (t i = some (key a) ↔ stands i hist = some a)

variable {view : τ → α → β} {S : α → Prop} {hist : List (Option τ × List α)}

/-- At the beginning the table has none of the keys. -/
theorem LossyMirror.init (h : ∀ i a, S a → t i ≠ some (key a)) :
    LossyMirror key view d S ([] : List (Option τ × List α)) t [] where
  holds := fun _ => rfl
  table := fun i a ha =>
    ⟨fun heq => absurd heq (h i a ha), fun heq => absurd heq (Option.some_ne_none a).symm⟩

/-- The table has what stands, whatever becomes of the frame. -/
theorem LossyMirror.table_store (hinj : KeyInj key S) (h : LossyMirror key view d S hist t prev)
    (hS : ∀ a ∈ f, S a) (tag : Option τ) (i : Nat) (a : α) (ha : S a) :
    store key t f i = some (key a) ↔ stands i ((tag, f) :: hist) = some a := by
  cases hf : f[i]? with
  | none =>
    rw [store_of_none hf, h.table i a ha, stands, hf]
    rfl
  | some b =>
    rw [store_of_some hf, stands_cons hf]
    constructor
    · intro heq
      rw [hinj b a (hS b (List.mem_of_getElem? hf)) ha (Option.some.inj heq)]
    · intro heq
      rw [Option.some.inj heq]

/-- **A frame that is lost.** -/
theorem LossyMirror.lose (hinj : KeyInj key S) (h : LossyMirror key view d S hist t prev)
    (hS : ∀ a ∈ f, S a) : LossyMirror key view d S ((none, f) :: hist) (store key t f) prev where
  holds := h.holds
  table := h.table_store hinj hS none

/-- **A frame that gets through.** -/
theorem LossyMirror.receive [DecidableEq κ] {tag : τ} (hinj : KeyInj key S)
    (h : LossyMirror key view d S hist t prev) (hS : ∀ a ∈ f, S a) :
    LossyMirror key view d S ((some tag, f) :: hist) (store key t f)
      (receive key (view tag) d t prev f) where
  holds := by
    intro i
    rw [List.getD_eq_getElem?_getD, getElem?_receive]
    show _ = (f[i]?.bind fun a => if stands i hist = some a then held i hist
      else some (tag, a)).elim d fun h => view h.1 h.2
    cases hf : f[i]? with
    | none => rfl
    | some a =>
      rw [Option.map_some, Option.getD_some, Option.bind_some]
      by_cases hkey : t i = some (key a)
      · -- marked: the receiver keeps what it has
        rw [if_pos hkey, if_pos ((h.table i a (hS a (List.mem_of_getElem? hf))).mp hkey)]
        exact h.holds i
      · rw [if_neg hkey, if_neg fun heq =>
          hkey ((h.table i a (hS a (List.mem_of_getElem? hf))).mpr heq)]
        rfl
  table := h.table_store hinj hS (some tag)

end Lossy

/-! ## Messages in flight

  A queue of messages and the frames they were made of, each made against the state that the one
  before it leaves. -/

section InFlight

variable {T φ B : Type}

/-- The queue `bs` holds the messages of the frames `fs`, produced one after the other from the
    sender state `t` on. -/
def InFlight (next : T → φ → T) (Sent : T → φ → B → Prop) : T → List φ → List B → Prop
  | _, [], [] => True
  | t, f :: fs, b :: bs => Sent t f b ∧ InFlight next Sent (next t f) fs bs
  | _, _, _ => False

variable {next : T → φ → T} {Sent : T → φ → B → Prop}

/-- The sender adds a message at the back of the queue. -/
theorem InFlight.concat {g : φ} {c : B} :
    ∀ (fs : List φ) (bs : List B) {t : T}, InFlight next Sent t fs bs →
      Sent (fs.foldl next t) g c → InFlight next Sent t (fs ++ [g]) (bs ++ [c]) := by
  intro fs
  induction fs with
  | nil =>
    intro bs t h hg
    cases bs with
    | nil => exact ⟨hg, trivial⟩
    | cons b bs => exact h.elim
  | cons f fs ih =>
    intro bs t h hg
    cases bs with
    | nil => exact h.elim
    | cons b bs => exact ⟨h.1, ih bs h.2 hg⟩

/-- The receiver takes a message from the front of the queue. -/
theorem InFlight.uncons {fs : List φ} {b : B} {bs : List B} {t : T}
    (h : InFlight next Sent t fs (b :: bs)) :
    ∃ f fs', fs = f :: fs' ∧ Sent t f b ∧ InFlight next Sent (next t f) fs' bs := by
  match fs, h with
  | [], h => exact h.elim
  | f :: fs', ⟨hf, hrest⟩ => exact ⟨f, fs', rfl, hf, hrest⟩

/-- With no frame on its way none is in flight. -/
theorem InFlight.eq_nil {fs : List φ} {t : T} (h : InFlight next Sent t fs []) : fs = [] := by
  match fs, h with
  | [], _ => rfl
  | _ :: _, h => exact h.elim

end InFlight

end Nxdb.Lib.Delta
