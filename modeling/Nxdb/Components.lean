/-
  The components of the user interface: `SharedData`, debugging sessions and their module lists.

  A session and its `ModuleList` stand side by side in the list, refer to each other by address, and
  are flagged together; `handleDeadComponents` deletes what is flagged, but spares a component
  directly behind one it has just deleted (`Lib.sweep`).  So of a flagged pair it deletes one and
  spares the other.  If the module list goes first, the session stays for another frame, `lone`, and
  its window can be closed again; if the session goes first, the module list is left with a
  reference to a session that is no longer there.  `run_sound_iff`: neither happens in a run if and
  only if in every frame no flagged module list is the one that is spared, and no window is closed
  again.

  Components are known by the numbers of the objects, which are never used twice.

  1. Program: the components are a list of numbered objects; `handleDeadComponents`, `openSession`,
     `queueForDeletion` and `showImGui` are the code's, with `none` where a null pointer is
     followed.
  2. What should hold of a frame is `Sound`; the condition, on the state before it and its input,
     is `Orderly`.
  3. The crux is `Paired`: a session stands directly behind its module list, flagged together with
     it, or alone and flagged when the list has been deleted.  Four cases, one for each of its
     constructors, carry the pass and the updates.
  4. `Numbered` is what the pass keeps in any case; `Inv` adds the pairs, which it keeps only in
     orderly frames.
-/
import Nxdb.Lib.Run
import Nxdb.Lib.Sweep
import Mathlib.Data.List.Nodup

namespace Nxdb

open Lib

/-! ## The code

  Addresses are the numbers of the objects, so a pointer to an object that is gone is a number in
  `deleted`.  `handleDeadComponents` is the sweep of `Lib/Sweep`; of `update` there is what touches
  the list: the main window opens sessions, and a session whose window is closed flags itself and
  its module list. -/

/-- The classes derived from `Component`, with the pointers they hold: `mSession`, and
    `mModuleList`, which is null when attaching to the process failed. -/
inductive ComponentKind where
  | mainWindow
  | moduleList (mSession : Nat)
  | session (mModuleList : Option Nat)
deriving DecidableEq

/-- The session a module list refers to. -/
def ComponentKind.listed : ComponentKind → Option Nat
  | .moduleList mSession => some mSession
  | _ => none

theorem ComponentKind.listed_eq_some {kind : ComponentKind} {session : Nat} :
    kind.listed = some session ↔ kind = .moduleList session := by
  cases kind with
  | mainWindow => simp [listed]
  | moduleList session => simp [listed]
  | session m => simp [listed]

/-- A component: its object, its class, and the flag `queueForDeletion` sets. -/
structure Component where
  id : Nat
  kind : ComponentKind
  mDelete : Bool
deriving DecidableEq

/-- The components, the numbers of the objects that have been deleted, and the next free number. -/
structure SharedData where
  components : List Component
  deleted : List Nat
  nextId : Nat
deriving DecidableEq

/-- What the user does in a frame: the processes opened, each with whether attaching to it works,
    and the session windows closed. -/
structure UiFrame where
  opened : List Bool
  closed : List Nat

namespace SharedData

/-- `initComponents`. -/
def init : SharedData := ⟨[⟨0, .mainWindow, false⟩], [], 1⟩

/-- `SharedData::handleDeadComponents`. -/
def handleDeadComponents (s : SharedData) : SharedData :=
  let r := indexFor Component.mDelete s.components.length 0 s.components
  { s with components := r.2, deleted := s.deleted ++ r.1.map Component.id }

/-- `registerComponent(new DebuggingSession(pid))`: the constructor registers the module list. -/
def openSession (s : SharedData) (attached : Bool) : SharedData :=
  if attached then
    let moduleList : Component := ⟨s.nextId, .moduleList (s.nextId + 1), false⟩
    let session : Component := ⟨s.nextId + 1, .session (some s.nextId), false⟩
    { s with components := s.components ++ [moduleList, session], nextId := s.nextId + 2 }
  else { s with components := s.components ++ [⟨s.nextId, .session none, false⟩],
                nextId := s.nextId + 1 }

/-- `Component::queueForDeletion`. -/
def flag (s : SharedData) (id : Nat) : SharedData :=
  { s with components := s.components.map fun c =>
      if c.id = id then { c with mDelete := true } else c }

/-- `DebuggingSession::queueForDeletion`; `none` for a null pointer. -/
def queueForDeletion (s : SharedData) (id : Nat) (mModuleList : Option Nat) : Option SharedData :=
  mModuleList.map fun moduleList => (s.flag id).flag moduleList

/-- `update` of a component. -/
def update (f : UiFrame) (s : SharedData) (c : Component) : Option SharedData :=
  match c.kind with
  | .mainWindow => some (f.opened.foldl openSession s)
  | .moduleList _ => some s
  | .session mModuleList =>
    if c.id ∈ f.closed then s.queueForDeletion c.id mModuleList else some s

/-- `update` of the components there were when the loop began. -/
def updateAll (f : UiFrame) (s : SharedData) : List Component → Option SharedData
  | [] => some s
  | c :: cs => (s.update f c).bind fun s => s.updateAll f cs

/-- The sessions with a window. -/
def windows (s : SharedData) : List Nat :=
  s.components.filterMap fun c =>
    match c.kind with
    | .session _ => some c.id
    | _ => none

/-- A frame, as `showImGui` runs it; `none` when it is not possible: a window can be closed only where
    there is one. -/
def showImGui (s : SharedData) (f : UiFrame) : Option SharedData :=
  let s := s.handleDeadComponents
  if ∀ id ∈ f.closed, id ∈ s.windows then s.updateAll f s.components else none

/-- The module lists whose `queueForDeletion` is called in a frame. -/
def queued (s : SharedData) (f : UiFrame) : List Nat :=
  s.handleDeadComponents.components.filterMap fun c =>
    match c.kind with
    | .session (some moduleList) => if c.id ∈ f.closed then some moduleList else none
    | _ => none

/-! ## What should hold, and when it does -/

/-- No module list is left without its session, and none is called that is no longer there. -/
structure Sound (s : SharedData) (f : UiFrame) (s' : SharedData) : Prop where
  sessions : ∀ c ∈ s'.components, ∀ session, c.kind = .moduleList session → session ∉ s'.deleted
  calls : ∀ moduleList ∈ s.queued f, moduleList ∉ s.handleDeadComponents.deleted

/-- A flagged module list is not directly behind an odd number of flagged components in a row. -/
def SparesNoModuleList (s : SharedData) : Prop :=
  ∀ pre c post, s.components = pre ++ c :: post → c.mDelete = true →
    ∀ session, c.kind = .moduleList session →
      (pre.reverse.takeWhile Component.mDelete).length % 2 = 0

/-- A frame begins with no flagged module list behind an odd number of flagged components, and no
    window of a session that is flagged is closed in it. -/
structure Orderly (s : SharedData) (f : UiFrame) (_ : SharedData) : Prop where
  spares : s.SparesNoModuleList
  closes : ∀ c ∈ s.components, c.mDelete = true → c.id ∉ f.closed

instance (s : SharedData) (f : UiFrame) (s' : SharedData) : Decidable (Sound s f s') :=
  decidable_of_iff
    ((∀ c ∈ s'.components, ∀ session ∈ c.kind.listed, session ∉ s'.deleted) ∧
      ∀ moduleList ∈ s.queued f, moduleList ∉ s.handleDeadComponents.deleted)
    ⟨fun ⟨h, hcalls⟩ =>
        ⟨fun c hc session hkind => h c hc session (ComponentKind.listed_eq_some.mpr hkind), hcalls⟩,
      fun ⟨h, hcalls⟩ =>
        ⟨fun c hc session hkind => h c hc session (ComponentKind.listed_eq_some.mp hkind), hcalls⟩⟩

/-- The condition on a module list, by its position. -/
theorem sparesNoModuleList_iff (s : SharedData) :
    s.SparesNoModuleList ↔ ∀ i ∈ List.range s.components.length, ∀ c ∈ s.components[i]?,
      c.mDelete = true → c.kind.listed ≠ none →
        ((s.components.take i).reverse.takeWhile Component.mDelete).length % 2 = 0 := by
  constructor
  · intro h i hi c hc hflag hlisted
    rw [List.mem_range] at hi
    obtain ⟨session, hsession⟩ := Option.ne_none_iff_exists'.mp hlisted
    have hget : s.components[i] = c := by
      rw [List.getElem?_eq_getElem hi] at hc
      exact Option.some.inj hc
    refine h _ c (s.components.drop (i + 1)) ?_ hflag session
      (ComponentKind.listed_eq_some.mp hsession)
    rw [← hget, ← List.drop_eq_getElem_cons hi, List.take_append_drop]
  · intro h pre c post heq hflag session hkind
    have hlisted : c.kind.listed ≠ none := by
      rw [ComponentKind.listed_eq_some.mpr hkind]
      exact Option.some_ne_none _
    have hpos := h pre.length (by rw [List.mem_range, heq]; simp) c (by rw [heq]; simp) hflag hlisted
    rwa [heq, List.take_left' rfl] at hpos

instance (s : SharedData) : Decidable s.SparesNoModuleList :=
  decidable_of_iff _ (sparesNoModuleList_iff s).symm

instance (s : SharedData) (f : UiFrame) (s' : SharedData) : Decidable (Orderly s f s') :=
  decidable_of_iff (s.SparesNoModuleList ∧ ∀ c ∈ s.components, c.mDelete = true → c.id ∉ f.closed)
    ⟨fun ⟨hspares, hcloses⟩ => ⟨hspares, hcloses⟩, fun ⟨hspares, hcloses⟩ => ⟨hspares, hcloses⟩⟩

/-! ## The invariant

  `Paired` is the shape of the list: from the front, each module list with its session behind it and
  both or none flagged, or a session that has lost its module list, flagged.  From it can be read
  what is behind a module list (`Paired.split`) and before a session (`Paired.session`).  Behind a
  pass the list is `Settled` besides: nothing is flagged but sessions without module lists. -/

/-- The list: the main window, sessions behind their module lists, flagged together, and flagged
    sessions whose module lists have been deleted. -/
inductive Paired (deleted : List Nat) : List Component → Prop
  | nil : Paired deleted []
  | mainWindow {id : Nat} {cs : List Component} :
      Paired deleted cs → Paired deleted (⟨id, .mainWindow, false⟩ :: cs)
  | pair {moduleList session : Nat} {flagged : Bool} {cs : List Component} :
      Paired deleted cs →
      Paired deleted (⟨moduleList, .moduleList session, flagged⟩ ::
        ⟨session, .session (some moduleList), flagged⟩ :: cs)
  | lone {moduleList session : Nat} {cs : List Component} :
      moduleList ∈ deleted → Paired deleted cs →
      Paired deleted (⟨session, .session (some moduleList), true⟩ :: cs)

/-- The numbers are used once, and those of deleted components are not those of others. -/
structure Numbered (s : SharedData) : Prop where
  nodup : (s.components.map Component.id).Nodup
  live : ∀ c ∈ s.components, c.id ∉ s.deleted ∧ c.id < s.nextId
  dead : ∀ id ∈ s.deleted, id < s.nextId

/-- The list is in pairs, and the numbers are used once. -/
structure Inv (s : SharedData) : Prop extends Numbered s where
  paired : Paired s.deleted s.components

namespace Paired

variable {deleted : List Nat}

theorem mono {deleted' : List Nat} (hsub : ∀ id ∈ deleted, id ∈ deleted') {cs : List Component}
    (h : Paired deleted cs) : Paired deleted' cs := by
  induction h with
  | nil => exact .nil
  | mainWindow _ ih => exact .mainWindow ih
  | pair _ ih => exact .pair ih
  | lone hmem _ ih => exact .lone (hsub _ hmem) ih

theorem append {xs ys : List Component} (hxs : Paired deleted xs) (hys : Paired deleted ys) :
    Paired deleted (xs ++ ys) := by
  induction hxs with
  | nil => exact hys
  | mainWindow _ ih => exact .mainWindow ih
  | pair _ ih => exact .pair ih
  | lone hmem _ ih => exact .lone hmem ih

/-- Behind a module list is its session, flagged if the module list is. -/
theorem split {c : Component} {session : Nat} (hc : c.kind = .moduleList session)
    {cs rest : List Component} (h : Paired deleted cs) : ∀ {pre : List Component},
      cs = pre ++ c :: rest → Paired deleted pre ∧ ∃ post,
        rest = ⟨session, .session (some c.id), c.mDelete⟩ :: post ∧ Paired deleted post := by
  induction h with
  | nil =>
    intro pre heq
    exact absurd heq (by simp)
  | mainWindow hcs ih =>
    intro pre heq
    cases pre with
    | nil =>
      rw [List.nil_append, List.cons.injEq] at heq
      rw [← heq.1] at hc
      exact absurd hc (by simp)
    | cons x pre =>
      rw [List.cons_append, List.cons.injEq] at heq
      obtain ⟨hpre, hpost⟩ := ih heq.2
      exact ⟨heq.1 ▸ .mainWindow hpre, hpost⟩
  | @pair moduleList session' flagged cs hcs ih =>
    intro pre heq
    cases pre with
    | nil =>
      rw [List.nil_append, List.cons.injEq] at heq
      rw [← heq.1, ComponentKind.moduleList.injEq] at hc
      refine ⟨.nil, cs, ?_, hcs⟩
      rw [← heq.2, ← heq.1, hc]
    | cons x pre =>
      rw [List.cons_append, List.cons.injEq] at heq
      cases pre with
      | nil =>
        -- a session is no module list
        rw [List.nil_append, List.cons.injEq] at heq
        rw [← heq.2.1] at hc
        exact absurd hc (by simp)
      | cons y pre =>
        rw [List.cons_append, List.cons.injEq] at heq
        obtain ⟨hpre, hpost⟩ := ih heq.2.2
        refine ⟨?_, hpost⟩
        rw [← heq.1, ← heq.2.1]
        exact .pair hpre
  | lone hmem hcs ih =>
    intro pre heq
    cases pre with
    | nil =>
      rw [List.nil_append, List.cons.injEq] at heq
      rw [← heq.1] at hc
      exact absurd hc (by simp)
    | cons x pre =>
      rw [List.cons_append, List.cons.injEq] at heq
      obtain ⟨hpre, hpost⟩ := ih heq.2
      exact ⟨heq.1 ▸ .lone hmem hpre, hpost⟩

/-- A session is behind its module list, or is flagged and its module list has been deleted. -/
theorem session {c : Component} {mModuleList : Option Nat} (hc : c.kind = .session mModuleList)
    {cs : List Component} (h : Paired deleted cs) : c ∈ cs → ∃ moduleList,
      mModuleList = some moduleList ∧ ((moduleList ∈ deleted ∧ c.mDelete = true) ∨
        ∃ pre post, cs = pre ++ ⟨moduleList, .moduleList c.id, c.mDelete⟩ :: c :: post) := by
  induction h with
  | nil =>
    intro hmem
    exact absurd hmem List.not_mem_nil
  | mainWindow _ ih =>
    intro hmem
    rcases List.mem_cons.mp hmem with rfl | hmem
    · exact absurd hc (by simp)
    · obtain ⟨moduleList, hsome, hor⟩ := ih hmem
      refine ⟨moduleList, hsome, hor.imp_right ?_⟩
      rintro ⟨pre, post, rfl⟩
      exact ⟨_ :: pre, post, rfl⟩
  | pair _ ih =>
    intro hmem
    rcases List.mem_cons.mp hmem with rfl | hmem
    · exact absurd hc (by simp)
    rcases List.mem_cons.mp hmem with rfl | hmem
    · rw [ComponentKind.session.injEq] at hc
      exact ⟨_, hc.symm, Or.inr ⟨[], _, rfl⟩⟩
    · obtain ⟨moduleList, hsome, hor⟩ := ih hmem
      refine ⟨moduleList, hsome, hor.imp_right ?_⟩
      rintro ⟨pre, post, rfl⟩
      exact ⟨_ :: _ :: pre, post, rfl⟩
  | lone hdeleted _ ih =>
    intro hmem
    rcases List.mem_cons.mp hmem with rfl | hmem
    · rw [ComponentKind.session.injEq] at hc
      exact ⟨_, hc.symm, Or.inl ⟨hdeleted, rfl⟩⟩
    · obtain ⟨moduleList, hsome, hor⟩ := ih hmem
      refine ⟨moduleList, hsome, hor.imp_right ?_⟩
      rintro ⟨pre, post, rfl⟩
      exact ⟨_ :: pre, post, rfl⟩

end Paired

/-- In pairs, and what is flagged is a session whose module list has been deleted. -/
structure Settled (deleted : List Nat) (cs : List Component) : Prop where
  paired : Paired deleted cs
  lone : ∀ c ∈ cs, c.mDelete = true →
    ∃ moduleList ∈ deleted, c.kind = .session (some moduleList)

namespace Settled

variable {deleted : List Nat} {cs : List Component}

theorem nil : Settled deleted [] := ⟨.nil, fun _ h => absurd h List.not_mem_nil⟩

/-- A component in front that is not flagged. -/
theorem cons_alive {c : Component} (hc : c.mDelete = false) (hpaired : Paired deleted (c :: cs))
    (h : ∀ d ∈ cs, d.mDelete = true → ∃ moduleList ∈ deleted, d.kind = .session (some moduleList)) :
    Settled deleted (c :: cs) := by
  refine ⟨hpaired, fun d hd hflag => ?_⟩
  rcases List.mem_cons.mp hd with rfl | hd
  · rw [hc] at hflag
    exact Bool.noConfusion hflag
  · exact h d hd hflag

theorem mainWindow {id : Nat} (h : Settled deleted cs) :
    Settled deleted (⟨id, .mainWindow, false⟩ :: cs) :=
  cons_alive rfl (.mainWindow h.paired) h.lone

theorem pair {moduleList session : Nat} (h : Settled deleted cs) :
    Settled deleted (⟨moduleList, .moduleList session, false⟩ ::
      ⟨session, .session (some moduleList), false⟩ :: cs) := by
  refine cons_alive rfl (.pair h.paired) fun d hd hflag => ?_
  rcases List.mem_cons.mp hd with rfl | hd
  · exact Bool.noConfusion hflag
  · exact h.lone d hd hflag

/-- A session in front whose module list has been deleted. -/
theorem cons_lone {moduleList session : Nat} (hmem : moduleList ∈ deleted) (h : Settled deleted cs) :
    Settled deleted (⟨session, .session (some moduleList), true⟩ :: cs) := by
  refine ⟨.lone hmem h.paired, fun d hd hflag => ?_⟩
  rcases List.mem_cons.mp hd with rfl | hd
  · exact ⟨moduleList, hmem, rfl⟩
  · exact h.lone d hd hflag

end Settled

/-! ## The pass over the dead

  The pass goes through the list with one bit, whether the component before has just been deleted.
  Along the pairs the bit is off in front of every flagged module list, which is the condition; so
  the module list goes and its session stays (`Paired.sweep`).  The other way round, a flagged
  module list with the bit on is spared, and its session goes in the same pass (`Inv.dangles`). -/

theorem handleDeadComponents_eq (s : SharedData) :
    s.handleDeadComponents = { s with
      components := sweep Component.mDelete false s.components
      deleted := s.deleted ++
        (sweepDead Component.mDelete false s.components).map Component.id } := by
  rw [handleDeadComponents, indexFor_eq]

/-- What the pass leaves is what it has not deleted. -/
theorem Numbered.components_handleDead {s : SharedData} (hs : s.Numbered) :
    s.handleDeadComponents.components =
      s.components.filter fun c => decide (c.id ∉ s.handleDeadComponents.deleted) := by
  rw [handleDeadComponents_eq, sweep_eq_filter_key Component.id hs.nodup false]
  refine List.filter_congr fun c hc => ?_
  have hlive := (hs.live c hc).1
  simp [hlive]

theorem Numbered.handleDead {s : SharedData} (hs : s.Numbered) :
    s.handleDeadComponents.Numbered := by
  have hcomponents := hs.components_handleDead
  constructor
  · rw [hcomponents]
    exact hs.nodup.sublist (List.filter_sublist.map _)
  · intro c hc
    rw [hcomponents] at hc
    obtain ⟨hmem, hgone⟩ := List.mem_filter.mp hc
    exact ⟨of_decide_eq_true hgone, (hs.live c hmem).2⟩
  · intro id hid
    rw [handleDeadComponents_eq] at hid ⊢
    rcases List.mem_append.mp hid with hold | hnew
    · exact hs.dead id hold
    · obtain ⟨c, hc, rfl⟩ := List.mem_map.mp hnew
      have hmem : c ∈ s.components :=
        (sweep_perm s.components false).mem_iff.mp (List.mem_append_left _ hc)
      exact (hs.live c hmem).2

/-- **The pass.**  If no flagged module list is spared, then of each flagged pair the session is left,
    and all else that is left flagged are sessions that had lost their module lists before. -/
theorem Paired.sweep {deleted deleted' : List Nat} (hsub : ∀ id ∈ deleted, id ∈ deleted')
    {xs : List Component} (h : Paired deleted xs) : ∀ pre : List Component,
      (∀ front c post, pre ++ xs = front ++ c :: post → c.mDelete = true →
        ∀ session, c.kind = .moduleList session → sparing Component.mDelete front = false) →
      (∀ c ∈ sweepDead Component.mDelete (sparing Component.mDelete pre) xs, c.id ∈ deleted') →
      Settled deleted' (Lib.sweep Component.mDelete (sparing Component.mDelete pre) xs) := by
  induction h with
  | nil =>
    intro pre _ _
    cases sparing Component.mDelete pre with
    | true => exact .nil
    | false => exact .nil
  | @mainWindow id cs _ ih =>
    intro pre hspares hdead
    have hnext : sparing Component.mDelete (pre ++ [⟨id, .mainWindow, false⟩]) = false := by
      rw [sparing_append]
      rfl
    obtain ⟨heqDead, heq⟩ := sweep_cons_alive (p := Component.mDelete)
      (x := ⟨id, .mainWindow, false⟩) rfl (sparing Component.mDelete pre) cs
    rw [heqDead] at hdead
    have hrest := ih (pre ++ [⟨id, .mainWindow, false⟩])
      (by rwa [List.append_assoc, List.singleton_append]) (by rwa [hnext])
    rw [hnext] at hrest
    rw [heq]
    exact hrest.mainWindow
  | @pair moduleList session flagged cs _ ih =>
    intro pre hspares hdead
    have hspares' : ∀ front c post,
        (pre ++ [⟨moduleList, .moduleList session, flagged⟩,
          ⟨session, .session (some moduleList), flagged⟩]) ++ cs = front ++ c :: post →
        c.mDelete = true → ∀ session, c.kind = .moduleList session →
          sparing Component.mDelete front = false := by
      rwa [List.append_assoc]
    cases flagged with
    | false =>
      have hnext : sparing Component.mDelete (pre ++ [⟨moduleList, .moduleList session, false⟩,
          ⟨session, .session (some moduleList), false⟩]) = false := by
        rw [List.append_cons, sparing_append]
        rfl
      obtain ⟨heqDead, heq⟩ := sweep_cons_alive (p := Component.mDelete)
        (x := ⟨moduleList, .moduleList session, false⟩) rfl (sparing Component.mDelete pre)
        (⟨session, .session (some moduleList), false⟩ :: cs)
      obtain ⟨heqDead', heq'⟩ := sweep_cons_alive (p := Component.mDelete)
        (x := ⟨session, .session (some moduleList), false⟩) rfl false cs
      rw [heqDead, heqDead'] at hdead
      have hrest := ih _ hspares' (by rwa [hnext])
      rw [hnext] at hrest
      rw [heq, heq']
      exact hrest.pair
    | true =>
      -- the module list is not spared, so its session is
      have hhere := hspares pre _ _ rfl rfl session rfl
      have hnext : sparing Component.mDelete (pre ++ [⟨moduleList, .moduleList session, true⟩,
          ⟨session, .session (some moduleList), true⟩]) = false := by
        rw [List.append_cons, sparing_append, sparing_append, hhere]
        rfl
      obtain ⟨heqDead, heq⟩ := sweep_cons_dead (p := Component.mDelete)
        (x := ⟨moduleList, .moduleList session, true⟩) rfl
        (⟨session, .session (some moduleList), true⟩ :: cs)
      rw [hhere, heqDead, sweepDead] at hdead
      have hrest := ih _ hspares'
        (by rw [hnext]; exact fun c hc => hdead c (List.mem_cons_of_mem _ hc))
      rw [hnext] at hrest
      rw [hhere, heq, Lib.sweep]
      exact hrest.cons_lone (hdead _ List.mem_cons_self)
  | @lone moduleList session cs hmem _ ih =>
    intro pre hspares hdead
    have hspares' : ∀ front c post,
        (pre ++ [⟨session, .session (some moduleList), true⟩]) ++ cs = front ++ c :: post →
        c.mDelete = true → ∀ session, c.kind = .moduleList session →
          sparing Component.mDelete front = false := by
      rwa [List.append_assoc, List.singleton_append]
    cases hhere : sparing Component.mDelete pre with
    | true =>
      have hnext : sparing Component.mDelete
          (pre ++ [⟨session, .session (some moduleList), true⟩]) = false := by
        rw [sparing_append, hhere]
        rfl
      rw [hhere, sweepDead] at hdead
      have hrest := ih _ hspares' (by rwa [hnext])
      rw [hnext] at hrest
      rw [Lib.sweep]
      exact hrest.cons_lone (hsub _ hmem)
    | false =>
      have hnext : sparing Component.mDelete
          (pre ++ [⟨session, .session (some moduleList), true⟩]) = true := by
        rw [sparing_append, hhere]
        rfl
      obtain ⟨heqDead, heq⟩ := sweep_cons_dead (p := Component.mDelete)
        (x := ⟨session, .session (some moduleList), true⟩) rfl cs
      rw [hhere, heqDead] at hdead
      have hrest := ih _ hspares'
        (by rw [hnext]; exact fun c hc => hdead c (List.mem_cons_of_mem _ hc))
      rw [hnext] at hrest
      rw [heq]
      exact hrest

theorem sparing_eq_false_iff (pre : List Component) :
    sparing Component.mDelete pre = false ↔
      (pre.reverse.takeWhile Component.mDelete).length % 2 = 0 := by
  rw [sparing, decide_eq_false_iff_not]
  omega

/-- Behind a pass that spares no module list, what is flagged are sessions without module lists. -/
theorem Inv.settled {s : SharedData} (hs : s.Inv) (hspares : s.SparesNoModuleList) :
    Settled s.handleDeadComponents.deleted s.handleDeadComponents.components := by
  rw [handleDeadComponents_eq]
  refine Paired.sweep (fun id hid => List.mem_append_left _ hid) hs.paired [] ?_ ?_
  · intro front c post heq hflag session hc
    rw [List.nil_append] at heq
    exact (sparing_eq_false_iff front).mpr (hspares front c post heq hflag session hc)
  · intro c hc
    exact List.mem_append_right _ (List.mem_map_of_mem hc)

/-- **A module list that is spared** loses its session in the same pass. -/
theorem Inv.dangles {s : SharedData} (hs : s.Inv) (hno : ¬s.SparesNoModuleList) :
    ∃ c ∈ s.handleDeadComponents.components, ∃ session,
      c.kind = .moduleList session ∧ session ∈ s.handleDeadComponents.deleted := by
  rw [SparesNoModuleList] at hno
  push Not at hno
  obtain ⟨pre, c, post, heq, hflag, session, hc, hodd⟩ := hno
  obtain ⟨-, post, rfl, -⟩ := hs.paired.split hc heq
  have hspared : sparing Component.mDelete pre = true := by
    rw [← Bool.not_eq_false]
    exact fun h => hodd ((sparing_eq_false_iff pre).mp h)
  obtain ⟨hdead, hleft⟩ := sweep_append (p := Component.mDelete) pre
    (c :: ⟨session, .session (some c.id), c.mDelete⟩ :: post)
  obtain ⟨hgone, -⟩ := sweep_cons_dead (p := Component.mDelete)
    (x := ⟨session, .session (some c.id), c.mDelete⟩) hflag post
  rw [hspared, sweepDead, hgone] at hdead
  rw [hspared, Lib.sweep] at hleft
  rw [handleDeadComponents_eq, heq]
  refine ⟨c, ?_, session, hc, ?_⟩
  · simp only [hleft]
    exact List.mem_append_right _ List.mem_cons_self
  · simp only [hdead, List.map_append, List.map_cons]
    exact List.mem_append_right _ (List.mem_append_right _ List.mem_cons_self)

/-- The invariant behind a pass that spares no module list. -/
theorem Inv.handleDeadComponents {s : SharedData} (hs : s.Inv) (hspares : s.SparesNoModuleList) :
    s.handleDeadComponents.Inv :=
  ⟨hs.toNumbered.handleDead, (hs.settled hspares).paired⟩

/-! ## The updates

  `Keeps` is what all updates have in common, so that the loop over the components can go by the
  list as it was when the loop began.  That the pairs survive is another matter: a session comes to
  the end with its module list, and a window that is closed flags both of a pair
  (`Inv.queueForDeletion`). -/

/-- Nothing is deleted, and every component stays, flagged or not. -/
structure Keeps (s s' : SharedData) : Prop where
  deleted : s'.deleted = s.deleted
  mem : ∀ c ∈ s.components, ∃ c' ∈ s'.components, c'.id = c.id ∧ c'.kind = c.kind

/-- No step at all ... -/
theorem Keeps.refl (s : SharedData) : Keeps s s := ⟨rfl, fun c hc => ⟨c, hc, rfl, rfl⟩⟩

/-- ... and two steps. -/
theorem Keeps.trans {s₁ s₂ s₃ : SharedData} (h₁ : Keeps s₁ s₂) (h₂ : Keeps s₂ s₃) :
    Keeps s₁ s₃ := by
  refine ⟨h₂.deleted.trans h₁.deleted, fun c hc => ?_⟩
  obtain ⟨c₂, hc₂, hid₂, hkind₂⟩ := h₁.mem c hc
  obtain ⟨c₃, hc₃, hid₃, hkind₃⟩ := h₂.mem c₂ hc₂
  exact ⟨c₃, hc₃, hid₃.trans hid₂, hkind₃.trans hkind₂⟩

/-- A session that is opened comes behind the others. -/
theorem keeps_openSession (s : SharedData) (attached : Bool) :
    Keeps s (s.openSession attached) := by
  cases attached with
  | true => exact ⟨rfl, fun c hc => ⟨c, List.mem_append_left _ hc, rfl, rfl⟩⟩
  | false => exact ⟨rfl, fun c hc => ⟨c, List.mem_append_left _ hc, rfl, rfl⟩⟩

theorem keeps_opens (opened : List Bool) : ∀ s : SharedData,
    Keeps s (opened.foldl openSession s) := by
  induction opened with
  | nil => exact Keeps.refl
  | cons attached opened ih =>
    intro s
    exact (keeps_openSession s attached).trans (ih _)

/-- A flag is set, and nothing is deleted. -/
theorem keeps_flag (s : SharedData) (id : Nat) : Keeps s (s.flag id) := by
  refine ⟨rfl, fun c hc => ⟨_, List.mem_map_of_mem hc, ?_, ?_⟩⟩
  · split
    · rfl
    · rfl
  · split
    · rfl
    · rfl

/-- So none of the updates deletes anything. -/
theorem keeps_update {f : UiFrame} {s s' : SharedData} {c : Component}
    (h : s.update f c = some s') : Keeps s s' := by
  rw [update] at h
  cases hkind : c.kind with
  | mainWindow =>
    rw [hkind] at h
    exact Option.some.inj h ▸ keeps_opens f.opened s
  | moduleList session =>
    rw [hkind] at h
    exact Option.some.inj h ▸ Keeps.refl s
  | session mModuleList =>
    rw [hkind] at h
    simp only at h
    split at h
    · obtain ⟨moduleList, -, rfl⟩ := Option.map_eq_some_iff.mp h
      exact (keeps_flag s c.id).trans (keeps_flag _ moduleList)
    · exact Option.some.inj h ▸ Keeps.refl s

theorem keeps_updateAll {f : UiFrame} {cs : List Component} : ∀ {s s' : SharedData},
    s.updateAll f cs = some s' → Keeps s s' := by
  induction cs with
  | nil =>
    intro s s' h
    exact Option.some.inj h ▸ Keeps.refl s
  | cons c cs ih =>
    intro s s' h
    obtain ⟨s₁, hupdate, hrest⟩ := Option.bind_eq_some_iff.mp h
    exact (keeps_update hupdate).trans (ih hrest)

/-- A list of new components, numbered from the next number on. -/
theorem Numbered.append {s : SharedData} (hs : s.Numbered) {new : List Component} {n : Nat}
    (hnodup : (new.map Component.id).Nodup)
    (hnew : ∀ c ∈ new, s.nextId ≤ c.id ∧ c.id < s.nextId + n) :
    Numbered { s with components := s.components ++ new, nextId := s.nextId + n } := by
  constructor
  · rw [List.map_append, List.nodup_append]
    refine ⟨hs.nodup, hnodup, ?_⟩
    intro id hid id' hid' heq
    obtain ⟨c, hc, rfl⟩ := List.mem_map.mp hid
    obtain ⟨d, hd, rfl⟩ := List.mem_map.mp hid'
    have hlt := (hs.live c hc).2
    have hge := (hnew d hd).1
    omega
  · intro c hc
    rcases List.mem_append.mp hc with hc | hc
    · exact ⟨(hs.live c hc).1, Nat.lt_add_right n (hs.live c hc).2⟩
    · obtain ⟨hge, hlt⟩ := hnew c hc
      refine ⟨fun hdead => ?_, hlt⟩
      have := hs.dead _ hdead
      omega
  · exact fun id hid => Nat.lt_add_right n (hs.dead id hid)

theorem Numbered.openSession {s : SharedData} (hs : s.Numbered) (attached : Bool) :
    (s.openSession attached).Numbered := by
  cases attached with
  | true =>
    refine hs.append (n := 2) (by simp) fun c hc => ?_
    simp only [List.mem_cons, List.not_mem_nil, or_false] at hc
    rcases hc with rfl | rfl
    · exact ⟨Nat.le_refl _, Nat.lt_add_of_pos_right Nat.two_pos⟩
    · exact ⟨Nat.le_succ _, Nat.lt_succ_self _⟩
  | false =>
    refine hs.append (n := 1) (by simp) fun c hc => ?_
    rw [List.mem_singleton.mp hc]
    exact ⟨Nat.le_refl _, Nat.lt_succ_self _⟩

theorem map_id_flag (s : SharedData) (id : Nat) :
    (s.flag id).components.map Component.id = s.components.map Component.id := by
  rw [flag, List.map_map]
  refine List.map_congr_left fun c _ => ?_
  rw [Function.comp_apply]
  split
  · rfl
  · rfl

theorem Numbered.flag {s : SharedData} (hs : s.Numbered) (id : Nat) : (s.flag id).Numbered := by
  constructor
  · rw [map_id_flag]
    exact hs.nodup
  · intro c hc
    have hmem : c.id ∈ s.components.map Component.id := map_id_flag s id ▸ List.mem_map_of_mem hc
    obtain ⟨c', hc', heq⟩ := List.mem_map.mp hmem
    exact heq ▸ hs.live c' hc'
  · exact hs.dead

/-- Opening a session that attaches keeps the invariant. -/
theorem Inv.openSession {s : SharedData} (hs : s.Inv) : (s.openSession true).Inv :=
  ⟨hs.toNumbered.openSession true, hs.paired.append (.pair .nil)⟩

theorem Inv.opens {opened : List Bool} (hattached : ∀ attached ∈ opened, attached = true) :
    ∀ {s : SharedData}, s.Inv → (opened.foldl SharedData.openSession s).Inv := by
  induction opened with
  | nil =>
    intro s hs
    exact hs
  | cons attached opened ih =>
    intro s hs
    rw [List.foldl_cons, hattached attached List.mem_cons_self]
    exact ih (fun a ha => hattached a (List.mem_cons_of_mem _ ha)) hs.openSession

/-- Components with other numbers are not flagged. -/
theorem map_flag_of_not_mem {id : Nat} {cs : List Component} (h : id ∉ cs.map Component.id) :
    (cs.map fun c => if c.id = id then { c with mDelete := true } else c) = cs := by
  refine (List.map_congr_left fun c hc => ?_).trans (List.map_id' cs)
  have hne : c.id ≠ id := fun heq => h (heq ▸ List.mem_map_of_mem hc)
  rw [if_neg hne]

/-- Closing the window of a session whose module list is there keeps the invariant. -/
theorem Inv.queueForDeletion {s : SharedData} (hs : s.Inv) {c : Component} (hc : c ∈ s.components)
    {moduleList : Nat} (hkind : c.kind = .session (some moduleList))
    (hlive : moduleList ∉ s.deleted) : ((s.flag c.id).flag moduleList).Inv := by
  obtain ⟨m, hm, hor⟩ := hs.paired.session hkind hc
  rw [Option.some.injEq] at hm
  subst hm
  obtain ⟨id, kind, flagged⟩ := c
  simp only at hkind hor ⊢
  subst hkind
  rcases hor with ⟨hdead, -⟩ | ⟨pre, post, heq⟩
  · exact absurd hdead hlive
  -- the pair is the only part of the list with these numbers
  have hnodup := hs.nodup
  rw [heq, List.map_append, List.map_cons, List.map_cons, List.nodup_append, List.nodup_cons,
    List.nodup_cons] at hnodup
  obtain ⟨-, ⟨hm, hid, -⟩, hpre⟩ := hnodup
  have hpreM : moduleList ∉ pre.map Component.id := fun h => hpre _ h _ List.mem_cons_self rfl
  have hpreI : id ∉ pre.map Component.id := fun h =>
    hpre _ h _ (List.mem_cons_of_mem _ List.mem_cons_self) rfl
  have hpostM : moduleList ∉ post.map Component.id := fun h => hm (List.mem_cons_of_mem _ h)
  have hne : moduleList ≠ id := fun h => hm (h ▸ List.mem_cons_self)
  have hcomponents : ((s.flag id).flag moduleList).components =
      pre ++ ⟨moduleList, .moduleList id, true⟩ :: ⟨id, .session (some moduleList), true⟩ ::
        post := by
    rw [flag, flag]
    simp only [heq, List.map_append, List.map_cons, map_flag_of_not_mem hpreI,
      map_flag_of_not_mem hid, map_flag_of_not_mem hpreM, map_flag_of_not_mem hpostM,
      if_neg hne, if_pos, if_neg hne.symm]
  obtain ⟨hpaired, post', hpost, hpaired'⟩ := hs.paired.split (c := ⟨moduleList, .moduleList id, flagged⟩)
    rfl heq
  rw [List.cons.injEq] at hpost
  obtain ⟨-, rfl⟩ := hpost
  refine ⟨(hs.toNumbered.flag id).flag moduleList, ?_⟩
  rw [hcomponents]
  exact hpaired.append (.pair hpaired')

/-- The loop over the components keeps the invariant, if the windows that are closed are those of
    sessions whose module lists are there. -/
theorem Inv.updateAll {f : UiFrame} (hattached : ∀ attached ∈ f.opened, attached = true)
    {cs : List Component} : ∀ {s s' : SharedData}, s.Inv →
      (∀ c ∈ cs, ∃ c' ∈ s.components, c'.id = c.id ∧ c'.kind = c.kind) →
      (∀ c ∈ cs, ∀ moduleList, c.kind = .session (some moduleList) → c.id ∈ f.closed →
        moduleList ∉ s.deleted) →
      s.updateAll f cs = some s' → s'.Inv := by
  induction cs with
  | nil =>
    intro s s' hs _ _ h
    exact Option.some.inj h ▸ hs
  | cons c cs ih =>
    intro s s' hs hmem hcalls h
    obtain ⟨s₁, hupdate, hrest⟩ := Option.bind_eq_some_iff.mp h
    have hkeeps := keeps_update hupdate
    have hs₁ : s₁.Inv := by
      rw [update] at hupdate
      cases hkind : c.kind with
      | mainWindow =>
        rw [hkind] at hupdate
        exact Option.some.inj hupdate ▸ hs.opens hattached
      | moduleList session =>
        rw [hkind] at hupdate
        exact Option.some.inj hupdate ▸ hs
      | session mModuleList =>
        rw [hkind] at hupdate
        simp only at hupdate
        split at hupdate
        next hclosed =>
          obtain ⟨moduleList, rfl, rfl⟩ := Option.map_eq_some_iff.mp hupdate
          -- a window that is closed flags its module list too, which has to be there still
          obtain ⟨c', hc', hid, hkind'⟩ := hmem c List.mem_cons_self
          rw [← hid]
          exact hs.queueForDeletion hc' (hkind'.trans hkind)
            (hcalls c List.mem_cons_self moduleList hkind hclosed)
        · exact Option.some.inj hupdate ▸ hs
    refine ih hs₁ ?_ ?_ hrest
    · -- an update deletes nothing: the components still to come are found as they were
      intro d hd
      obtain ⟨d₁, hd₁, hid₁, hkind₁⟩ := hmem d (List.mem_cons_of_mem _ hd)
      obtain ⟨d₂, hd₂, hid₂, hkind₂⟩ := hkeeps.mem d₁ hd₁
      exact ⟨d₂, hd₂, hid₂.trans hid₁, hkind₂.trans hkind₁⟩
    · intro d hd moduleList hkind hclosed
      rw [hkeeps.deleted]
      exact hcalls d (List.mem_cons_of_mem _ hd) moduleList hkind hclosed

/-! ## Frames

  For one frame that begins with the invariant, sound and orderly are the same (`sound_iff`), and an
  orderly frame ends with it (`Inv.showImGui`).  So `along_iff` gives the theorem for runs. -/

/-- A frame is a pass and the updates. -/
theorem showImGui_eq_some {s s' : SharedData} {f : UiFrame} (h : s.showImGui f = some s') :
    (∀ id ∈ f.closed, id ∈ s.handleDeadComponents.windows) ∧
      s.handleDeadComponents.updateAll f s.handleDeadComponents.components = some s' := by
  rw [showImGui] at h
  split at h
  next hwindows => exact ⟨hwindows, h⟩
  · exact absurd h (by simp)

/-- The windows that are drawn are those of the sessions. -/
theorem mem_windows {s : SharedData} {id : Nat} :
    id ∈ s.windows ↔ ∃ c ∈ s.components, ∃ m, c.kind = .session m ∧ c.id = id := by
  rw [windows, List.mem_filterMap]
  constructor
  · rintro ⟨c, hc, h⟩
    cases hkind : c.kind with
    | mainWindow => simp [hkind] at h
    | moduleList session => simp [hkind] at h
    | session m => exact ⟨c, hc, m, hkind, by simpa [hkind] using h⟩
  · rintro ⟨c, hc, m, hkind, rfl⟩
    exact ⟨c, hc, by simp [hkind]⟩

/-- What is queued by a frame: the module lists of the sessions whose windows it closes. -/
theorem mem_queued {s : SharedData} {f : UiFrame} {moduleList : Nat} :
    moduleList ∈ s.queued f ↔ ∃ c ∈ s.handleDeadComponents.components,
      c.kind = .session (some moduleList) ∧ c.id ∈ f.closed := by
  rw [queued, List.mem_filterMap]
  constructor
  · rintro ⟨c, hc, h⟩
    cases hkind : c.kind with
    | mainWindow => simp [hkind] at h
    | moduleList session => simp [hkind] at h
    | session m =>
      cases m with
      | none => simp [hkind] at h
      | some m =>
        simp only [hkind] at h
        split at h
        next hclosed =>
          rw [Option.some.injEq] at h
          exact ⟨c, hc, h ▸ hkind, hclosed⟩
        · exact absurd h (by simp)
  · rintro ⟨c, hc, hkind, hclosed⟩
    exact ⟨c, hc, by simp [hkind, hclosed]⟩

/-- With the invariant no module list is without its session. -/
theorem Inv.sessions {s : SharedData} (hs : s.Inv) {c : Component} (hc : c ∈ s.components)
    {session : Nat} (hkind : c.kind = .moduleList session) : session ∉ s.deleted := by
  obtain ⟨pre, rest, heq⟩ := List.append_of_mem hc
  obtain ⟨-, post, rfl, -⟩ := hs.paired.split hkind heq
  have hmem : (⟨session, .session (some c.id), c.mDelete⟩ : Component) ∈ s.components := by
    rw [heq]
    exact List.mem_append_right _ (List.mem_cons_of_mem _ List.mem_cons_self)
  exact (hs.live _ hmem).1

/-- In an orderly frame only sessions whose module lists are there are closed. -/
theorem Orderly.calls {s s' : SharedData} {f : UiFrame} (hs : s.Inv) (hq : Orderly s f s')
    {c : Component} (hc : c ∈ s.handleDeadComponents.components) {moduleList : Nat}
    (hkind : c.kind = .session (some moduleList)) (hclosed : c.id ∈ f.closed) :
    moduleList ∉ s.handleDeadComponents.deleted := by
  have hs₁ := hs.handleDeadComponents hq.spares
  obtain ⟨m, hm, hor⟩ := hs₁.paired.session hkind hc
  rw [Option.some.injEq] at hm
  subst hm
  rcases hor with ⟨-, hflag⟩ | ⟨pre, post, heq⟩
  · have hc' : c ∈ s.components := by
      rw [handleDeadComponents_eq] at hc
      exact mem_of_mem_sweep hc
    exact absurd hclosed (hq.closes c hc' hflag)
  · have hmem : (⟨moduleList, .moduleList c.id, c.mDelete⟩ : Component) ∈
        s.handleDeadComponents.components := by
      rw [heq]
      exact List.mem_append_right _ List.mem_cons_self
    exact (hs₁.live _ hmem).1

/-- An orderly frame keeps the invariant. -/
theorem Inv.showImGui {s s' : SharedData} {f : UiFrame} (hs : s.Inv)
    (hattached : ∀ attached ∈ f.opened, attached = true) (h : s.showImGui f = some s')
    (hq : Orderly s f s') : s'.Inv := by
  obtain ⟨-, hall⟩ := showImGui_eq_some h
  exact (hs.handleDeadComponents hq.spares).updateAll hattached
    (fun c hc => ⟨c, hc, rfl, rfl⟩) (fun c hc m hkind hclosed => hq.calls hs hc hkind hclosed) hall

/-- **One frame.** -/
theorem sound_iff {s s' : SharedData} {f : UiFrame} (hs : s.Inv)
    (hattached : ∀ attached ∈ f.opened, attached = true) (h : s.showImGui f = some s') :
    Sound s f s' ↔ Orderly s f s' := by
  obtain ⟨hwindows, hall⟩ := showImGui_eq_some h
  have hkeeps := keeps_updateAll hall
  constructor
  · rintro ⟨hsessions, hcalls⟩
    have hspares : s.SparesNoModuleList := by
      by_contra hno
      obtain ⟨c, hc, session, hkind, hdead⟩ := hs.dangles hno
      obtain ⟨c', hc', -, hkind'⟩ := hkeeps.mem c hc
      exact hsessions c' hc' session (hkind'.trans hkind) (hkeeps.deleted ▸ hdead)
    refine ⟨hspares, fun c hc hflag hclosed => ?_⟩
    -- a component closed is a session that is still there; if it is flagged, without module list
    obtain ⟨c', hc', m, hkind', hid⟩ := mem_windows.mp (hwindows c.id hclosed)
    have hcc : c' = c := by
      have hmem : c' ∈ s.components := by
        rw [handleDeadComponents_eq] at hc'
        exact mem_of_mem_sweep hc'
      exact List.inj_on_of_nodup_map hs.nodup hmem hc hid
    subst hcc
    obtain ⟨moduleList, hdead, hkind⟩ := (hs.settled hspares).lone c' hc' hflag
    exact hcalls moduleList (mem_queued.mpr ⟨c', hc', hkind, hclosed⟩) hdead
  · intro hq
    have hs' := hs.showImGui hattached h hq
    constructor
    · intro c hc session hkind
      exact hs'.sessions hc hkind
    · intro moduleList hmem
      obtain ⟨c, hc, hkind, hclosed⟩ := mem_queued.mp hmem
      exact hq.calls hs hc hkind hclosed

theorem Numbered.init : SharedData.init.Numbered where
  nodup := by decide
  live := by decide
  dead := by decide

theorem Inv.init : SharedData.init.Inv := ⟨Numbered.init, .mainWindow .nil⟩

/-- **Every run.**  In a run in which attaching works, no module list is left without its session and
    none is called that has been deleted, if and only if all its frames are orderly. -/
theorem run_sound_iff {fs : List UiFrame}
    (hattached : ∀ f ∈ fs, ∀ attached ∈ f.opened, attached = true) :
    Along showImGui Sound SharedData.init fs ↔ Along showImGui Orderly SharedData.init fs := by
  refine along_iff (P := Sound) (Q := Orderly)
    (fun s fs => s.Inv ∧ ∀ f ∈ fs, ∀ attached ∈ f.opened, attached = true) ?_ ?_ fs
    ⟨Inv.init, hattached⟩
  · rintro s f fs s' ⟨hs, hall⟩ h
    exact sound_iff hs (hall f List.mem_cons_self) h
  · rintro s f fs s' ⟨hs, hall⟩ h hq
    exact ⟨hs.showImGui (hall f List.mem_cons_self) h hq,
      fun g hg => hall g (List.mem_cons_of_mem _ hg)⟩

/-- A session is opened and closed, and gone two frames later. -/
def oneSession : List UiFrame := [⟨[true], []⟩, ⟨[], [2]⟩, ⟨[], []⟩, ⟨[], []⟩]

theorem sound_oneSession : Along showImGui Sound SharedData.init oneSession :=
  (run_sound_iff (by decide)).mpr (by decide +kernel)

/-- Two sessions are opened, and closed in two frames, one behind the other. -/
def twoSessions : List UiFrame := [⟨[true, true], []⟩, ⟨[], [2]⟩, ⟨[], [4]⟩, ⟨[], []⟩]

/-- The second module list is left without its session. -/
theorem not_sound_twoSessions :
    run showImGui SharedData.init twoSessions =
        some ⟨[⟨0, .mainWindow, false⟩, ⟨3, .moduleList 4, true⟩], [1, 2, 4], 5⟩ ∧
      ¬Along showImGui Sound SharedData.init twoSessions :=
  ⟨by decide +kernel, by decide +kernel⟩

end SharedData

end Nxdb
