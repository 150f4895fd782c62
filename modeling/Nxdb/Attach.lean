/-
  Sessions on processes that have a debugger.

  A process has one debugger at most.  The constructor of a session on a process that has one fails to
  attach, and leaves `mModuleList` null; the session is registered all the same, with a window that
  can be closed, and `queueForDeletion` follows the pointer.  Which sessions are such is a matter of
  which sessions, opened before, still hold the debug handle of the process: a handle is closed when
  the session is deleted, frames after its window has been closed.

  `moduleLists_iff`: no null pointer is followed in a run if and only if no window is closed of a
  session that was refused the process.

  1. Program: `click` is the constructor behind a double click, `hasDebugger` what
     `svcDebugActiveProcess` goes by; otherwise the program is that of `Components`, step for step.
  2. The condition names the sessions that were refused (`refused`), a fact about earlier clicks.
  3. The invariant `Inv` says that the refused sessions are those whose `mModuleList` is null.  Each
     of the things that happen to the components keeps it: a session that is refused, one that
     attaches, a flag, and the pass over the dead.
-/
import Nxdb.Components

namespace Nxdb

open Lib

/-! ## The code

  The components are those of `SharedData`; a `Debugger` has the debug handles beside them, as the
  kernel keeps them.  Whether `svcDebugActiveProcess` fails is not a free choice here: it does iff
  the process has a debugger, this one or another. -/

/-- A double click on a process, and whether a program other than this one debugs the process then. -/
structure Click where
  pid : Nat
  otherDebugger : Bool
deriving DecidableEq

/-- What the user does in a frame: the processes clicked, and the session windows closed. -/
structure ClickFrame where
  clicked : List Click
  closed : List Nat

/-- A debug handle, by the session that holds it and the process. -/
structure DebugHandle where
  session : Nat
  pid : Nat
deriving DecidableEq

/-- The components, the debug handles there are, and the numbers of the sessions that were refused
    their processes. -/
structure Debugger where
  shared : SharedData
  handles : List DebugHandle
  refused : List Nat
deriving DecidableEq

namespace Debugger

/-- No session, no process held. -/
def init : Debugger := ⟨SharedData.init, [], []⟩

/-- Whether `svcDebugActiveProcess` fails. -/
def hasDebugger (s : Debugger) (c : Click) : Bool :=
  c.otherDebugger || s.handles.any fun h => decide (h.pid = c.pid)

/-- `registerComponent(new DebuggingSession(pid))`. -/
def click (s : Debugger) (c : Click) : Debugger :=
  if s.hasDebugger c then
    ⟨s.shared.openSession false, s.handles, s.refused ++ [s.shared.nextId]⟩
  else ⟨s.shared.openSession true, s.handles ++ [⟨s.shared.nextId + 1, c.pid⟩], s.refused⟩

/-- `handleDeadComponents`: the destructor of a session closes its handle. -/
def handleDeadComponents (s : Debugger) : Debugger :=
  { s with
    shared := s.shared.handleDeadComponents
    handles := s.handles.filter fun h => decide (h.session ∉ s.shared.handleDeadComponents.deleted) }

/-- `update` of a component; `none` when a null pointer is followed. -/
def update (f : ClickFrame) (s : Debugger) (c : Component) : Option Debugger :=
  match c.kind with
  | .mainWindow => some (f.clicked.foldl click s)
  | .moduleList _ => some s
  | .session mModuleList =>
    if c.id ∈ f.closed then
      (s.shared.queueForDeletion c.id mModuleList).map fun shared => { s with shared }
    else some s

/-- `update` of the components there were when the loop began. -/
def updateAll (f : ClickFrame) (s : Debugger) : List Component → Option Debugger
  | [] => some s
  | c :: cs => (s.update f c).bind fun s => s.updateAll f cs

/-- A frame.  A window can be closed only where there is one, and each only once. -/
def showImGui (s : Debugger) (f : ClickFrame) : Option Debugger :=
  if (∀ id ∈ f.closed, id ∈ s.handleDeadComponents.shared.windows) ∧
      ∀ c ∈ s.shared.components, c.mDelete = true → c.id ∉ f.closed then
    s.handleDeadComponents.updateAll f s.handleDeadComponents.shared.components
  else none

/-! ## What should hold, and when it does -/

/-- Where `queueForDeletion` of a session runs, its `mModuleList` is not null. -/
def HasModuleLists (s : Debugger) (f : ClickFrame) : Prop :=
  ∀ c ∈ s.handleDeadComponents.shared.components, c.id ∈ f.closed →
    c.kind ≠ .session none

/-- No window of a session that was refused its process is closed. -/
def ClosesAttached (s : Debugger) (f : ClickFrame) : Prop := ∀ id ∈ f.closed, id ∉ s.refused

instance (s : Debugger) (f : ClickFrame) : Decidable (HasModuleLists s f) :=
  inferInstanceAs (Decidable (∀ c ∈ _, _))

instance (s : Debugger) (f : ClickFrame) : Decidable (ClosesAttached s f) :=
  inferInstanceAs (Decidable (∀ id ∈ _, _))

/-! ## The invariant

  A pointer to a module list that is null stands only in sessions that were refused their process,
  and `refused` remembers which those are.  Every step of a frame keeps this: the pass over the dead
  only takes components away, a click adds new ones under new numbers, and a window that is closed
  is not a refused session's, which is the condition on the frame (`flag`). -/

/-- The sessions without module lists are those that were refused; they are there, and not flagged;
    and no pointer of another session leads to them. -/
structure Inv (s : Debugger) : Prop where
  kinds : ∀ c ∈ s.shared.components, c.kind = .session none ↔ c.id ∈ s.refused
  there : ∀ id ∈ s.refused, ∃ c ∈ s.shared.components, c.id = id ∧ c.mDelete = false
  pointers : ∀ c ∈ s.shared.components, ∀ m, c.kind = .session (some m) →
    m ∉ s.refused ∧ m < s.shared.nextId
  used : ∀ c ∈ s.shared.components, c.id < s.shared.nextId

theorem Inv.init : Debugger.init.Inv where
  kinds := by decide
  there := by decide
  pointers c hc m hm := by
    rw [List.mem_singleton.mp hc] at hm
    exact ComponentKind.noConfusion hm
  used := by decide

namespace Inv

variable {s : Debugger}

theorem refused_lt (hs : s.Inv) {id : Nat} (hid : id ∈ s.refused) : id < s.shared.nextId := by
  obtain ⟨c, hc, rfl, -⟩ := hs.there id hid
  exact hs.used c hc

/-- What the pass leaves was there. -/
theorem mem_of_mem_handleDead {c : Component}
    (hc : c ∈ s.handleDeadComponents.shared.components) : c ∈ s.shared.components := by
  simp only [handleDeadComponents, SharedData.handleDeadComponents_eq] at hc
  exact mem_of_mem_sweep hc

/-- The pass keeps the invariant. -/
theorem handleDead (hs : s.Inv) : s.handleDeadComponents.Inv where
  kinds c hc := hs.kinds c (mem_of_mem_handleDead hc)
  there id hid := by
    obtain ⟨c, hc, heq, halive⟩ := hs.there id hid
    refine ⟨c, ?_, heq, halive⟩
    simp only [handleDeadComponents, SharedData.handleDeadComponents_eq]
    exact mem_sweep_of_alive hc halive false
  pointers c hc := hs.pointers c (mem_of_mem_handleDead hc)
  used c hc := hs.used c (mem_of_mem_handleDead hc)

/-- A session that is refused its process: one without a module list, under a new number. -/
theorem refuse (hs : s.Inv) : Debugger.Inv
    ⟨s.shared.openSession false, s.handles, s.refused ++ [s.shared.nextId]⟩ := by
  have hold : ∀ d ∈ s.shared.components, d.id ≠ s.shared.nextId := fun d hd =>
    Nat.ne_of_lt (hs.used d hd)
  constructor
  · intro d hd
    rcases List.mem_append.mp hd with hd | hd
    · rw [hs.kinds d hd, List.mem_append, List.mem_singleton]
      exact ⟨Or.inl, fun h => h.resolve_right (hold d hd)⟩
    · rw [List.mem_singleton.mp hd]
      exact iff_of_true rfl (List.mem_append_right _ List.mem_cons_self)
  · intro id hid
    rcases List.mem_append.mp hid with hid | hid
    · obtain ⟨d, hd, heq, halive⟩ := hs.there id hid
      exact ⟨d, List.mem_append_left _ hd, heq, halive⟩
    · exact ⟨_, List.mem_append_right _ List.mem_cons_self, (List.mem_singleton.mp hid).symm, rfl⟩
  · intro d hd m hm
    rcases List.mem_append.mp hd with hd | hd
    · obtain ⟨hno, hlt⟩ := hs.pointers d hd m hm
      refine ⟨fun h => ?_, Nat.lt_succ_of_lt hlt⟩
      rcases List.mem_append.mp h with h | h
      · exact hno h
      · exact absurd (List.mem_singleton.mp h) (Nat.ne_of_lt hlt)
    · rw [List.mem_singleton.mp hd] at hm
      exact absurd hm (by simp)
  · intro d hd
    rcases List.mem_append.mp hd with hd | hd
    · exact Nat.lt_succ_of_lt (hs.used d hd)
    · rw [List.mem_singleton.mp hd]
      exact Nat.lt_succ_self _

/-- A session with a module list, both under new numbers. -/
theorem attach (hs : s.Inv) (pid : Nat) : Debugger.Inv
    ⟨s.shared.openSession true, s.handles ++ [⟨s.shared.nextId + 1, pid⟩], s.refused⟩ := by
  have hfresh : ∀ n, s.shared.nextId ≤ n → n ∉ s.refused := fun n hn h =>
    Nat.not_lt_of_le hn (hs.refused_lt h)
  have hnew : ∀ d ∈ ([⟨s.shared.nextId, .moduleList (s.shared.nextId + 1), false⟩,
      ⟨s.shared.nextId + 1, .session (some s.shared.nextId), false⟩] : List Component),
      d.kind ≠ .session none ∧ s.shared.nextId ≤ d.id ∧ d.id < s.shared.nextId + 2 ∧
        ∀ m, d.kind = .session (some m) → m = s.shared.nextId := by
    intro d hd
    simp only [List.mem_cons, List.not_mem_nil, or_false] at hd
    rcases hd with rfl | rfl
    · exact ⟨by simp, Nat.le_refl _, by simp, fun m hm => absurd hm (by simp)⟩
    · exact ⟨by simp, Nat.le_succ _, by simp, fun m hm => by simpa using hm.symm⟩
  constructor
  · intro d hd
    rcases List.mem_append.mp hd with hd | hd
    · exact hs.kinds d hd
    · exact iff_of_false (hnew d hd).1 (hfresh d.id (hnew d hd).2.1)
  · intro id hid
    obtain ⟨d, hd, heq, halive⟩ := hs.there id hid
    exact ⟨d, List.mem_append_left _ hd, heq, halive⟩
  · intro d hd m hm
    rcases List.mem_append.mp hd with hd | hd
    · exact ⟨(hs.pointers d hd m hm).1, Nat.lt_add_right 2 (hs.pointers d hd m hm).2⟩
    · rw [(hnew d hd).2.2.2 m hm]
      exact ⟨hfresh _ (Nat.le_refl _), Nat.lt_add_of_pos_right Nat.zero_lt_two⟩
  · intro d hd
    rcases List.mem_append.mp hd with hd | hd
    · exact Nat.lt_add_right 2 (hs.used d hd)
    · exact (hnew d hd).2.2.1

/-- Opening a session keeps the invariant. -/
theorem click (hs : s.Inv) (c : Click) : (s.click c).Inv := by
  unfold Debugger.click
  split
  next => exact hs.refuse
  next => exact hs.attach c.pid

theorem clicks (cs : List Click) : ∀ {s : Debugger}, s.Inv → (cs.foldl Debugger.click s).Inv := by
  induction cs with
  | nil => exact fun hs => hs
  | cons c cs ih => exact fun hs => ih (hs.click c)

/-- Flagging a component other than those that were refused keeps the invariant. -/
theorem flag (hs : s.Inv) {id : Nat} (hid : id ∉ s.refused) :
    ({ s with shared := s.shared.flag id } : Debugger).Inv := by
  have hmem : ∀ d ∈ (s.shared.flag id).components,
      ∃ c ∈ s.shared.components, d.id = c.id ∧ d.kind = c.kind := by
    intro d hd
    obtain ⟨c, hc, rfl⟩ := List.mem_map.mp hd
    refine ⟨c, hc, ?_, ?_⟩
    · split
      · rfl
      · rfl
    · split
      · rfl
      · rfl
  constructor
  · intro d hd
    obtain ⟨c, hc, hid', hkind⟩ := hmem d hd
    rw [hid', hkind]
    exact hs.kinds c hc
  · intro r hr
    obtain ⟨c, hc, rfl, halive⟩ := hs.there r hr
    have hne : c.id ≠ id := fun heq => hid (heq ▸ hr)
    refine ⟨c, List.mem_map.mpr ⟨c, hc, if_neg hne⟩, rfl, halive⟩
  · intro d hd m hm
    obtain ⟨c, hc, -, hkind⟩ := hmem d hd
    exact hs.pointers c hc m (hkind ▸ hm)
  · intro d hd
    obtain ⟨c, hc, hid', -⟩ := hmem d hd
    rw [hid']
    exact hs.used c hc

/-- An update of a component that is there keeps the invariant. -/
theorem update (hs : s.Inv) {f : ClickFrame} {s' : Debugger} {c : Component}
    (hc : ∃ c' ∈ s.shared.components, c'.id = c.id ∧ c'.kind = c.kind)
    (h : s.update f c = some s') : s'.Inv := by
  obtain ⟨c', hc', hid, hkind'⟩ := hc
  unfold Debugger.update at h
  cases hkind : c.kind with
  | mainWindow =>
    rw [hkind] at h
    exact Option.some.inj h ▸ hs.clicks f.clicked
  | moduleList session =>
    rw [hkind] at h
    exact Option.some.inj h ▸ hs
  | session mModuleList =>
    rw [hkind] at h
    simp only at h
    split at h
    next =>
      obtain ⟨shared, hshared, rfl⟩ := Option.map_eq_some_iff.mp h
      obtain ⟨moduleList, rfl, rfl⟩ := Option.map_eq_some_iff.mp hshared
      have hself : c.id ∉ s.refused := by
        rw [← hid, ← hs.kinds c' hc', hkind', hkind]
        simp
      exact (hs.flag hself).flag (hs.pointers c' hc' moduleList (hkind'.trans hkind)).1
    next => exact Option.some.inj h ▸ hs

end Inv

/-! ## Runs

  In one frame the two statements are the same one (`hasModuleLists_iff`): by the invariant the
  sessions without a module list are the refused ones, and these are still there.  `throughout_iff`
  takes it to runs. -/

theorem keeps_click (s : Debugger) (c : Click) : SharedData.Keeps s.shared (s.click c).shared := by
  unfold click
  split
  next => exact SharedData.keeps_openSession s.shared false
  next => exact SharedData.keeps_openSession s.shared true

theorem keeps_clicks (cs : List Click) : ∀ s : Debugger,
    SharedData.Keeps s.shared (cs.foldl click s).shared := by
  induction cs with
  | nil => exact fun s => SharedData.Keeps.refl s.shared
  | cons c cs ih => exact fun s => (keeps_click s c).trans (ih (s.click c))

theorem keeps_update {s s' : Debugger} {f : ClickFrame} {c : Component}
    (h : s.update f c = some s') : SharedData.Keeps s.shared s'.shared := by
  unfold update at h
  split at h
  next => exact Option.some.inj h ▸ keeps_clicks f.clicked s
  next => exact Option.some.inj h ▸ SharedData.Keeps.refl s.shared
  next =>
    split at h
    next =>
      obtain ⟨shared, hshared, rfl⟩ := Option.map_eq_some_iff.mp h
      obtain ⟨moduleList, -, rfl⟩ := Option.map_eq_some_iff.mp hshared
      exact (SharedData.keeps_flag s.shared c.id).trans (SharedData.keeps_flag _ moduleList)
    next => exact Option.some.inj h ▸ SharedData.Keeps.refl s.shared

/-- The loop keeps the invariant. -/
theorem Inv.updateAll {f : ClickFrame} {cs : List Component} : ∀ {s s' : Debugger}, s.Inv →
    (∀ c ∈ cs, ∃ c' ∈ s.shared.components, c'.id = c.id ∧ c'.kind = c.kind) →
    s.updateAll f cs = some s' → s'.Inv := by
  induction cs with
  | nil =>
    intro s s' hs _ h
    exact Option.some.inj h ▸ hs
  | cons c cs ih =>
    intro s s' hs hmem h
    obtain ⟨s₁, hupdate, hrest⟩ := Option.bind_eq_some_iff.mp h
    refine ih (hs.update (hmem c List.mem_cons_self) hupdate) (fun d hd => ?_) hrest
    obtain ⟨d₁, hd₁, hid₁, hkind₁⟩ := hmem d (List.mem_cons_of_mem _ hd)
    obtain ⟨d₂, hd₂, hid₂, hkind₂⟩ := (keeps_update hupdate).mem d₁ hd₁
    exact ⟨d₂, hd₂, hid₂.trans hid₁, hkind₂.trans hkind₁⟩

/-- A frame keeps the invariant. -/
theorem Inv.showImGui {s s' : Debugger} {f : ClickFrame} (hs : s.Inv)
    (h : s.showImGui f = some s') : s'.Inv := by
  unfold Debugger.showImGui at h
  split at h
  next => exact hs.handleDead.updateAll (fun c hc => ⟨c, hc, rfl, rfl⟩) h
  next => exact absurd h (Option.some_ne_none _).symm

/-- **One frame.** -/
theorem hasModuleLists_iff {s : Debugger} (hs : s.Inv) (f : ClickFrame) :
    HasModuleLists s f ↔ ClosesAttached s f := by
  have hdead := hs.handleDead
  constructor
  · intro h id hclosed hrefused
    obtain ⟨c, hc, rfl, -⟩ := hdead.there id hrefused
    exact h c hc hclosed ((hdead.kinds c hc).mpr hrefused)
  · intro h c hc hclosed hkind
    exact h c.id hclosed ((hdead.kinds c hc).mp hkind)

/-- **Every run.**  `queueForDeletion` of a session finds a module list wherever it runs, if and only
    if no window is closed of a session that was refused its process. -/
theorem moduleLists_iff (fs : List ClickFrame) :
    Throughout showImGui HasModuleLists init fs ↔ Throughout showImGui ClosesAttached init fs :=
  throughout_iff Inv (fun _ f hs => hasModuleLists_iff hs f) (fun _ _ _ hs h => hs.showImGui h) fs
    Inv.init

/-- A process is clicked twice, and the second window is closed. -/
def clickedTwice : List ClickFrame :=
  [⟨[⟨7, false⟩], []⟩, ⟨[⟨7, false⟩], []⟩, ⟨[], [3]⟩]

/-- The first session holds the handle, so the second has no module list. -/
theorem not_hasModuleLists_clickedTwice :
    run showImGui init (clickedTwice.take 2) =
        some ⟨⟨[⟨0, .mainWindow, false⟩, ⟨1, .moduleList 2, false⟩, ⟨2, .session (some 1), false⟩,
          ⟨3, .session none, false⟩], [], 4⟩, [⟨2, 7⟩], [3]⟩ ∧
      ¬Throughout showImGui HasModuleLists init clickedTwice :=
  ⟨by decide +kernel, by decide +kernel⟩

end Debugger

end Nxdb
