/-
  Which debug handles are open, and for how long.

  A session takes its debug handle when it attaches and gives it back in its destructor, frames after
  its window has been closed.  Two things are said about every run of frames, whatever is clicked and
  closed in them, up to the first frame that follows a pointer to nothing: `frame` is `none` there, as
  what the program does from then on is not defined.

  * `Accounted`, and `handles_accounted`: the open debug handles are those of the attached sessions
    in the list, one each and in their order, and no process is held through two of them.  So no
    handle is lost with its session, none is closed while its session is there, and the debugger is
    never in its own way where it has not been told to attach.
  * `closed_lets_go`: a session whose window is closed is gone, and its process let go, within as many
    frames as there are components.  `handleDeadComponents` may spare a component again and again,
    but the component it spares stands directly behind one that it deletes, so its index drops.

  Both are by one step lemma, with `run_invariant` and with `run_within`.  The second one counts down
  the index at which the session stands (`Queued`), which `Lib.sweep_closer` brings down whenever the
  pass does not delete it.
-/
import Nxdb.Attach

namespace Nxdb

open Lib

/-! ## The handles of the sessions

  The sessions that are attached, as a list, and what the pass and the updates do to it: the pass
  takes away what it deletes, a session that is opened comes to the end, and a flag changes
  nothing. -/

/-- The number of a session that is attached: one with a module list. -/
def Component.attached (c : Component) : Option Nat :=
  match c.kind with
  | .session (some _) => some c.id
  | _ => none

theorem Component.attached_eq_some {c : Component} {id : Nat} :
    c.attached = some id ↔ c.id = id ∧ ∃ m, c.kind = .session (some m) := by
  obtain ⟨cid, kind, flagged⟩ := c
  cases kind with
  | mainWindow => simp [attached]
  | moduleList session => simp [attached]
  | session m =>
    cases m with
    | none => simp [attached]
    | some m => simp [attached]

namespace SharedData

/-- The sessions that are attached. -/
def attached (s : SharedData) : List Nat := s.components.filterMap Component.attached

/-- The sessions the pass leaves attached. -/
theorem Numbered.attached_handleDead {s : SharedData} (hs : s.Numbered) :
    s.handleDeadComponents.attached =
      s.attached.filter fun id => decide (id ∉ s.handleDeadComponents.deleted) := by
  rw [attached, hs.components_handleDead, attached, List.filter_filterMap, List.filterMap_filter]
  congr 1
  funext c
  cases hc : c.attached with
  | none => exact ite_self none
  | some id =>
    rw [Option.filter_some, (Component.attached_eq_some.mp hc).1]

theorem attached_openSession (s : SharedData) (attached : Bool) :
    (s.openSession attached).attached = s.attached ++ if attached then [s.nextId + 1] else [] := by
  cases attached with
  | true => exact List.filterMap_append
  | false => exact List.filterMap_append

theorem attached_flag (s : SharedData) (id : Nat) : (s.flag id).attached = s.attached := by
  rw [attached, flag, List.filterMap_map, attached]
  congr 1
  funext c
  rw [Function.comp_apply]
  split
  · rfl
  · rfl

end SharedData

namespace Debugger

/-! ## Frames in which every pointer has its object

  Where a module list without its session is drawn, the program reads freed memory; and closing a
  window again follows the pointer to a module list that is gone.  Runs are considered up to such a
  frame. -/

/-- A frame, and whether the table of the window `Module List` is drawn in it (it is not while the
    window is collapsed). -/
structure GuiFrame where
  input : ClickFrame
  tableDrawn : Bool

/-- No module list is that of a session that has been deleted. -/
def ListsLive (s : Debugger) : Prop :=
  ∀ c ∈ s.shared.components, ∀ session ∈ c.kind.listed, session ∉ s.shared.deleted

instance (s : Debugger) : Decidable s.ListsLive := inferInstanceAs (Decidable (∀ c ∈ _, _))

/-- A frame; `none` when it follows a pointer to nothing.  `ModuleList::update` reads its session
    where it draws the table.  The window of a session that was refused, or of one that was spared,
    is closed with a module list that is null or has been deleted, and `showImGui` is `none`. -/
def frame (s : Debugger) (g : GuiFrame) : Option Debugger :=
  if g.tableDrawn = true → s.handleDeadComponents.ListsLive then s.showImGui g.input else none

theorem showImGui_of_frame {s s' : Debugger} {g : GuiFrame} (h : s.frame g = some s') :
    s.showImGui g.input = some s' := by
  unfold frame at h
  split at h
  next => exact h
  next => exact absurd h (Option.some_ne_none _).symm

/-! ## The handles that are open

  The list of the handles is changed in two places, the constructor and the destructor of a session,
  and in both the list of the attached sessions changes in the same way. -/

/-- **The open debug handles**: one for each attached session in the list, in their order, and no two
    on one process. -/
structure Accounted (s : Debugger) : Prop where
  numbered : s.shared.Numbered
  sessions : s.handles.map DebugHandle.session = s.shared.attached
  pids : (s.handles.map DebugHandle.pid).Nodup

theorem Accounted.init : Debugger.init.Accounted where
  numbered := SharedData.Numbered.init
  sessions := rfl
  pids := List.nodup_nil

theorem Accounted.handleDead {s : Debugger} (hs : s.Accounted) :
    s.handleDeadComponents.Accounted where
  numbered := hs.numbered.handleDead
  sessions := by
    show (s.handles.filter _).map _ = s.shared.handleDeadComponents.attached
    rw [hs.numbered.attached_handleDead, ← hs.sessions, List.filter_map]
    rfl
  pids := hs.pids.sublist (List.filter_sublist.map _)

/-- A session that is refused takes no handle, any other takes that of a process nobody holds. -/
theorem Accounted.click {s : Debugger} (hs : s.Accounted) (c : Click) : (s.click c).Accounted := by
  unfold Debugger.click
  split
  next =>
    refine ⟨hs.numbered.openSession false, ?_, hs.pids⟩
    rw [SharedData.attached_openSession, hs.sessions]
    exact (List.append_nil _).symm
  next hfree =>
    refine ⟨hs.numbered.openSession true, ?_, ?_⟩
    · rw [SharedData.attached_openSession, List.map_append, hs.sessions]
      rfl
    · rw [List.map_append, List.map_singleton, List.nodup_append]
      refine ⟨hs.pids, List.nodup_singleton _, ?_⟩
      rintro pid hpid _ hc rfl
      obtain ⟨h, hh, rfl⟩ := List.mem_map.mp hpid
      refine hfree ?_
      rw [hasDebugger, Bool.or_eq_true]
      exact Or.inr (List.any_eq_true.mpr ⟨h, hh, decide_eq_true (List.mem_singleton.mp hc)⟩)

theorem Accounted.clicks (cs : List Click) : ∀ {s : Debugger}, s.Accounted →
    (cs.foldl Debugger.click s).Accounted := by
  induction cs with
  | nil => exact fun hs => hs
  | cons c cs ih => exact fun hs => ih (hs.click c)

theorem Accounted.flag {s : Debugger} (hs : s.Accounted) (id : Nat) :
    Accounted { s with shared := s.shared.flag id } where
  numbered := hs.numbered.flag id
  sessions := hs.sessions.trans (SharedData.attached_flag s.shared id).symm
  pids := hs.pids

theorem Accounted.update {s s' : Debugger} (hs : s.Accounted) {f : ClickFrame} {c : Component}
    (h : s.update f c = some s') : s'.Accounted := by
  unfold Debugger.update at h
  split at h
  next => exact Option.some.inj h ▸ hs.clicks f.clicked
  next => exact Option.some.inj h ▸ hs
  next =>
    split at h
    next =>
      obtain ⟨shared, hshared, rfl⟩ := Option.map_eq_some_iff.mp h
      obtain ⟨moduleList, -, rfl⟩ := Option.map_eq_some_iff.mp hshared
      exact (hs.flag c.id).flag moduleList
    next => exact Option.some.inj h ▸ hs

theorem Accounted.updateAll {f : ClickFrame} (cs : List Component) : ∀ {s s' : Debugger},
    s.Accounted → s.updateAll f cs = some s' → s'.Accounted := by
  induction cs with
  | nil => exact fun hs h => Option.some.inj h ▸ hs
  | cons c cs ih =>
    intro s s' hs h
    obtain ⟨s₁, hupdate, hrest⟩ := Option.bind_eq_some_iff.mp h
    exact ih (hs.update hupdate) hrest

/-- A frame is a pass and the updates. -/
theorem updateAll_of_showImGui {s s' : Debugger} {f : ClickFrame} (h : s.showImGui f = some s') :
    s.handleDeadComponents.updateAll f s.handleDeadComponents.shared.components = some s' := by
  unfold Debugger.showImGui at h
  split at h
  next => exact h
  next => exact absurd h (Option.some_ne_none _).symm

theorem Accounted.showImGui {s s' : Debugger} {f : ClickFrame} (hs : s.Accounted)
    (h : s.showImGui f = some s') : s'.Accounted :=
  hs.handleDead.updateAll _ (updateAll_of_showImGui h)

theorem Accounted.frame {s s' : Debugger} {g : GuiFrame} (hs : s.Accounted)
    (h : s.frame g = some s') : s'.Accounted := hs.showImGui (showImGui_of_frame h)

/-- **Every run.**  Whatever is clicked and closed, the open debug handles are one for each attached
    session in the list, in their order, and no process is held through two of them. -/
theorem handles_accounted (gs : List GuiFrame) {s : Debugger} (h : run frame init gs = some s) :
    s.handles.map DebugHandle.session = s.shared.attached ∧
      (s.handles.map DebugHandle.pid).Nodup := by
  have hs := run_invariant (fun _ _ _ hs h => Accounted.frame hs h) gs Accounted.init h
  exact ⟨hs.sessions, hs.pids⟩

/-- Three double clicks, two of them on the same process. -/
theorem handles_accounted_threeClicks :
    ∃ s, run frame init [⟨⟨[⟨7, false⟩, ⟨9, false⟩, ⟨7, false⟩], []⟩, true⟩] = some s ∧
      s.handles = [⟨2, 7⟩, ⟨4, 9⟩] ∧ s.handles.map DebugHandle.session = s.shared.attached ∧
      (s.handles.map DebugHandle.pid).Nodup :=
  ⟨_, rfl, rfl, handles_accounted [⟨⟨[⟨7, false⟩, ⟨9, false⟩, ⟨7, false⟩], []⟩, true⟩] rfl⟩

/-! ## What is flagged goes

  `sweep_closer` of `Lib/Sweep`: a flagged component that is spared was behind one that is erased,
  so it moves up.  Opening sessions does not push it back behind the others, as new components come
  behind.  So its index is a bound for the number of frames that it can still be there
  (`run_within`). -/

/-- The component with the number `id` is flagged, and stands at index `n`. -/
def Queued (id n : Nat) (s : Debugger) : Prop :=
  ∃ c, s.shared.components[n]? = some c ∧ c.id = id ∧ c.mDelete = true

variable {id n : Nat}

theorem Queued.click {s : Debugger} (h : Queued id n s) (c : Click) : Queued id n (s.click c) := by
  obtain ⟨d, hd, hid, hflag⟩ := h
  have hlt : n < s.shared.components.length := (List.getElem?_eq_some_iff.mp hd).1
  refine ⟨d, ?_, hid, hflag⟩
  unfold Debugger.click
  split
  next => exact (List.getElem?_append_left hlt).trans hd
  next => exact (List.getElem?_append_left hlt).trans hd

theorem Queued.clicks (cs : List Click) : ∀ {s : Debugger}, Queued id n s →
    Queued id n (cs.foldl Debugger.click s) := by
  induction cs with
  | nil => exact fun h => h
  | cons c cs ih => exact fun h => ih (h.click c)

theorem Queued.flag {s : Debugger} (h : Queued id n s) (i : Nat) :
    Queued id n { s with shared := s.shared.flag i } := by
  obtain ⟨d, hd, hid, hflag⟩ := h
  refine ⟨if d.id = i then { d with mDelete := true } else d, ?_, ?_, ?_⟩
  · show (s.shared.components.map _)[n]? = _
    rw [List.getElem?_map, hd, Option.map_some]
  · split
    · exact hid
    · exact hid
  · split
    · rfl
    · exact hflag

theorem Queued.update {s s' : Debugger} (h : Queued id n s) {f : ClickFrame} {c : Component}
    (hstep : s.update f c = some s') : Queued id n s' := by
  unfold Debugger.update at hstep
  split at hstep
  next => exact Option.some.inj hstep ▸ h.clicks f.clicked
  next => exact Option.some.inj hstep ▸ h
  next =>
    split at hstep
    next =>
      obtain ⟨shared, hshared, rfl⟩ := Option.map_eq_some_iff.mp hstep
      obtain ⟨moduleList, -, rfl⟩ := Option.map_eq_some_iff.mp hshared
      exact (h.flag c.id).flag moduleList
    next => exact Option.some.inj hstep ▸ h

theorem Queued.updateAll {f : ClickFrame} (cs : List Component) : ∀ {s s' : Debugger},
    Queued id n s → s.updateAll f cs = some s' → Queued id n s' := by
  induction cs with
  | nil => exact fun h hstep => Option.some.inj hstep ▸ h
  | cons c cs ih =>
    intro s s' h hstep
    obtain ⟨s₁, hupdate, hrest⟩ := Option.bind_eq_some_iff.mp hstep
    exact ih (h.update hupdate) hrest

theorem keeps_updateAll {f : ClickFrame} (cs : List Component) : ∀ {s s' : Debugger},
    s.updateAll f cs = some s' → SharedData.Keeps s.shared s'.shared := by
  induction cs with
  | nil => exact fun h => Option.some.inj h ▸ SharedData.Keeps.refl _
  | cons c cs ih =>
    intro s s' h
    obtain ⟨s₁, hupdate, hrest⟩ := Option.bind_eq_some_iff.mp h
    exact (keeps_update hupdate).trans (ih hrest)

/-- **One frame.**  A flagged component is deleted, or it is further in front afterwards. -/
theorem Queued.showImGui {s s' : Debugger} {f : ClickFrame} (h : Queued id n s)
    (hstep : s.showImGui f = some s') :
    id ∈ s'.shared.deleted ∨ ∃ m, m < n ∧ Queued id m s' := by
  obtain ⟨c, hc, rfl, hflag⟩ := h
  have hupdates := updateAll_of_showImGui hstep
  rcases (sweep_closer (p := Component.mDelete) hflag s.shared.components n hc).1 with
    hdead | ⟨m, hm, hleft⟩
  · left
    rw [(keeps_updateAll _ hupdates).deleted]
    show c.id ∈ s.shared.handleDeadComponents.deleted
    rw [SharedData.handleDeadComponents_eq]
    exact List.mem_append_right _ (List.mem_map_of_mem hdead)
  · right
    have hqueued : Queued c.id m s.handleDeadComponents := by
      refine ⟨c, ?_, rfl, hflag⟩
      show s.shared.handleDeadComponents.components[m]? = some c
      rw [SharedData.handleDeadComponents_eq]
      exact hleft
    exact ⟨m, hm, hqueued.updateAll _ hupdates⟩

/-- What has been deleted stays deleted. -/
theorem deleted_showImGui {s s' : Debugger} {f : ClickFrame} (h : id ∈ s.shared.deleted)
    (hstep : s.showImGui f = some s') : id ∈ s'.shared.deleted := by
  rw [(keeps_updateAll _ (updateAll_of_showImGui hstep)).deleted]
  show id ∈ s.shared.handleDeadComponents.deleted
  rw [SharedData.handleDeadComponents_eq]
  exact List.mem_append_left _ h

/-- A window that is closed leaves its session flagged. -/
theorem queued_of_closed {f : ClickFrame} {c : Component} {m : Option Nat}
    (hkind : c.kind = .session m) (hclosed : c.id ∈ f.closed) (cs : List Component) :
    c ∈ cs → ∀ {s s' : Debugger}, (∃ d ∈ s.shared.components, d.id = c.id) →
      s.updateAll f cs = some s' → ∃ n, Queued c.id n s' := by
  induction cs with
  | nil => exact fun h => absurd h List.not_mem_nil
  | cons d cs ih =>
    intro hmem s s' hthere h
    obtain ⟨s₁, hupdate, hrest⟩ := Option.bind_eq_some_iff.mp h
    obtain ⟨x, hx, hid⟩ := hthere
    rcases List.mem_cons.mp hmem with rfl | hmem
    · -- the update flags the component with the session's number
      obtain ⟨n, hn⟩ := List.getElem?_of_mem hx
      have hflag : Queued c.id n { s with shared := s.shared.flag c.id } := by
        refine ⟨{ x with mDelete := true }, ?_, hid, rfl⟩
        show (s.shared.components.map _)[n]? = _
        rw [List.getElem?_map, hn, Option.map_some, if_pos hid]
      unfold Debugger.update at hupdate
      simp only [hkind, if_pos hclosed] at hupdate
      obtain ⟨shared, hshared, rfl⟩ := Option.map_eq_some_iff.mp hupdate
      obtain ⟨moduleList, -, rfl⟩ := Option.map_eq_some_iff.mp hshared
      exact ⟨n, (hflag.flag moduleList).updateAll cs hrest⟩
    · obtain ⟨y, hy, hyid, -⟩ := (keeps_update hupdate).mem x hx
      exact ih hmem ⟨y, hy, hyid.trans hid⟩ hrest

/-- **A closed session lets go of its process.**  In every run, whatever is clicked and closed
    afterwards: as many frames after its window has been closed as there were components then, the
    session has been deleted and its debug handle closed. -/
theorem closed_lets_go {fs gs : List GuiFrame} {g : GuiFrame} {s s₁ s₂ : Debugger}
    (h : run frame init fs = some s) (hg : s.frame g = some s₁) (hclosed : id ∈ g.input.closed)
    (hgs : run frame s₁ gs = some s₂)
    (hlen : s₁.shared.components.length ≤ gs.length) :
    id ∈ s₂.shared.deleted ∧ (∀ c ∈ s₂.shared.components, c.id ≠ id) ∧
      ∀ handle ∈ s₂.handles, handle.session ≠ id := by
  have hf := showImGui_of_frame hg
  have hwindow : id ∈ s.handleDeadComponents.shared.windows := by
    unfold Debugger.showImGui at hf
    split at hf
    next hguard => exact hguard.1 id hclosed
    next => exact absurd hf (Option.some_ne_none _).symm
  obtain ⟨c, hc, m, hkind, rfl⟩ := SharedData.mem_windows.mp hwindow
  obtain ⟨n, hqueued⟩ := queued_of_closed hkind hclosed _ hc ⟨c, hc, rfl⟩ (updateAll_of_showImGui hf)
  have hn : n < gs.length := by
    obtain ⟨d, hd, -⟩ := hqueued
    exact Nat.lt_of_lt_of_le (List.getElem?_eq_some_iff.mp hd).1 hlen
  have hdeleted : c.id ∈ s₂.shared.deleted := by
    have hstep : ∀ n s g s', Queued c.id n s → frame s g = some s' →
        c.id ∈ s'.shared.deleted ∨ ∃ m, m < n ∧ Queued c.id m s' :=
      fun _ _ _ _ hs hnext => hs.showImGui (showImGui_of_frame hnext)
    have hstay : ∀ (s : Debugger) (g : GuiFrame) (s' : Debugger), c.id ∈ s.shared.deleted →
        frame s g = some s' → c.id ∈ s'.shared.deleted :=
      fun _ _ _ hs hnext => deleted_showImGui hs (showImGui_of_frame hnext)
    exact run_within hstep hstay gs hqueued hgs hn
  -- the handles are those of components that are there
  have hacc : s₂.Accounted := by
    have hkeep : ∀ s g s', Accounted s → frame s g = some s' → Accounted s' :=
      fun _ _ _ hs hnext => hs.frame hnext
    have hs := run_invariant hkeep fs Accounted.init h
    exact run_invariant hkeep gs (hs.frame hg) hgs
  have hgone : ∀ d ∈ s₂.shared.components, d.id ≠ c.id := fun d hd heq =>
    (hacc.numbered.live d hd).1 (heq ▸ hdeleted)
  refine ⟨hdeleted, hgone, fun handle hhandle heq => ?_⟩
  have hmem : handle.session ∈ s₂.shared.attached :=
    hacc.sessions ▸ List.mem_map_of_mem hhandle
  obtain ⟨d, hd, hattached⟩ := List.mem_filterMap.mp hmem
  exact hgone d hd ((Component.attached_eq_some.mp hattached).1.trans heq)

/-- A session on process 7, with its window closed or not. -/
def sessionOnSeven (flagged : Bool) : Debugger :=
  ⟨⟨[⟨0, .mainWindow, false⟩, ⟨1, .moduleList 2, flagged⟩, ⟨2, .session (some 1), flagged⟩], [], 3⟩,
    [⟨2, 7⟩], []⟩

/-- Three frames in which the table is drawn; in the last one process 7 is clicked. -/
def clickedAgain : List GuiFrame := [⟨⟨[], []⟩, true⟩, ⟨⟨[], []⟩, true⟩, ⟨⟨[⟨7, false⟩], []⟩, true⟩]

/-- The window is closed, and the process is clicked again two frames later. -/
theorem closed_lets_go_clickedAgain :
    ∃ s, run frame (sessionOnSeven true) clickedAgain = some s ∧
      s.handles = [⟨4, 7⟩] ∧ 2 ∈ s.shared.deleted ∧ (∀ c ∈ s.shared.components, c.id ≠ 2) ∧
      ∀ handle ∈ s.handles, handle.session ≠ 2 := by
  have hopen : run frame init [⟨⟨[⟨7, false⟩], []⟩, true⟩] = some (sessionOnSeven false) := by
    decide +kernel
  have hclose : (sessionOnSeven false).frame ⟨⟨[], [2]⟩, true⟩ = some (sessionOnSeven true) := by
    decide +kernel
  have hmem : 2 ∈ (⟨⟨[], [2]⟩, true⟩ : GuiFrame).input.closed := List.mem_cons_self
  obtain ⟨s, hs, hhandles⟩ : ∃ s, run frame (sessionOnSeven true) clickedAgain = some s ∧
      s.handles = [⟨4, 7⟩] := ⟨_, rfl, rfl⟩
  exact ⟨s, hs, hhandles, closed_lets_go hopen hclose hmem hs (by decide)⟩

end Debugger

end Nxdb
