/-
  What one pass of `handleDeadComponents` should do: delete what is flagged, and leave the rest.

  The pass is `Lib.sweep`, so it does this if and only if no flagged component is directly behind
  another one.  A session and its module list are neighbours and are flagged together: closing one
  session is enough for the pass behind it to leave one of the two.
-/
import Nxdb.Components

namespace Nxdb.SharedData

open Lib

/-- The pass deletes the flagged components, each once and no other, and leaves the others in their
    order. -/
structure Reclaims (s : SharedData) : Prop where
  deleted : s.handleDeadComponents.deleted.Perm
    (s.deleted ++ (s.components.filter Component.mDelete).map Component.id)
  components : s.handleDeadComponents.components = s.components.filter fun c => !c.mDelete

instance (s : SharedData) : Decidable s.Reclaims :=
  decidable_of_iff
    (s.handleDeadComponents.deleted.Perm
        (s.deleted ++ (s.components.filter Component.mDelete).map Component.id) ∧
      s.handleDeadComponents.components = s.components.filter fun c => !c.mDelete)
    ⟨fun ⟨hdeleted, hleft⟩ => ⟨hdeleted, hleft⟩, fun ⟨hdeleted, hleft⟩ => ⟨hdeleted, hleft⟩⟩

/-- **Dead components are reclaimed** if and only if no two of them are neighbours. -/
theorem reclaims_iff (s : SharedData) :
    s.Reclaims ↔ NoNeighbours Component.mDelete s.components := by
  have hpass := handleDeadComponents_eq s
  have hiff := sweep_eq_filter_iff (p := Component.mDelete) s.components false
  constructor
  · rintro ⟨-, hleft⟩
    rw [hpass] at hleft
    exact (hiff.mp hleft).1
  · intro h
    have hleft := hiff.mpr ⟨h, fun hb => Bool.noConfusion hb⟩
    constructor
    · rw [hpass]
      exact ((sweepDead_perm_filter hleft).map Component.id).append_left s.deleted
    · rw [hpass]
      exact hleft

/-- A session is opened, and its window closed: its module list and itself are flagged. -/
theorem not_reclaims_closedSession :
    ∃ s, run showImGui init [⟨[true], []⟩, ⟨[], [2]⟩] = some s ∧
      s.components = [⟨0, .mainWindow, false⟩, ⟨1, .moduleList 2, true⟩,
        ⟨2, .session (some 1), true⟩] ∧
      s.handleDeadComponents.components =
        [⟨0, .mainWindow, false⟩, ⟨2, .session (some 1), true⟩] ∧
      ¬s.Reclaims := by
  refine ⟨_, rfl, rfl, rfl, ?_⟩
  decide +kernel

end Nxdb.SharedData
