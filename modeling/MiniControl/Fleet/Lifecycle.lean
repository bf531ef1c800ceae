import MiniControl.Fleet.Isolation
import Mathlib.Order.Basic
import Mathlib.Order.Lattice
import Mathlib.Order.Nat

/-!
# The life of a workstation id

Seen from outside, all that the transactions do to an id is to move it forward:
it is unborn until its row is committed, live until the row is marked for
deletion, marked until the row leaves the table, and gone for ever after. The
stage of an id is an abstraction of the whole shared state, and it never
decreases along a run.
-/

namespace MiniControl.Fleet

open Transition

/-- The stages in the life of a workstation id. -/
inductive Stage
  | unborn
  | live
  | marked
  | gone
  deriving DecidableEq

/-- The position of a stage in a life. -/
def Stage.rank : Stage → ℕ
  | unborn => 0
  | live => 1
  | marked => 2
  | gone => 3

/-- Different stages have different positions. -/
theorem Stage.rank_injective : Function.Injective Stage.rank := by
  intro a b h
  cases a <;> cases b <;> first | rfl | cases h

instance : LinearOrder Stage := LinearOrder.lift' Stage.rank Stage.rank_injective

/-- The stage of an id in a shared state. -/
def Shared.stage (sh : Shared) (id : String) : Stage :=
  match sh.db.workstations.find? (·.id = id) with
  | some w => if w.desiredPowerState = .deleted then .marked else .live
  | none => if id ∈ sh.usedIDs ∧ ∀ row ∈ sh.uncommitted, row.id ≠ id then .gone else .unborn

/-- The id was marked for deletion at some time. -/
def Shared.Dead (sh : Shared) (id : String) : Prop := .marked ≤ sh.stage id

namespace Shared

variable {sh : Shared} {id : String}

/-- The stage of an id that has a row. -/
theorem stage_of_mem (hok : sh.Ok) {w : Workstation} (hw : w ∈ sh.db.workstations) :
    sh.stage w.id = if w.desiredPowerState = .deleted then .marked else .live := by
  have hfind : sh.db.workstations.find? (·.id = w.id) = some w :=
    Tables.find?_eq_some hok.ids hw (by simp) (by simp)
  rw [stage, hfind]

/-- The stage of an id without a row. -/
theorem stage_of_not_mem (h : ∀ w ∈ sh.db.workstations, w.id ≠ id) : sh.stage id =
    if id ∈ sh.usedIDs ∧ ∀ row ∈ sh.uncommitted, row.id ≠ id then .gone else .unborn := by
  have hfind : sh.db.workstations.find? (·.id = id) = none := by
    rw [List.find?_eq_none]
    exact fun w hw => by simpa using h w hw
  rw [stage, hfind]

/-- An id is past its birth exactly when it is known. -/
theorem known_iff (hok : sh.Ok) : sh.Known id ↔ .live ≤ sh.stage id := by
  by_cases h : ∃ w ∈ sh.db.workstations, w.id = id
  · obtain ⟨w, hw, rfl⟩ := h
    rw [stage_of_mem hok hw]
    refine iff_of_true (.of_mem hok hw) ?_
    split_ifs <;> decide
  · push Not at h
    rw [stage_of_not_mem h]
    split_ifs with hgone
    · exact iff_of_true ⟨hgone.1, hgone.2⟩ (by decide)
    · exact iff_of_false (fun hknown => hgone ⟨hknown.used, hknown.settled⟩) (by decide)

/-- An id is dead exactly when it is known and its row, if any, is marked. -/
theorem dead_iff (hok : sh.Ok) : sh.Dead id ↔
    sh.Known id ∧ ∀ w ∈ sh.db.workstations, w.id = id → w.desiredPowerState = .deleted := by
  by_cases h : ∃ w ∈ sh.db.workstations, w.id = id
  · obtain ⟨w, hw, rfl⟩ := h
    rw [Dead, stage_of_mem hok hw]
    split_ifs with hdeleted
    · refine iff_of_true le_rfl ⟨.of_mem hok hw, fun v hv hid => ?_⟩
      rwa [List.inj_on_of_nodup_map hok.ids hv hw hid]
    · exact iff_of_false (by decide) fun hdead => hdeleted (hdead.2 w hw rfl)
  · push Not at h
    have hknown : sh.Dead id ↔ sh.Known id := by
      rw [known_iff hok, Dead, stage_of_not_mem h]
      split_ifs <;> decide
    rw [hknown]
    exact ⟨fun hid => ⟨hid, fun w hw hid => absurd hid (h w hw)⟩, fun hid => hid.1⟩

/-- An id is gone exactly when it is known and has no row. -/
theorem gone_iff (hok : sh.Ok) : sh.stage id = .gone ↔
    sh.Known id ∧ ∀ w ∈ sh.db.workstations, w.id ≠ id := by
  by_cases h : ∃ w ∈ sh.db.workstations, w.id = id
  · obtain ⟨w, hw, rfl⟩ := h
    rw [stage_of_mem hok hw]
    refine iff_of_false ?_ fun hgone => hgone.2 w hw rfl
    split_ifs <;> decide
  · push Not at h
    have hknown : sh.stage id = .gone ↔ sh.Known id := by
      rw [known_iff hok, stage_of_not_mem h]
      split_ifs <;> decide
    rw [hknown]
    exact ⟨fun hid => ⟨hid, h⟩, fun hid => hid.1⟩

/-- A change never moves an id back. -/
theorem stage_mono {tx : ℕ} {t : Transaction} {sh' : Shared} (hok : sh.Ok)
    (h : Change tx t sh sh') (id : String) : sh.stage id ≤ sh'.stage id := by
  have hok' := hok.change h
  have hlive : .live ≤ sh.stage id → .live ≤ sh'.stage id := fun hstage =>
    (known_iff hok').mp (((known_iff hok).mpr hstage).change h)
  have hdead : sh.Dead id → sh'.Dead id := by
    intro hdead
    obtain ⟨hknown, hmarked⟩ := (dead_iff hok).mp hdead
    refine (dead_iff hok').mpr ⟨hknown.change h, fun w hw hid => ?_⟩
    obtain ⟨old, hold, holdID, hnew⟩ := hknown.successor h hw hid
    have hdeleted := hmarked old hold holdID
    exact (hnew.absorbing (hok.marked old hold) hdeleted).desiredPowerState.trans hdeleted
  have hgone : sh.stage id = .gone → sh'.stage id = .gone := by
    intro hgone
    obtain ⟨hknown, hnone⟩ := (gone_iff hok).mp hgone
    refine (gone_iff hok').mpr ⟨hknown.change h, fun w hw hid => ?_⟩
    obtain ⟨old, hold, holdID, _⟩ := hknown.successor h hw hid
    exact hnone old hold holdID
  cases hstage : sh.stage id with
  | unborn => exact Nat.zero_le _
  | live => exact hlive hstage.ge
  | marked => exact hdead hstage.ge
  | gone => rw [hgone hstage]

end Shared

end MiniControl.Fleet
