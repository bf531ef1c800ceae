import MiniControl.Fleet.Isolation

/-!
# Deletion is absorbing

A row that is marked for deletion keeps the mark, its place, its power state and
its address until it leaves the table, whatever members and workers do in the
meantime; and it leaves the table only on the report of its own worker.
-/

namespace MiniControl.Fleet

open Transition

/-- The row with the id of a marked row is that row, up to its error text, in
this state and in every later one. -/
structure Shared.Frozen (sh : Shared) (w : Workstation) : Prop where
  known : sh.Known w.id
  place : ∀ w' ∈ sh.db.workstations, w'.id = w.id → SamePlace w w'
  mark : ∀ w' ∈ sh.db.workstations, w'.id = w.id → SameMark w w'

variable {sh sh' : Shared} {w : Workstation} {tx : ℕ} {t : Transaction}

/-- A row of the table is frozen as it stands. -/
theorem Shared.Ok.frozen (hok : sh.Ok) (hw : w ∈ sh.db.workstations) : sh.Frozen w := by
  have hsame : ∀ w' ∈ sh.db.workstations, w'.id = w.id → w' = w := fun w' hw' hid =>
    List.inj_on_of_nodup_map hok.ids hw' hw hid
  refine ⟨.of_mem hok hw, fun w' hw' hid => ?_, fun w' hw' hid => ?_⟩
  · rw [hsame w' hw' hid]
    exact (Successor.refl w).toSamePlace
  · rw [hsame w' hw' hid]
    exact ⟨rfl, rfl, rfl⟩

/-- A frozen row that is marked stays frozen. -/
theorem Shared.Frozen.change (h : sh.Frozen w) (hdeleted : w.desiredPowerState = .deleted)
    (hok : sh.Ok) (hchange : Change tx t sh sh') : sh'.Frozen w := by
  have hold : ∀ w' ∈ sh'.db.workstations, w'.id = w.id → SamePlace w w' ∧ SameMark w w' := by
    intro w' hw' hid
    obtain ⟨old, hmem, holdID, hnew⟩ := h.known.successor hchange hw' hid
    have hplace := h.place old hmem holdID
    have hmark := h.mark old hmem holdID
    have hnewMark := hnew.absorbing (hok.marked old hmem) (hmark.desiredPowerState.trans hdeleted)
    exact ⟨hplace.trans hnew.toSamePlace, hmark.trans hnewMark⟩
  exact ⟨h.known.change hchange, fun w' hw' hid => (hold w' hw' hid).1,
    fun w' hw' hid => (hold w' hw' hid).2⟩

/-- A row marked for deletion is frozen along every run. -/
theorem Server.frozen_of_leads (server : Server) {s t : State} (h : server.system.Reachable s)
    (hrun : server.system.Leads s t) (hw : w ∈ s.shared.db.workstations)
    (hdeleted : w.desiredPowerState = .deleted) : t.shared.Frozen w := by
  refine System.Leads.invariant (P := fun t => t.shared.Frozen w) ?_ hrun h
    ((server.holds_of_reachable h).1.frozen hw)
  rintro s ⟨tx, action⟩ t hreach hnext hfrozen
  exact hfrozen.change hdeleted (server.holds_of_reachable hreach).1
    (server.step_change hreach hnext)

/-- A row that leaves the table is marked, and the statement commits the report
`deleted` of its own worker. -/
theorem Change.removed (h : Change tx t sh sh') (hok : sh.Ok) (hw : w ∈ sh.db.workstations)
    (hgone : ∀ w' ∈ sh'.db.workstations, w'.id ≠ w.id) :
    w.desiredPowerState = .deleted ∧ ∃ report reply,
      t = .row (.reportStatus w.workerID report) (.written .remove reply) ∧
      report.workstationID = w.id ∧ report.powerState = .value .deleted := by
  have hrows := h.rows
  generalize sh'.db.workstations = rows at hrows hgone
  cases hrows with
  | same => exact absurd rfl (hgone w hw)
  | insert _ => exact absurd rfl (hgone w (List.mem_append_left _ hw))
  | @put id old new hold hid hnew =>
    by_cases hkey : w.id = id
    · have heq : new.id = w.id := by rw [hnew.id, hid, hkey]
      exact absurd heq (hgone new (Tables.mem_update_of_mem hw hkey))
    · exact absurd rfl (hgone w (Tables.mem_update_of_ne hw hkey))
  | @remove op reply now old ht hold hid hdelete =>
    have hkey : w.id = op.workstationID := by
      by_contra hne
      exact hgone w (Tables.mem_delete.mpr ⟨hw, hne⟩) rfl
    have heq : old = w := List.inj_on_of_nodup_map hok.ids hold hw (hid.trans hkey.symm)
    subst heq
    obtain ⟨hdeleted, report, hreport, hop⟩ := RowOp.decision_delete hdelete
    subst hop
    exact ⟨hdeleted, report, reply, ht, hid.symm, hreport⟩

/-- In every reachable state the rows marked for deletion are being deleted; such
a row changes at most its error text and its time of update in any run that
follows; and a row leaves the table only when it is marked and its own worker
reports it as deleted. -/
theorem Server.deletion_absorbing (server : Server) {s : State} (h : server.system.Reachable s) :
    (∀ w ∈ s.shared.db.workstations,
      w.desiredPowerState = .deleted → w.powerState = .deleting) ∧
    (∀ t, server.system.Leads s t → ∀ w ∈ s.shared.db.workstations,
      w.desiredPowerState = .deleted → ∀ w' ∈ t.shared.db.workstations, w'.id = w.id →
        w'.desiredPowerState = w.desiredPowerState ∧ w'.powerState = w.powerState ∧
        w'.ipAddress = w.ipAddress ∧ w'.workerID = w.workerID ∧ w'.slot = w.slot ∧
        w'.vmName = w.vmName) ∧
    (∀ tx action t, server.system.next s (tx, action) t → ∀ w ∈ s.shared.db.workstations,
      (∀ w' ∈ t.shared.db.workstations, w'.id ≠ w.id) →
        w.desiredPowerState = .deleted ∧ ∃ report reply,
          s.locals tx = .row (.reportStatus w.workerID report) (.written .remove reply) ∧
          report.workstationID = w.id ∧ report.powerState = .value .deleted) := by
  obtain ⟨hok, _⟩ := server.holds_of_reachable h
  refine ⟨hok.marked, ?_, ?_⟩
  · intro t hrun w hw hdeleted w' hw' hid
    have hfrozen := server.frozen_of_leads h hrun hw hdeleted
    have hplace := hfrozen.place w' hw' hid
    have hmark := hfrozen.mark w' hw' hid
    exact ⟨hmark.desiredPowerState, hmark.powerState, hmark.ipAddress, hplace.workerID,
      hplace.slot, hplace.vmName⟩
  · intro tx action t hnext w hw hgone
    exact (server.step_change h hnext).removed hok hw hgone

/-- A member claims a workstation and releases it; a late report and a resume
find the row marked. -/
def releasedWorkstation : List (ℕ × Action) :=
  [(0, .register 100 ⟨"w", "mac-1", "uuid", 8, 16, "2", "1", 1, "base"⟩),
   (0, .updateWorker 110 "w" .heartbeat), (1, .beginClaim "alice" ""),
   (1, .claim .lock), (1, .claim (.listWorkers 120)), (1, .claim .listSlots),
   (1, .claim (.insert 120 "id-1")), (1, .claim .commit),
   (2, .beginRow (.setDesired "alice" "id-1" (.value .deleted))),
   (3, .beginRow (.reportStatus "w" ⟨"id-1", .value .running, "10.0.0.1", ""⟩)),
   (2, .row (.selectForUpdate 130)), (2, .row .write), (2, .row .commit),
   (3, .row (.selectForUpdate 131)), (3, .row .write), (3, .row .commit)]

/-- The deletion invariant in the state that this run reaches. -/
theorem deletion_absorbing_released : ∃ s : State, plainServer.system.Reachable s ∧
    s.shared.db.workstations.map (·.desiredPowerState) = [.deleted] ∧
    ∀ w ∈ s.shared.db.workstations,
      w.desiredPowerState = .deleted → w.powerState = .deleting := by
  have hrun : ∃ s, runEvents plainServer.program.step State.initial releasedWorkstation = some s ∧
      s.shared.db.workstations.map (·.desiredPowerState) = [.deleted] := ⟨_, rfl, rfl⟩
  obtain ⟨s, hs, hdesired⟩ := hrun
  have hreach : plainServer.system.Reachable s := reachable_of_runEvents rfl hs
  exact ⟨s, hreach, hdesired, (plainServer.deletion_absorbing hreach).1⟩

end MiniControl.Fleet
