import MiniControl.Fleet.Alone

/-!
# Releasing a workstation

A change of the desired power state is refused by the power state of the row,
while a row is marked for deletion in its desired power state. The two columns
agree as long as workers report `deleting` and `deleted` about marked rows only;
a report that breaks this makes a row that its owner cannot release.
-/

namespace MiniControl.Fleet

open Transition

/-- The power states in which a change of the desired power state is refused. -/
def PowerState.Ending (state : PowerState) : Prop := state = .deleting ∨ state = .deleted

/-- A row whose power state is that of a deletion is marked for deletion. -/
def Honest (row : Workstation) : Prop :=
  row.powerState.Ending → row.desiredPowerState = .deleted

/-- A report of a deletion is about a row of the worker that is marked. -/
def RowOp.Warranted (op : RowOp) (row : Workstation) : Prop :=
  match op with
  | .reportStatus workerID report =>
    report.powerState = .value .deleting ∨ report.powerState = .value .deleted →
      row.workerID = workerID → row.desiredPowerState = .deleted
  | .ensureRunning _ _ | .setDesired _ _ _ => True

instance (op : RowOp) (row : Workstation) : Decidable (op.Warranted row) :=
  match op with
  | .reportStatus _ _ => inferInstanceAs (Decidable (_ ∨ _ → _ → _))
  | .ensureRunning _ _ | .setDesired _ _ _ => .isTrue trivial

/-- The row operation whose locking read a statement is. -/
def Transaction.lockingRead : Transaction → Action → Option RowOp
  | .row op .begun, .row (.selectForUpdate _) => some op
  | _, _ => none

/-- A status report that reads its row finds one that warrants the report. -/
def WarrantedReads (s : State) (e : ℕ × Action) : Prop :=
  ∀ op ∈ (s.locals e.1).lockingRead e.2, ∀ row ∈ s.shared.db.workstations,
    row.id = op.workstationID → op.Warranted row

instance (s : State) (e : ℕ × Action) : Decidable (WarrantedReads s e) :=
  inferInstanceAs (Decidable (∀ op ∈ (s.locals e.1).lockingRead e.2, _))

variable {now : Time} {row : Workstation} {set : Workstation → Workstation} {s : State}

/-- A resume leaves no power state of a deletion behind. -/
theorem ensureWorkstationRunning_honest (h : ensureWorkstationRunning now row = .update set) :
    Honest (set row) := by
  unfold ensureWorkstationRunning at h
  split_ifs at h with hdesired hpower
  intro hending
  exfalso
  unfold claimExistingWorkstation at h
  split at h
  case h_1 | h_2 => cases h
  case h_3 hstate | h_4 hstate | h_5 hstate =>
    cases h
    simp [setResumed, hstate, PowerState.Ending] at hending
  case h_6 hstate | h_7 hstate =>
    split_ifs at h
    cases h
    exact hpower hending

/-- A change of the desired power state sets the power state of a deletion only
together with the mark. -/
theorem updateWorkstationDesiredPowerState_honest {desired : Input DesiredPowerState}
    (h : updateWorkstationDesiredPowerState now desired row = .update set) : Honest (set row) := by
  unfold updateWorkstationDesiredPowerState at h
  split_ifs at h with hpower
  split at h
  next => cases h
  next desired =>
    cases h
    intro hending
    cases desired with
    | deleted => rfl
    | running | stopped =>
      simp only [nextPowerState, PowerState.Ending] at hending
      split_ifs at hending
      · simp at hending
      · exact absurd hending hpower

/-- Every warranted operation leaves an honest row behind. -/
theorem RowOp.decision_honest {op : RowOp} (hwarranted : op.Warranted row)
    (h : op.decision now row = .update set) : Honest (set row) := by
  cases op with
  | ensureRunning => exact ensureWorkstationRunning_honest h
  | setDesired => exact updateWorkstationDesiredPowerState_honest h
  | reportStatus workerID report =>
    simp only [decision, updateWorkstationStatus] at h
    split_ifs at h with hworker hdelete hdesired
    · cases h
      exact fun _ => hdesired
    · split at h
      next => cases h
      next powerState hreport =>
        cases h
        intro hending
        refine hwarranted ?_ (not_not.mp hworker)
        rwa [hreport, Input.value.injEq, Input.value.injEq]

/-- What a transaction is about to write is honest. -/
def Transaction.Honest : Transaction → Prop
  | .claim _ _ (.inserted new) => Fleet.Honest new
  | .row op (.locked old _) => op.Warranted old
  | .row _ (.written (.put new) _) => Fleet.Honest new
  | _ => True

/-- The rows of the table are honest. -/
def Shared.Honest (sh : Shared) : Prop := ∀ w ∈ sh.db.workstations, Fleet.Honest w

section Statements

variable {server : Server} {tx : ℕ} {sh sh' : Shared}

/-- A claim inserts honest rows. -/
theorem Server.claimWorkstation_honest {memberID preferredWorkerID : String}
    {phase phase' : ClaimPhase} {action : ClaimAction} (hrows : sh.Honest)
    (h : (Transaction.claim memberID preferredWorkerID phase).Honest)
    (hact : server.claimWorkstation sh tx memberID preferredWorkerID phase action =
      some (sh', phase')) :
    sh'.Honest ∧ (Transaction.claim memberID preferredWorkerID phase').Honest := by
  cases claims_of_claimWorkstation hact with
  | insert _ hrow =>
    refine ⟨hrows, fun hending => ?_⟩
    simp [← hrow, newWorkstation, PowerState.Ending] at hending
  | commit =>
    refine ⟨fun w hw => ?_, trivial⟩
    rcases List.mem_append.mp hw with hold | hnew
    · exact hrows w hold
    · rw [List.mem_singleton.mp hnew]
      exact h
  | _ => exact ⟨hrows, trivial⟩

/-- A row operation whose locking read is warranted writes honest rows. -/
theorem rowOperation_honest {op : RowOp} {phase phase' : RowPhase} {action : RowAction}
    (hok : sh.Ok) (hholds : phase.Holds sh tx op) (hrows : sh.Honest)
    (h : (Transaction.row op phase).Honest)
    (hread : ∀ op' ∈ (Transaction.row op phase).lockingRead (.row action),
      ∀ row ∈ sh.db.workstations, row.id = op'.workstationID → op'.Warranted row)
    (hact : rowOperation sh tx op phase action = some (sh', phase')) :
    sh'.Honest ∧ (Transaction.row op phase').Honest := by
  cases executes_of_rowOperation hact with
  | lock hrow _ =>
    exact ⟨hrows, hread op rfl _ (List.mem_of_find?_eq_some hrow)
      (RowOp.id_of_selects (List.find?_some hrow))⟩
  | put hset hcurrent =>
    rw [Shared.Decides.current hholds hok.ids hcurrent]
    exact ⟨hrows, RowOp.decision_honest h hset⟩
  | commitPut =>
    refine ⟨fun w hw => ?_, trivial⟩
    obtain ⟨old, hold, rfl⟩ := Tables.mem_update.mp hw
    split_ifs
    · exact h
    · exact hrows old hold
  | commitRemove => exact ⟨fun w hw => hrows w (Tables.mem_delete.mp hw).1, trivial⟩
  | _ => exact ⟨hrows, trivial⟩

/-- A hostname assignment leaves the workstations alone. -/
theorem Server.assignHostname_workstations {hardwareUUID : String} {phase phase' : HostnamePhase}
    {action : HostnameAction}
    (hact : server.assignHostname sh tx hardwareUUID phase action = some (sh', phase')) :
    sh'.db.workstations = sh.db.workstations := by
  unfold Server.assignHostname at hact
  split at hact
  case h_1 => split_ifs at hact; cases hact; rfl
  case h_2 | h_3 | h_4 => split at hact <;> cases hact <;> rfl
  all_goals cases hact <;> rfl

/-- Every statement that meets the condition keeps the rows honest. -/
theorem Server.act_honest {t t' : Transaction} {action : Action} (hok : sh.Ok)
    (hholds : t.Holds sh tx) (hrows : sh.Honest) (h : t.Honest)
    (hread : ∀ op ∈ t.lockingRead action, ∀ row ∈ sh.db.workstations,
      row.id = op.workstationID → op.Warranted row)
    (hact : server.act sh tx t action = some (sh', t')) : sh'.Honest ∧ t'.Honest := by
  unfold Server.act at hact
  split at hact
  case h_1 | h_2 | h_3 => cases hact; exact ⟨hrows, trivial⟩
  case h_4 =>
    split_ifs at hact
    obtain ⟨workers, _, heq⟩ := Option.map_eq_some_iff.mp hact
    cases heq
    exact ⟨hrows, trivial⟩
  case h_5 =>
    split_ifs at hact
    cases hact
    exact ⟨hrows, trivial⟩
  case h_6 =>
    obtain ⟨r, hr, heq⟩ := Option.map_eq_some_iff.mp hact
    cases heq
    exact claimWorkstation_honest hrows h hr
  case h_7 =>
    obtain ⟨r, hr, heq⟩ := Option.map_eq_some_iff.mp hact
    cases heq
    exact rowOperation_honest hok hholds hrows h hread hr
  case h_8 =>
    obtain ⟨r, hr, heq⟩ := Option.map_eq_some_iff.mp hact
    cases heq
    refine ⟨fun w hw => hrows w ?_, trivial⟩
    rwa [← assignHostname_workstations hr]
  case h_9 => cases hact

end Statements

/-- In every run with warranted reports the rows are honest. -/
theorem Server.honest_of_reachable (server : Server)
    (h : server.system.ReachableUnder WarrantedReads s) :
    s.shared.Honest ∧ ∀ tx, (s.locals tx).Honest := by
  refine System.ReachableUnder.invariant
    (P := fun s => s.shared.Honest ∧ ∀ tx, (s.locals tx).Honest) ?_ ?_ h
  · rintro s rfl
    exact ⟨by simp [Shared.Honest, State.initial, Shared.empty], fun _ => trivial⟩
  · rintro s ⟨tx, action⟩ t hreach hread hnext ⟨hrows, hlocals⟩
    obtain ⟨hok, hholds⟩ := server.holds_of_reachable hreach.reachable
    obtain ⟨sh, l, hact, rfl⟩ := Program.step_eq_some.mp hnext
    obtain ⟨hrows', hl⟩ := act_honest hok (hholds tx) hrows (hlocals tx) hread hact
    refine ⟨hrows', fun other => ?_⟩
    by_cases hother : other = tx
    · subst hother
      simpa using hl
    · simpa [Function.update_of_ne hother] using hlocals other

/-- The row that a member's release leaves behind. -/
def markedForDeletion (now : Time) (row : Workstation) : Workstation :=
  { row with desiredPowerState := .deleted, powerState := .deleting, updatedAt := now }

/-- A release marks a row whose power state is not that of a deletion. -/
theorem updateWorkstationDesiredPowerState_deleted (h : ¬row.powerState.Ending) :
    updateWorkstationDesiredPowerState now (.value .deleted) row =
      .update (markedForDeletion now) :=
  if_neg h

/-- A release that has locked a row is refused exactly by the power state of the row. -/
theorem Server.write_refused_iff {server : Server} {s t : State} {tx : ℕ} {memberID id : String}
    (hlocal : s.locals tx = .row (.setDesired memberID id (.value .deleted)) (.locked row now))
    (hnext : server.system.next s (tx, .row .write) t) :
    t.locals tx = .row (.setDesired memberID id (.value .deleted)) (.finished .beingDeleted) ↔
      row.powerState.Ending := by
  obtain ⟨sh, l, hact, rfl⟩ := Program.step_eq_some.mp hnext
  simp only [Function.update_self]
  rw [hlocal] at hact
  obtain ⟨r, hr, heq⟩ := Option.map_eq_some_iff.mp hact
  cases heq
  by_cases hending : row.powerState.Ending
  · have hdecision : RowOp.decision (.setDesired memberID id (.value .deleted)) now row =
        .answer .beingDeleted := if_pos hending
    simp only [rowOperation, hdecision] at hr
    cases hr
    exact iff_of_true rfl hending
  · have hdecision : RowOp.decision (.setDesired memberID id (.value .deleted)) now row =
        .update (markedForDeletion now) := updateWorkstationDesiredPowerState_deleted hending
    simp only [rowOperation, hdecision] at hr
    refine iff_of_false (fun hfinished => ?_) hending
    split at hr <;> cases hr <;> cases hfinished

/-- In every run in which workers report deletions of marked rows only, a release
of a row that is not marked succeeds: alone it marks the row and answers with
it, and among other transactions it is refused exactly when the row that it has
locked is marked. -/
theorem Server.release_succeeds (server : Server) {s : State}
    (h : server.system.ReachableUnder WarrantedReads s) :
    (∀ w ∈ s.shared.db.workstations, w.desiredPowerState ≠ .deleted → ∀ now,
      let release := RowOp.setDesired w.memberID w.id (.value .deleted)
      let marked := markedForDeletion now w
      (release.perform now s.shared.db).2 = .workstation marked ∧
      marked ∈ (release.perform now s.shared.db).1.workstations ∧
      ∀ tx, s.locals tx = .idle → s.shared.rowLocks w.id = none →
        ∃ t, server.system.Leads s t ∧
          s.RanAlone t tx (release.perform now s.shared.db).1
            (.row release (.finished (.workstation marked)))) ∧
    (∀ tx memberID id row now t,
      s.locals tx = .row (.setDesired memberID id (.value .deleted)) (.locked row now) →
      server.system.next s (tx, .row .write) t →
      row ∈ s.shared.db.workstations ∧
      (t.locals tx = .row (.setDesired memberID id (.value .deleted)) (.finished .beingDeleted) ↔
        row.desiredPowerState = .deleted)) := by
  obtain ⟨hok, hholds⟩ := server.holds_of_reachable h.reachable
  obtain ⟨hrows, hlocals⟩ := server.honest_of_reachable h
  refine ⟨fun w hw hdesired now => ?_, fun tx memberID id row now t hlocal hnext => ?_⟩
  · have hending : ¬w.powerState.Ending := fun hending => hdesired (hrows w hw hending)
    have hperform := RowOp.perform_of_mem (.setDesired w.memberID w.id (.value .deleted))
      hok.ids hw (by simp [RowOp.selects]) now
    rw [RowOp.decision, updateWorkstationDesiredPowerState_deleted hending] at hperform
    refine ⟨by rw [hperform]; rfl, ?_, fun tx hidle hlock => ?_⟩
    · rw [hperform]
      exact Tables.mem_update_of_mem hw rfl
    · have hleads := server.perform_leads (.setDesired w.memberID w.id (.value .deleted)) now
        hidle hlock
      rw [hperform] at hleads ⊢
      exact hleads
  · have hlocked := hholds tx
    rw [hlocal] at hlocked
    have hrow : row ∈ s.shared.db.workstations := hlocked.2.1
    rw [write_refused_iff hlocal hnext]
    exact ⟨hrow, hrows row hrow, fun hdesired => .inl (hok.marked row hrow hdesired)⟩

/-- A member claims a workstation, its worker reports it as running, and then the
given power state. -/
def reportedWorkstation (powerState : PowerState) : List (ℕ × Action) :=
  [(0, .register 100 ⟨"w", "mac-1", "uuid", 8, 16, "2", "1", 1, "base"⟩),
   (0, .updateWorker 110 "w" .heartbeat), (1, .beginClaim "alice" ""),
   (1, .claim .lock), (1, .claim (.listWorkers 120)), (1, .claim .listSlots),
   (1, .claim (.insert 120 "id-1")), (1, .claim .commit),
   (2, .beginRow (.reportStatus "w" ⟨"id-1", .value .running, "10.0.0.1", ""⟩)),
   (2, .row (.selectForUpdate 130)), (2, .row .write), (2, .row .commit),
   (3, .beginRow (.reportStatus "w" ⟨"id-1", .value powerState, "", ""⟩)),
   (3, .row (.selectForUpdate 140)), (3, .row .write), (3, .row .commit)]

/-- A stopped workstation is released. -/
theorem release_succeeds_stopped : ∃ s : State,
    plainServer.system.ReachableUnder WarrantedReads s ∧
    ∃ w ∈ s.shared.db.workstations, w.powerState = .stopped ∧
      ((RowOp.setDesired w.memberID w.id (.value .deleted)).perform 150 s.shared.db).2 =
        .workstation (markedForDeletion 150 w) := by
  have hrun : ∃ s, runEvents
      (fun s e => if WarrantedReads s e then plainServer.program.step s e else none)
      State.initial (reportedWorkstation .stopped) = some s ∧
      ∃ w ∈ s.shared.db.workstations, w.powerState = .stopped ∧ w.desiredPowerState = .running :=
    ⟨_, rfl, _, List.mem_singleton_self _, rfl, rfl⟩
  obtain ⟨s, hs, w, hw, hstopped, hdesired⟩ := hrun
  have hreach : plainServer.system.ReachableUnder WarrantedReads s :=
    reachableUnder_of_runEvents rfl hs
  have hrelease := (plainServer.release_succeeds hreach).1 w hw (by simp [hdesired]) 150
  exact ⟨s, hreach, w, hw, hstopped, hrelease.1⟩

/-- After a report `deleting` about a row that nobody has released, its owner is
told that the workstation is being deleted. -/
theorem release_refused_unmarked : ¬∀ s : State, plainServer.system.Reachable s →
    ∀ w ∈ s.shared.db.workstations, w.desiredPowerState ≠ .deleted → ∀ now,
      ((RowOp.setDesired w.memberID w.id (.value .deleted)).perform now s.shared.db).2 ≠
        .beingDeleted := by
  have hrun : ∃ s, runEvents plainServer.program.step State.initial
      (reportedWorkstation .deleting) = some s ∧
      ∃ w ∈ s.shared.db.workstations, w.desiredPowerState = .running ∧
        ((RowOp.setDesired w.memberID w.id (.value .deleted)).perform 150 s.shared.db).2 =
          .beingDeleted :=
    ⟨_, rfl, _, List.mem_singleton_self _, rfl, rfl⟩
  obtain ⟨s, hs, w, hw, hdesired, hrefused⟩ := hrun
  intro hclaim
  exact hclaim s (reachable_of_runEvents rfl hs) w hw (by simp [hdesired]) 150 hrefused

end MiniControl.Fleet
