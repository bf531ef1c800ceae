import MiniControl.Fleet.Alone

/-!
# What an operation on one workstation may touch

An operation selects its row and decides what to do with it, so what it may write is
known from its arguments: a member's operation stays among the rows of the member, a
report among those of the worker. The same holds of every statement of the operation
among other transactions, since what it has written stems from the row that it locked.
-/

namespace MiniControl.Fleet

open Transition Tables

/-- Whenever the operation changes a row that it selects, the row meets `P`, before and
after. -/
def RowOp.ConfinedTo (op : RowOp) (P : Workstation → Prop) : Prop :=
  ∀ now row, op.selects row = true →
    (∀ set, op.decision now row = .update set → P row ∧ P (set row)) ∧
      (op.decision now row = .delete → P row)

/-- The member on whose behalf an operation runs. -/
def RowOp.memberID? : RowOp → Option String
  | .ensureRunning memberID _ => some memberID
  | .setDesired memberID _ _ => some memberID
  | .reportStatus _ _ => none

variable {op : RowOp} {memberID : String} {row : Workstation}

/-- A member's operation selects rows of the member. -/
theorem RowOp.memberID_of_selects (h : op.memberID? = some memberID)
    (hselects : op.selects row = true) :
    row.memberID = memberID := by
  cases op with
  | reportStatus => cases h
  | ensureRunning | setDesired =>
    cases h
    simp only [selects, Bool.and_eq_true, decide_eq_true_eq] at hselects
    exact hselects.1

/-- A member's operation stays among the rows of the member. -/
theorem RowOp.confinedTo_member (h : op.memberID? = some memberID) :
    op.ConfinedTo (·.memberID = memberID) := by
  intro now row hselects
  have hmember := memberID_of_selects h hselects
  exact ⟨fun set hset => ⟨hmember, (decision_update hset).memberID.trans hmember⟩,
    fun _ => hmember⟩

/-- A report stays among the rows of its worker. -/
theorem RowOp.confinedTo_worker (workerID : String) (report : StatusReport) :
    (RowOp.reportStatus workerID report).ConfinedTo (·.workerID = workerID) := by
  intro now row _
  have hown : (∃ reply, updateWorkstationStatus now workerID report row = .answer reply) ∨
      row.workerID = workerID := by
    by_cases hforeign : row.workerID ≠ workerID
    · exact .inl ⟨_, if_pos hforeign⟩
    · exact .inr (not_not.mp hforeign)
  refine ⟨fun set hset => ?_, fun hdelete => ?_⟩
  · rcases hown with ⟨reply, hreply⟩ | howner
    · cases hreply.symm.trans hset
    · exact ⟨howner, (decision_update hset).workerID.trans howner⟩
  · rcases hown with ⟨reply, hreply⟩ | howner
    · cases hreply.symm.trans hdelete
    · exact howner

/-- An operation that answers with a row without an update answers with the one it read. -/
theorem RowOp.decision_workstation {now : Time} {row row' : Workstation}
    (h : op.decision now row = .answer (.workstation row')) : row' = row := by
  cases op with
  | ensureRunning memberID id =>
    simp only [decision, ensureWorkstationRunning] at h
    split_ifs at h
    · cases h
      rfl
    · cases h
      rfl
    · unfold claimExistingWorkstation at h
      split at h
      case h_1 | h_2 | h_3 | h_4 | h_5 => cases h
      case h_6 | h_7 =>
        split_ifs at h
        cases h
        rfl
  | setDesired memberID id desired =>
    simp only [decision, updateWorkstationDesiredPowerState] at h
    split_ifs at h
    · cases h
    · split at h <;> cases h
  | reportStatus workerID report =>
    simp only [decision, updateWorkstationStatus] at h
    split_ifs at h
    · cases h
    · split at h <;> cases h

section Alone

variable {op : RowOp} {db : Database} {P : Workstation → Prop} {memberID : String}

/-- An operation that runs alone selects no row, or carries out its decision about one. -/
theorem RowOp.perform_cases (op : RowOp) (now : Time)
    (hids : (db.workstations.map Workstation.id).Nodup) :
    (op.perform now db = (db, op.missing) ∧ ∀ row ∈ db.workstations, ¬op.selects row = true) ∨
      ∃ row ∈ db.workstations, op.selects row = true ∧
        op.perform now db = op.carryOut row db (op.decision now row) := by
  by_cases hfound : ∃ row ∈ db.workstations, op.selects row = true
  · obtain ⟨row, hrow, hselects⟩ := hfound
    exact .inr ⟨row, hrow, hselects, op.perform_of_mem hids hrow hselects now⟩
  · have hnone : ∀ row ∈ db.workstations, ¬op.selects row = true :=
      fun row hrow hselects => hfound ⟨row, hrow, hselects⟩
    exact .inl ⟨op.perform_of_forall_not hnone now, hnone⟩

/-- An operation that runs alone leaves the rows to which it is not confined. -/
theorem RowOp.ConfinedTo.perform (h : op.ConfinedTo P) (now : Time)
    (hids : (db.workstations.map Workstation.id).Nodup) :
    AgreeOn (¬P ·) db.workstations (op.perform now db).1.workstations := by
  rcases op.perform_cases now hids with ⟨hperform, _⟩ | ⟨row, hrow, hselects, hperform⟩
  · rw [hperform]
    exact .refl _ _
  · rw [hperform]
    obtain ⟨hupdate, hdelete⟩ := h now row hselects
    cases hdecision : op.decision now row with
    | answer reply => exact .refl _ _
    | update set =>
      obtain ⟨hold, hnew⟩ := hupdate set hdecision
      simp only [carryOut, ← id_of_selects hselects]
      exact agreeOn_update hids hrow (not_not.mpr hold) (not_not.mpr hnew)
    | delete =>
      simp only [carryOut, ← id_of_selects hselects]
      exact agreeOn_delete hids hrow (not_not.mpr (hdelete hdecision))

/-- Values of a column that describes the place of a row stay distinct. -/
theorem RowOp.nodup_perform (op : RowOp) (now : Time) {β : Type} {column : Workstation → β}
    (hids : (db.workstations.map Workstation.id).Nodup)
    (hplace : ∀ old new, SamePlace old new → column new = column old)
    (hnodup : (db.workstations.map column).Nodup) :
    ((op.perform now db).1.workstations.map column).Nodup := by
  rcases op.perform_cases now hids with ⟨hperform, _⟩ | ⟨row, hrow, hselects, hperform⟩
  · rw [hperform]
    exact hnodup
  · rw [hperform]
    cases hdecision : op.decision now row with
    | answer reply => exact hnodup
    | update set =>
      simp only [carryOut, ← id_of_selects hselects]
      rw [map_update]
      · exact hnodup
      · intro other hother hkey
        rw [List.inj_on_of_nodup_map hids hother hrow hkey]
        exact hplace _ _ (decision_update hdecision).toSamePlace
    | delete => exact nodup_map_delete hnodup

/-- The row that a member's operation returns is one of the member, as it is then. -/
theorem RowOp.workstation_of_perform (hop : op.memberID? = some memberID) (now : Time)
    (hids : (db.workstations.map Workstation.id).Nodup) {row : Workstation}
    (h : (op.perform now db).2 = .workstation row) :
    row ∈ (op.perform now db).1.workstations ∧ row.memberID = memberID := by
  rcases op.perform_cases now hids with ⟨hperform, _⟩ | ⟨old, hold, hselects, hperform⟩
  · rw [hperform] at h
    cases op <;> cases h
  · rw [hperform] at h ⊢
    have hmember := memberID_of_selects hop hselects
    cases hdecision : op.decision now old with
    | answer reply =>
      rw [hdecision] at h
      cases (show reply = _ from h)
      obtain rfl := decision_workstation hdecision
      exact ⟨hold, hmember⟩
    | update set =>
      rw [hdecision] at h
      have hrow : set old = row := by
        cases op with
        | reportStatus => cases hop
        | ensureRunning | setDesired => exact RowReply.workstation.inj h
      rw [← hrow]
      exact ⟨mem_update_of_mem hold (id_of_selects hselects),
        (decision_update hdecision).memberID.trans hmember⟩
    | delete =>
      rw [hdecision] at h
      cases h

/-- A member's operation does the same in tables that agree on the rows of the member. -/
theorem RowOp.perform_related (hop : op.memberID? = some memberID) (now : Time) {db' : Database}
    (h : AgreeOn (·.memberID = memberID) db.workstations db'.workstations)
    (hids : (db.workstations.map Workstation.id).Nodup)
    (hids' : (db'.workstations.map Workstation.id).Nodup) :
    (op.perform now db).2 = (op.perform now db').2 ∧
      AgreeOn (·.memberID = memberID) (op.perform now db).1.workstations
        (op.perform now db').1.workstations := by
  rcases op.perform_cases now hids with ⟨hperform, hnone⟩ | ⟨row, hrow, hselects, hperform⟩
  · have hnone' : ∀ row ∈ db'.workstations, ¬op.selects row = true := fun row hrow hselects =>
      hnone row ((h row (memberID_of_selects hop hselects)).mp hrow) hselects
    rw [hperform, op.perform_of_forall_not hnone' now]
    exact ⟨rfl, h⟩
  · have hmember := memberID_of_selects hop hselects
    rw [hperform, op.perform_of_mem hids' ((h row hmember).mpr hrow) hselects now]
    cases op.decision now row with
    | answer reply => exact ⟨rfl, h⟩
    | update set =>
      simp only [carryOut, ← id_of_selects hselects]
      exact ⟨trivial, h.both_update hrow hmember⟩
    | delete => exact ⟨rfl, h.both_delete⟩

/-- An operation leaves the workers. -/
theorem RowOp.workers_perform (op : RowOp) (now : Time) (db : Database) :
    (op.perform now db).1.workers = db.workers := by
  unfold RowOp.perform
  split
  · rfl
  · split
    · rfl
    · split <;> rfl
    · rfl

/-- A member's operation that does not answer with a row has changed nothing. -/
theorem RowOp.perform_unchanged {now : Time} (hmember : op.memberID? = some memberID)
    (h : ∀ row, (op.perform now db).2 ≠ .workstation row) : (op.perform now db).1 = db := by
  have hupdated : ∀ row, op.updated row = .workstation row := by
    intro row
    cases op with
    | reportStatus => cases hmember
    | ensureRunning | setDesired => rfl
  unfold RowOp.perform at h ⊢
  split
  next => rfl
  next row hrow =>
    rw [hrow] at h
    dsimp only at h
    split
    next => rfl
    next set hset =>
      rw [hset] at h
      dsimp only at h
      split
      next => rfl
      next current hcurrent =>
        rw [hcurrent] at h
        exact absurd (hupdated _) (h _)
    next hdelete =>
      obtain ⟨_, report, _, rfl⟩ := decision_delete hdelete
      cases hmember

/-- A claim that runs alone changes nothing, or adds the row that it answers with. -/
theorem Server.claim_cases (server : Server) (memberID preferredWorkerID : String)
    (listed now : Time) (id : String) (db : Database) :
    ((server.claim memberID preferredWorkerID listed now id db).1 = db ∧
        ∀ row, (server.claim memberID preferredWorkerID listed now id db).2 ≠ .claimed row) ∨
      ∃ row, row.memberID = memberID ∧ row.id = id ∧
        server.claim memberID preferredWorkerID listed now id db =
          ({ db with workstations := db.workstations ++ [row] }, .claimed row) := by
  unfold Server.claim
  dsimp only
  split_ifs
  · exact .inl ⟨rfl, by simp⟩
  · split
    next => exact .inl ⟨rfl, by simp⟩
    next candidate _ =>
      split_ifs
      · exact .inl ⟨rfl, by simp⟩
      · exact .inr ⟨newWorkstation now id memberID candidate, rfl, rfl, rfl⟩

end Alone

/-- The row operation has locked a row that it selects. -/
def Shared.Selected (sh : Shared) (tx : ℕ) (op : RowOp) (row : Workstation) : Prop :=
  sh.Decides tx op row ∧ op.selects row = true

/-- What a row operation has written stems from a decision about the row that it locked. -/
def RowPhase.Traced (sh : Shared) (tx : ℕ) (op : RowOp) : RowPhase → Prop
  | .locked row _ => sh.Selected tx op row
  | .written (.put new) _ => ∃ row now set, sh.Selected tx op row ∧
      op.decision now row = .update set ∧ new = set row
  | .written .remove _ => ∃ row now, sh.Selected tx op row ∧ op.decision now row = .delete
  | _ => True

section Interleaved

variable {server : Server} {sh sh' : Shared} {tx other : ℕ} {t : Transaction} {op : RowOp}
  {phase phase' : RowPhase} {action : RowAction} {s : State} {memberID preferredWorkerID : String}

/-- Other transactions leave the locked row. -/
theorem RowPhase.Traced.frame (h : phase.Traced sh other op) (hne : other ≠ tx)
    (hchange : Change tx t sh sh') : phase.Traced sh' other op := by
  match phase, h with
  | .begun, _ => trivial
  | .locked row now, ⟨hdecides, hselects⟩ => exact ⟨hdecides.frame hne hchange, hselects⟩
  | .written (.put new) reply, ⟨row, now, set, ⟨hdecides, hselects⟩, hnew⟩ =>
    exact ⟨row, now, set, ⟨hdecides.frame hne hchange, hselects⟩, hnew⟩
  | .written .remove reply, ⟨row, now, ⟨hdecides, hselects⟩, hdelete⟩ =>
    exact ⟨row, now, ⟨hdecides.frame hne hchange, hselects⟩, hdelete⟩
  | .finished reply, _ => trivial

/-- Every statement of a row operation keeps track of what it has written. -/
theorem rowOperation_traced (hids : (sh.db.workstations.map Workstation.id).Nodup)
    (h : phase.Traced sh tx op) (hact : rowOperation sh tx op phase action = some (sh', phase')) :
    phase'.Traced sh' tx op := by
  cases executes_of_rowOperation hact with
  | lock hrow _ =>
    have hselects := List.find?_some hrow
    exact ⟨⟨sh.setRowLock_self _ _, List.mem_of_find?_eq_some hrow,
      RowOp.id_of_selects hselects⟩, hselects⟩
  | put hset hcurrent =>
    rw [h.1.current hids hcurrent]
    exact ⟨_, _, _, h, hset, rfl⟩
  | remove hdelete => exact ⟨_, _, h, hdelete⟩
  | _ => trivial

/-- A row operation changes the table when it commits what it has written. -/
theorem rowOperation_rows (hact : rowOperation sh tx op phase action = some (sh', phase')) :
    sh'.db.workstations = sh.db.workstations ∨
      (∃ new reply, phase = .written (.put new) reply ∧ sh'.db.workstations =
        Tables.update Workstation.id op.workstationID (fun _ => new) sh.db.workstations) ∨
      ∃ reply, phase = .written .remove reply ∧ sh'.db.workstations =
        Tables.delete Workstation.id op.workstationID sh.db.workstations := by
  cases executes_of_rowOperation hact with
  | @commitPut new reply => exact .inr (.inl ⟨new, reply, rfl, rfl⟩)
  | @commitRemove reply => exact .inr (.inr ⟨reply, rfl, rfl⟩)
  | _ => exact .inl rfl

/-- In every interleaving, what a row operation has written stems from its decisions. -/
theorem Server.traced_of_reachable (server : Server) (h : server.system.Reachable s)
    (hlocal : s.locals tx = .row op phase) :
    phase.Traced s.shared tx op := by
  have hinv := Program.invariant (p := server.program) (I := Shared.Ok)
    (A := fun sh tx t => t.Holds sh tx ∧ ∀ op phase, t = .row op phase → phase.Traced sh tx op)
    ?_ ?_ ?_ h
  · exact (hinv.2 tx).2 op phase hlocal
  · rintro s rfl
    exact ⟨.empty, fun _ => ⟨trivial, fun _ _ h => by cases h⟩⟩
  · intro s tx action sh t _ hok ⟨hholds, htraced⟩ hact
    obtain ⟨hchange, ht⟩ := server.act_change hok hholds hact
    refine ⟨hok.change hchange, ht, ?_⟩
    rintro op phase rfl
    rcases Server.act_row hact with ⟨before, hbefore⟩ | rfl
    · rw [hbefore] at hact
      cases action with
      | row statement =>
        obtain ⟨⟨_, _⟩, hr, heq⟩ := Option.map_eq_some_iff.mp hact
        cases heq
        exact rowOperation_traced hok.ids (htraced op before hbefore) hr
      | _ => cases hact
    · cases hidle : s.locals tx <;> rw [hidle] at hact <;> cases hact
      trivial
  · intro s tx action sh t other _ hok ⟨hholds, _⟩ hne ⟨hother, htraced⟩ hact
    have hchange := (server.act_change hok hholds hact).1
    exact ⟨hother.frame hok hne hchange,
      fun op phase hphase => (htraced op phase hphase).frame hne hchange⟩

/-- In every interleaving, the statements of an operation leave the rows to which it is not
confined. -/
theorem RowOp.ConfinedTo.step {P : Workstation → Prop} (hop : op.ConfinedTo P) {s t : State}
    (h : server.system.Reachable s) {action : Action} (hlocal : s.locals tx = .row op phase)
    (hnext : server.system.next s (tx, action) t) :
    AgreeOn (¬P ·) s.shared.db.workstations t.shared.db.workstations := by
  have hids := (server.holds_of_reachable h).1.ids
  have htraced := server.traced_of_reachable h hlocal
  obtain ⟨sh, l, hact, rfl⟩ := Program.step_eq_some.mp hnext
  rw [hlocal] at hact
  cases action with
  | row statement =>
    obtain ⟨⟨_, _⟩, hr, heq⟩ := Option.map_eq_some_iff.mp hact
    cases heq
    rcases rowOperation_rows hr with hrows | ⟨new, reply, rfl, hrows⟩ | ⟨reply, rfl, hrows⟩
    · rw [hrows]
      exact .refl _ _
    · obtain ⟨row, now, set, ⟨⟨_, hrow, hid⟩, hselects⟩, hset, rfl⟩ := htraced
      obtain ⟨hold, hnew⟩ := (hop now row hselects).1 set hset
      rw [hrows, ← hid]
      exact agreeOn_update hids hrow (not_not.mpr hold) (not_not.mpr hnew)
    · obtain ⟨row, now, ⟨⟨_, hrow, hid⟩, hselects⟩, hdelete⟩ := htraced
      rw [hrows, ← hid]
      exact agreeOn_delete hids hrow (not_not.mpr ((hop now row hselects).2 hdelete))
  | _ => cases hact

/-- The member on whose behalf a transaction runs. -/
def Transaction.memberID? : Transaction → Option String
  | .claim memberID _ _ => some memberID
  | .row op _ => op.memberID?
  | .idle | .hostname _ _ => none

/-- The row that a claim has inserted is one of its member. -/
def ClaimPhase.InsertsFor (memberID : String) : ClaimPhase → Prop
  | .inserted row => row.memberID = memberID
  | _ => True

/-- Every statement of a claim inserts for its member, and commits what it inserted. -/
theorem Server.claimWorkstation_member {phase phase' : ClaimPhase} {action : ClaimAction}
    (h : phase.InsertsFor memberID)
    (hact : server.claimWorkstation sh tx memberID preferredWorkerID phase action =
      some (sh', phase')) :
    phase'.InsertsFor memberID ∧
      AgreeOn (·.memberID ≠ memberID) sh.db.workstations sh'.db.workstations := by
  cases claims_of_claimWorkstation hact with
  | insert _ hrow => exact ⟨congrArg Workstation.memberID hrow.symm, .refl _ _⟩
  | commit => exact ⟨trivial, agreeOn_append (not_not.mpr h)⟩
  | _ => exact ⟨trivial, .refl _ _⟩

/-- In every interleaving, a claim has inserted a row of its member only. -/
theorem Server.insertsFor_of_reachable (server : Server) (h : server.system.Reachable s)
    {phase : ClaimPhase} (hlocal : s.locals tx = .claim memberID preferredWorkerID phase) :
    phase.InsertsFor memberID := by
  have hinv := Program.invariant (p := server.program) (I := fun _ => True)
    (A := fun _ _ t => ∀ memberID preferredWorkerID phase,
      t = .claim memberID preferredWorkerID phase → phase.InsertsFor memberID) ?_ ?_ ?_ h
  · exact hinv.2 tx _ _ _ hlocal
  · rintro s rfl
    exact ⟨trivial, fun _ _ _ _ h => by cases h⟩
  · intro s tx action sh t _ _ hinserts hact
    refine ⟨trivial, ?_⟩
    rintro memberID preferredWorkerID phase rfl
    rcases eq_or_ne phase .waiting with rfl | hphase
    · trivial
    · obtain ⟨before, statement, hbefore, hstatement⟩ := Server.act_claim hact hphase
      exact (claimWorkstation_member (hinserts _ _ _ hbefore) hstatement).1
  · exact fun _ _ _ _ _ _ _ _ _ _ hinserts _ => hinserts

/-- In every interleaving, the statements of a member leave the rows of other members. -/
theorem Server.step_member (server : Server) {s t : State} (h : server.system.Reachable s)
    {action : Action} (hmember : (s.locals tx).memberID? = some memberID)
    (hnext : server.system.next s (tx, action) t) :
    AgreeOn (·.memberID ≠ memberID) s.shared.db.workstations t.shared.db.workstations := by
  cases hlocal : s.locals tx with
  | idle | hostname => rw [hlocal] at hmember; cases hmember
  | row op phase =>
    rw [hlocal] at hmember
    exact (RowOp.confinedTo_member hmember).step h hlocal hnext
  | claim memberID' preferredWorkerID phase =>
    rw [hlocal] at hmember
    obtain rfl : memberID' = memberID := Option.some.inj hmember
    have hinserts := server.insertsFor_of_reachable h hlocal
    obtain ⟨sh, l, hact, rfl⟩ := Program.step_eq_some.mp hnext
    rw [hlocal] at hact
    cases action with
    | claim statement =>
      obtain ⟨⟨_, _⟩, hr, heq⟩ := Option.map_eq_some_iff.mp hact
      cases heq
      exact (claimWorkstation_member hinserts hr).2
    | _ => cases hact

end Interleaved

end MiniControl.Fleet
