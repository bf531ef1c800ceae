import MiniControl.Fleet.Isolation

/-!
# Transactions that run alone

A transaction that no other client disturbs is a function of the committed tables.
This file has these functions for the operations on one workstation and for claims,
and shows that each of them is a run of the interleaved system: what they do from a
reachable state leads to a reachable state.
-/

namespace MiniControl.Fleet

open Transition

/-- A row operation from its locking read to its commit. -/
def RowOp.perform (op : RowOp) (now : Time) (db : Database) : Database × RowReply :=
  match db.workstations.find? op.selects with
  | none => (db, op.missing)
  | some row =>
    match op.decision now row with
    | .answer reply => (db, reply)
    | .update set =>
      match db.workstations.find? (·.id = op.workstationID) with
      | none => (db, .notFound)
      | some current =>
        let rows :=
          Tables.update Workstation.id op.workstationID (fun _ => set current) db.workstations
        ({ db with workstations := rows }, op.updated (set current))
    | .delete =>
      let rows := Tables.delete Workstation.id op.workstationID db.workstations
      ({ db with workstations := rows }, .done)

/-- `ClaimWorkstation` from its lock to its commit, with the time of the server, that of
the database, and the generated id. -/
def Server.claim (server : Server) (memberID preferredWorkerID : String) (listed now : Time)
    (id : String) (db : Database) : Database × ClaimReply :=
  let workers := listSchedulableWorkers server.collate (listed - schedulableHeartbeatWindow)
    db.workers
  if workers = [] then (db, .refused .noActiveWorkers)
  else
    match selectWorkstationCandidate workers (listAllocatedSlots db.workstations)
        preferredWorkerID with
    | .error error => (db, .refused error)
    | .ok candidate =>
      let row := newWorkstation now id memberID candidate
      if db.workstations.any fun old => old.workerID = row.workerID && old.slot = row.slot then
        (db, .duplicateSlot)
      else ({ db with workstations := db.workstations ++ [row] }, .claimed row)

/-- The effect of a decision about the given row. -/
def RowOp.carryOut (op : RowOp) (row : Workstation) (db : Database) :
    Decision → Database × RowReply
  | .answer reply => (db, reply)
  | .update set =>
    let rows := Tables.update Workstation.id op.workstationID (fun _ => set row) db.workstations
    ({ db with workstations := rows }, op.updated (set row))
  | .delete =>
    let rows := Tables.delete Workstation.id op.workstationID db.workstations
    ({ db with workstations := rows }, .done)

/-- A row operation that selects no row changes nothing. -/
theorem RowOp.perform_of_forall_not (op : RowOp) {db : Database}
    (h : ∀ w ∈ db.workstations, ¬op.selects w = true) (now : Time) :
    op.perform now db = (db, op.missing) := by
  have hfind : db.workstations.find? op.selects = none := by simpa using h
  rw [RowOp.perform, hfind]

/-- A row operation alone carries out its decision about the row that it selects. -/
theorem RowOp.perform_of_mem (op : RowOp) {db : Database}
    (hids : (db.workstations.map Workstation.id).Nodup) {w : Workstation}
    (hw : w ∈ db.workstations) (hselects : op.selects w = true) (now : Time) :
    op.perform now db = op.carryOut w db (op.decision now w) := by
  have hid := RowOp.id_of_selects hselects
  have hfind : db.workstations.find? op.selects = some w :=
    Tables.find?_eq_some hids hw hselects fun _ _ h => (RowOp.id_of_selects h).trans hid.symm
  have hcurrent : db.workstations.find? (·.id = op.workstationID) = some w :=
    Tables.find?_eq_some hids hw (by simpa using hid) fun _ _ h => by simpa [hid] using h
  rw [RowOp.perform, hfind]
  cases hdecision : op.decision now w with
  | answer reply => simp only [RowOp.carryOut, hdecision]
  | update set => simp only [RowOp.carryOut, hdecision, hcurrent]
  | delete => simp only [RowOp.carryOut, hdecision]

/-- The transaction `tx` has finished, and nothing but the committed tables and the list
of generated ids differs from the state before. -/
structure State.RanAlone (s t : State) (tx : ℕ) (db : Database) (finished : Transaction) :
    Prop where
  db : t.shared.db = db
  rowLocks : t.shared.rowLocks = s.shared.rowLocks
  allocationLock : t.shared.allocationLock = s.shared.allocationLock
  uncommitted : t.shared.uncommitted = s.shared.uncommitted
  locals : t.locals = Function.update s.locals tx finished

variable {server : Server} {s : State} {tx : ℕ}

/-- The actions of one client, one after another. -/
theorem Server.leads_act {sh sh' : Shared} {l l' : Transaction} (action : Action)
    (hrun : server.system.Leads s ⟨sh, Function.update s.locals tx l⟩)
    (hact : server.act sh tx l action = some (sh', l')) :
    server.system.Leads s ⟨sh', Function.update s.locals tx l'⟩ := by
  refine hrun.next (e := (tx, action)) (Program.step_eq_some.mpr ⟨sh', l', ?_, ?_⟩)
  · change server.act sh tx (Function.update s.locals tx l tx) action = _
    rwa [Function.update_self]
  · rw [Function.update_idem]

/-- A lock that is taken and given back is free as before. -/
theorem Shared.rowLocks_setRowLock_none (sh : Shared) {id : String} (h : sh.rowLocks id = none)
    (holder : Option ℕ) :
    Function.update (Function.update sh.rowLocks id holder) id none = sh.rowLocks := by
  rw [Function.update_idem, ← h, Function.update_eq_self]

/-- A row operation that runs alone is a run of the system. -/
theorem Server.perform_leads (op : RowOp) (now : Time) (hidle : s.locals tx = .idle)
    (hlock : s.shared.rowLocks op.workstationID = none) :
    ∃ t, server.system.Leads s t ∧ s.RanAlone t tx (op.perform now s.shared.db).1
      (.row op (.finished (op.perform now s.shared.db).2)) := by
  have hstart : server.system.Leads s
      ⟨s.shared, Function.update s.locals tx (.row op .begun)⟩ := by
    refine leads_act (l := .idle) (.beginRow op) ?_ rfl
    rw [← hidle, Function.update_eq_self]
    exact .refl s
  have hfree := s.shared.rowLocks_setRowLock_none hlock (some tx)
  unfold RowOp.perform
  cases hfind : s.shared.db.workstations.find? op.selects with
  | none =>
    have hselect := leads_act (.row (.selectForUpdate now)) hstart
      (by simp [Server.act, rowOperation, hfind]; exact ⟨rfl, rfl⟩)
    exact ⟨_, hselect, rfl, rfl, rfl, rfl, rfl⟩
  | some row =>
    have hselect := leads_act (.row (.selectForUpdate now)) hstart
      (by simp [Server.act, rowOperation, hfind, hlock]; exact ⟨rfl, rfl⟩)
    dsimp only
    cases hdecision : op.decision now row with
    | answer reply =>
      have hanswer := leads_act (.row .write) hselect
        (by simp [Server.act, rowOperation, hdecision]; exact ⟨rfl, rfl⟩)
      exact ⟨_, hanswer, rfl, hfree, rfl, rfl, rfl⟩
    | delete =>
      have hwrite := leads_act (.row .write) hselect
        (by simp [Server.act, rowOperation, hdecision]; exact ⟨rfl, rfl⟩)
      have hcommit := leads_act (.row .commit) hwrite rfl
      exact ⟨_, hcommit, rfl, hfree, rfl, rfl, rfl⟩
    | update set =>
      cases hcurrent : s.shared.db.workstations.find? (·.id = op.workstationID) with
      | none =>
        have hwrite := leads_act (.row .write) hselect
          (by
            simp [Server.act, rowOperation, hdecision, Shared.setRowLock, hcurrent]
            exact ⟨rfl, rfl⟩)
        exact ⟨_, hwrite, rfl, by simpa using hfree, rfl, rfl, rfl⟩
      | some current =>
        have hwrite := leads_act (.row .write) hselect
          (by
            simp [Server.act, rowOperation, hdecision, Shared.setRowLock, hcurrent]
            exact ⟨rfl, rfl⟩)
        have hcommit := leads_act (.row .commit) hwrite rfl
        exact ⟨_, hcommit, rfl, hfree, rfl, rfl, rfl⟩

/-- A claim that runs alone is a run of the system. -/
theorem Server.claim_leads (memberID preferredWorkerID : String) (listed now : Time) {id : String}
    (hidle : s.locals tx = .idle) (hlock : s.shared.allocationLock = none)
    (huncommitted : s.shared.uncommitted = []) (hfresh : s.shared.FreshID id) :
    ∃ t, server.system.Leads s t ∧ s.RanAlone t tx
      (server.claim memberID preferredWorkerID listed now id s.shared.db).1
      (.claim memberID preferredWorkerID
        (.finished (server.claim memberID preferredWorkerID listed now id s.shared.db).2)) := by
  have hstart : server.system.Leads s
      ⟨s.shared, Function.update s.locals tx (.claim memberID preferredWorkerID .waiting)⟩ := by
    refine leads_act (l := .idle) (.beginClaim memberID preferredWorkerID) ?_ rfl
    rw [← hidle, Function.update_eq_self]
    exact .refl s
  have hlocked := leads_act (.claim .lock) hstart
    (by simp [Server.act, Server.claimWorkstation, hlock]; exact ⟨rfl, rfl⟩)
  unfold Server.claim
  by_cases hworkers : listSchedulableWorkers server.collate (listed - schedulableHeartbeatWindow)
      s.shared.db.workers = []
  · have hrefused := leads_act (.claim (.listWorkers listed)) hlocked
      (by simp [Server.act, Server.claimWorkstation, hworkers]; exact ⟨rfl, rfl⟩)
    simp only [hworkers, if_true]
    exact ⟨_, hrefused, rfl, rfl, hlock.symm, rfl, rfl⟩
  · have hlisted := leads_act (.claim (.listWorkers listed)) hlocked
      (by simp [Server.act, Server.claimWorkstation, hworkers]; exact ⟨rfl, rfl⟩)
    simp only [hworkers, if_false]
    cases hselect : selectWorkstationCandidate (listSchedulableWorkers server.collate
        (listed - schedulableHeartbeatWindow) s.shared.db.workers)
        (listAllocatedSlots s.shared.db.workstations) preferredWorkerID with
    | error error =>
      have hrefused := leads_act (.claim .listSlots) hlisted
        (by simp [Server.act, Server.claimWorkstation, hselect]; exact ⟨rfl, rfl⟩)
      exact ⟨_, hrefused, rfl, rfl, hlock.symm, rfl, rfl⟩
    | ok candidate =>
      have hchosen := leads_act (.claim .listSlots) hlisted
        (by simp [Server.act, Server.claimWorkstation, hselect]; exact ⟨rfl, rfl⟩)
      have hfresh' : ({ s.shared with allocationLock := some tx }).FreshID id := hfresh
      dsimp only
      split_ifs with hconflict
      · have hduplicate := leads_act (.claim (.insert now id)) hchosen (by
          simp only [Server.act, Server.claimWorkstation]
          rw [if_pos hfresh', if_pos hconflict]
          exact rfl)
        exact ⟨_, hduplicate, rfl, rfl, hlock.symm, rfl, rfl⟩
      · have hinserted := leads_act (.claim (.insert now id)) hchosen (by
          simp only [Server.act, Server.claimWorkstation]
          rw [if_pos hfresh', if_neg hconflict, if_neg (by simp [huncommitted])]
          exact rfl)
        have hcommitted := leads_act (.claim .commit) hinserted rfl
        exact ⟨_, hcommitted, rfl, rfl, hlock.symm, by simp, rfl⟩

end MiniControl.Fleet
