import MiniControl.Fleet.Scheduling
import MiniControl.Fleet.Workers
import MiniControl.Fleet.Workstations
import MiniControl.Transition.Interleaving

/-!
# Interleaved transactions

Every statement of a transaction is a step of its own, and sees the rows that
were committed when it ran. Two advisory locks serialise the claims and the
hostname assignments; a row read with `FOR UPDATE` is locked until its
transaction ends. A statement that has to wait for a lock is not enabled. A
statement that fails ends its transaction in the same step, which frees its
locks earlier than the deferred `Rollback` does and so allows more interleavings.
-/

namespace MiniControl.Fleet

open Transition

/-- What a claim answers to its caller. -/
inductive ClaimReply
  | claimed (row : Workstation)
  | refused (error : ClaimError)
  /-- The `UNIQUE (worker_id, slot)` constraint refused the row. -/
  | duplicateSlot
  | failed
  deriving DecidableEq

/-- The position of a `ClaimWorkstation` transaction. -/
inductive ClaimPhase
  | waiting
  | locked
  | listed (workers : List Worker)
  | chosen (candidate : Candidate)
  | inserted (row : Workstation)
  | finished (reply : ClaimReply)
  deriving DecidableEq

/-- A row version that a row operation has written and not committed. -/
inductive RowWrite
  | put (row : Workstation)
  | remove
  deriving DecidableEq

/-- The position of a transaction on one workstation. -/
inductive RowPhase
  | begun
  | locked (row : Workstation) (now : Time)
  | written (write : RowWrite) (reply : RowReply)
  | finished (reply : RowReply)
  deriving DecidableEq

/-- The position of an `AssignHostname` transaction. -/
inductive HostnamePhase
  | waiting
  | locked
  | unknown
  | numbered (hostname : String)
  | inserted (row : Worker)
  | finished (hostname : Option String)
  deriving DecidableEq

/-- The transactions with their arguments. -/
inductive Transaction
  | idle
  | claim (memberID preferredWorkerID : String) (phase : ClaimPhase)
  | row (op : RowOp) (phase : RowPhase)
  | hostname (hardwareUUID : String) (phase : HostnamePhase)
  deriving DecidableEq

/-- The committed tables, the locks, and the row versions not yet committed. -/
structure Shared where
  db : Database
  allocationLock : Option ℕ
  hostnameLock : Option ℕ
  /-- The transaction that has locked the workstation with an id. -/
  rowLocks : String → Option ℕ
  /-- Inserted workstations that are not committed. -/
  uncommitted : List Workstation
  /-- The worker row version of a hostname assignment that is not committed. -/
  stagedWorker : Option Worker
  /-- Every workstation id that was ever generated. -/
  usedIDs : List String

namespace Shared

/-- Replace the committed workstations. -/
def setWorkstations (sh : Shared) (workstations : List Workstation) : Shared :=
  { sh with db := { sh.db with workstations } }

/-- Replace the committed workers. -/
def setWorkers (sh : Shared) (workers : List Worker) : Shared :=
  { sh with db := { sh.db with workers } }

/-- Lock or unlock one workstation. -/
def setRowLock (sh : Shared) (id : String) (holder : Option ℕ) : Shared :=
  { sh with rowLocks := Function.update sh.rowLocks id holder }

/-- The lock of a workstation after it was set. -/
@[simp]
theorem setRowLock_self (sh : Shared) (id : String) (holder : Option ℕ) :
    (sh.setRowLock id holder).rowLocks id = holder :=
  Function.update_self _ _ _

/-- The locks of the other workstations stay as they are. -/
theorem setRowLock_of_ne (sh : Shared) {id key : String} (h : id ≠ key) (holder : Option ℕ) :
    (sh.setRowLock key holder).rowLocks id = sh.rowLocks id :=
  Function.update_of_ne h _ _

/-- The vm name of a new id differs from all names given so far. -/
def FreshID (sh : Shared) (id : String) : Prop :=
  ∀ used ∈ sh.usedIDs, generateWorkstationVMName used ≠ generateWorkstationVMName id

instance (sh : Shared) (id : String) : Decidable (sh.FreshID id) :=
  inferInstanceAs (Decidable (∀ used ∈ sh.usedIDs, _))

/-- An `UPDATE` of the worker has to wait for a hostname assignment. -/
def workerLocked (sh : Shared) (id : String) : Bool :=
  sh.db.workers.any (·.id = id) && sh.stagedWorker.any (·.id = id)

/-- A registration has to wait for a hostname assignment. -/
def registrationLocked (sh : Shared) (r : Registration) : Bool :=
  sh.stagedWorker.any fun w => w.id = r.id || w.hardwareUUID = r.hardwareUUID

end Shared

/-- What the statements depend on besides the tables. -/
structure Server where
  generateWorkerID : String → String
  /-- The order of workers by hostname and id in the collation of the database. -/
  collate : Worker → Worker → Bool

/-- Workers whose last heartbeat is older than this are not schedulable. -/
def schedulableHeartbeatWindow : Time := 30

/-- The row that `insertWorkstation` inserts. -/
def newWorkstation (now : Time) (id memberID : String) (candidate : Candidate) : Workstation where
  id
  memberID
  workerID := candidate.workerID
  slot := candidate.slot
  vmName := generateWorkstationVMName id
  powerState := .starting
  desiredPowerState := .running
  ipAddress := ""
  lastError := ""
  createdAt := now
  updatedAt := now

/-- The statements of a claim. -/
inductive ClaimAction
  | lock
  | listWorkers (now : Time)
  | listSlots
  | insert (now : Time) (id : String)
  | commit
  /-- The connection or a statement fails. -/
  | fail
  deriving DecidableEq

/-- The statements of a row operation. -/
inductive RowAction
  | selectForUpdate (now : Time)
  /-- The statement that follows the locking read, if any. -/
  | write
  | commit
  | fail
  deriving DecidableEq

/-- The statements of a hostname assignment. -/
inductive HostnameAction
  | lock
  | select
  | selectNext
  | insert (now : Time)
  | commit
  | fail
  deriving DecidableEq

/-- `ClaimWorkstation`, one statement at a time. -/
def Server.claimWorkstation (server : Server) (sh : Shared) (tx : ℕ)
    (memberID preferredWorkerID : String) : ClaimPhase → ClaimAction → Option (Shared × ClaimPhase)
  | .waiting, .lock =>
    if sh.allocationLock = none then some ({ sh with allocationLock := some tx }, .locked) else none
  | .locked, .listWorkers now =>
    let workers :=
      listSchedulableWorkers server.collate (now - schedulableHeartbeatWindow) sh.db.workers
    if workers = [] then
      some ({ sh with allocationLock := none }, .finished (.refused .noActiveWorkers))
    else some (sh, .listed workers)
  | .listed workers, .listSlots =>
    match selectWorkstationCandidate workers (listAllocatedSlots sh.db.workstations)
        preferredWorkerID with
    | .error error => some ({ sh with allocationLock := none }, .finished (.refused error))
    | .ok candidate => some (sh, .chosen candidate)
  | .chosen candidate, .insert now id =>
    if sh.FreshID id then
      let row := newWorkstation now id memberID candidate
      let conflicts := fun old : Workstation => old.workerID = row.workerID && old.slot = row.slot
      let used := { sh with usedIDs := id :: sh.usedIDs }
      if sh.db.workstations.any conflicts then
        some ({ used with allocationLock := none }, .finished .duplicateSlot)
      else if sh.uncommitted.any conflicts then none
      else some ({ used with uncommitted := row :: sh.uncommitted }, .inserted row)
    else none
  | .inserted row, .commit =>
    some ({ sh.setWorkstations (sh.db.workstations ++ [row]) with
      uncommitted := sh.uncommitted.erase row
      allocationLock := none }, .finished (.claimed row))
  | .waiting, .fail => some (sh, .finished .failed)
  | .locked, .fail | .listed _, .fail | .chosen _, .fail =>
    some ({ sh with allocationLock := none }, .finished .failed)
  | .inserted row, .fail =>
    some ({ sh with uncommitted := sh.uncommitted.erase row, allocationLock := none },
      .finished .failed)
  | _, _ => none

/-- The row operations, one statement at a time. -/
def rowOperation (sh : Shared) (tx : ℕ) (op : RowOp) :
    RowPhase → RowAction → Option (Shared × RowPhase)
  | .begun, .selectForUpdate now =>
    match sh.db.workstations.find? op.selects with
    | none => some (sh, .finished op.missing)
    | some row =>
      if sh.rowLocks op.workstationID = none then
        some (sh.setRowLock op.workstationID (some tx), .locked row now)
      else none
  | .locked row now, .write =>
    match op.decision now row with
    | .answer reply => some (sh.setRowLock op.workstationID none, .finished reply)
    | .update set =>
      match sh.db.workstations.find? (·.id = op.workstationID) with
      | none => some (sh.setRowLock op.workstationID none, .finished .notFound)
      | some current => some (sh, .written (.put (set current)) (op.updated (set current)))
    | .delete => some (sh, .written .remove .done)
  | .written (.put row) reply, .commit =>
    let rows := Tables.update Workstation.id op.workstationID (fun _ => row) sh.db.workstations
    some ((sh.setWorkstations rows).setRowLock op.workstationID none, .finished reply)
  | .written .remove reply, .commit =>
    let rows := Tables.delete Workstation.id op.workstationID sh.db.workstations
    some ((sh.setWorkstations rows).setRowLock op.workstationID none, .finished reply)
  | .begun, .fail => some (sh, .finished .failed)
  | .locked _ _, .fail | .written _ _, .fail =>
    some (sh.setRowLock op.workstationID none, .finished .failed)
  | _, _ => none

/-- `AssignHostname`, one statement at a time. -/
def Server.assignHostname (server : Server) (sh : Shared) (tx : ℕ) (hardwareUUID : String) :
    HostnamePhase → HostnameAction → Option (Shared × HostnamePhase)
  | .waiting, .lock =>
    if sh.hostnameLock = none then some ({ sh with hostnameLock := some tx }, .locked) else none
  | .locked, .select =>
    match sh.db.workers.find? (·.hardwareUUID = hardwareUUID) with
    | some row => some ({ sh with hostnameLock := none }, .finished (some row.hostname))
    | none => some (sh, .unknown)
  | .unknown, .selectNext =>
    match nextHostnameNumber sh.db.workers with
    | none => some ({ sh with hostnameLock := none }, .finished none)
    | some number => some (sh, .numbered (macHostname number))
  | .numbered hostname, .insert now =>
    match upsertHostname now (server.generateWorkerID hardwareUUID) hostname hardwareUUID
        sh.db.workers with
    | none => some ({ sh with hostnameLock := none }, .finished none)
    | some row => some ({ sh with stagedWorker := some row }, .inserted row)
  | .inserted row, .commit =>
    some ({ sh.setWorkers (putWorker row sh.db.workers) with
      stagedWorker := none
      hostnameLock := none }, .finished (some row.hostname))
  | .waiting, .fail => some (sh, .finished none)
  | .locked, .fail | .unknown, .fail | .numbered _, .fail | .inserted _, .fail =>
    some ({ sh with stagedWorker := none, hostnameLock := none }, .finished none)
  | _, _ => none

/-- The statements that clients of the database issue. -/
inductive Action
  | beginClaim (memberID preferredWorkerID : String)
  | beginRow (op : RowOp)
  | beginHostname (hardwareUUID : String)
  | claim (action : ClaimAction)
  | row (action : RowAction)
  | hostname (action : HostnameAction)
  /-- `UpsertWorker`. -/
  | register (now : Time) (r : Registration)
  /-- A statement on one row of the workers table. -/
  | updateWorker (now : Time) (id : String) (update : WorkerUpdate)
  deriving DecidableEq

/-- One statement of one client. Single statements on the workers table commit
at once and need no transaction. -/
def Server.act (server : Server) (sh : Shared) (tx : ℕ) :
    Transaction → Action → Option (Shared × Transaction)
  | .idle, .beginClaim memberID preferredWorkerID =>
    some (sh, .claim memberID preferredWorkerID .waiting)
  | .idle, .beginRow op => some (sh, .row op .begun)
  | .idle, .beginHostname hardwareUUID => some (sh, .hostname hardwareUUID .waiting)
  | .idle, .register now r =>
    if sh.registrationLocked r then none
    else (upsertWorker now r sh.db.workers).map fun workers => (sh.setWorkers workers, .idle)
  | .idle, .updateWorker now id update =>
    if sh.workerLocked id then none
    else
      let workers := Tables.update Worker.id id (update.apply now) sh.db.workers
      some (sh.setWorkers workers, .idle)
  | .claim memberID preferredWorkerID phase, .claim action =>
    (server.claimWorkstation sh tx memberID preferredWorkerID phase action).map fun r =>
      (r.1, .claim memberID preferredWorkerID r.2)
  | .row op phase, .row action =>
    (rowOperation sh tx op phase action).map fun r => (r.1, .row op r.2)
  | .hostname hardwareUUID phase, .hostname action =>
    (server.assignHostname sh tx hardwareUUID phase action).map fun r =>
      (r.1, .hostname hardwareUUID r.2)
  | _, _ => none

/-- The database with its clients. -/
abbrev State := Threads Shared Transaction

/-- The shared state of a fresh installation. -/
def Shared.empty : Shared where
  db := ⟨[], []⟩
  allocationLock := none
  hostnameLock := none
  rowLocks := fun _ => none
  uncommitted := []
  stagedWorker := none
  usedIDs := []

/-- A fresh installation without clients. -/
def State.initial : State := ⟨Shared.empty, fun _ => .idle⟩

/-- The clients of the database as a program. -/
def Server.program (server : Server) : Program Shared Transaction Action := ⟨server.act⟩

/-- All interleavings of the statements, from a fresh installation. -/
def Server.system (server : Server) : System State (ℕ × Action) :=
  server.program.system (· = State.initial)

/-- A claim that holds the lock and has written nothing. -/
def ClaimPhase.Deciding : ClaimPhase → Prop
  | .locked | .listed _ | .chosen _ => True
  | .waiting | .inserted _ | .finished _ => False

/-- What the statements of a claim do. -/
inductive Server.Claims (server : Server) (sh : Shared) (tx : ℕ)
    (memberID preferredWorkerID : String) : ClaimPhase → ClaimAction → Shared → ClaimPhase → Prop
  | lock : sh.allocationLock = none → Claims server sh tx memberID preferredWorkerID .waiting .lock
      { sh with allocationLock := some tx } .locked
  | noWorkers {now : Time} : listSchedulableWorkers server.collate
        (now - schedulableHeartbeatWindow) sh.db.workers = [] →
      Claims server sh tx memberID preferredWorkerID .locked (.listWorkers now)
        { sh with allocationLock := none } (.finished (.refused .noActiveWorkers))
  | list {now : Time} {workers : List Worker} : workers ≠ [] →
      listSchedulableWorkers server.collate (now - schedulableHeartbeatWindow)
        sh.db.workers = workers →
      Claims server sh tx memberID preferredWorkerID .locked (.listWorkers now) sh
        (.listed workers)
  | refuse {workers : List Worker} {error : ClaimError} :
      selectWorkstationCandidate workers (listAllocatedSlots sh.db.workstations)
        preferredWorkerID = .error error →
      Claims server sh tx memberID preferredWorkerID (.listed workers) .listSlots
        { sh with allocationLock := none } (.finished (.refused error))
  | choose {workers : List Worker} {candidate : Candidate} :
      selectWorkstationCandidate workers (listAllocatedSlots sh.db.workstations)
        preferredWorkerID = .ok candidate →
      Claims server sh tx memberID preferredWorkerID (.listed workers) .listSlots sh
        (.chosen candidate)
  | conflict {candidate : Candidate} {now : Time} {id : String} {old : Workstation} :
      sh.FreshID id → old ∈ sh.db.workstations →
      old.workerID = candidate.workerID ∧ old.slot = candidate.slot →
      Claims server sh tx memberID preferredWorkerID (.chosen candidate) (.insert now id)
        { sh with usedIDs := id :: sh.usedIDs, allocationLock := none } (.finished .duplicateSlot)
  | insert {candidate : Candidate} {now : Time} {id : String} {row : Workstation} :
      sh.FreshID id → newWorkstation now id memberID candidate = row →
      Claims server sh tx memberID preferredWorkerID (.chosen candidate) (.insert now id)
        { sh with usedIDs := id :: sh.usedIDs, uncommitted := row :: sh.uncommitted }
        (.inserted row)
  | commit {row : Workstation} :
      Claims server sh tx memberID preferredWorkerID (.inserted row) .commit
        { sh.setWorkstations (sh.db.workstations ++ [row]) with
          uncommitted := sh.uncommitted.erase row
          allocationLock := none } (.finished (.claimed row))
  | giveUp : Claims server sh tx memberID preferredWorkerID .waiting .fail sh (.finished .failed)
  | fail {phase : ClaimPhase} : phase.Deciding →
      Claims server sh tx memberID preferredWorkerID phase .fail
        { sh with allocationLock := none } (.finished .failed)
  | rollback {row : Workstation} :
      Claims server sh tx memberID preferredWorkerID (.inserted row) .fail
        { sh with uncommitted := sh.uncommitted.erase row, allocationLock := none }
        (.finished .failed)

variable {server : Server} {sh sh' : Shared} {tx : ℕ}

/-- Every statement of a claim is one of those listed. -/
theorem Server.claims_of_claimWorkstation {memberID preferredWorkerID : String}
    {phase phase' : ClaimPhase} {action : ClaimAction}
    (h : server.claimWorkstation sh tx memberID preferredWorkerID phase action =
      some (sh', phase')) :
    server.Claims sh tx memberID preferredWorkerID phase action sh' phase' := by
  cases phase with
  | waiting =>
    cases action with
    | lock =>
      simp only [Server.claimWorkstation] at h
      split_ifs at h with hlock
      cases h
      exact .lock hlock
    | fail =>
      cases h
      exact .giveUp
    | _ => cases h
  | locked =>
    cases action with
    | listWorkers now =>
      simp only [Server.claimWorkstation] at h
      split_ifs at h with hempty
      · cases h
        exact .noWorkers hempty
      · cases h
        exact .list hempty rfl
    | fail =>
      cases h
      exact .fail trivial
    | _ => cases h
  | listed workers =>
    cases action with
    | listSlots =>
      simp only [Server.claimWorkstation] at h
      split at h
      next error herror =>
        cases h
        exact .refuse herror
      next candidate hcandidate =>
        cases h
        exact .choose hcandidate
    | fail =>
      cases h
      exact .fail trivial
    | _ => cases h
  | chosen candidate =>
    cases action with
    | insert now id =>
      simp only [Server.claimWorkstation] at h
      split_ifs at h with hfresh hconflict
      · cases h
        obtain ⟨old, hold, hplace⟩ := List.any_eq_true.mp hconflict
        rw [Bool.and_eq_true, decide_eq_true_eq, decide_eq_true_eq] at hplace
        exact .conflict hfresh hold hplace
      · cases h
        exact .insert hfresh rfl
    | fail =>
      cases h
      exact .fail trivial
    | _ => cases h
  | inserted row =>
    cases action with
    | commit =>
      cases h
      exact .commit
    | fail =>
      cases h
      exact .rollback
    | _ => cases h
  | finished reply => cases action <;> cases h

/-- What the statements of a row operation do. -/
inductive RowOp.Executes (sh : Shared) (tx : ℕ) (op : RowOp) :
    RowPhase → RowAction → Shared → RowPhase → Prop
  | missing {now : Time} : sh.db.workstations.find? op.selects = none →
      Executes sh tx op .begun (.selectForUpdate now) sh (.finished op.missing)
  | lock {now : Time} {row : Workstation} : sh.db.workstations.find? op.selects = some row →
      sh.rowLocks op.workstationID = none →
      Executes sh tx op .begun (.selectForUpdate now) (sh.setRowLock op.workstationID (some tx))
        (.locked row now)
  | answer {now : Time} {row : Workstation} {reply : RowReply} :
      op.decision now row = .answer reply →
      Executes sh tx op (.locked row now) .write (sh.setRowLock op.workstationID none)
        (.finished reply)
  | vanished {now : Time} {row : Workstation} {set : Workstation → Workstation} :
      op.decision now row = .update set →
      sh.db.workstations.find? (·.id = op.workstationID) = none →
      Executes sh tx op (.locked row now) .write (sh.setRowLock op.workstationID none)
        (.finished .notFound)
  | put {now : Time} {row current : Workstation} {set : Workstation → Workstation} :
      op.decision now row = .update set →
      sh.db.workstations.find? (·.id = op.workstationID) = some current →
      Executes sh tx op (.locked row now) .write sh
        (.written (.put (set current)) (op.updated (set current)))
  | remove {now : Time} {row : Workstation} : op.decision now row = .delete →
      Executes sh tx op (.locked row now) .write sh (.written .remove .done)
  | commitPut {row : Workstation} {reply : RowReply} :
      Executes sh tx op (.written (.put row) reply) .commit
        ((sh.setWorkstations (Tables.update Workstation.id op.workstationID (fun _ => row)
          sh.db.workstations)).setRowLock op.workstationID none) (.finished reply)
  | commitRemove {reply : RowReply} :
      Executes sh tx op (.written .remove reply) .commit
        ((sh.setWorkstations (Tables.delete Workstation.id op.workstationID
          sh.db.workstations)).setRowLock op.workstationID none) (.finished reply)
  | giveUp : Executes sh tx op .begun .fail sh (.finished .failed)
  | fail {now : Time} {row : Workstation} :
      Executes sh tx op (.locked row now) .fail (sh.setRowLock op.workstationID none)
        (.finished .failed)
  | rollback {write : RowWrite} {reply : RowReply} :
      Executes sh tx op (.written write reply) .fail (sh.setRowLock op.workstationID none)
        (.finished .failed)

/-- Every statement of a row operation is one of those listed. -/
theorem executes_of_rowOperation {op : RowOp} {phase phase' : RowPhase} {action : RowAction}
    (h : rowOperation sh tx op phase action = some (sh', phase')) :
    op.Executes sh tx phase action sh' phase' := by
  cases phase with
  | begun =>
    cases action with
    | selectForUpdate now =>
      simp only [rowOperation] at h
      split at h
      next hnone =>
        cases h
        exact .missing hnone
      next row hrow =>
        split_ifs at h with hlock
        cases h
        exact .lock hrow hlock
    | fail =>
      cases h
      exact .giveUp
    | _ => cases h
  | locked row now =>
    cases action with
    | write =>
      simp only [rowOperation] at h
      split at h
      next reply hreply =>
        cases h
        exact .answer hreply
      next set hset =>
        split at h
        next hnone =>
          cases h
          exact .vanished hset hnone
        next current hcurrent =>
          cases h
          exact .put hset hcurrent
      next hdelete =>
        cases h
        exact .remove hdelete
    | fail =>
      cases h
      exact .fail
    | _ => cases h
  | written write reply =>
    cases write with
    | put row =>
      cases action with
      | commit =>
        cases h
        exact .commitPut
      | fail =>
        cases h
        exact .rollback
      | _ => cases h
    | remove =>
      cases action with
      | commit =>
        cases h
        exact .commitRemove
      | fail =>
        cases h
        exact .rollback
      | _ => cases h
  | finished reply => cases action <;> cases h

/-- An assignment that holds the lock. -/
def HostnamePhase.Naming : HostnamePhase → Prop
  | .locked | .unknown | .numbered _ | .inserted _ => True
  | .waiting | .finished _ => False

/-- What the statements of a hostname assignment do. -/
inductive Server.Assigns (server : Server) (sh : Shared) (tx : ℕ) (hardwareUUID : String) :
    HostnamePhase → HostnameAction → Shared → HostnamePhase → Prop
  | lock : sh.hostnameLock = none → Assigns server sh tx hardwareUUID .waiting .lock
      { sh with hostnameLock := some tx } .locked
  | known {row : Worker} : sh.db.workers.find? (·.hardwareUUID = hardwareUUID) = some row →
      Assigns server sh tx hardwareUUID .locked .select { sh with hostnameLock := none }
        (.finished (some row.hostname))
  | unknown : sh.db.workers.find? (·.hardwareUUID = hardwareUUID) = none →
      Assigns server sh tx hardwareUUID .locked .select sh .unknown
  | exhausted : nextHostnameNumber sh.db.workers = none →
      Assigns server sh tx hardwareUUID .unknown .selectNext { sh with hostnameLock := none }
        (.finished none)
  | number {number : ℕ} : nextHostnameNumber sh.db.workers = some number →
      Assigns server sh tx hardwareUUID .unknown .selectNext sh (.numbered (macHostname number))
  | conflict {hostname : String} {now : Time} :
      upsertHostname now (server.generateWorkerID hardwareUUID) hostname hardwareUUID
        sh.db.workers = none →
      Assigns server sh tx hardwareUUID (.numbered hostname) (.insert now)
        { sh with hostnameLock := none } (.finished none)
  | insert {hostname : String} {now : Time} {row : Worker} :
      upsertHostname now (server.generateWorkerID hardwareUUID) hostname hardwareUUID
        sh.db.workers = some row →
      Assigns server sh tx hardwareUUID (.numbered hostname) (.insert now)
        { sh with stagedWorker := some row } (.inserted row)
  | commit {row : Worker} : Assigns server sh tx hardwareUUID (.inserted row) .commit
      { sh.setWorkers (putWorker row sh.db.workers) with
        stagedWorker := none
        hostnameLock := none } (.finished (some row.hostname))
  | giveUp : Assigns server sh tx hardwareUUID .waiting .fail sh (.finished none)
  | fail {phase : HostnamePhase} : phase.Naming →
      Assigns server sh tx hardwareUUID phase .fail
        { sh with stagedWorker := none, hostnameLock := none } (.finished none)

/-- Every statement of a hostname assignment is one of those listed. -/
theorem Server.assigns_of_assignHostname {hardwareUUID : String} {phase phase' : HostnamePhase}
    {action : HostnameAction}
    (h : server.assignHostname sh tx hardwareUUID phase action = some (sh', phase')) :
    server.Assigns sh tx hardwareUUID phase action sh' phase' := by
  cases phase with
  | waiting =>
    cases action with
    | lock =>
      simp only [Server.assignHostname] at h
      split_ifs at h with hlock
      cases h
      exact .lock hlock
    | fail =>
      cases h
      exact .giveUp
    | _ => cases h
  | locked =>
    cases action with
    | select =>
      simp only [Server.assignHostname] at h
      split at h
      next row hrow =>
        cases h
        exact .known hrow
      next hnone =>
        cases h
        exact .unknown hnone
    | fail =>
      cases h
      exact .fail trivial
    | _ => cases h
  | unknown =>
    cases action with
    | selectNext =>
      simp only [Server.assignHostname] at h
      split at h
      next hnone =>
        cases h
        exact .exhausted hnone
      next number hnumber =>
        cases h
        exact .number hnumber
    | fail =>
      cases h
      exact .fail trivial
    | _ => cases h
  | numbered hostname =>
    cases action with
    | insert now =>
      simp only [Server.assignHostname] at h
      split at h
      next hnone =>
        cases h
        exact .conflict hnone
      next row hrow =>
        cases h
        exact .insert hrow
    | fail =>
      cases h
      exact .fail trivial
    | _ => cases h
  | inserted row =>
    cases action with
    | commit =>
      cases h
      exact .commit
    | fail =>
      cases h
      exact .fail trivial
    | _ => cases h
  | finished hostname => cases action <;> cases h

/-- A server whose worker ids are the hardware UUIDs. -/
def plainServer : Server where
  generateWorkerID := id
  collate a b := a.hostname < b.hostname || (a.hostname = b.hostname && a.id ≤ b.id)

end MiniControl.Fleet
