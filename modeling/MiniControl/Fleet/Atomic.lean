import MiniControl.Fleet.Frames
import MiniControl.Transition.History

/-!
# The tables with atomic operations

The specification of the store: every operation happens in one step and answers from the
tables as they are then. A row operation is `perform`. A claim adds a row in a slot that is
free and within the pool of its worker, whatever it has read before. A hostname assignment
repeats the name of a known machine or writes a name into its row; the name itself was
chosen before, and `MayAnswer` says from which tables. Registrations and the other
statements on one worker are single statements anyway.

What a transaction still has to know for its last statement to be such a step is collected
in `Prepared`, and the locks keep it true while others run.
-/

namespace MiniControl.Fleet

open Transition

/-- An operation with the transaction that ran it and its answer. -/
inductive Entry
  | row (tx : ℕ) (op : RowOp) (reply : RowReply)
  | claim (tx : ℕ) (memberID : String) (row : Workstation)
  | hostname (tx : ℕ) (hardwareUUID hostname : String)
  | register (now : Time) (r : Registration)
  | updateWorker (now : Time) (id : String) (update : WorkerUpdate)
  deriving DecidableEq

/-- The transaction of an entry; single statements have none. -/
def Entry.transaction : Entry → Option ℕ
  | row tx _ _ | claim tx _ _ | hostname tx _ _ => some tx
  | register _ _ | updateWorker _ _ _ => none

/-- The tables have a place for a new row. -/
structure Database.Admits (db : Database) (row : Workstation) : Prop where
  pool : 0 ≤ row.slot ∧
    ∃ worker ∈ db.workers, worker.id = row.workerID ∧ row.slot < worker.poolSize
  free : ∀ w ∈ db.workstations, ¬(w.workerID = row.workerID ∧ w.slot = row.slot)
  fresh : ∀ w ∈ db.workstations, w.id ≠ row.id

/-- What an operation makes of the tables when it happens in one step. The slot of a claim
and the name of an assignment were chosen earlier, from other tables. -/
inductive Server.Atomic (server : Server) (db : Database) : Entry → Database → Prop
  | row {tx : ℕ} {op : RowOp} {reply : RowReply} {now : Time} {db' : Database} :
      op.perform now db = (db', reply) → Atomic server db (.row tx op reply) db'
  | claim {tx : ℕ} {memberID id : String} {now : Time} {candidate : Candidate}
      {row : Workstation} : newWorkstation now id memberID candidate = row → db.Admits row →
      Atomic server db (.claim tx memberID row)
        { db with workstations := db.workstations ++ [row] }
  | assigned {tx : ℕ} {hardwareUUID hostname : String} {row : Worker} : row ∈ db.workers →
      row.hardwareUUID = hardwareUUID → row.hostname = hostname →
      Atomic server db (.hostname tx hardwareUUID hostname) db
  | assign {tx : ℕ} {hardwareUUID hostname : String} {now : Time} {row : Worker} :
      upsertHostname now (server.generateWorkerID hardwareUUID) hostname hardwareUUID
        db.workers = some row →
      Atomic server db (.hostname tx hardwareUUID hostname)
        { db with workers := putWorker row db.workers }
  | register {now : Time} {r : Registration} {workers : List Worker} :
      upsertWorker now r db.workers = some workers →
      Atomic server db (.register now r) { db with workers }
  | updateWorker {now : Time} {id : String} {update : WorkerUpdate} :
      Atomic server db (.updateWorker now id update)
        { db with workers := Tables.update Worker.id id (update.apply now) db.workers }

/-- The store as a system of atomic operations. -/
def Server.atomic (server : Server) : System Database Entry where
  init db := db = ⟨[], []⟩
  next db entry db' := server.Atomic db entry db'

/-- The hostname assignments among the operations. -/
def Entry.isHostname : Entry → Bool
  | hostname _ _ _ => true
  | row _ _ _ | claim _ _ _ | register _ _ | updateWorker _ _ _ => false

/-- The names for a new machine after the operations of `log`: the next one in the tables
at some moment since the last assignment. An assignment reads its number before it writes
the name, and machines can register in between. -/
def Server.MayAssign (server : Server) (log : List Entry) (hostname : String) : Prop :=
  ∃ earlier later db number, log = earlier ++ later ∧
    (∀ entry ∈ later, entry.isHostname = false) ∧ server.atomic.Trace ⟨[], []⟩ earlier db ∧
    nextHostnameNumber db.workers = some number ∧ hostname = macHostname number

/-- The names that an assignment can answer after the operations of `log`: the one that a
known machine has, or one for a new machine. -/
def Server.MayAnswer (server : Server) (log : List Entry) (hardwareUUID hostname : String) : Prop :=
  (∃ db, server.atomic.Trace ⟨[], []⟩ log db ∧
    ∃ row ∈ db.workers, row.hardwareUUID = hardwareUUID ∧ row.hostname = hostname) ∨
  server.MayAssign log hostname

/-- The statement that follows a decision, with the answer that follows its commit. -/
def Decision.writes (op : RowOp) (row : Workstation) : Decision → Option (RowWrite × RowReply)
  | .answer _ => none
  | .update set => some (.put (set row), op.updated (set row))
  | .delete => some (.remove, .done)

/-- A row operation has locked a row that it selects, and what it has written is what it
has decided about this row. -/
def RowPhase.Prepared (sh : Shared) (tx : ℕ) (op : RowOp) : RowPhase → Prop
  | .locked row _ => sh.Selected tx op row
  | .written write reply => ∃ row now, sh.Selected tx op row ∧
      (op.decision now row).writes op row = some (write, reply)
  | .begun | .finished _ => True

/-- A claim has inserted a row of its own. -/
def ClaimPhase.Prepared (memberID : String) : ClaimPhase → Prop
  | .inserted row => ∃ now id candidate, newWorkstation now id memberID candidate = row
  | _ => True

/-- The row version of a hostname assignment is what the `INSERT` would leave behind now. -/
def Server.PreparedName (server : Server) (sh : Shared) (hardwareUUID : String) :
    HostnamePhase → Prop
  | .inserted row => ∃ now, upsertHostname now (server.generateWorkerID hardwareUUID)
      row.hostname hardwareUUID sh.db.workers = some row
  | _ => True

/-- What a transaction relies on for its last statement. -/
def Server.Prepared (server : Server) (sh : Shared) (tx : ℕ) : Transaction → Prop
  | .idle => True
  | .claim memberID _ phase => phase.Prepared memberID
  | .row op phase => phase.Prepared sh tx op
  | .hostname hardwareUUID phase => server.PreparedName sh hardwareUUID phase

section Frame

variable {server : Server} {tx other : ℕ} {t t' : Transaction} {sh sh' : Shared} {op : RowOp}
  {now stamp : Time} {id hostname hardwareUUID : String} {workers workers' : List Worker}
  {row : Worker}

/-- A locked row stays selected while others run. -/
theorem Shared.Selected.frame {row : Workstation} (h : sh.Selected other op row) (hne : other ≠ tx)
    (hchange : Change tx t sh sh') : sh'.Selected other op row :=
  ⟨h.1.frame hne hchange, h.2⟩

/-- A row operation stays prepared while others run. -/
theorem RowPhase.Prepared.frame {phase : RowPhase} (h : phase.Prepared sh other op)
    (hne : other ≠ tx) (hchange : Change tx t sh sh') : phase.Prepared sh' other op := by
  cases phase with
  | begun | finished => trivial
  | locked row now => exact Shared.Selected.frame h hne hchange
  | written write reply =>
    obtain ⟨row, now, hrow, hwrites⟩ := h
    exact ⟨row, now, hrow.frame hne hchange, hwrites⟩

/-- The row that an assignment leaves behind has the id and the name it was given. -/
theorem upsertHostname_fields (h : upsertHostname now id hostname hardwareUUID workers = some row) :
    row.id = id ∧ row.hostname = hostname := by
  unfold upsertHostname at h
  split at h
  next old hold =>
    cases h
    exact ⟨by simpa using List.find?_some hold, rfl⟩
  next =>
    split_ifs at h
    cases h
    exact ⟨rfl, rfl⟩

/-- The `INSERT` of an assignment depends on the row with its id and on the hardware UUIDs. -/
theorem upsertHostname_congr (hfind : workers'.find? (·.id = id) = workers.find? (·.id = id))
    (huuid : workers.find? (·.id = id) = none →
      workers'.any (·.hardwareUUID = hardwareUUID) = workers.any (·.hardwareUUID = hardwareUUID)) :
    upsertHostname now id hostname hardwareUUID workers' =
      upsertHostname now id hostname hardwareUUID workers := by
  unfold upsertHostname
  rw [hfind]
  cases h : workers.find? (·.id = id) with
  | some row => rfl
  | none => simp only [huuid h]

/-- The statements on one worker keep its hardware UUID. -/
theorem WorkerUpdate.apply_hardwareUUID (update : WorkerUpdate) (now : Time) (row : Worker) :
    (update.apply now row).hardwareUUID = row.hardwareUUID := by
  cases update <;> rfl

/-- A statement on another worker, or on one that no row has, does not change what the
`INSERT` of an assignment would leave behind. -/
theorem upsertHostname_updateWorker {update : WorkerUpdate} {id key hostname hardwareUUID : String}
    (hkey : workers.any (·.id = id) = true → key ≠ id) :
    upsertHostname now id hostname hardwareUUID
        (Tables.update Worker.id key (update.apply stamp) workers) =
      upsertHostname now id hostname hardwareUUID workers := by
  refine upsertHostname_congr ?_ fun _ => Tables.any_update fun w => ?_
  · by_cases hany : workers.any (·.id = id) = true
    · exact Tables.find?_update_of_ne (hkey hany) fun w hw => (update.apply_id stamp w).trans hw
    · have hnone : workers.find? (·.id = id) = none := by simpa using hany
      have hany' : ¬(Tables.update Worker.id key (update.apply stamp) workers).any (·.id = id) := by
        rwa [Tables.any_update fun w => by rw [update.apply_id]]
      rw [hnone]
      simpa using hany'
  · rw [update.apply_hardwareUUID]

/-- A registration with another id and another hardware UUID does not change what the
`INSERT` of an assignment would leave behind. -/
theorem upsertHostname_register {r : Registration}
    (h : upsertHostname now id hostname hardwareUUID workers = some row) (hid : r.id ≠ row.id)
    (huuid : r.hardwareUUID ≠ row.hardwareUUID)
    (hworkers : upsertWorker stamp r workers = some workers') :
    upsertHostname now id hostname hardwareUUID workers' = some row := by
  have hrow : row.id = id := (upsertHostname_fields h).1
  rw [← h]
  unfold upsertWorker at hworkers
  split_ifs at hworkers with hknown
  · cases hworkers
    exact upsertHostname_congr (Tables.find?_update_of_ne (hrow ▸ hid) fun _ hw => hw)
      fun _ => Tables.any_update fun _ => rfl
  · cases hworkers
    refine upsertHostname_congr ?_ fun hnone => ?_
    · have hother : ¬(r.worker stamp).id = id := hrow ▸ hid
      simp [List.find?_append, hother]
    · -- without a row of that id, the assignment has inserted one with the hardware UUID
      have hnew : row.hardwareUUID = hardwareUUID := by
        simp only [upsertHostname, hnone] at h
        split_ifs at h
        cases h
        rfl
      have hother : ¬(r.worker stamp).hardwareUUID = hardwareUUID := hnew ▸ huuid
      simp [hother]

/-- While another transaction has the hostname lock, no statement changes what the `INSERT`
of that transaction would leave behind. -/
theorem Server.act_upsertHostname {action : Action} (hlock : sh.hostnameLock = some other)
    (hne : other ≠ tx) (hstaged : sh.stagedWorker = some row) (hholds : t.Holds sh tx)
    (hrow : upsertHostname now id hostname hardwareUUID sh.db.workers = some row)
    (hact : server.act sh tx t action = some (sh', t')) :
    upsertHostname now id hostname hardwareUUID sh'.db.workers = some row := by
  have hother : sh.hostnameLock ≠ some tx := fun h => hne (Option.some.inj (hlock.symm.trans h))
  cases t with
  | idle =>
    cases action with
    | register stamp r =>
      simp only [Server.act] at hact
      split_ifs at hact with hlocked
      obtain ⟨workers, hworkers, heq⟩ := Option.map_eq_some_iff.mp hact
      cases heq
      have hfree : row.id ≠ r.id ∧ row.hardwareUUID ≠ r.hardwareUUID := by
        simpa [Shared.registrationLocked, hstaged] using hlocked
      exact upsertHostname_register hrow hfree.1.symm hfree.2.symm hworkers
    | updateWorker stamp key update =>
      simp only [Server.act] at hact
      split_ifs at hact with hlocked
      cases hact
      refine (upsertHostname_updateWorker fun hany hkey => hlocked ?_).trans hrow
      have hid := (upsertHostname_fields hrow).1
      simp [Shared.workerLocked, hkey, hany, hstaged, hid]
    | beginClaim | beginRow | beginHostname =>
      cases hact
      exact hrow
    | _ => cases hact
  | claim memberID preferredWorkerID phase =>
    cases action with
    | claim statement =>
      obtain ⟨⟨_, _⟩, hr, heq⟩ := Option.map_eq_some_iff.mp hact
      cases heq
      cases claims_of_claimWorkstation hr <;> exact hrow
    | _ => cases hact
  | row op phase =>
    cases action with
    | row statement =>
      obtain ⟨⟨_, _⟩, hr, heq⟩ := Option.map_eq_some_iff.mp hact
      cases heq
      cases executes_of_rowOperation hr <;> exact hrow
    | _ => cases hact
  | hostname uuid phase =>
    -- beyond `waiting` an assignment has the lock, which is not free
    cases action with
    | hostname statement =>
      obtain ⟨⟨_, _⟩, hr, heq⟩ := Option.map_eq_some_iff.mp hact
      cases heq
      cases phase with
      | waiting =>
        cases statement with
        | lock => simp [Server.assignHostname, hlock] at hr
        | fail =>
          cases hr
          exact hrow
        | _ => cases hr
      | finished => cases statement <;> cases hr
      | _ => exact absurd hholds.1 hother
    | _ => cases hact

/-- Every transaction stays prepared while others run. -/
theorem Server.Prepared.frame {u : Transaction} {action : Action} (hok : sh.Ok)
    (hholds : t.Holds sh tx) (hother : u.Holds sh other) (h : server.Prepared sh other u)
    (hne : other ≠ tx) (hact : server.act sh tx t action = some (sh', t')) :
    server.Prepared sh' other u := by
  cases u with
  | idle => trivial
  | claim memberID preferredWorkerID phase => exact h
  | row op phase => exact RowPhase.Prepared.frame h hne (server.act_change hok hholds hact).1
  | hostname hardwareUUID phase =>
    cases phase with
    | inserted row =>
      obtain ⟨hlock, hstaged, _⟩ := hother
      obtain ⟨now, hrow⟩ := h
      exact ⟨now, server.act_upsertHostname hlock hne hstaged hholds hrow hact⟩
    | _ => trivial

end Frame

end MiniControl.Fleet
