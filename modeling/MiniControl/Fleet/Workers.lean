import MiniControl.Fleet.Model
import MiniControl.Tables.Keyed
import Mathlib.Data.List.Sort

/-!
# Statements on the workers table

Registrations, heartbeats and token updates are single statements. A hostname
assignment reads the table twice and inserts a row of its own. All of them keep
the rows of the table, and none changes the pool size of a row that exists.
-/

namespace MiniControl.Fleet

/-- The columns that a registration supplies. -/
structure Registration where
  id : String
  hostname : String
  hardwareUUID : String
  cpuCores : ℤ
  memoryBytes : ℤ
  tartVersion : String
  workerVersion : String
  poolSize : ℤ
  baseImage : String
  deriving DecidableEq

/-- The row that a first registration inserts. -/
def Registration.worker (r : Registration) (now : Time) : Worker where
  id := r.id
  hostname := r.hostname
  hardwareUUID := r.hardwareUUID
  cpuCores := r.cpuCores
  memoryBytes := r.memoryBytes
  tartVersion := r.tartVersion
  workerVersion := r.workerVersion
  poolSize := r.poolSize
  baseImage := r.baseImage
  status := .active
  registeredAt := now
  lastHeartbeat := none
  authTokenHash := none
  authTokenLastUsedAt := none
  authTokenRevokedAt := none

/-- `UpsertWorker`; `none` when another row has the same hardware UUID. -/
def upsertWorker (now : Time) (r : Registration) (workers : List Worker) : Option (List Worker) :=
  if workers.any (·.id = r.id) then
    some (Tables.update Worker.id r.id (fun row =>
      { row with
        hostname := r.hostname
        cpuCores := r.cpuCores
        memoryBytes := r.memoryBytes
        tartVersion := r.tartVersion
        workerVersion := r.workerVersion
        status := .active
        lastHeartbeat := some now }) workers)
  else if workers.any (·.hardwareUUID = r.hardwareUUID) then none
  else some (workers ++ [r.worker now])

/-- The statements that rewrite one row of the workers table. -/
inductive WorkerUpdate
  | heartbeat
  | offline
  | touchToken
  | issueToken (hash : String)
  deriving DecidableEq

/-- `UpdateHeartbeat`, `SetWorkerOffline`, `TouchWorkerTokenUsage` and the
statement of `IssueWorkerToken` on the row that they select. -/
def WorkerUpdate.apply (now : Time) (row : Worker) : WorkerUpdate → Worker
  | .heartbeat => { row with lastHeartbeat := some now, status := .active }
  | .offline => { row with status := .offline }
  | .touchToken => { row with authTokenLastUsedAt := some now }
  | .issueToken hash =>
    { row with
      authTokenHash := some hash
      authTokenLastUsedAt := some now
      authTokenRevokedAt := none }

/-- The statements on one worker keep its id. -/
theorem WorkerUpdate.apply_id (update : WorkerUpdate) (now : Time) (row : Worker) :
    (update.apply now row).id = row.id := by
  cases update <;> rfl

/-- The statements on one worker keep its pool size. -/
theorem WorkerUpdate.apply_poolSize (update : WorkerUpdate) (now : Time) (row : Worker) :
    (update.apply now row).poolSize = row.poolSize := by
  cases update <;> rfl

/-- `listSchedulableWorkers`, in the order of the collation of the database. -/
def listSchedulableWorkers (collate : Worker → Worker → Bool) (cutoff : Time)
    (workers : List Worker) : List Worker :=
  (workers.filter fun w => w.status = .active && w.lastHeartbeat.any (cutoff ≤ ·)).insertionSort
    (collate · · = true)

/-- The number of a hostname of the form `mac-N`, and zero for any other name. -/
def hostnameNumber (hostname : String) : ℕ :=
  match hostname.toList with
  | 'm' :: 'a' :: 'c' :: '-' :: digits =>
    if digits ≠ [] ∧ digits.all Char.isDigit then
      digits.foldl (fun n c => 10 * n + (c.toNat - '0'.toNat)) 0
    else 0
  | _ => 0

/-- The largest value of the `INT` type. -/
def maxInt : ℕ := 2147483647

/-- The next free number, or `none` when a cast or the sum exceeds `INT`. -/
def nextHostnameNumber (workers : List Worker) : Option ℕ :=
  let numbers := workers.map fun w => hostnameNumber w.hostname
  let next := numbers.foldl max 0 + 1
  if numbers.all (· ≤ maxInt) ∧ next ≤ maxInt then some next else none

/-- The name with the given number. -/
def macHostname (number : ℕ) : String := "mac-" ++ toString number

/-- The row that a hostname assignment inserts. -/
def hostnameWorker (now : Time) (id hostname hardwareUUID : String) : Worker where
  id
  hostname
  hardwareUUID
  cpuCores := 0
  memoryBytes := 0
  tartVersion := ""
  workerVersion := ""
  poolSize := 2
  baseImage := "minictl-tahoe-base"
  status := .offline
  registeredAt := now
  lastHeartbeat := none
  authTokenHash := none
  authTokenLastUsedAt := none
  authTokenRevokedAt := none

/-- The row version that the `INSERT` of a hostname assignment leaves behind: the
existing row with the new name, or a new row; `none` when another row has the
same hardware UUID. -/
def upsertHostname (now : Time) (id hostname hardwareUUID : String) (workers : List Worker) :
    Option Worker :=
  match workers.find? (·.id = id) with
  | some row => some { row with hostname }
  | none =>
    if workers.any (·.hardwareUUID = hardwareUUID) then none
    else some (hostnameWorker now id hostname hardwareUUID)

/-- Make a row version visible. -/
def putWorker (row : Worker) (workers : List Worker) : List Worker :=
  if workers.any (·.id = row.id) then Tables.update Worker.id row.id (fun _ => row) workers
  else workers ++ [row]

/-- What every statement on the workers table does: rows stay with their pool
sizes, and ids stay distinct. -/
structure WorkersKept (old new : List Worker) : Prop where
  kept : ∀ w ∈ old, ∃ w' ∈ new, w'.id = w.id ∧ w'.poolSize = w.poolSize
  nodup : (old.map Worker.id).Nodup → (new.map Worker.id).Nodup

/-- Nothing changes when nothing changes. -/
theorem WorkersKept.refl (workers : List Worker) : WorkersKept workers workers :=
  ⟨fun w hw => ⟨w, hw, rfl, rfl⟩, id⟩

variable {workers : List Worker}

/-- An update of the rows with one id that keeps their ids and pool sizes. -/
theorem WorkersKept.update {id : String} {f : Worker → Worker}
    (hid : ∀ w ∈ workers, w.id = id → (f w).id = w.id)
    (hpool : ∀ w ∈ workers, w.id = id → (f w).poolSize = w.poolSize) :
    WorkersKept workers (Tables.update Worker.id id f workers) := by
  refine ⟨fun w hw => ?_, fun hnodup => ?_⟩
  · by_cases hw' : w.id = id
    · exact ⟨f w, Tables.mem_update_of_mem hw hw', hid w hw hw', hpool w hw hw'⟩
    · exact ⟨w, Tables.mem_update_of_ne hw hw', rfl, rfl⟩
  · rwa [Tables.map_update hid]

/-- A new row with an id that no row has. -/
theorem WorkersKept.append {row : Worker} (h : ¬workers.any (·.id = row.id) = true) :
    WorkersKept workers (workers ++ [row]) := by
  refine ⟨fun w hw => ⟨w, List.mem_append_left _ hw, rfl, rfl⟩, fun hnodup => ?_⟩
  refine Tables.nodup_map_append hnodup fun old hold heq => h ?_
  exact List.any_eq_true.mpr ⟨old, hold, by simpa using heq⟩

/-- A registration keeps the rows of the table. -/
theorem upsertWorker_kept {now : Time} {r : Registration} {workers new : List Worker}
    (h : upsertWorker now r workers = some new) : WorkersKept workers new := by
  unfold upsertWorker at h
  split_ifs at h with hid huuid
  · cases h
    exact .update (fun _ _ _ => rfl) fun _ _ _ => rfl
  · cases h
    exact .append hid

/-- A statement on one row keeps the rows of the table. -/
theorem WorkerUpdate.kept (update : WorkerUpdate) (now : Time) (id : String)
    (workers : List Worker) :
    WorkersKept workers (Tables.update Worker.id id (update.apply now) workers) :=
  .update (fun w _ _ => update.apply_id now w) fun w _ _ => update.apply_poolSize now w

/-- A listed worker is a row of the table. -/
theorem mem_of_mem_listSchedulableWorkers {collate : Worker → Worker → Bool} {cutoff : Time}
    {w : Worker} (h : w ∈ listSchedulableWorkers collate cutoff workers) : w ∈ workers :=
  List.mem_of_mem_filter ((List.mem_insertionSort _).mp h)

end MiniControl.Fleet
