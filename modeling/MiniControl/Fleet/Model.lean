import Mathlib.Data.Int.Notation
import Mathlib.Tactic.Common

/-!
# Workers and workstations

The rows of the `workers` and `workstations` tables with the columns that the
queries of the server read or write. Timestamps are counted in seconds.
-/

namespace MiniControl.Fleet

/-- A point in time. -/
abbrev Time := ℕ

/-- The `worker_status` type of the schema. -/
inductive WorkerStatus
  | active
  | draining
  | offline
  deriving DecidableEq

/-- The `workstation_power_state` type of the schema. -/
inductive PowerState
  | starting
  | running
  | stopping
  | stopped
  | deleting
  | deleted
  | error
  deriving DecidableEq

/-- The `workstation_desired_power_state` type of the schema. -/
inductive DesiredPowerState
  | running
  | stopped
  | deleted
  deriving DecidableEq

/-- A text where the database expects one of the values of an enumeration: one
of them, or a text that the database refuses. -/
inductive Input (Value : Type)
  | value (v : Value)
  | invalid (text : String)
  deriving DecidableEq

/-- A row of the `workers` table. -/
structure Worker where
  id : String
  hostname : String
  hardwareUUID : String
  cpuCores : ℤ
  memoryBytes : ℤ
  tartVersion : String
  workerVersion : String
  poolSize : ℤ
  baseImage : String
  status : WorkerStatus
  registeredAt : Time
  lastHeartbeat : Option Time
  authTokenHash : Option String
  authTokenLastUsedAt : Option Time
  authTokenRevokedAt : Option Time
  deriving DecidableEq

/-- A row of the `workstations` table. -/
structure Workstation where
  id : String
  memberID : String
  workerID : String
  slot : ℤ
  vmName : String
  powerState : PowerState
  desiredPowerState : DesiredPowerState
  ipAddress : String
  lastError : String
  createdAt : Time
  updatedAt : Time
  deriving DecidableEq

/-- `WorkstationStatusReport`: what a worker says about one workstation. -/
structure StatusReport where
  workstationID : String
  powerState : Input PowerState
  ipAddress : String
  lastError : String
  deriving DecidableEq

/-- One entry of the answer to a heartbeat. -/
structure DesiredWorkstation where
  id : String
  vmName : String
  slot : ℤ
  desiredPowerState : DesiredPowerState
  deriving DecidableEq

/-- `generateWorkstationVMName`: the first twelve characters of the id without
its dashes, after a fixed start. -/
def generateWorkstationVMName (workstationID : String) : String :=
  "ws-" ++ String.ofList ((workstationID.toList.filter (· ≠ '-')).take 12)

/-- The committed rows of the two tables. -/
structure Database where
  workers : List Worker
  workstations : List Workstation
  deriving DecidableEq

end MiniControl.Fleet
