import MiniControl.WorkerCore.Runtime
import Mathlib.Data.List.Sort

/-!
# The manager of all runtimes

The manager adopts the desired list of an authoritative answer, marks the
runtimes that the list no longer names, and forgets a runtime only when its VM
was reported as deleted and the server no longer wants it.
-/

namespace MiniControl.WorkerCore

open Fleet

/-- `WorkstationManager`. The runtimes are a dictionary by workstation id. -/
structure Manager where
  runtimes : List Runtime
  desiredIDs : List String
  deriving DecidableEq

/-- Hand one desired entry to its runtime, or make a runtime for it. -/
def adopt (runtimes : List Runtime) (desired : DesiredWorkstation) : List Runtime :=
  if runtimes.any (·.workstationID = desired.id) then
    Tables.update Runtime.workstationID desired.id (·.apply desired) runtimes
  else runtimes ++ [.new desired]

namespace Manager

/-- The manager of a process that has just started. -/
def empty : Manager := ⟨[], []⟩

/-- `applyDesiredWorkstations`. -/
def applyDesiredWorkstations (m : Manager) (desired : List DesiredWorkstation)
    (authoritative : Bool) : Manager :=
  if !authoritative then m
  else
    let ids := desired.map (·.id)
    { runtimes := (desired.foldl adopt m.runtimes).map fun r =>
        if r.workstationID ∈ ids then r else r.markForDeletion
      desiredIDs := ids }

/-- Replace the runtime of a workstation by the result of its pass. -/
def put (m : Manager) (r : Runtime) : Manager :=
  { m with runtimes := Tables.update Runtime.workstationID r.workstationID (fun _ => r) m.runtimes }

/-- The end of `reconcile`: forget what is deleted and no longer desired. -/
def forgetDeleted (m : Manager) : Manager :=
  { m with
    runtimes := m.runtimes.filter fun r => r.workstationID ∈ m.desiredIDs || r.state ≠ .deleted }

/-- `allVMInfo`, in the order of the ids. -/
def allVMInfo (m : Manager) : List VMInfo :=
  (m.runtimes.insertionSort (·.workstationID ≤ ·.workstationID)).map Runtime.info

end Manager

/-- The entry of a heartbeat for one VM, as the server decodes it. -/
def VMInfo.status (info : VMInfo) : StatusReport where
  workstationID := info.vmID
  powerState := .value info.state
  ipAddress := info.ipAddress.getD ""
  lastError := info.lastError.getD ""

/-- The entry of the answer to a heartbeat, as the worker decodes it. -/
def decodeDesired (d : Fleet.DesiredWorkstation) : DesiredWorkstation :=
  ⟨d.id, d.vmName, d.slot, .value d.desiredPowerState⟩

variable {P : Runtime → Prop} {desired : List DesiredWorkstation} {m : Manager}

/-- What holds of the runtimes, of new ones and of adopting ones holds of the
runtimes after the list was adopted. -/
theorem forall_mem_foldl_adopt
    (happly : ∀ d ∈ desired, ∀ r, r.workstationID = d.id → P r → P (r.apply d))
    (hnew : ∀ d ∈ desired, P (.new d)) {runtimes : List Runtime} (h : ∀ r ∈ runtimes, P r) :
    ∀ r ∈ desired.foldl adopt runtimes, P r := by
  induction desired generalizing runtimes with
  | nil => exact h
  | cons d desired ih =>
    refine ih (fun d' hd' => happly d' (List.mem_cons_of_mem _ hd'))
      (fun d' hd' => hnew d' (List.mem_cons_of_mem _ hd')) fun r hr => ?_
    unfold adopt at hr
    split_ifs at hr
    · obtain ⟨old, hold, rfl⟩ := Tables.mem_update.mp hr
      split_ifs with hid
      · exact happly d List.mem_cons_self old hid (h old hold)
      · exact h old hold
    · rcases List.mem_append.mp hr with hold | hr
      · exact h r hold
      · rw [List.mem_singleton.mp hr]
        exact hnew d List.mem_cons_self

/-- What holds of the runtimes before holds after an authoritative answer, if
adopting, creating and marking a runtime keep it. -/
theorem Manager.forall_applyDesiredWorkstations {authoritative : Bool}
    (happly : ∀ d ∈ desired, ∀ r, r.workstationID = d.id → P r → P (r.apply d))
    (hnew : ∀ d ∈ desired, P (.new d))
    (hmark : ∀ r, r.workstationID ∉ desired.map (·.id) → P r → P r.markForDeletion)
    (h : ∀ r ∈ m.runtimes, P r) :
    ∀ r ∈ (m.applyDesiredWorkstations desired authoritative).runtimes, P r := by
  cases authoritative with
  | false => exact h
  | true =>
    intro r hr
    obtain ⟨old, hold, rfl⟩ := List.mem_map.mp hr
    have hP := forall_mem_foldl_adopt happly hnew h old hold
    split_ifs with hid
    · exact hP
    · exact hmark old hid hP

/-- The result of a pass takes the place of its runtime. -/
theorem Manager.forall_put {new : Runtime} (hnew : P new) (h : ∀ r ∈ m.runtimes, P r) :
    ∀ r ∈ (m.put new).runtimes, P r := by
  intro r hr
  obtain ⟨old, hold, rfl⟩ := Tables.mem_update.mp hr
  split_ifs
  · exact hnew
  · exact h old hold

end MiniControl.WorkerCore
