import MiniControl.Fleet.Model
import MiniControl.WorkerCore.Tart

/-!
# The runtime of one workstation

A runtime drives one VM towards the desired power state, one pass of commands at
a time. Whatever the host replies, a pass only touches the VM of its own
workstation, deletes it only when it is to be deleted, and reports `deleted` only
then. That the VM is really gone when a pass reports so depends on the replies to
`tart get`.
-/

namespace MiniControl.WorkerCore

open Transition Fleet

/-- An entry of the desired list, as the worker decodes it. -/
structure DesiredWorkstation where
  id : String
  vmName : String
  slot : ℤ
  desiredPowerState : Input DesiredPowerState
  deriving DecidableEq

/-- `WorkstationRuntime`. The process handle is only tested for presence. -/
structure Runtime where
  workstationID : String
  vmName : String
  slot : ℤ
  desiredPowerState : Input DesiredPowerState
  state : PowerState
  ipAddress : Option String
  vmProcess : Bool
  lastError : Option String
  deriving DecidableEq

/-- `VMInfo`, without the time of the last change. -/
structure VMInfo where
  vmID : String
  slot : ℤ
  state : PowerState
  ipAddress : Option String
  lastError : Option String
  deriving DecidableEq

namespace Runtime

/-- The runtime of a newly desired workstation. -/
def new (desired : DesiredWorkstation) : Runtime where
  workstationID := desired.id
  vmName := desired.vmName
  slot := desired.slot
  desiredPowerState := desired.desiredPowerState
  state := .stopped
  ipAddress := none
  vmProcess := false
  lastError := none

/-- `apply`. -/
def apply (r : Runtime) (desired : DesiredWorkstation) : Runtime :=
  { r with desiredPowerState := desired.desiredPowerState }

/-- `markForDeletion`. -/
def markForDeletion (r : Runtime) : Runtime := { r with desiredPowerState := .value .deleted }

/-- `info`. -/
def info (r : Runtime) : VMInfo := ⟨r.workstationID, r.slot, r.state, r.ipAddress, r.lastError⟩

/-- `setState`. -/
def setState (r : Runtime) (state : PowerState) (error : Option String) : Runtime :=
  { r with state, lastError := error }

/-- `currentIPAddress`: no address when the VM or its address is not found. -/
def currentIPAddress (r : Runtime) (timeoutSeconds : ℕ) : TartM (Option String) := do
  if ← existsVM r.vmName then
    return foundAddress (← attempt (ip r.vmName timeoutSeconds))
  else
    return none

/-- The clone and the first configuration of a VM that is not found. -/
def cloneIfMissing (config : Config) (r : Runtime) : TartM Unit := do
  if ← existsVM r.vmName then
    return ()
  else
    let _ ← exec (.clone config.baseImage r.vmName)
    configure config r.vmName

/-- The start of a VM without an address. The process handle is kept when only
the wait for the address fails. -/
def launch (config : Config) (r : Runtime) : TartM Runtime := do
  configure config r.vmName
  start r.vmName
  let r := { r with vmProcess := true }
  match ← attempt (ip r.vmName 60) with
  | .ok ip => return { r with ipAddress := some ip }.setState .running none
  | .error error => return r.setState .error (some error.description)

/-- The part of `ensureRunning` that may throw. -/
def startVM (config : Config) (r : Runtime) : TartM Runtime := do
  r.cloneIfMissing config
  match ← r.currentIPAddress 5 with
  | some ip => return { r with ipAddress := some ip }.setState .running none
  | none => if r.vmProcess then return r else r.launch config

/-- `ensureRunning`. -/
def ensureRunning (config : Config) (r : Runtime) : Prog Command Reply Runtime := do
  let r := r.setState .starting none
  match ← (r.startVM config).run with
  | .ok r => pure r
  | .error error => pure (r.setState .error (some error.description))

/-- The part of `ensureStopped` that may throw. -/
def stopVM (r : Runtime) : TartM Unit := do
  if ← existsVM r.vmName then
    stopIfRunning r.vmName
  else
    return ()

/-- `ensureStopped`. -/
def ensureStopped (r : Runtime) : Prog Command Reply Runtime := do
  let r := r.setState .stopping none
  match ← r.stopVM.run with
  | .ok () => pure ({ r with vmProcess := false, ipAddress := none }.setState .stopped none)
  | .error error => pure (r.setState .error (some error.description))

/-- The part of `ensureDeleted` that may throw. -/
def deleteVM (r : Runtime) : TartM Unit := do
  if ← existsVM r.vmName then
    stopIfRunning r.vmName
    deleteIfExists r.vmName
  else
    return ()

/-- `ensureDeleted`. -/
def ensureDeleted (r : Runtime) : Prog Command Reply Runtime := do
  let r := r.setState .deleting none
  match ← r.deleteVM.run with
  | .ok () => pure ({ r with vmProcess := false, ipAddress := none }.setState .deleted none)
  | .error error => pure (r.setState .error (some error.description))

/-- `reconcile`. -/
def reconcile (config : Config) (r : Runtime) : Prog Command Reply Runtime :=
  match r.desiredPowerState with
  | .value .running => r.ensureRunning config
  | .value .stopped => r.ensureStopped
  | .value .deleted => r.ensureDeleted
  | .invalid text => pure (r.setState .error (some ("unknown desired power state " ++ text)))

/-- The commands that a pass of a runtime may issue: on its own VM only, a clone
only when it is to run, and a deletion only when it is to be deleted. -/
def Allows (r : Runtime) : Command → Prop
  | .clone _ name => name = r.vmName ∧ r.desiredPowerState = .value .running
  | .delete name => name = r.vmName ∧ r.desiredPowerState = .value .deleted
  | .get name | .readDiskSize name | .set name _ _ | .updateLocalConfig name _ | .start name
  | .ip name | .stop name => name = r.vmName
  | .list | .beforeDeadline | .sleep => True

/-- What a pass leaves of a runtime: its identity and its desired state. It ends
in the state `deleted` only when it is to be deleted. -/
structure Follows (r new : Runtime) : Prop where
  workstationID : new.workstationID = r.workstationID
  vmName : new.vmName = r.vmName
  slot : new.slot = r.slot
  desired : new.desiredPowerState = r.desiredPowerState
  deleted : new.state = .deleted → r.desiredPowerState = .value .deleted

/-- A pass that ends in another state than `deleted`. -/
theorem Follows.setState {r new : Runtime} {state : PowerState} {error : Option String}
    (hid : new.workstationID = r.workstationID) (hname : new.vmName = r.vmName)
    (hslot : new.slot = r.slot) (hdesired : new.desiredPowerState = r.desiredPowerState)
    (hstate : state ≠ .deleted) : r.Follows (new.setState state error) :=
  ⟨hid, hname, hslot, hdesired, fun h => absurd h hstate⟩

variable {config : Config} {r : Runtime}

/-- The start of a VM issues only allowed commands. -/
theorem startVM_only (hrun : r.desiredPowerState = .value .running) (hstate : r.state ≠ .deleted) :
    Only r.Allows r.Follows (r.startVM config) := by
  have hconfigure : Only r.Allows (fun _ => True) (configure config r.vmName) :=
    configure_only rfl trivial (fun _ _ => rfl) fun _ => rfl
  have hip : ∀ timeout, Only r.Allows (fun _ => True) (ip r.vmName timeout) := fun _ =>
    ip_only rfl trivial trivial
  have hclone : Only r.Allows (fun _ => True) (r.cloneIfMissing config) := by
    refine .bind (.lift (existsVM_issues rfl)) fun found _ => ?_
    cases found with
    | true => exact .pure trivial
    | false => exact .bind (.exec ⟨rfl, hrun⟩) fun _ _ => hconfigure
  have haddress : Only r.Allows (fun _ => True) (r.currentIPAddress 5) := by
    refine .bind (.lift (existsVM_issues rfl)) fun found _ => ?_
    cases found with
    | true => exact .bind (.attempt (hip 5)) fun _ _ => .pure trivial
    | false => exact .pure trivial
  have hlaunch : Only r.Allows r.Follows (r.launch config) := by
    refine .bind hconfigure fun _ _ => .bind (start_only rfl) fun _ _ => ?_
    refine .bind (.attempt (hip 60)) fun result _ => ?_
    cases result with
    | ok address => exact .pure (.setState rfl rfl rfl rfl nofun)
    | error error => exact .pure (.setState rfl rfl rfl rfl nofun)
  refine .bind hclone fun _ _ => .bind haddress fun address _ => ?_
  cases address with
  | some address => exact .pure (.setState rfl rfl rfl rfl nofun)
  | none =>
    dsimp only
    split_ifs
    · exact .pure ⟨rfl, rfl, rfl, rfl, fun h => absurd h hstate⟩
    · exact hlaunch

/-- The stop of a VM issues only allowed commands. -/
theorem stopVM_only : Only r.Allows (fun _ => True) r.stopVM := by
  refine .bind (.lift (existsVM_issues rfl)) fun found _ => ?_
  cases found with
  | true => exact stopIfRunning_only rfl
  | false => exact .pure trivial

/-- The deletion of a VM issues only allowed commands. -/
theorem deleteVM_only (hdelete : r.desiredPowerState = .value .deleted) :
    Only r.Allows (fun _ => True) r.deleteVM := by
  refine .bind (.lift (existsVM_issues rfl)) fun found _ => ?_
  cases found with
  | false => exact .pure trivial
  | true =>
    refine .bind (stopIfRunning_only rfl) fun _ _ => ?_
    refine .bind (.lift (existsVM_issues rfl)) fun found _ => ?_
    cases found with
    | false => exact .pure trivial
    | true => exact .bind (.exec ⟨rfl, hdelete⟩) fun _ _ => .pure trivial

/-- Whatever the host replies, a pass issues only allowed commands. -/
theorem reconcile_issues (config : Config) (r : Runtime) :
    (r.reconcile config).Issues r.Allows r.Follows := by
  unfold reconcile
  split
  next hrun =>
    have hstart := @startVM_only config (r.setState .starting none) hrun nofun
    refine Prog.Issues.bind hstart fun result hresult => ?_
    cases result with
    | ok new =>
      obtain ⟨hid, hname, hslot, hdesired, hdeleted⟩ := hresult new rfl
      exact Follows.mk hid hname hslot hdesired hdeleted
    | error error => exact Follows.setState rfl rfl rfl rfl nofun
  next hstop =>
    refine Prog.Issues.bind (stopVM_only (r := r.setState .stopping none)) fun result _ => ?_
    cases result with
    | ok _ => exact Follows.setState rfl rfl rfl rfl nofun
    | error error => exact Follows.setState rfl rfl rfl rfl nofun
  next hdelete =>
    refine Prog.Issues.bind (deleteVM_only (r := r.setState .deleting none) hdelete)
      fun result _ => ?_
    cases result with
    | ok _ => exact Follows.mk rfl rfl rfl rfl fun _ => hdelete
    | error error => exact Follows.setState rfl rfl rfl rfl nofun
  next text _ => exact Follows.setState rfl rfl rfl rfl nofun

end Runtime

/-- The replies of a host whose `tart get` fails only for a VM that does not exist. -/
def HonestStep (before : List String) (c : Command) (reply : Reply) (after : List String) : Prop :=
  c.Renames reply before after ∧ ∀ name, c = .get name → name ∈ before → reply.Ok

variable {c : Command} {reply : Reply} {name : String} {names : List String}

/-- The result of a reply is an output exactly when the process succeeded. -/
theorem Reply.result_ok {output : String} (h : reply.result c = .ok output) : reply.Ok := by
  cases reply with
  | exited status stdout stderr =>
    simp only [Reply.result] at h
    split_ifs at h with hstatus
    exact hstatus
  | notLaunched text => cases h

/-- The result of a reply is an error exactly when the process failed. -/
theorem Reply.result_error {error : TartError} (h : reply.result c = .error error) : ¬reply.Ok := by
  cases reply with
  | exited status stdout stderr =>
    simp only [Reply.result] at h
    split_ifs at h with hstatus
    exact hstatus
  | notLaunched text => exact id

/-- A command of the driver, judged by its reply. -/
theorem exec_wp {State : Type} {step : State → Command → Reply → State → Prop}
    {pre : State → Command → Prop} {post : Except TartError String → State → Prop} {s : State}
    (hpre : pre s c) (hpost : ∀ reply t, step s c reply t → post (reply.result c) t) :
    (exec c).run.wp step pre post s :=
  Prog.wp_bind.mpr ⟨hpre, hpost⟩

section Wp

variable {State α β : Type} {step : State → Command → Reply → State → Prop}
  {pre : State → Command → Prop} {s : State}

/-- Code run one after the other; an error skips what follows. -/
theorem bind_wp {code : TartM α} {f : α → TartM β} {post : Except TartError β → State → Prop}
    (h : code.run.wp step pre (fun result t => match result with
      | .ok value => (f value).run.wp step pre post t
      | .error error => post (.error error) t) s) :
    (code >>= f).run.wp step pre post s := by
  refine Prog.wp_bind.mpr (Prog.wp_mono h fun result t hresult => ?_)
  cases result with
  | ok value => exact hresult
  | error error => exact hresult

/-- Errors turned into values. -/
theorem attempt_wp {code : TartM α} {post : Except TartError (Except TartError α) → State → Prop}
    (h : code.run.wp step pre (fun result => post (.ok result)) s) :
    (attempt code).run.wp step pre post s :=
  Prog.wp_bind.mpr h

/-- Code that does not throw. -/
theorem lift_wp {code : Prog Command Reply α} {post : Except TartError α → State → Prop}
    (h : code.wp step pre (fun value => post (.ok value)) s) :
    (liftM code : TartM α).run.wp step pre post s :=
  Prog.wp_bind.mpr h

end Wp

/-- A test for existence is right on an honest host. -/
theorem existsVM_honest {post : Bool → List String → Prop}
    (h : post (decide (name ∈ names)) names) :
    (existsVM name).wp HonestStep (fun _ _ => True) post names := by
  refine Prog.wp_bind.mpr (exec_wp trivial fun reply after hstep => ?_)
  obtain ⟨⟨hafter, hfound⟩, hhonest⟩ := hstep
  have hiff : name ∈ names ↔ reply.Ok := ⟨hhonest name rfl, hfound⟩
  rw [hafter]
  cases hresult : reply.result (.get name) with
  | ok output =>
    rw [decide_eq_true (hiff.mpr (Reply.result_ok hresult))] at h
    exact h
  | error error =>
    rw [decide_eq_false (mt hiff.mp (Reply.result_error hresult))] at h
    exact h

/-- A stop removes no VM. -/
theorem stopIfRunning_honest {post : Except TartError Unit → List String → Prop}
    (h : ∀ result, post result names) :
    (stopIfRunning name).run.wp HonestStep (fun _ _ => True) post names := by
  refine Prog.wp_bind.mpr (exec_wp trivial fun reply after hstep => ?_)
  obtain ⟨hafter, _⟩ := hstep
  rw [hafter]
  cases reply.result (.stop name) with
  | ok output => exact h _
  | error error =>
    dsimp only
    split_ifs
    · exact h _
    · exact h _

/-- On an honest host a deletion that does not throw leaves no VM behind. -/
theorem Runtime.deleteVM_honest (r : Runtime) (names : List String) :
    r.deleteVM.run.wp HonestStep (fun _ _ => True)
      (fun result names => result = .ok () → r.vmName ∉ names) names := by
  refine bind_wp (lift_wp (existsVM_honest ?_))
  by_cases hname : r.vmName ∈ names
  · rw [decide_eq_true hname]
    refine bind_wp (stopIfRunning_honest fun result => ?_)
    cases result with
    | error error => exact nofun
    | ok _ =>
      refine bind_wp (lift_wp (existsVM_honest ?_))
      rw [decide_eq_true hname]
      refine bind_wp (exec_wp trivial fun reply after hstep => ?_)
      cases hresult : reply.result (.delete r.vmName) with
      | error error => exact nofun
      | ok output =>
        rcases hstep.1 with hafter | ⟨hfailed, _⟩
        · intro _ hmem
          rw [hafter] at hmem
          exact absurd (List.mem_filter.mp hmem).2 (by simp)
        · exact absurd (Reply.result_ok hresult) hfailed
  · rw [decide_eq_false hname]
    exact fun _ => hname

/-- On an honest host a pass that ends in the state `deleted` leaves no VM behind. -/
theorem Runtime.reconcile_honest (config : Config) (r : Runtime) (names : List String)
    (hdelete : r.desiredPowerState = .value .deleted) :
    (r.reconcile config).wp HonestStep (fun _ _ => True)
      (fun new names => new.state = .deleted → r.vmName ∉ names) names := by
  rw [reconcile, hdelete]
  refine Prog.wp_bind.mpr (Prog.wp_mono (deleteVM_honest (r.setState .deleting none) names) ?_)
  intro result names hresult
  cases result with
  | ok _ => exact fun _ => hresult rfl
  | error error => exact nofun

end MiniControl.WorkerCore
