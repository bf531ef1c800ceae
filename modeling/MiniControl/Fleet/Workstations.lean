import MiniControl.Fleet.Model
import MiniControl.Tables.Keyed
import MiniControl.Text.Space

/-!
# Operations on one workstation

Three operations lock one row with `SELECT ... FOR UPDATE`, decide what to do
from what they read, and run at most one further statement: a member's resume, a
change of the desired power state, and a status report of a worker. The decision
is a function of the locked row.
-/

namespace MiniControl.Fleet

/-- What a row operation answers to its caller. -/
inductive RowReply
  | workstation (row : Workstation)
  | done
  | notFound
  | beingDeleted
  | unsupportedDesired (text : String)
  | foreignWorkstation
  | invalidPowerState (text : String)
  /-- A statement or the connection failed, and the transaction was rolled back. -/
  | failed
  deriving DecidableEq

/-- The text of the errors among the replies. -/
def RowReply.message : RowReply → Option String
  | .workstation _ | .done => none
  | .notFound => some "no rows in result set"
  | .beingDeleted => some "workstation is being deleted"
  | .unsupportedDesired text => some ("unsupported desired power state \"" ++ text ++ "\"")
  | .foreignWorkstation => some "workstation does not belong to worker"
  | .invalidPowerState text => some ("invalid input value for enum workstation_power_state: \"" ++
      text ++ "\"")
  | .failed => some "transaction rolled back"

/-- What follows the locking read: an answer, or one more statement. -/
inductive Decision
  | answer (reply : RowReply)
  /-- `UPDATE ... WHERE id = $1`, evaluated on the row as it is then. -/
  | update (set : Workstation → Workstation)
  /-- `DELETE ... WHERE id = $1`. -/
  | delete

/-- The `UPDATE` of a resumed workstation that is not running. -/
def setResumed (now : Time) (row : Workstation) : Workstation :=
  { row with
    desiredPowerState := .running
    powerState := match row.powerState with
      | .stopped | .error => .starting
      | other => other
    lastError := ""
    updatedAt := now }

/-- `claimExistingWorkstation`. -/
def claimExistingWorkstation (now : Time) (row : Workstation) : Decision :=
  match row.powerState with
  | .deleting | .deleted => .answer .beingDeleted
  | .stopped | .error | .stopping => .update (setResumed now)
  | .starting | .running =>
    if row.desiredPowerState ≠ .running then
      .update fun current => { current with desiredPowerState := .running, updatedAt := now }
    else .answer (.workstation row)

/-- `EnsureWorkstationRunningByIDForMember` after its locking read. -/
def ensureWorkstationRunning (now : Time) (row : Workstation) : Decision :=
  if row.desiredPowerState = .deleted then .answer (.workstation row)
  else if row.powerState = .deleting ∨ row.powerState = .deleted then .answer (.workstation row)
  else claimExistingWorkstation now row

/-- The power state that a change of the desired state sets at once. -/
def nextPowerState (desired : DesiredPowerState) (current : PowerState) : PowerState :=
  match desired with
  | .running => if current = .stopped ∨ current = .error then .starting else current
  | .stopped => if current = .starting ∨ current = .running then .stopping else current
  | .deleted => .deleting

/-- `UpdateWorkstationDesiredPowerStateByID` after its locking read. -/
def updateWorkstationDesiredPowerState (now : Time) (desired : Input DesiredPowerState)
    (row : Workstation) : Decision :=
  if row.powerState = .deleting ∨ row.powerState = .deleted then .answer .beingDeleted
  else match desired with
    | .invalid text => .answer (.unsupportedDesired text)
    | .value desired =>
      let next := nextPowerState desired row.powerState
      .update fun current =>
        { current with desiredPowerState := desired, powerState := next, updatedAt := now }

/-- `UpdateWorkstationStatus` after its locking read. -/
def updateWorkstationStatus (now : Time) (workerID : String) (report : StatusReport)
    (row : Workstation) : Decision :=
  if row.workerID ≠ workerID then .answer .foreignWorkstation
  else
    let ipAddress := Text.trimSpace report.ipAddress
    let lastError := Text.trimSpace report.lastError
    if report.powerState = .value .deleted ∧ row.desiredPowerState = .deleted then .delete
    else if row.desiredPowerState = .deleted then
      .update fun current => { current with lastError := lastError, updatedAt := now }
    else match report.powerState with
      | .invalid text => .answer (.invalidPowerState text)
      | .value powerState => .update fun current =>
          { current with powerState, ipAddress, lastError, updatedAt := now }

/-- The operations on one row, with their arguments. -/
inductive RowOp
  | ensureRunning (memberID workstationID : String)
  | setDesired (memberID workstationID : String) (desired : Input DesiredPowerState)
  | reportStatus (workerID : String) (report : StatusReport)
  deriving DecidableEq

namespace RowOp

/-- The row that the operation locks. -/
def workstationID : RowOp → String
  | ensureRunning _ id => id
  | setDesired _ id _ => id
  | reportStatus _ report => report.workstationID

/-- The `WHERE` clause of the locking read. -/
def selects (op : RowOp) (row : Workstation) : Bool :=
  match op with
  | ensureRunning memberID id => row.memberID = memberID && row.id = id
  | setDesired memberID id _ => row.memberID = memberID && row.id = id
  | reportStatus _ report => row.id = report.workstationID

/-- The answer when the locking read finds no row. -/
def missing : RowOp → RowReply
  | ensureRunning _ _ => .notFound
  | setDesired _ _ _ => .notFound
  | reportStatus _ _ => .done

/-- What the operation does with the row it has locked. -/
def decision (op : RowOp) (now : Time) (row : Workstation) : Decision :=
  match op with
  | ensureRunning _ _ => ensureWorkstationRunning now row
  | setDesired _ _ desired => updateWorkstationDesiredPowerState now desired row
  | reportStatus workerID report => updateWorkstationStatus now workerID report row

/-- The answer after an `UPDATE` that returned the given row. -/
def updated (op : RowOp) (row : Workstation) : RowReply :=
  match op with
  | ensureRunning _ _ => .workstation row
  | setDesired _ _ _ => .workstation row
  | reportStatus _ _ => .done

/-- A selected row has the id of the operation. -/
theorem id_of_selects {op : RowOp} {row : Workstation} (h : op.selects row = true) :
    row.id = op.workstationID := by
  cases op <;> simp_all [selects, workstationID]

end RowOp

/-- The columns that no row operation writes. -/
structure SamePlace (old new : Workstation) : Prop where
  id : new.id = old.id
  memberID : new.memberID = old.memberID
  workerID : new.workerID = old.workerID
  slot : new.slot = old.slot
  vmName : new.vmName = old.vmName
  createdAt : new.createdAt = old.createdAt

variable {a b c row : Workstation} {now : Time} {set : Workstation → Workstation} {op : RowOp}

/-- Places that agree along two updates agree. -/
theorem SamePlace.trans (hab : SamePlace a b) (hbc : SamePlace b c) :
    SamePlace a c :=
  ⟨hbc.id.trans hab.id, hbc.memberID.trans hab.memberID, hbc.workerID.trans hab.workerID,
    hbc.slot.trans hab.slot, hbc.vmName.trans hab.vmName, hbc.createdAt.trans hab.createdAt⟩

/-- The columns that an update of a row marked for deletion leaves as well. -/
structure SameMark (old new : Workstation) : Prop where
  desiredPowerState : new.desiredPowerState = old.desiredPowerState
  powerState : new.powerState = old.powerState
  ipAddress : new.ipAddress = old.ipAddress

/-- Marks that agree along two updates agree. -/
theorem SameMark.trans (hab : SameMark a b) (hbc : SameMark b c) :
    SameMark a c :=
  ⟨hbc.desiredPowerState.trans hab.desiredPowerState, hbc.powerState.trans hab.powerState,
    hbc.ipAddress.trans hab.ipAddress⟩

/-- A row marked for deletion is being deleted. -/
def Marked (row : Workstation) : Prop :=
  row.desiredPowerState = .deleted → row.powerState = .deleting

/-- What an update may make of a row: it stays in its place and keeps the mark,
and nothing but the error text of a marked row changes. -/
structure Successor (old new : Workstation) : Prop extends SamePlace old new where
  marked : Marked old → Marked new
  absorbing : Marked old → old.desiredPowerState = .deleted → SameMark old new

/-- A row that does not change. -/
theorem Successor.refl (row : Workstation) : Successor row row where
  id := rfl
  memberID := rfl
  workerID := rfl
  slot := rfl
  vmName := rfl
  createdAt := rfl
  marked := id
  absorbing _ _ := ⟨rfl, rfl, rfl⟩

/-- A resume never touches a row marked for deletion. -/
theorem ensureWorkstationRunning_update (h : ensureWorkstationRunning now row = .update set) :
    Successor row (set row) := by
  unfold ensureWorkstationRunning at h
  split_ifs at h with hdesired hpower
  have hset : SamePlace row (set row) ∧ (set row).desiredPowerState = .running := by
    unfold claimExistingWorkstation at h
    split at h
    case h_1 | h_2 => cases h
    case h_3 | h_4 | h_5 =>
      cases h
      exact ⟨⟨rfl, rfl, rfl, rfl, rfl, rfl⟩, rfl⟩
    case h_6 | h_7 =>
      split_ifs at h
      cases h
      exact ⟨⟨rfl, rfl, rfl, rfl, rfl, rfl⟩, rfl⟩
  refine ⟨hset.1, fun _ hdeleted => ?_, fun _ hdeleted => absurd hdeleted hdesired⟩
  rw [hset.2] at hdeleted
  cases hdeleted

/-- A change of the desired state refuses rows marked for deletion, and marks a
row together with its power state. -/
theorem updateWorkstationDesiredPowerState_update {desired : Input DesiredPowerState}
    (h : updateWorkstationDesiredPowerState now desired row = .update set) :
    Successor row (set row) := by
  unfold updateWorkstationDesiredPowerState at h
  split_ifs at h with hpower
  split at h
  next => cases h
  next desired =>
    cases h
    refine ⟨⟨rfl, rfl, rfl, rfl, rfl, rfl⟩, fun _ hdeleted => ?_, fun hmarked hdeleted => ?_⟩
    · have hdesired : desired = .deleted := hdeleted
      subst hdesired
      rfl
    · exact absurd (.inl (hmarked hdeleted)) hpower

/-- A report changes only the error text of a row marked for deletion. -/
theorem updateWorkstationStatus_update {workerID : String} {report : StatusReport}
    (h : updateWorkstationStatus now workerID report row = .update set) :
    Successor row (set row) := by
  unfold updateWorkstationStatus at h
  dsimp only at h
  split_ifs at h with hworker hdelete hdesired
  · cases h
    exact ⟨⟨rfl, rfl, rfl, rfl, rfl, rfl⟩, fun hmarked => hmarked, fun _ _ => ⟨rfl, rfl, rfl⟩⟩
  · split at h
    next => cases h
    next powerState =>
      cases h
      exact ⟨⟨rfl, rfl, rfl, rfl, rfl, rfl⟩, fun _ h => absurd h hdesired,
        fun _ h => absurd h hdesired⟩

/-- Every update of a row operation makes a successor of the row. -/
theorem RowOp.decision_update (h : op.decision now row = .update set) :
    Successor row (set row) := by
  cases op with
  | ensureRunning => exact ensureWorkstationRunning_update h
  | setDesired => exact updateWorkstationDesiredPowerState_update h
  | reportStatus => exact updateWorkstationStatus_update h

/-- Only a report `deleted` of the own worker about a row marked for deletion
deletes the row. -/
theorem RowOp.decision_delete (h : op.decision now row = .delete) :
    row.desiredPowerState = .deleted ∧ ∃ report : StatusReport,
      report.powerState = .value .deleted ∧ op = .reportStatus row.workerID report := by
  cases op with
  | ensureRunning memberID id =>
    simp only [decision, ensureWorkstationRunning, claimExistingWorkstation] at h
    split_ifs at h <;> split at h <;> cases h
  | setDesired memberID id desired =>
    simp only [decision, updateWorkstationDesiredPowerState] at h
    split_ifs at h
    split at h <;> cases h
  | reportStatus workerID report =>
    simp only [decision, updateWorkstationStatus] at h
    split_ifs at h with hworker hdelete
    · exact ⟨hdelete.2, report, hdelete.1, by rw [not_not.mp hworker]⟩
    · split at h <;> cases h

end MiniControl.Fleet
