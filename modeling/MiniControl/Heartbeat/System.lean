import MiniControl.Fleet.Statements
import MiniControl.WorkerCore.Manager

/-!
# One worker and the server

The worker process repeats a loop: one pass over all runtimes, then possibly a
heartbeat whose answer it waits for. The server handles every heartbeat request
in its own time: it records the heartbeat, runs one transaction for each entry of
the request, and answers with the desired list that it reads at the end. Requests
and answers may be lost, be late or be errors, members and other workers use the
server meanwhile, tart commands fail, guests power off, and the worker process
restarts. A restart ends the commands that the process has running.
-/

namespace MiniControl.Heartbeat

open Transition Fleet WorkerCore

/-- The server's side of one heartbeat request. -/
inductive Handler
  | unused
  /-- On its way to the server. -/
  | sent (statuses : List StatusReport)
  /-- The entries that are left, and the transaction of the current entry. -/
  | reporting (statuses : List StatusReport) (running : Option ℕ)
  /-- The answer on its way to the worker. -/
  | responding (desired : List Fleet.DesiredWorkstation)
  /-- Lost, answered with an error, or received. -/
  | closed
  deriving DecidableEq

/-- The position of the worker process in its loop. -/
inductive Position
  | ready
  /-- The runtimes left in this pass, and the pass of the current one. -/
  | reconciling (todo : List String) (current : Option (Runtime × Prog Command Reply Runtime))
  | reconciled (statuses : List StatusReport)
  | awaiting (request : ℕ)

/-- The worker process. -/
structure Process where
  manager : Manager
  position : Position

/-- A process that has just started. -/
def Process.fresh : Process := ⟨.empty, .ready⟩

/-- The server, the requests, the worker process and its host. -/
structure State where
  server : Fleet.State
  handlers : ℕ → Handler
  process : Process
  host : Host

/-- The steps of the system. -/
inductive Event
  /-- A statement of any client of the database. -/
  | server (tx : ℕ) (action : Action)
  /-- The request reaches the server, which records the heartbeat or fails to. -/
  | arrive (request : ℕ) (recorded : Option (ℕ × Time))
  /-- The transaction of the next entry begins. -/
  | report (request tx : ℕ)
  /-- The transaction of the current entry has ended. -/
  | reported (request : ℕ)
  /-- The desired list is read. -/
  | list (request : ℕ)
  /-- The request or its answer is lost, or the answer is an error. -/
  | drop (request : ℕ)
  | startPass (order : List String)
  | startRuntime
  /-- The current command ends with a reply. -/
  | tart (reply : Reply) (effect : Bool)
  | finishRuntime
  | finishPass
  | skipHeartbeat
  | sendHeartbeat (request : ℕ)
  | receive
  /-- The wait for the answer ends with an error. -/
  | giveUp
  | restart
  | powerOff (name : String)

/-- The parameters of the system. -/
structure Setup where
  server : Server
  config : Config
  workerID : String

/-- A statement that reports for the worker of this system. Only the handlers of
its heartbeats do so. -/
def reportsFor (workerID : String) : Action → Bool
  | .beginRow (.reportStatus id _) => id = workerID
  | _ => false

/-- `ListDesiredWorkstationsByWorker`, in the order of the slots. -/
def listDesiredWorkstations (workerID : String) (rows : List Workstation) :
    List Fleet.DesiredWorkstation :=
  ((rows.filter (·.workerID = workerID)).insertionSort (·.slot ≤ ·.slot)).map fun w =>
    ⟨w.id, w.vmName, w.slot, w.desiredPowerState⟩

variable {workerID : String} {rows : List Workstation}

/-- The rows of a worker are what the server lists. -/
theorem mem_listDesiredWorkstations {d : Fleet.DesiredWorkstation} :
    d ∈ listDesiredWorkstations workerID rows ↔
      ∃ w ∈ rows, w.workerID = workerID ∧ d = ⟨w.id, w.vmName, w.slot, w.desiredPowerState⟩ := by
  simp only [listDesiredWorkstations, List.mem_map, List.mem_insertionSort, List.mem_filter,
    decide_eq_true_eq, and_assoc, @eq_comm _ d]

/-- Every row is listed once. -/
theorem nodup_listDesiredWorkstations (hids : (rows.map Workstation.id).Nodup) :
    ((listDesiredWorkstations workerID rows).map (·.id)).Nodup := by
  have hperm := ((rows.filter (·.workerID = workerID)).perm_insertionSort (·.slot ≤ ·.slot)).map
    Workstation.id
  rw [listDesiredWorkstations, List.map_map]
  exact hperm.nodup_iff.mpr ((List.filter_sublist.map _).nodup hids)

/-- The transaction of an entry has ended. -/
def transactionEnded : Transaction → Bool
  | .row _ (.finished _) => true
  | _ => false

namespace State

/-- Change the server's side of one request. -/
def setHandler (s : State) (request : ℕ) (handler : Handler) : State :=
  { s with handlers := Function.update s.handlers request handler }

/-- The changed request. -/
@[simp]
theorem setHandler_self (s : State) (request : ℕ) (handler : Handler) :
    (s.setHandler request handler).handlers request = handler :=
  Function.update_self _ _ _

/-- The other requests. -/
theorem setHandler_of_ne (s : State) {request other : ℕ} (h : other ≠ request)
    (handler : Handler) : (s.setHandler request handler).handlers other = s.handlers other :=
  Function.update_of_ne h _ _

/-- Change the position of the worker process. -/
def goto (s : State) (position : Position) : State :=
  { s with process := { s.process with position } }

/-- The command that the worker is executing. -/
def command (s : State) : Option Command :=
  match s.process.position with
  | .reconciling _ (some (_, .call c _)) => some c
  | _ => none

end State

/-- One step of the system. -/
def Setup.step (setup : Setup) (s : State) : Event → Option State
  | .server tx action =>
    if reportsFor setup.workerID action then none
    else (setup.server.program.step s.server (tx, action)).map fun server => { s with server }
  | .arrive request recorded =>
    match s.handlers request with
    | .sent statuses =>
      match recorded with
      | none => some (s.setHandler request (.reporting statuses none))
      | some (tx, now) =>
        (setup.server.program.step s.server (tx, .updateWorker now setup.workerID .heartbeat)).map
          fun server => { s with server }.setHandler request (.reporting statuses none)
    | _ => none
  | .report request tx =>
    match s.handlers request with
    | .reporting (status :: statuses) none =>
      (setup.server.program.step s.server
        (tx, .beginRow (.reportStatus setup.workerID status))).map fun server =>
          { s with server }.setHandler request (.reporting statuses (some tx))
    | _ => none
  | .reported request =>
    match s.handlers request with
    | .reporting statuses (some tx) =>
      if transactionEnded (s.server.locals tx) then
        some (s.setHandler request (.reporting statuses none))
      else none
    | _ => none
  | .list request =>
    match s.handlers request with
    | .reporting [] none =>
      some (s.setHandler request (.responding
        (listDesiredWorkstations setup.workerID s.server.shared.db.workstations)))
    | _ => none
  | .drop request =>
    match s.handlers request with
    | .unused => none
    | _ => some (s.setHandler request .closed)
  | .startPass order =>
    match s.process.position with
    | .ready =>
      if order.isPerm (s.process.manager.runtimes.map (·.workstationID)) then
        some (s.goto (.reconciling order none))
      else none
    | _ => none
  | .startRuntime =>
    match s.process.position with
    | .reconciling (id :: todo) none =>
      match s.process.manager.runtimes.find? (·.workstationID = id) with
      | some r => some (s.goto (.reconciling todo (some (r, r.reconcile setup.config))))
      | none => some (s.goto (.reconciling todo none))
    | _ => none
  | .tart reply effect =>
    match s.process.position with
    | .reconciling todo (some (r, .call c next)) =>
      (s.host.exec c reply effect).map fun host =>
        { s with host }.goto (.reconciling todo (some (r, next reply)))
    | _ => none
  | .finishRuntime =>
    match s.process.position with
    | .reconciling todo (some (_, .done new)) =>
      some { s with process := ⟨s.process.manager.put new, .reconciling todo none⟩ }
    | _ => none
  | .finishPass =>
    match s.process.position with
    | .reconciling [] none =>
      let manager := s.process.manager.forgetDeleted
      some { s with process := ⟨manager, .reconciled (manager.allVMInfo.map VMInfo.status)⟩ }
    | _ => none
  | .skipHeartbeat =>
    match s.process.position with
    | .reconciled _ => some (s.goto .ready)
    | _ => none
  | .sendHeartbeat request =>
    match s.process.position, s.handlers request with
    | .reconciled statuses, .unused =>
      some ((s.setHandler request (.sent statuses)).goto (.awaiting request))
    | _, _ => none
  | .receive =>
    match s.process.position with
    | .awaiting request =>
      match s.handlers request with
      | .responding desired =>
        let manager :=
          s.process.manager.applyDesiredWorkstations (desired.map decodeDesired) true
        some ({ s with process := ⟨manager, .ready⟩ }.setHandler request .closed)
      | _ => none
    | _ => none
  | .giveUp =>
    match s.process.position with
    | .awaiting _ =>
      let manager := s.process.manager.applyDesiredWorkstations [] false
      some { s with process := ⟨manager, .ready⟩ }
    | _ => none
  | .restart => some { s with process := .fresh }
  | .powerOff name => some { s with host := s.host.setAddress name none }

/-- A fresh server, a worker that has just started, and a host with some VMs. -/
def initial (host : Host) : State := ⟨Fleet.State.initial, fun _ => .unused, .fresh, host⟩

/-- All runs of the system from a given host. -/
def Setup.system (setup : Setup) (host : Host) : System State Event :=
  System.ofStep (· = initial host) setup.step

end MiniControl.Heartbeat
