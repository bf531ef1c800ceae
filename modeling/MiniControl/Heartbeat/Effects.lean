import MiniControl.Fleet.Lifecycle
import MiniControl.Heartbeat.System

/-!
# What one step of the system does

`Effect` lists the outcomes of a step with the facts that hold when it is taken.
The database takes part in the steps as it does on its own, so that everything
proved about its runs holds in the runs of the system.
-/

namespace MiniControl.Heartbeat

open Transition Fleet WorkerCore

/-- What one step of the system does. -/
inductive Effect (setup : Setup) (s : State) : Event → State → Prop
  | server {tx : ℕ} {action : Action} {server : Fleet.State} :
      ¬reportsFor setup.workerID action = true →
      setup.server.system.next s.server (tx, action) server →
      Effect setup s (.server tx action) { s with server }
  | arrive {q : ℕ} {statuses : List StatusReport} : s.handlers q = .sent statuses →
      Effect setup s (.arrive q none) (s.setHandler q (.reporting statuses none))
  | record {q tx : ℕ} {now : Time} {statuses : List StatusReport} {server : Fleet.State} :
      s.handlers q = .sent statuses →
      setup.server.system.next s.server (tx, .updateWorker now setup.workerID .heartbeat) server →
      Effect setup s (.arrive q (some (tx, now)))
        ({ s with server }.setHandler q (.reporting statuses none))
  | report {q tx : ℕ} {status : StatusReport} {statuses : List StatusReport}
      {server : Fleet.State} :
      s.handlers q = .reporting (status :: statuses) none →
      setup.server.system.next s.server
        (tx, .beginRow (.reportStatus setup.workerID status)) server →
      Effect setup s (.report q tx) ({ s with server }.setHandler q (.reporting statuses (some tx)))
  | reported {q tx : ℕ} {statuses : List StatusReport} :
      s.handlers q = .reporting statuses (some tx) →
      transactionEnded (s.server.locals tx) = true →
      Effect setup s (.reported q) (s.setHandler q (.reporting statuses none))
  | list {q : ℕ} : s.handlers q = .reporting [] none →
      Effect setup s (.list q) (s.setHandler q (.responding
        (listDesiredWorkstations setup.workerID s.server.shared.db.workstations)))
  | drop {q : ℕ} : Effect setup s (.drop q) (s.setHandler q .closed)
  | startPass {order : List String} : s.process.position = .ready →
      order.isPerm (s.process.manager.runtimes.map (·.workstationID)) = true →
      Effect setup s (.startPass order) (s.goto (.reconciling order none))
  | startRuntime {workstationID : String} {todo : List String} {r : Runtime} :
      s.process.position = .reconciling (workstationID :: todo) none →
      r ∈ s.process.manager.runtimes →
      Effect setup s .startRuntime
        (s.goto (.reconciling todo (some (r, r.reconcile setup.config))))
  | skipRuntime {workstationID : String} {todo : List String} :
      s.process.position = .reconciling (workstationID :: todo) none →
      Effect setup s .startRuntime (s.goto (.reconciling todo none))
  | tart {todo : List String} {r : Runtime} {c : Command}
      {next : Reply → Prog Command Reply Runtime} {reply : Reply} {effect : Bool} {host : Host} :
      s.process.position = .reconciling todo (some (r, .call c next)) →
      s.host.exec c reply effect = some host →
      Effect setup s (.tart reply effect)
        ({ s with host }.goto (.reconciling todo (some (r, next reply))))
  | finishRuntime {todo : List String} {r new : Runtime} :
      s.process.position = .reconciling todo (some (r, .done new)) →
      Effect setup s .finishRuntime
        { s with process := ⟨s.process.manager.put new, .reconciling todo none⟩ }
  | finishPass : s.process.position = .reconciling [] none →
      Effect setup s .finishPass { s with
        process := ⟨s.process.manager.forgetDeleted,
          .reconciled (s.process.manager.forgetDeleted.allVMInfo.map VMInfo.status)⟩ }
  | skipHeartbeat {statuses : List StatusReport} : s.process.position = .reconciled statuses →
      Effect setup s .skipHeartbeat (s.goto .ready)
  | sendHeartbeat {q : ℕ} {statuses : List StatusReport} :
      s.process.position = .reconciled statuses → s.handlers q = .unused →
      Effect setup s (.sendHeartbeat q) ((s.setHandler q (.sent statuses)).goto (.awaiting q))
  | receive {q : ℕ} {desired : List Fleet.DesiredWorkstation} :
      s.process.position = .awaiting q → s.handlers q = .responding desired →
      Effect setup s .receive ({ s with
        process := ⟨s.process.manager.applyDesiredWorkstations (desired.map decodeDesired) true,
          .ready⟩ }.setHandler q .closed)
  | giveUp {q : ℕ} : s.process.position = .awaiting q →
      Effect setup s .giveUp (s.goto .ready)
  | restart : Effect setup s .restart { s with process := .fresh }
  | powerOff {name : String} :
      Effect setup s (.powerOff name) { s with host := s.host.setAddress name none }

section Steps

variable {setup : Setup} {s t : State} {tx q : ℕ}

/-- A statement of a client that does not report for this worker is one of the database. -/
theorem Setup.effect_of_server {action : Action} (h : setup.step s (.server tx action) = some t) :
    Effect setup s (.server tx action) t := by
  simp only [Setup.step] at h
  split_ifs at h with hquiet
  obtain ⟨server, hserver, rfl⟩ := Option.map_eq_some_iff.mp h
  exact .server hquiet hserver

/-- A request arrives, and its handler goes on whether the heartbeat was recorded or not. -/
theorem Setup.effect_of_arrive {recorded : Option (ℕ × Time)}
    (h : setup.step s (.arrive q recorded) = some t) : Effect setup s (.arrive q recorded) t := by
  simp only [Setup.step] at h
  split at h
  next statuses hq =>
    split at h
    next =>
      cases h
      exact .arrive hq
    next tx now =>
      obtain ⟨server, hserver, rfl⟩ := Option.map_eq_some_iff.mp h
      exact .record hq hserver
  next => cases h

/-- A handler begins the transaction of its next entry. -/
theorem Setup.effect_of_report (h : setup.step s (.report q tx) = some t) :
    Effect setup s (.report q tx) t := by
  simp only [Setup.step] at h
  split at h
  next status statuses hq =>
    obtain ⟨server, hserver, rfl⟩ := Option.map_eq_some_iff.mp h
    exact .report hq hserver
  next => cases h

/-- A handler goes on when the transaction of its entry has ended, however it ended. -/
theorem Setup.effect_of_reported (h : setup.step s (.reported q) = some t) :
    Effect setup s (.reported q) t := by
  simp only [Setup.step] at h
  split at h
  next statuses tx hq =>
    split_ifs at h with hended
    cases h
    exact .reported hq hended
  next => cases h

/-- A handler that has no entry left answers with the list of desired workstations. -/
theorem Setup.effect_of_list (h : setup.step s (.list q) = some t) :
    Effect setup s (.list q) t := by
  simp only [Setup.step] at h
  split at h
  next hq =>
    cases h
    exact .list hq
  next => cases h

/-- A request or its answer is lost. -/
theorem Setup.effect_of_drop (h : setup.step s (.drop q) = some t) :
    Effect setup s (.drop q) t := by
  simp only [Setup.step] at h
  split at h
  next => cases h
  next =>
    cases h
    exact .drop

/-- A pass goes through the runtimes in some order. -/
theorem Setup.effect_of_startPass {order : List String}
    (h : setup.step s (.startPass order) = some t) : Effect setup s (.startPass order) t := by
  simp only [Setup.step] at h
  split at h
  next hposition =>
    split_ifs at h with horder
    cases h
    exact .startPass hposition horder
  next => cases h

/-- A pass takes up the next runtime, or goes on if it is gone. -/
theorem Setup.effect_of_startRuntime (h : setup.step s .startRuntime = some t) :
    Effect setup s .startRuntime t := by
  simp only [Setup.step] at h
  split at h
  next workstationID todo hposition =>
    split at h
    next r hr =>
      cases h
      exact .startRuntime hposition (List.mem_of_find?_eq_some hr)
    next =>
      cases h
      exact .skipRuntime hposition
  next => cases h

/-- The command of the current runtime ends, and the host is what the command makes of it.
-/
theorem Setup.effect_of_tart {reply : Reply} {effect : Bool}
    (h : setup.step s (.tart reply effect) = some t) : Effect setup s (.tart reply effect) t := by
  simp only [Setup.step] at h
  split at h
  next todo r c next hposition =>
    obtain ⟨host, hhost, rfl⟩ := Option.map_eq_some_iff.mp h
    exact .tart hposition hhost
  next => cases h

/-- The manager keeps what the pass made of a runtime. -/
theorem Setup.effect_of_finishRuntime (h : setup.step s .finishRuntime = some t) :
    Effect setup s .finishRuntime t := by
  simp only [Setup.step] at h
  split at h
  next todo r new hposition =>
    cases h
    exact .finishRuntime hposition
  next => cases h

/-- At the end of a pass the deleted runtimes are forgotten and the others reported. -/
theorem Setup.effect_of_finishPass (h : setup.step s .finishPass = some t) :
    Effect setup s .finishPass t := by
  simp only [Setup.step] at h
  split at h
  next hposition =>
    cases h
    exact .finishPass hposition
  next => cases h

/-- A worker that does not send its report starts over. -/
theorem Setup.effect_of_skipHeartbeat (h : setup.step s .skipHeartbeat = some t) :
    Effect setup s .skipHeartbeat t := by
  simp only [Setup.step] at h
  split at h
  next statuses hposition =>
    cases h
    exact .skipHeartbeat hposition
  next => cases h

/-- A report is sent with a new request. -/
theorem Setup.effect_of_sendHeartbeat (h : setup.step s (.sendHeartbeat q) = some t) :
    Effect setup s (.sendHeartbeat q) t := by
  simp only [Setup.step] at h
  split at h
  next statuses hposition hq =>
    cases h
    exact .sendHeartbeat hposition hq
  next => cases h

/-- The answer to the request that the worker waits for is applied. -/
theorem Setup.effect_of_receive (h : setup.step s .receive = some t) :
    Effect setup s .receive t := by
  simp only [Setup.step] at h
  split at h
  next q hposition =>
    split at h
    next desired hq =>
      cases h
      exact .receive hposition hq
    next => cases h
  next => cases h

/-- The worker stops waiting for an answer. -/
theorem Setup.effect_of_giveUp (h : setup.step s .giveUp = some t) :
    Effect setup s .giveUp t := by
  simp only [Setup.step] at h
  split at h
  next q hposition =>
    cases h
    exact .giveUp hposition
  next => cases h

/-- Every step has one of the listed effects. -/
theorem Setup.step_effect {e : Event} (h : setup.step s e = some t) : Effect setup s e t := by
  cases e with
  | server => exact setup.effect_of_server h
  | arrive => exact setup.effect_of_arrive h
  | report => exact setup.effect_of_report h
  | reported => exact setup.effect_of_reported h
  | list => exact setup.effect_of_list h
  | drop => exact setup.effect_of_drop h
  | startPass => exact setup.effect_of_startPass h
  | startRuntime => exact setup.effect_of_startRuntime h
  | tart => exact setup.effect_of_tart h
  | finishRuntime => exact setup.effect_of_finishRuntime h
  | finishPass => exact setup.effect_of_finishPass h
  | skipHeartbeat => exact setup.effect_of_skipHeartbeat h
  | sendHeartbeat => exact setup.effect_of_sendHeartbeat h
  | receive => exact setup.effect_of_receive h
  | giveUp => exact setup.effect_of_giveUp h
  | restart =>
    cases h
    exact .restart
  | powerOff name =>
    cases h
    exact .powerOff

end Steps

/-- The database either stays as it is or takes one of its own steps, and then
the host stays as it is. -/
theorem Effect.server_next {setup : Setup} {s t : State} {e : Event} (h : Effect setup s e t) :
    t.server = s.server ∨
      (∃ e', setup.server.system.next s.server e' t.server) ∧ t.host = s.host := by
  cases h
  case server _ hnext => exact .inr ⟨⟨_, hnext⟩, rfl⟩
  case record _ hnext => exact .inr ⟨⟨_, hnext⟩, rfl⟩
  case report _ hnext => exact .inr ⟨⟨_, hnext⟩, rfl⟩
  all_goals exact .inl rfl

/-- The runs of the system are runs of the database on its own. -/
theorem Setup.simulates (setup : Setup) (host : Host) :
    Simulation (setup.system host) setup.server.system State.server where
  init := by
    rintro s rfl
    rfl
  step s e t _ hnext := by
    rcases (Setup.step_effect hnext).server_next with heq | ⟨⟨e', hnext'⟩, _⟩
    · rw [heq]
      exact .refl _
    · exact .tail (.refl _) trivial hnext'

variable {s : State}

/-- The database of a reachable state is reachable on its own. -/
theorem Setup.server_reachable (setup : Setup) {host : Host} (h : (setup.system host).Reachable s) :
    setup.server.system.Reachable s.server :=
  (setup.simulates host).reachable h

end MiniControl.Heartbeat
