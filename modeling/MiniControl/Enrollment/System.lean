import MiniControl.Fleet.Isolation
import MiniControl.Rest.Routes

/-!
# Registrations of workers

`handleWorkerRegister` checks the presented token, upserts the worker's row, and
issues a new token to a worker that enrolled. Each of these is a statement of its
own without a transaction around them, and any number of registrations run
between the other clients of the database. The system of these runs is one of the
database's runs, seen through the rows.
-/

namespace MiniControl.Enrollment

open Transition Fleet

/-- `WorkerRegisterRequest`. -/
structure RegisterRequest where
  hostname : String
  hardwareUUID : String
  cpuCores : ℤ
  memoryBytes : ℤ
  tartVersion : String
  workerVersion : String
  workerToken : String
  deriving DecidableEq

/-- The answer to a registration. -/
inductive RegisterReply
  | error (error : Proxy.ApiError)
  | registered (workerID : String) (poolSize : ℤ) (baseImage : String)
      (workerToken : Option String)
  deriving DecidableEq

/-- The position of `handleWorkerRegister`. -/
inductive RegisterPhase
  | received
  | checked (issue : Bool)
  | upserted (issue : Bool)
  | returned (reply : RegisterReply)
  deriving DecidableEq

/-- A client: one of the database's other clients, or a registration. -/
inductive Call
  | client (transaction : Transaction)
  | register (request : RegisterRequest) (phase : RegisterPhase)
  deriving DecidableEq

/-- The tables, and the tokens issued so far to the workers, the last one first. -/
structure Shared where
  fleet : Fleet.Shared
  issued : List (String × String)

/-- The committed rows of the workers table. -/
def Shared.workers (sh : Shared) : List Worker := sh.fleet.db.workers

/-- The token that was last issued to a worker. -/
def Shared.lastIssued (sh : Shared) (workerID : String) : Option String :=
  (sh.issued.find? (·.1 = workerID)).map Prod.snd

/-- The steps of the clients. -/
inductive Action
  /-- A statement of another client. -/
  | client (action : Fleet.Action)
  /-- A body arrives, unless it does not decode. -/
  | receive (body : Option RegisterRequest)
  /-- `shouldIssueWorkerToken`. -/
  | check
  /-- `UpsertWorker`. -/
  | upsert (now : Time)
  /-- `IssueWorkerToken` with the token that it generated. -/
  | issue (now : Time) (token : String)
  /-- The answer without a new token. -/
  | respond
  /-- The statement, or the generation of a token, fails. -/
  | fail
  deriving DecidableEq

/-- What registrations depend on besides the tables. -/
structure Registrar where
  server : Server
  /-- `HashWorkerToken`. -/
  hashWorkerToken : String → String
  enrollmentToken : String
  poolSize : ℤ
  baseImage : String

/-- Only registrations upsert workers and issue tokens. -/
def reserved : Fleet.Action → Bool
  | .register _ _ => true
  | .updateWorker _ _ (.issueToken _) => true
  | _ => false

/-- The refusals of `handleWorkerRegister` before it looks at the database. -/
def RegisterRequest.validate (request : RegisterRequest) : RegisterPhase :=
  if request.hostname = "" then .returned (.error ⟨400, "hostname is required"⟩)
  else if request.hardwareUUID = "" then .returned (.error ⟨400, "hardware_uuid is required"⟩)
  else if request.workerToken = "" then .returned (.error ⟨401, "invalid token"⟩)
  else .received

/-- A request whose body does not decode. -/
def RegisterRequest.empty : RegisterRequest := ⟨"", "", 0, 0, "", "", ""⟩

namespace Registrar

variable (e : Registrar)

/-- `AuthenticateWorkerToken`. -/
def authenticateWorkerToken (workers : List Worker) (token : String) : Option Worker :=
  workers.find? fun row =>
    row.authTokenHash = some (e.hashWorkerToken token) ∧ row.authTokenRevokedAt = none

/-- The worker as which `requireWorkerAuth` goes on. -/
def requireWorkerAuth (workers : List Worker) (authorization : String) : Option Worker :=
  e.authenticateWorkerToken workers (Rest.bearerToken authorization)

/-- `shouldIssueWorkerToken`; `none` is `pgx.ErrNoRows`. -/
def shouldIssueWorkerToken (workers : List Worker) (hardwareUUID presentedToken : String) :
    Option Bool :=
  let enrolls := Proxy.tokensMatch e.enrollmentToken presentedToken
  match workers.find? (·.hardwareUUID = hardwareUUID) with
  | none => if enrolls then some true else none
  | some row =>
    if row.authTokenRevokedAt = none ∧
        row.authTokenHash.any (Proxy.tokensMatch · (e.hashWorkerToken presentedToken)) then
      some false
    else if enrolls then some true
    else none

/-- The row that a request registers. -/
def registration (request : RegisterRequest) : Registration where
  id := e.server.generateWorkerID request.hardwareUUID
  hostname := request.hostname
  hardwareUUID := request.hardwareUUID
  cpuCores := request.cpuCores
  memoryBytes := request.memoryBytes
  tartVersion := request.tartVersion
  workerVersion := request.workerVersion
  poolSize := e.poolSize
  baseImage := e.baseImage

/-- The answer to a registration that succeeds. -/
def reply (request : RegisterRequest) (token : Option String) : RegisterReply :=
  .registered (e.server.generateWorkerID request.hardwareUUID) e.poolSize e.baseImage token

/-- A step of `handleWorkerRegister`. -/
def register (sh : Shared) (tx : ℕ) (request : RegisterRequest) :
    RegisterPhase → Action → Option (Shared × RegisterPhase)
  | .received, .check =>
    match e.shouldIssueWorkerToken sh.workers request.hardwareUUID request.workerToken with
    | none => some (sh, .returned (.error ⟨401, "invalid token"⟩))
    | some issue => some (sh, .checked issue)
  | .checked issue, .upsert now =>
    (e.server.act sh.fleet tx .idle (.register now (e.registration request))).map fun r =>
      ({ sh with fleet := r.1 }, .upserted issue)
  | .upserted false, .respond => some (sh, .returned (e.reply request none))
  | .upserted true, .issue now token =>
    let id := e.server.generateWorkerID request.hardwareUUID
    (e.server.act sh.fleet tx .idle
      (.updateWorker now id (.issueToken (e.hashWorkerToken token)))).map fun r =>
        (⟨r.1, (id, token) :: sh.issued⟩, .returned (e.reply request (some token)))
  | .received, .fail | .checked _, .fail | .upserted true, .fail =>
    some (sh, .returned (.error ⟨500, "registration failed"⟩))
  | _, _ => none

/-- A step of a client. -/
def act (sh : Shared) (tx : ℕ) : Call → Action → Option (Shared × Call)
  | .client t, .client a =>
    if reserved a then none
    else (e.server.act sh.fleet tx t a).map fun r => ({ sh with fleet := r.1 }, .client r.2)
  | .client .idle, .receive none =>
    some (sh, .register .empty (.returned (.error ⟨400, "invalid json"⟩)))
  | .client .idle, .receive (some request) => some (sh, .register request request.validate)
  | .register request phase, a =>
    (e.register sh tx request phase a).map fun r => (r.1, .register request r.2)
  | _, _ => none

/-- The clients as a program. -/
def program : Program Shared Call Action := ⟨e.act⟩

end Registrar

/-- The database with its clients. -/
abbrev State := Threads Shared Call

/-- A fresh installation. -/
def State.initial : State := ⟨⟨Fleet.Shared.empty, []⟩, fun _ => .client .idle⟩

/-- All interleavings of the clients, from a fresh installation. -/
def Registrar.system (e : Registrar) : System State (ℕ × Action) :=
  e.program.system (· = State.initial)

/-- What a client is to the database: a registration is in no transaction. -/
def Call.transaction : Call → Transaction
  | .client t => t
  | .register _ _ => .idle

/-- The state of the database. -/
def State.fleet (s : State) : Fleet.State := ⟨s.shared.fleet, fun i => (s.locals i).transaction⟩

section

variable {e : Registrar} {sh sh' : Shared} {tx : ℕ} {call call' : Call} {a : Action}

/-- What a step of a registration does: it reads, it upserts the row of its worker,
or it issues a token to it. -/
inductive Registers (e : Registrar) (sh : Shared) (tx : ℕ) (request : RegisterRequest) :
    RegisterPhase → Action → Shared → RegisterPhase → Prop
  | refuse : e.shouldIssueWorkerToken sh.workers request.hardwareUUID request.workerToken = none →
      Registers e sh tx request .received .check sh (.returned (.error ⟨401, "invalid token"⟩))
  | check {issue : Bool} :
      e.shouldIssueWorkerToken sh.workers request.hardwareUUID request.workerToken = some issue →
      Registers e sh tx request .received .check sh (.checked issue)
  | upsert {issue : Bool} {now : Time} {workers : List Worker} :
      sh.fleet.registrationLocked (e.registration request) = false →
      upsertWorker now (e.registration request) sh.workers = some workers →
      Registers e sh tx request (.checked issue) (.upsert now)
        { sh with fleet := sh.fleet.setWorkers workers } (.upserted issue)
  | respond : Registers e sh tx request (.upserted false) .respond sh
      (.returned (e.reply request none))
  | issue {now : Time} {token : String} :
      sh.fleet.workerLocked (e.server.generateWorkerID request.hardwareUUID) = false →
      Registers e sh tx request (.upserted true) (.issue now token)
        ⟨sh.fleet.setWorkers (Tables.update Worker.id
            (e.server.generateWorkerID request.hardwareUUID)
            ((WorkerUpdate.issueToken (e.hashWorkerToken token)).apply now) sh.workers),
          (e.server.generateWorkerID request.hardwareUUID, token) :: sh.issued⟩
        (.returned (e.reply request (some token)))
  | fail {phase : RegisterPhase} : Registers e sh tx request phase .fail sh
      (.returned (.error ⟨500, "registration failed"⟩))

/-- Every step of a registration is one of those listed. -/
theorem Registrar.registers_of_register {request : RegisterRequest}
    {phase phase' : RegisterPhase} (h : e.register sh tx request phase a = some (sh', phase')) :
    Registers e sh tx request phase a sh' phase' := by
  unfold Registrar.register at h
  split at h
  · split at h
    next hnone => cases h; exact .refuse hnone
    next issue hsome => cases h; exact .check hsome
  · simp only [Server.act, Option.map_eq_some_iff] at h
    obtain ⟨⟨fleet, t⟩, hact, heq⟩ := h
    split_ifs at hact with hlocked
    simp only [Option.map_eq_some_iff] at hact
    obtain ⟨workers, hworkers, hfleet⟩ := hact
    cases hfleet
    cases heq
    exact .upsert (by simpa using hlocked) hworkers
  · cases h
    exact .respond
  · simp only [Server.act, Option.map_eq_some_iff] at h
    obtain ⟨⟨fleet, t⟩, hact, heq⟩ := h
    split_ifs at hact with hlocked
    cases hact
    cases heq
    exact .issue (by simpa using hlocked)
  · cases h; exact .fail
  · cases h; exact .fail
  · cases h; exact .fail
  · cases h

/-- What a step of any client does. -/
inductive Steps (e : Registrar) (sh : Shared) (tx : ℕ) : Call → Action → Shared → Call → Prop
  | client {t t' : Transaction} {action : Fleet.Action} {fleet : Fleet.Shared} :
      reserved action = false → e.server.act sh.fleet tx t action = some (fleet, t') →
      Steps e sh tx (.client t) (.client action) { sh with fleet := fleet } (.client t')
  | malformed : Steps e sh tx (.client .idle) (.receive none) sh
      (.register .empty (.returned (.error ⟨400, "invalid json"⟩)))
  | receive (request : RegisterRequest) : Steps e sh tx (.client .idle) (.receive (some request)) sh
      (.register request request.validate)
  | register {request : RegisterRequest} {phase phase' : RegisterPhase} {action : Action}
      {sh' : Shared} : Registers e sh tx request phase action sh' phase' →
      Steps e sh tx (.register request phase) action sh' (.register request phase')

/-- Every step of the server is one of those listed. -/
theorem Registrar.steps_of_act (h : e.act sh tx call a = some (sh', call')) :
    Steps e sh tx call a sh' call' := by
  unfold Registrar.act at h
  split at h
  · split_ifs at h with hreserved
    simp only [Option.map_eq_some_iff] at h
    obtain ⟨⟨fleet, t'⟩, hact, heq⟩ := h
    cases heq
    exact .client (by simpa using hreserved) hact
  · cases h; exact .malformed
  · cases h; exact .receive _
  · simp only [Option.map_eq_some_iff] at h
    obtain ⟨⟨sh'', phase'⟩, hact, heq⟩ := h
    cases heq
    exact .register (Registrar.registers_of_register hact)
  · cases h

/-- To the database a step is one statement, or none. -/
theorem Steps.fleet (h : Steps e sh tx call a sh' call') :
    (sh'.fleet = sh.fleet ∧ call'.transaction = call.transaction) ∨
      ∃ action, e.server.act sh.fleet tx call.transaction action =
        some (sh'.fleet, call'.transaction) := by
  cases h with
  | client _ hact => exact .inr ⟨_, hact⟩
  | malformed => exact .inl ⟨rfl, rfl⟩
  | receive request => exact .inl ⟨rfl, rfl⟩
  | @register request _ _ _ _ hregisters =>
    cases hregisters with
    | @upsert _ now workers hlocked hworkers =>
      refine .inr ⟨.register now (e.registration request), ?_⟩
      have hworkers' : upsertWorker now (e.registration request) sh.fleet.db.workers =
          some workers := hworkers
      simp only [Call.transaction, Server.act, hlocked, hworkers']
      rfl
    | @issue now token hlocked =>
      refine .inr ⟨.updateWorker now (e.server.generateWorkerID request.hardwareUUID)
        (.issueToken (e.hashWorkerToken token)), ?_⟩
      simp only [Call.transaction, Server.act, hlocked]
      rfl
    | refuse | check | respond | fail => exact .inl ⟨rfl, rfl⟩

end

/-- The runs of the clients are runs of the database. -/
theorem Registrar.simulation (e : Registrar) :
    Simulation e.system e.server.system State.fleet where
  init := by
    rintro s rfl
    rfl
  step := by
    rintro s ⟨i, a⟩ t _ hnext
    obtain ⟨sh, call, hact, rfl⟩ := Program.step_eq_some.mp hnext
    have hlocals : State.fleet ⟨sh, Function.update s.locals i call⟩ =
        ⟨sh.fleet, Function.update (State.fleet s).locals i call.transaction⟩ := by
      refine congrArg (Threads.mk sh.fleet) (funext fun j => ?_)
      by_cases hj : j = i
      · subst hj
        simp
      · simp [Function.update_of_ne hj, State.fleet]
    rw [hlocals]
    obtain ⟨hfleet, hcall⟩ | ⟨action, haction⟩ := (Registrar.steps_of_act hact).fleet
    · have hsame :
          Function.update (State.fleet s).locals i call.transaction = (State.fleet s).locals := by
        rw [hcall]
        exact Function.update_eq_self i (State.fleet s).locals
      rw [hsame, hfleet]
      exact .refl _
    · refine .tail (.refl _) trivial (e := (i, action)) ?_
      exact Program.step_eq_some.mpr ⟨_, _, haction, rfl⟩

/-- What a statement of a client of the database does to the workers table, apart
from the statements that only registrations make. -/
inductive WorkersStep (server : Server) (sh : Fleet.Shared) (tx : ℕ) :
    Transaction → Fleet.Action → Fleet.Shared → Transaction → Prop
  | begin (hardwareUUID : String) : WorkersStep server sh tx .idle (.beginHostname hardwareUUID) sh
      (.hostname hardwareUUID .waiting)
  | same {t t' : Transaction} {a : Fleet.Action} {sh' : Fleet.Shared} :
      sh'.db.workers = sh.db.workers → sh'.stagedWorker = sh.stagedWorker →
      (∀ hardwareUUID phase, t' ≠ .hostname hardwareUUID phase) →
      WorkersStep server sh tx t a sh' t'
  | update {now : Time} {id : String} {update : WorkerUpdate} : sh.workerLocked id = false →
      (∀ hash, update ≠ .issueToken hash) →
      WorkersStep server sh tx .idle (.updateWorker now id update)
        (sh.setWorkers (Tables.update Worker.id id (update.apply now) sh.db.workers)) .idle
  | assign {hardwareUUID : String} {phase phase' : HostnamePhase} {action : HostnameAction}
      {sh' : Fleet.Shared} :
      server.Assigns sh tx hardwareUUID phase action sh' phase' →
      WorkersStep server sh tx (.hostname hardwareUUID phase) (.hostname action) sh'
        (.hostname hardwareUUID phase')

variable {server : Server} {sh sh' : Fleet.Shared} {tx : ℕ}

/-- A claim leaves the workers table and the staged row version alone. -/
theorem claimWorkstation_workers {memberID preferredWorkerID : String} {phase phase' : ClaimPhase}
    {action : ClaimAction}
    (h : server.claimWorkstation sh tx memberID preferredWorkerID phase action =
      some (sh', phase')) :
    sh'.db.workers = sh.db.workers ∧ sh'.stagedWorker = sh.stagedWorker := by
  cases Server.claims_of_claimWorkstation h <;> exact ⟨rfl, rfl⟩

/-- And so does an operation on the row of a workstation. -/
theorem rowOperation_workers {op : RowOp} {phase phase' : RowPhase} {action : RowAction}
    (h : rowOperation sh tx op phase action = some (sh', phase')) :
    sh'.db.workers = sh.db.workers ∧ sh'.stagedWorker = sh.stagedWorker := by
  cases executes_of_rowOperation h <;> exact ⟨rfl, rfl⟩

/-- Every statement that is not reserved for registrations does one of these to the workers
table. -/
theorem workersStep_of_act {t t' : Transaction} {a : Fleet.Action} (hreserved : reserved a = false)
    (h : server.act sh tx t a = some (sh', t')) : WorkersStep server sh tx t a sh' t' := by
  revert h
  fun_cases Server.act server sh tx t a <;> intro h
  case case1 => cases h; exact .same rfl rfl (by simp)
  case case2 => cases h; exact .same rfl rfl (by simp)
  case case3 => cases h; exact .begin _
  case case4 => cases h
  case case5 => cases hreserved
  case case6 => cases h
  case case7 now id update hlocked workers =>
    cases h
    refine .update (by simpa using hlocked) ?_
    rintro hash rfl
    cases hreserved
  case case8 =>
    simp only [Option.map_eq_some_iff] at h
    obtain ⟨r, hact, heq⟩ := h
    cases heq
    obtain ⟨hworkers, hstaged⟩ := claimWorkstation_workers hact
    exact .same hworkers hstaged (by simp)
  case case9 =>
    simp only [Option.map_eq_some_iff] at h
    obtain ⟨r, hact, heq⟩ := h
    cases heq
    obtain ⟨hworkers, hstaged⟩ := rowOperation_workers hact
    exact .same hworkers hstaged (by simp)
  case case10 =>
    simp only [Option.map_eq_some_iff] at h
    obtain ⟨r, hact, heq⟩ := h
    cases heq
    exact .assign (Server.assigns_of_assignHostname hact)
  case case11 => cases h

end MiniControl.Enrollment
