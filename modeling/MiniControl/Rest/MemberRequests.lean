import MiniControl.Buffers.Compaction
import MiniControl.Fleet.Frames
import MiniControl.Proxy.Manager
import MiniControl.Rest.Routes
import MiniControl.Tables.Ordering
import MiniControl.Terminal.Session
import MiniControl.Transition.Interaction

/-!
# Requests of an authenticated member

The handlers of the browser routes are programs that call the database, the managers of
proxy and of terminal sessions, and the network. A site answers the calls from its
tables and decides, for every call that can fail, whether it fails. Two of the handlers
serve administrators as well, who are no members.
-/

namespace MiniControl.Rest

open Transition Fleet Text

/-- The columns of `terminalSession` that the handlers read. -/
structure TerminalSession where
  id : String
  memberID : String
  workstationID : String
  workerID : String
  deriving DecidableEq

/-- `VMState`. -/
inductive VMState
  | starting
  | bootstrapping
  | ready
  | busy
  | destroying
  | failed
  deriving DecidableEq

/-- A row of the `vms` table. -/
structure VM where
  workerID : String
  state : VMState
  deriving DecidableEq

/-- What the handlers call. -/
inductive Call
  | getWorkstationByIDForMember (memberID workstationID : String)
  | listWorkstationsByMemberID (memberID : String)
  | listAllWorkstations
  | getWorkstationByID (workstationID : String)
  | getVM (vmID : String)
  | listWorkers
  | rowOp (op : RowOp)
  | claimWorkstation (memberID preferredWorkerID : String)
  | createProxySession (target : Proxy.ProxyTarget) (vmID workerID : String) (port : ℤ)
  | closeProxySession (sessionID : String)
  | getTerminalSession (sessionID : String)
  | createTerminalSession (memberID workstationID workerID : String)
  | acceptWebSocket
  | dialInternalProxyWebSocket (sessionID token : String)
  | startTerminalSSHSession (user password : String) (cols rows : ℤ)
  | attach (session : TerminalSession) (request : Terminal.Request)
  deriving DecidableEq

/-- What a call returns. -/
inductive Answer
  /-- An error other than `pgx.ErrNoRows`. -/
  | failed
  | notFound
  | done
  | workstation (row : Workstation)
  | workstations (rows : List Workstation)
  | vm (vm : VM)
  | workers (workers : List Worker)
  | row (reply : RowReply)
  | claim (reply : ClaimReply)
  | proxySession (id token : String)
  | terminalSession (session : TerminalSession)
  deriving DecidableEq

/-- `browserVM`. -/
structure BrowserVM where
  id : String
  workerID : String
  state : PowerState
  ipAddress : String
  stateSince : Time
  createdAt : Time
  deriving DecidableEq

/-- `workerWithVMs`. -/
structure WorkerWithVMs where
  worker : Worker
  vms : List BrowserVM
  deriving DecidableEq

/-- What the client is told. -/
inductive Response
  | error (error : Proxy.ApiError)
  | workstation (status : ℕ) (row : Workstation)
  | workstations (rows : List Workstation)
  | workers (workers : List WorkerWithVMs)
  | session (id token : String)
  /-- The handler panics, and the connection is dropped without a response. -/
  | panicked
  /-- `websocket.Accept` has refused the request. -/
  | notUpgraded
  /-- The WebSocket is closed with a status and a reason. -/
  | closed (status : ℕ) (reason : String)
  /-- The terminal session has served the WebSocket. -/
  | served
  deriving DecidableEq

/-- `websocket.StatusPolicyViolation`. -/
def statusPolicyViolation : ℕ := 1008

/-- `websocket.StatusInternalError`. -/
def statusInternalError : ℕ := 1011

/-- The ports of `AllowedPorts`. -/
def allowedPorts : List ℤ := [5900, 22]

/-- `resolveMemberWorkstation`. -/
def resolveMemberWorkstation (memberID requestedWorkstationID : String) :
    Prog Call Answer (Except Proxy.ApiError Workstation) := do
  if requestedWorkstationID ≠ "" then
    match ← Prog.issue (.getWorkstationByIDForMember memberID requestedWorkstationID) with
    | .workstation row => return .ok row
    | .notFound => return .error ⟨404, "workstation not found"⟩
    | _ => return .error ⟨500, "failed to load workstation"⟩
  else
    match ← Prog.issue (.listWorkstationsByMemberID memberID) with
    | .workstations [] => return .error ⟨404, "workstation not found"⟩
    | .workstations [row] => return .ok row
    | .workstations _ =>
      return .error ⟨400, "workstation_id is required when multiple workstations exist"⟩
    | _ => return .error ⟨500, "failed to load workstation"⟩

/-- `handleListMyWorkstations`. -/
def handleListMyWorkstations : Option String → Prog Call Answer Response
  | none => return .error ⟨401, "unauthorized"⟩
  | some memberID => do
    match ← Prog.issue (.listWorkstationsByMemberID memberID) with
    | .workstations rows => return .workstations rows
    | _ => return .error ⟨500, "failed to list workstations"⟩

/-- `handleGetMyWorkstation` with the `workstation_id` of the query. -/
def handleGetMyWorkstation (member : Option String) (workstationID : String) :
    Prog Call Answer Response :=
  match member with
  | none => return .error ⟨401, "unauthorized"⟩
  | some memberID => do
    match ← resolveMemberWorkstation memberID (trimSpace workstationID) with
    | .error error => return .error error
    | .ok workstation =>
      match ← Prog.issue (.rowOp (.ensureRunning memberID workstation.id)) with
      | .row (.workstation row) => return .workstation 200 row
      | .row .notFound => return .error ⟨404, "workstation not found"⟩
      -- the failed call has set `workstation` to nil, and the log line reads its id
      | _ => return .panicked

/-- `handleMyWorkstationDesiredState` with the `workstation_id` of the body, unless the
body does not decode. -/
def handleMyWorkstationDesiredState (desired : DesiredPowerState) (member : Option String)
    (body : Option String) : Prog Call Answer Response :=
  match member, body with
  | none, _ => return .error ⟨401, "unauthorized"⟩
  | some _, none => return .error ⟨400, "invalid json"⟩
  | some memberID, some workstationID => do
    match ← resolveMemberWorkstation memberID (trimSpace workstationID) with
    | .error error => return .error error
    | .ok workstation =>
      match ← Prog.issue (.rowOp (.setDesired memberID workstation.id (.value desired))) with
      | .row (.workstation row) => return .workstation 200 row
      | .row .notFound => return .error ⟨404, "workstation not found"⟩
      | .row .beingDeleted => return .error ⟨409, "workstation is being deleted"⟩
      -- as in `handleGetMyWorkstation`, the log line reads the id of nil
      | _ => return .panicked

/-- `handleReleaseMyWorkstation`. -/
def handleReleaseMyWorkstation : Option String → Option String → Prog Call Answer Response :=
  handleMyWorkstationDesiredState .deleted

/-- `handleClaimMyWorkstation` with the `worker_id` of the body, unless the body does not
decode. -/
def handleClaimMyWorkstation (member body : Option String) : Prog Call Answer Response :=
  match member, body with
  | none, _ => return .error ⟨401, "unauthorized"⟩
  | some _, none => return .error ⟨400, "invalid json"⟩
  | some memberID, some workerID => do
    match ← Prog.issue (.claimWorkstation memberID (trimSpace workerID)) with
    | .claim (.claimed row) => return .workstation 201 row
    | .claim (.refused error) => return .error ⟨409, error.message⟩
    | _ => return .error ⟨500, "failed to claim workstation"⟩

/-- The entry of a workstation in the answer of `handleListWorkers`. -/
def browserVM (row : Workstation) : BrowserVM :=
  ⟨row.id, row.workerID, row.powerState, row.ipAddress, row.updatedAt, row.createdAt⟩

/-- One round of the loop that fills `vmsByWorker`. -/
def addVM (vmsByWorker : String → List BrowserVM) (row : Workstation) :
    String → List BrowserVM :=
  Function.update vmsByWorker row.workerID (vmsByWorker row.workerID ++ [browserVM row])

/-- The rows that `handleListWorkers` shows: all of them, or those of the member, which
it moves to the start of the slice. -/
def visibleWorkstations (member : Option String) (rows : List Workstation) : List Workstation :=
  match member with
  | some memberID => Buffers.filterInPlace (·.memberID = memberID) rows
  | none => rows

/-- A failed list of workstations counts as an empty one. -/
def Answer.rows : Answer → List Workstation
  | .workstations rows => rows
  | _ => []

/-- `handleListWorkers`. -/
def handleListWorkers (member : Option String) : Prog Call Answer Response := do
  match ← Prog.issue .listWorkers with
  | .workers workers =>
    let all ← Prog.issue .listAllWorkstations
    let vmsByWorker := (visibleWorkstations member all.rows).foldl addVM fun _ => []
    return .workers (workers.map fun w => ⟨w, vmsByWorker w.id⟩)
  | _ => return .error ⟨500, "failed to list workers"⟩

/-- The body of a request for a proxy session. -/
structure CreateProxySessionBody where
  target : String
  vmID : String
  workerID : String
  port : ℤ
  deriving DecidableEq

/-- `resolveProxyTarget`: the target, the worker and the VM. -/
def resolveProxyTarget (req : CreateProxySessionBody) :
    Prog Call Answer (Except Proxy.ApiError (Proxy.ProxyTarget × String × String)) := do
  if req.target = "host" then
    if req.workerID = "" then
      return .error ⟨400, "worker_id is required for host target"⟩
    else return .ok (.host, req.workerID, "")
  else if req.target = "" ∨ req.target = "vm" then
    if req.vmID = "" then return .error ⟨400, "vm_id is required for vm target"⟩
    else
      match ← Prog.issue (.getWorkstationByID req.vmID) with
      | .workstation row =>
        if row.powerState ≠ .running then return .error ⟨409, "workstation not running"⟩
        else return .ok (.vm, row.workerID, row.id)
      | .notFound =>
        match ← Prog.issue (.getVM req.vmID) with
        | .vm vm =>
          if vm.state ∉ [VMState.ready, .busy, .bootstrapping] then
            return .error ⟨409, "vm not available"⟩
          else return .ok (.vm, vm.workerID, req.vmID)
        | _ => return .error ⟨404, "vm not found"⟩
      | _ => return .error ⟨500, "failed to load workstation"⟩
  else return .error ⟨400, "target must be 'vm' or 'host'"⟩

/-- `Create` and the answer with the new session. -/
def createProxySession (target : Proxy.ProxyTarget) (vmID workerID : String) (port : ℤ) :
    Prog Call Answer Response := do
  match ← Prog.issue (.createProxySession target vmID workerID port) with
  | .proxySession id token => return .session id token
  -- `Create` always returns a session
  | _ => return .panicked

/-- `handleCreateProxySession` with its body, unless the body does not decode. -/
def handleCreateProxySession (member : Option String) (body : Option CreateProxySessionBody) :
    Prog Call Answer Response :=
  match body with
  | none => return .error ⟨400, "invalid json"⟩
  | some req =>
    if req.port ≤ 0 then return .error ⟨400, "port is required"⟩
    else if req.port ∉ allowedPorts then return .error ⟨403, "port not allowed"⟩
    else match member with
      | some memberID =>
        if req.target = "host" then
          return .error ⟨403, "host access is not available for members"⟩
        else do
          match ← resolveMemberWorkstation memberID (trimSpace req.vmID) with
          | .error error => return .error error
          | .ok row =>
            if row.powerState ≠ .running then return .error ⟨409, "workstation not running"⟩
            else createProxySession .vm row.id row.workerID req.port
      | none => do
        match ← resolveProxyTarget req with
        | .error error => return .error error
        | .ok (target, workerID, vmID) => createProxySession target vmID workerID req.port

/-- The query of a terminal request. -/
structure TerminalQuery where
  session : String
  workstationID : String
  /-- What `strconv.Atoi` makes of the sizes, if they are numbers. -/
  cols : Option ℤ
  rows : Option ℤ
  deriving DecidableEq

/-- `parsePositiveQueryInt`. -/
def parsePositiveQueryInt (parsed : Option ℤ) (fallback : ℤ) : ℤ :=
  match parsed with
  | some value => if value ≤ 0 then fallback else value
  | none => fallback

/-- `defaultTerminalCols`. -/
def defaultTerminalCols : ℤ := 120

/-- `defaultTerminalRows`. -/
def defaultTerminalRows : ℤ := 36

/-- `terminalCredentials`: the user and the password. -/
def terminalCredentials : Proxy.ProxyTarget → String × String
  | .host => ("launchctl", "change-me")
  | .vm => ("admin", "admin")

/-- The part of `handleBrowserTerminalWebSocket` that makes a new terminal session. -/
def openTerminalSession (memberID workstationID : String) (cols rows : ℤ) :
    Prog Call Answer (Except Response TerminalSession) := do
  match ← resolveMemberWorkstation memberID workstationID with
  | .error error => return .error (.closed statusPolicyViolation error.message)
  | .ok row =>
    if row.powerState ≠ .running then
      return .error (.closed statusPolicyViolation "workstation not running")
    else
      let (user, password) := terminalCredentials .vm
      match ← Prog.issue (.createProxySession .vm row.id row.workerID 22) with
      | .proxySession id token =>
        match ← Prog.issue (.dialInternalProxyWebSocket id token) with
        | .done =>
          match ← Prog.issue (.startTerminalSSHSession user password cols rows) with
          | .done =>
            match ← Prog.issue (.createTerminalSession memberID row.id row.workerID) with
            | .terminalSession session => return .ok session
            -- `Create` always returns a session
            | _ => return .error .panicked
          | _ =>
            let _ ← Prog.issue (.closeProxySession id)
            return .error (.closed statusInternalError "ssh connection failed")
        | _ =>
          let _ ← Prog.issue (.closeProxySession id)
          return .error (.closed statusInternalError "relay connection failed")
      | _ => return .error .panicked

/-- `session.Attach`, which returns when the connection or the session ends. -/
def attachTerminalSession (session : TerminalSession) (request : Terminal.Request) :
    Prog Call Answer Response := do
  match ← Prog.issue (.attach session request) with
  | .done => return .served
  | _ => return .closed statusInternalError "terminal error"

/-- `handleBrowserTerminalWebSocket`. -/
def handleBrowserTerminalWebSocket (member : Option String) (q : TerminalQuery) :
    Prog Call Answer Response :=
  match member with
  | none => return .error ⟨401, "unauthorized"⟩
  | some memberID => do
    let cols := parsePositiveQueryInt q.cols defaultTerminalCols
    let rows := parsePositiveQueryInt q.rows defaultTerminalRows
    let sessionID := trimSpace q.session
    match ← Prog.issue .acceptWebSocket with
    | .done =>
      if sessionID ≠ "" then
        match ← Prog.issue (.getTerminalSession sessionID) with
        | .terminalSession session =>
          if session.memberID ≠ memberID then
            return .closed statusPolicyViolation "terminal session unauthorized"
          else attachTerminalSession session ⟨cols, rows, true⟩
        | _ => return .closed statusPolicyViolation "terminal session not found"
      else
        match ← openTerminalSession memberID (trimSpace q.workstationID) cols rows with
        | .ok session => attachTerminalSession session ⟨cols, rows, false⟩
        | .error response => return response
    | _ => return .notUpgraded

/-- A request on one of the browser routes. -/
inductive BrowserRequest
  | listMyWorkstations
  | getMyWorkstation (workstationID : String)
  | claimMyWorkstation (body : Option String)
  | releaseMyWorkstation (body : Option String)
  | listWorkers
  | createProxySession (body : Option CreateProxySessionBody)
  | browserTerminalWebSocket (query : TerminalQuery)
  deriving DecidableEq

namespace BrowserRequest

/-- The handler that the routes name for a request. -/
def endpoint : BrowserRequest → Endpoint
  | listMyWorkstations => .handleListMyWorkstations
  | getMyWorkstation _ => .handleGetMyWorkstation
  | claimMyWorkstation _ => .handleClaimMyWorkstation
  | releaseMyWorkstation _ => .handleReleaseMyWorkstation
  | listWorkers => .handleListWorkers
  | createProxySession _ => .handleCreateProxySession
  | browserTerminalWebSocket _ => .handleBrowserTerminalWebSocket

/-- Run the handler of a request, authenticated as the member. -/
def handle (member : Option String) : BrowserRequest → Prog Call Answer Response
  | listMyWorkstations => handleListMyWorkstations member
  | getMyWorkstation workstationID => handleGetMyWorkstation member workstationID
  | claimMyWorkstation body => handleClaimMyWorkstation member body
  | releaseMyWorkstation body => handleReleaseMyWorkstation member body
  | listWorkers => handleListWorkers member
  | createProxySession body => handleCreateProxySession member body
  | browserTerminalWebSocket query => handleBrowserTerminalWebSocket member query

/-- The requests are those of the routes behind the access guard, apart from `handleMe`. -/
theorem exists_endpoint {route : Route} (h : route ∈ registerRoutes)
    (hauth : route.auth = .access) (hme : route.endpoint ≠ .handleMe) :
    ∃ r : BrowserRequest, r.endpoint = route.endpoint := by
  have hroutes : ∀ route ∈ registerRoutes, route.auth = .access → route.endpoint ≠ .handleMe →
      route.endpoint ∈ [Endpoint.handleListMyWorkstations, .handleGetMyWorkstation,
        .handleClaimMyWorkstation, .handleReleaseMyWorkstation, .handleListWorkers,
        .handleCreateProxySession, .handleBrowserTerminalWebSocket] := by decide
  have hmem := hroutes route h hauth hme
  simp only [List.mem_cons, List.not_mem_nil, or_false] at hmem
  rcases hmem with heq | heq | heq | heq | heq | heq | heq <;> rw [heq]
  · exact ⟨.listMyWorkstations, rfl⟩
  · exact ⟨.getMyWorkstation "", rfl⟩
  · exact ⟨.claimMyWorkstation none, rfl⟩
  · exact ⟨.releaseMyWorkstation none, rfl⟩
  · exact ⟨.listWorkers, rfl⟩
  · exact ⟨.createProxySession none, rfl⟩
  · exact ⟨.browserTerminalWebSocket ⟨"", "", none, none⟩, rfl⟩

end BrowserRequest

/-- A deterministic collation of the database: a linear order of the texts. -/
structure Collation where
  le : String → String → Bool
  isKey : Tables.IsKey le
  antisymm : ∀ a b, le a b = true → le b a = true → a = b

namespace Collation

variable (collation : Collation)

/-- The keys `worker_id` and `slot`. -/
def byPlace : List (Workstation → Workstation → Bool) :=
  [fun a b => collation.le a.workerID b.workerID, fun a b => a.slot ≤ b.slot]

/-- The keys `worker_id`, `slot` and `created_at`. -/
def byPlaceAndAge : List (Workstation → Workstation → Bool) :=
  collation.byPlace ++ [fun a b => decide (a.createdAt ≤ b.createdAt)]

/-- `ListWorkstationsByMemberID`. -/
def listWorkstationsByMemberID (memberID : String) (rows : List Workstation) :
    List Workstation :=
  Tables.sortBy collation.byPlaceAndAge (rows.filter (·.memberID = memberID))

/-- `ListAllWorkstations`. -/
def listAllWorkstations (rows : List Workstation) : List Workstation :=
  Tables.sortBy collation.byPlace rows

/-- `ListWorkers`, which does not select the columns of the token. -/
def listWorkers (workers : List Worker) : List Worker :=
  (Tables.sortBy [fun a b => collation.le a.hostname b.hostname] workers).map fun w =>
    { w with authTokenHash := none, authTokenLastUsedAt := none, authTokenRevokedAt := none }

end Collation

/-- What happens to one call: whether it fails, the times of the database and of the
server, and the values that it generates. -/
structure Choice where
  fails : Bool
  now : Time
  listed : Time
  id : String
  token : String

/-- What the answers depend on besides the tables. -/
structure Site where
  server : Server
  collation : Collation
  choice : ℕ → Choice

/-- The tables, the terminal sessions, and the number of calls so far. -/
structure World where
  db : Database
  vms : String → Option VM
  terminals : String → Option TerminalSession
  calls : ℕ

/-- One more call. -/
def World.next (w : World) : World := { w with calls := w.calls + 1 }

/-- What a query finds. -/
def Answer.ofOption {α : Type} (answer : α → Answer) : Option α → Answer
  | some x => answer x
  | none => .notFound

/-- The answer to a call that does not fail. -/
def Site.serve (site : Site) (choice : Choice) (w : World) : Call → Answer × World
  | .getWorkstationByIDForMember memberID id =>
    (.ofOption .workstation
      (w.db.workstations.find? fun row => row.memberID = memberID && row.id = id), w)
  | .listWorkstationsByMemberID memberID =>
    (.workstations (site.collation.listWorkstationsByMemberID memberID w.db.workstations), w)
  | .listAllWorkstations =>
    (.workstations (site.collation.listAllWorkstations w.db.workstations), w)
  | .getWorkstationByID id =>
    (.ofOption .workstation (w.db.workstations.find? (·.id = id)), w)
  | .getVM id => (.ofOption .vm (w.vms id), w)
  | .listWorkers => (.workers (site.collation.listWorkers w.db.workers), w)
  | .rowOp op =>
    let (db, reply) := op.perform choice.now w.db
    (.row reply, { w with db })
  | .claimWorkstation memberID preferredWorkerID =>
    -- the primary key refuses an id that is in use
    if w.db.workstations.any (·.id = choice.id) then (.failed, w)
    else
      let (db, reply) :=
        site.server.claim memberID preferredWorkerID choice.listed choice.now choice.id w.db
      (.claim reply, { w with db })
  | .createProxySession _ _ _ _ => (.proxySession choice.id choice.token, w)
  | .closeProxySession _ => (.done, w)
  | .getTerminalSession id => (.ofOption .terminalSession (w.terminals id), w)
  | .createTerminalSession memberID workstationID workerID =>
    let session := ⟨choice.id, memberID, workstationID, workerID⟩
    (.terminalSession session,
      { w with terminals := Function.update w.terminals choice.id (some session) })
  | .acceptWebSocket | .dialInternalProxyWebSocket _ _ | .startTerminalSSHSession _ _ _ _
  | .attach _ _ => (.done, w)

/-- The calls of the managers, which do not fail. -/
def Call.infallible : Call → Bool
  | .createProxySession _ _ _ _ | .closeProxySession _ | .getTerminalSession _
  | .createTerminalSession _ _ _ => true
  | _ => false

/-- The answer to a call. A failed transaction is rolled back. -/
def Site.answer (site : Site) (w : World) (c : Call) : Answer × World :=
  let choice := site.choice w.calls
  if choice.fails && !c.infallible then (.failed, w.next) else site.serve choice w.next c

end MiniControl.Rest
