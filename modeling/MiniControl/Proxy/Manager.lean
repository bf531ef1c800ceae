import MiniControl.Proxy.Session
import MiniControl.Transition.System

/-!
# The proxy session manager

Any number of calls use one session manager: WebSocket handlers that join a
session, workers that poll for their pending sessions, and the callers of `Create`,
`Close`, `CloseByWorker`, `CloseByVM` and `reap`. Every section under a mutex is one
step: `SetConn` looks a session up in one and stores the connection in another, and
`Close` removes the session from the map in one and closes it in another.
-/

namespace MiniControl.Proxy

open Transition

/-- The id of a session, a UUID. -/
abbrev SessionID := String

/-- The status and the text of an error response. -/
structure ApiError where
  status : ℕ
  message : String
  deriving DecidableEq

/-- The query of a WebSocket request, and whether its host is that of the browser and
that of the workers. -/
structure Request where
  session : SessionID
  role : String
  token : String
  matchesBrowserHost : Bool
  matchesWorkerHost : Bool
  deriving DecidableEq

/-- The checks of `handleProxyWebSocket` before it looks at any session. -/
def Request.check (r : Request) : Except ApiError Role :=
  if r.session = "" ∨ r.role = "" ∨ r.token = "" then .error ⟨400, "missing parameters"⟩
  else if r.role = "client" then
    if r.matchesBrowserHost then .ok .client else .error ⟨404, "404 page not found"⟩
  else if r.role = "worker" then
    if r.matchesWorkerHost then .ok .worker else .error ⟨404, "404 page not found"⟩
  else .error ⟨400, "invalid role"⟩

/-- `tokensMatch`. -/
def tokensMatch (expected actual : String) : Bool :=
  if expected = "" ∨ actual = "" then false else expected = actual

/-- One entry of the response to a worker that polls. -/
structure PendingResp where
  sessionID : SessionID
  target : ProxyTarget
  vmID : String
  port : ℤ
  token : String
  deriving DecidableEq

/-- What a call returned. -/
inductive Result
  | refused (error : ApiError)
  | acceptFailed
  /-- A WebSocket handler that ran `SetConn`, with its answer. -/
  | served (session : SessionID) (bothReady : Bool)
  | pending (sessions : List PendingResp)
  | count (n : ℕ)
  | done
  deriving DecidableEq

/-- What a call does after it has closed sessions. -/
inductive Next
  | poll (sessions : List SessionID) (result : List PendingResp)
  | finish (result : Result)
  deriving DecidableEq

/-- The position of a call, named after what it does next. -/
inductive Phase
  | unused
  | get (request : Request) (role : Role)
  | accept (session : SessionID) (role : Role)
  /-- `SetConn` is about to look the session up. -/
  | lookup (session : SessionID) (role : Role)
  /-- `SetConn` has found the session. -/
  | update (session : SessionID) (role : Role)
  | awaitReady (session : SessionID)
  | readConns (session : SessionID)
  | relaying (session : SessionID) (client worker : ℕ)
  | wait (session : SessionID)
  | polling (sessions : List SessionID) (result : List PendingResp)
  /-- `Close` is about to remove the session from the map; `rest` is closed next. -/
  | removing (session : SessionID) (rest : List SessionID) (next : Next)
  /-- `Close` has removed the session from the map. -/
  | closing (session : SessionID) (rest : List SessionID) (next : Next)
  | returned (result : Result)
  deriving DecidableEq

/-- The position that continues a call. -/
def Next.phase : Next → Phase
  | .poll sessions result => .polling sessions result
  | .finish result => .returned result

/-- Run `Close` on the listed sessions one after another. -/
def Phase.closeAll (next : Next) : List SessionID → Phase
  | [] => next.phase
  | id :: rest => .removing id rest next

/-- The end of a WebSocket handler that closes its session. -/
def Phase.closeServed (id : SessionID) (bothReady : Bool) : Phase :=
  .closeAll (.finish (.served id bothReady)) [id]

/-- The condition of `GetPending`. -/
def ProxySession.isPendingOf (workerID : String) (x : ProxySession) : Bool :=
  x.workerID = workerID && x.state = .pending

/-- `pendingSessionMaxAge`, in nanoseconds. -/
def pendingSessionMaxAge : ℕ := 60 * 1000000000

/-- The sessions, the calls and their connections. -/
structure State where
  /-- The time. -/
  clock : ℕ
  /-- All sessions that were ever created. -/
  created : SessionID → Option ProxySession
  /-- The keys of the map of the session manager. -/
  sessions : List SessionID
  /-- The connections that were closed. -/
  closedConns : ℕ → Bool
  /-- The position of every call. -/
  calls : ℕ → Phase

/-- What may happen next. -/
inductive Event
  | tick (elapsed : ℕ)
  | create (id : SessionID) (target : ProxyTarget) (vmID workerID : String) (port : ℤ)
      (token : String) (createdAt : ℕ)
  | serve (c : ℕ) (request : Request)
  | poll (c : ℕ) (workerID : String) (order : List SessionID)
  | close (c : ℕ) (id : SessionID)
  | closeByWorker (c : ℕ) (workerID : String) (order : List SessionID)
  | closeByVM (c : ℕ) (vmID : String) (order : List SessionID)
  | reap (c : ℕ) (order : List SessionID)
  /-- The next action of a call, with its choice. -/
  | call (c : ℕ) (choice : Bool)
  /-- A connection fails. -/
  | disconnect (c : ℕ)
  deriving DecidableEq

namespace State

variable (s : State)

/-- `Get`. -/
def get (id : SessionID) : Option ProxySession :=
  if id ∈ s.sessions then s.created id else none

/-- The call `c` goes on with another action. -/
def goto (c : ℕ) (p : Phase) : State := { s with calls := Function.update s.calls c p }

/-- The session object is changed. -/
def put (id : SessionID) (x : ProxySession) : State :=
  { s with created := Function.update s.created id (some x) }

/-- `Create`. -/
def create (id : SessionID) (x : ProxySession) : State :=
  { s.put id x with sessions := id :: s.sessions }

/-- The section of `Close` under the mutex of the manager. -/
def remove (id : SessionID) : State := { s with sessions := s.sessions.filter (· ≠ id) }

/-- The section of `Close` under the mutex of the session. -/
def closeSession (id : SessionID) (x : ProxySession) : State :=
  { s.put id x.close with
    closedConns := fun c =>
      s.closedConns c || x.clientConn == some c || x.workerConn == some c }

/-- The ids of the sessions in the map that meet a condition. -/
def select (p : ProxySession → Bool) : List SessionID :=
  s.sessions.filter fun id => (s.created id).any p

/-- The condition of `reap`. -/
def isStale (x : ProxySession) : Bool :=
  x.state = .pending && pendingSessionMaxAge < s.clock - x.createdAt

/-- A new call collects sessions of the map, in the order in which the map is
iterated, and goes on with them. -/
def start (c : ℕ) (p : ProxySession → Bool) (order : List SessionID) (next : Phase) :
    Option State :=
  if s.calls c = .unused ∧ order.Perm (s.select p) then some (s.goto c next) else none

end State

/-- The position of the call that went on. -/
@[simp] theorem State.goto_self (s : State) (c : ℕ) (p : Phase) : (s.goto c p).calls c = p :=
  Function.update_self ..

/-- The other calls stay where they are. -/
theorem State.goto_of_ne {c d : ℕ} (s : State) (p : Phase) (h : d ≠ c) :
    (s.goto c p).calls d = s.calls d :=
  Function.update_of_ne h ..

/-- The session object that was changed. -/
@[simp] theorem State.put_self (s : State) (id : SessionID) (x : ProxySession) :
    (s.put id x).created id = some x :=
  Function.update_self ..

/-- The other session objects stay as they are. -/
theorem State.put_of_ne {id other : SessionID} (s : State) (x : ProxySession) (h : other ≠ id) :
    (s.put id x).created other = s.created other :=
  Function.update_of_ne h ..

/-- Whether a call has accepted a connection. -/
def Phase.hasConn : Phase → Bool
  | .lookup _ _ | .update _ _ | .awaitReady _ | .readConns _ | .relaying _ _ _ | .wait _ => true
  | .removing _ _ (.finish (.served _ _)) | .closing _ _ (.finish (.served _ _)) => true
  | .returned (.served _ _) => true
  | _ => false

/-- The next action of a call at a given position. The choice is whether the
WebSocket is accepted, which case a select statement takes, and whether a pending
session still belongs to the polling worker. -/
def callStep (s : State) (c : ℕ) (choice : Bool) : Phase → Option State
  | .unused | .returned _ => none
  | .get request role =>
    match s.get request.session with
    | none => some (s.goto c (.returned (.refused ⟨404, "session not found"⟩)))
    | some x =>
      if tokensMatch x.token request.token then
        some (s.goto c (.accept request.session role))
      else some (s.goto c (.returned (.refused ⟨401, "invalid token"⟩)))
  | .accept id role =>
    some (s.goto c (if choice then .lookup id role else .returned .acceptFailed))
  | .lookup id role => some (s.goto c (if id ∈ s.sessions then .update id role else .wait id))
  | .update id role => (s.created id).map fun x =>
      (s.put id (x.setConn role c).1).goto c
        (if (x.setConn role c).2 then .awaitReady id else .wait id)
  | .awaitReady id => (s.created id).bind fun x =>
      if !choice then some (s.goto c (.closeServed id true))
      else if x.ready.isClosed then some (s.goto c (.readConns id)) else none
  | .readConns id => (s.created id).map fun x =>
      match x.clientConn, x.workerConn with
      | some client, some worker => s.goto c (.relaying id client worker)
      | _, _ => s.goto c (.closeServed id true)
  | .relaying id _ _ => some (s.goto c (.closeServed id true))
  | .wait id => (s.created id).bind fun x =>
      if !choice then some (s.goto c (.closeServed id false))
      else if x.done.isClosed then some (s.goto c (.returned (.served id false))) else none
  | .polling [] result => some (s.goto c (.returned (.pending result)))
  | .polling (id :: rest) result => (s.created id).map fun x =>
      if x.target = .vm && !choice then s.goto c (.removing id [] (.poll rest result))
      else s.goto c (.polling rest (result ++ [⟨id, x.target, x.vmID, x.port, x.token⟩]))
  | .removing id rest next =>
    if id ∈ s.sessions then some ((s.remove id).goto c (.closing id rest next))
    else some (s.goto c (.closeAll next rest))
  | .closing id rest next => (s.created id).map fun x =>
      (s.closeSession id x).goto c (.closeAll next rest)

/-- One step of the system. -/
def step (s : State) : Event → Option State
  | .tick elapsed => some { s with clock := s.clock + elapsed }
  | .create id target vmID workerID port token createdAt =>
    if s.created id = none ∧ createdAt ≤ s.clock then
      some (s.create id (.new target vmID workerID port token createdAt))
    else none
  | .serve c request =>
    if s.calls c = .unused then
      match request.check with
      | .ok role => some (s.goto c (.get request role))
      | .error error => some (s.goto c (.returned (.refused error)))
    else none
  | .poll c workerID order =>
    s.start c (ProxySession.isPendingOf workerID) order (.polling order [])
  | .close c id =>
    if s.calls c = .unused then some (s.goto c (.removing id [] (.finish .done))) else none
  | .closeByWorker c workerID order =>
    s.start c (·.workerID = workerID) order (.closeAll (.finish (.count order.length)) order)
  | .closeByVM c vmID order =>
    s.start c (·.vmID = vmID) order (.closeAll (.finish (.count order.length)) order)
  | .reap c order => s.start c s.isStale order (.closeAll (.finish .done) order)
  | .call c choice => callStep s c choice (s.calls c)
  | .disconnect c =>
    if (s.calls c).hasConn then
      some { s with closedConns := Function.update s.closedConns c true }
    else none

/-- No session was created, and no call was made. -/
def initial : State := ⟨0, fun _ => none, [], fun _ => false, fun _ => .unused⟩

/-- The session manager and everything that uses it. -/
def system : System State Event := .ofStep (· = initial) step

end MiniControl.Proxy
