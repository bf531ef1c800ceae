import MiniControl.Rest.MemberRequests

/-!
# Terminals in the browser

`RemoteTerminal` shows a shell of one workstation. Its effect opens a WebSocket, opens
it again after a delay whenever it is closed, and asks for the session that it had
before: it keeps the id in a reference and in the storage of the tab. The server joins a
connection with a session of its table, or makes a new one.

Any number of tabs show any number of terminals one after another, tabs are duplicated
with their storage and reloaded, connections fail, and members sign in and out. A
WebSocket that is closed by the browser delivers no message any more.
-/

namespace MiniControl.Frontend.RemoteTerminal

open Transition Rest

/-- `RECONNECT_BASE_DELAY_MS`. -/
def reconnectBaseDelayMs : ℕ := 1000

/-- `RECONNECT_MAX_DELAY_MS`. -/
def reconnectMaxDelayMs : ℕ := 5000

/-- `SESSION_REJECTED_CLOSE_CODE`. -/
def sessionRejectedCloseCode : ℕ := 1008

section Storage

/-- `window.sessionStorage`. -/
abbrev Storage := String → Option String

/-- `storageKey`. -/
def storageKey (workstationID : String) : String :=
  "mini-control.terminal-session." ++ workstationID

/-- `loadTerminalSessionID`. The access to the storage may throw. -/
def loadTerminalSessionID (storage : Storage) (throws : Bool) (workstationID : String) :
    Option String :=
  if throws then none else storage (storageKey workstationID)

/-- `saveTerminalSessionID`. -/
def saveTerminalSessionID (storage : Storage) (throws : Bool) (workstationID sessionID : String) :
    Storage :=
  if throws then storage
  else Function.update storage (storageKey workstationID) (some sessionID)

/-- `clearTerminalSessionID`. -/
def clearTerminalSessionID (storage : Storage) (throws : Bool) (workstationID : String) :
    Storage :=
  if throws then storage else Function.update storage (storageKey workstationID) none

end Storage

/-- A mounted component, by its tab and a number. -/
abbrev Component := ℕ × ℕ

/-- The variables of one run of the effect. -/
structure Run where
  component : Component
  workstationID : String
  socketRef : Option ℕ
  /-- The delay of the timer that is set. -/
  reconnectTimer : Option ℕ
  reconnectAttempts : ℕ
  disposed : Bool
  deriving DecidableEq

/-- A text that JavaScript takes for true. -/
def truthy (text : Option String) : Bool := text.any (· ≠ "")

namespace Run

/-- `scheduleReconnect`. -/
def scheduleReconnect (run : Run) : Run :=
  if run.disposed || run.reconnectTimer.isSome then run
  else
    let delay := min (reconnectBaseDelayMs * max 1 run.reconnectAttempts) reconnectMaxDelayMs
    { run with reconnectTimer := some delay }

/-- The session that was asked for is rejected. -/
def rejects (attemptedSessionID : Option String) (code : ℕ) : Bool :=
  truthy attemptedSessionID && code = sessionRejectedCloseCode

/-- The part of `socket.onclose` about the variables of the effect. -/
def onclose (run : Run) (socket : ℕ) (attemptedSessionID : Option String) (code : ℕ) : Run :=
  let run := if run.socketRef = some socket then { run with socketRef := none } else run
  if run.disposed then run
  else if rejects attemptedSessionID code then
    { run with reconnectAttempts := 0 }.scheduleReconnect
  else { run with reconnectAttempts := run.reconnectAttempts + 1 }.scheduleReconnect

end Run

/-- `readyState`. -/
inductive ReadyState
  | connecting
  | opened
  | closing
  | closed
  deriving DecidableEq

/-- The call that serves a connection: the request is on its way, it is handled for a
member, or it was answered. -/
inductive Handler
  | waiting
  | running (member : Option String) (program : Prog Call Answer Response)
  | finished

/-- `buildTerminalWebSocketURL`, as the query that the server reads. -/
def buildTerminalWebSocketURL (cols rows : ℤ) (sessionID : Option String)
    (workstationID : String) : TerminalQuery :=
  ⟨sessionID.getD "", workstationID, some cols, some rows⟩

/-- A WebSocket with both of its ends. -/
structure Socket where
  run : ℕ
  attemptedSessionID : Option String
  query : TerminalQuery
  readyState : ReadyState
  handler : Handler
  /-- `Attach` has sent `ready`. -/
  attached : Bool
  /-- The messages to the browser that are not yet delivered. -/
  inbox : List Terminal.Outbound
  /-- The code with which the server has closed it. -/
  closeCode : Option ℕ

/-- `socket.close()` in the browser. -/
def Socket.close (x : Socket) : Socket :=
  match x.readyState with
  | .connecting | .opened => { x with readyState := .closing }
  | .closing | .closed => x

/-- The server closes the connection, unless it has done so before. -/
def Socket.closeWith (x : Socket) (code : ℕ) : Socket :=
  { x with closeCode := x.closeCode.or (some code) }

/-- The server sends messages. -/
def Socket.send (x : Socket) (messages : List Terminal.Outbound) : Socket :=
  { x with inbox := x.inbox ++ messages }

/-- A terminal session on the server. -/
structure Session where
  info : TerminalSession
  closed : Bool
  /-- It is in the map of the manager. -/
  registered : Bool
  /-- The connection whose `Attach` has locked `attachMu`. -/
  attaching : Option ℕ
  attachment : Option ℕ
  deriving DecidableEq

/-- The session without the attachment, unless it has another one by now. -/
def Session.clear (y : Session) (n : ℕ) : Session :=
  if y.attachment = some n then { y with attachment := none } else y

/-- The browser and the server. -/
structure State where
  /-- The tabs that were opened, and their storage. -/
  tabs : List ℕ
  storage : ℕ → Storage
  sessionIDRef : Component → Option String
  /-- The effect of a component that is mounted. -/
  current : Component → Option ℕ
  /-- All runs of the effect and all WebSockets that were ever made. -/
  runs : ℕ → Option Run
  sockets : ℕ → Option Socket
  /-- All terminal sessions that were ever made. -/
  sessions : String → Option Session
  /-- The sessions that runs of the effect were told to give up. -/
  rejected : List (ℕ × String)

namespace State

variable (s : State)

/-- Change a run of the effect. -/
def setRun (id : ℕ) (run : Run) : State := { s with runs := Function.update s.runs id (some run) }

/-- Change a WebSocket. -/
def setSocket (n : ℕ) (x : Socket) : State :=
  { s with sockets := Function.update s.sockets n (some x) }

/-- Change a terminal session. -/
def setSession (id : String) (y : Session) : State :=
  { s with sessions := Function.update s.sessions id (some y) }

/-- Change a WebSocket if there is one. -/
def modifySocket (n : Option ℕ) (f : Socket → Socket) : State :=
  { s with sockets := fun m => if n = some m then (s.sockets m).map f else s.sockets m }

section Browser

/-- `connect`, with the size of the terminal. -/
def connect (id : ℕ) (run : Run) (n : ℕ) (cols rows : ℤ) : State :=
  if run.disposed then s
  else
    let attemptedSessionID := s.sessionIDRef run.component
    let query := buildTerminalWebSocketURL (max cols 1) (max rows 1) attemptedSessionID
      run.workstationID
    (s.setRun id { run with socketRef := some n }).setSocket n
      ⟨id, attemptedSessionID, query, .connecting, .waiting, false, [], none⟩

/-- The effect of a component up to its first `connect`. -/
def startEffect (component : Component) (workstationID : String) (id : ℕ) (throws : Bool) :
    State :=
  { s with
    sessionIDRef := Function.update s.sessionIDRef component
      (loadTerminalSessionID (s.storage component.1) throws workstationID)
    current := Function.update s.current component (some id) }

/-- The function that the effect returns. -/
def cleanup (component : Component) (id : ℕ) (run : Run) : State :=
  let s := s.setRun id { run with disposed := true, reconnectTimer := none }
  modifySocket { s with current := Function.update s.current component none } run.socketRef .close

/-- The scripts of a tab are gone, and its connections with them. -/
def unload (tab : ℕ) : State :=
  { s with
    current := fun component => if component.1 = tab then none else s.current component
    runs := fun id => (s.runs id).map fun run =>
      if run.component.1 = tab then { run with disposed := true, reconnectTimer := none } else run
    sockets := fun n => (s.sockets n).map fun x =>
      if (s.runs x.run).any (·.component.1 = tab) then { x with readyState := .closed } else x }

/-- `handleMessage`, in the run of the effect that the message comes to. -/
def handleMessage (run : Run) (throws : Bool) : Terminal.Outbound → State
  | .ready sessionID _ =>
    if sessionID ≠ "" then
      let tab := run.component.1
      { s with
        sessionIDRef := Function.update s.sessionIDRef run.component (some sessionID)
        storage := Function.update s.storage tab
          (saveTerminalSessionID (s.storage tab) throws run.workstationID sessionID) }
    else s
  -- these are shown
  | .error _ | .output _ => s

/-- `socket.onclose`. -/
def onclose (id : ℕ) (run : Run) (n : ℕ) (attemptedSessionID : Option String) (code : ℕ)
    (throws : Bool) : State :=
  let s := s.setRun id (run.onclose n attemptedSessionID code)
  if !run.disposed && Run.rejects attemptedSessionID code then
    let tab := run.component.1
    { s with
      sessionIDRef := Function.update s.sessionIDRef run.component none
      storage := Function.update s.storage tab
        (clearTerminalSessionID (s.storage tab) throws run.workstationID)
      rejected := (id, attemptedSessionID.getD "") :: s.rejected }
  else s

end Browser

section Server

/-- The answers that a call of a handler may have. New ids are not in use. -/
def answers (c : Call) (answer : Answer) : Bool :=
  match c, answer with
  | .getTerminalSession id, answer =>
    answer = .ofOption .terminalSession (((s.sessions id).filter (·.registered)).map (·.info))
  | .createTerminalSession memberID workstationID workerID, .terminalSession info =>
    (s.sessions info.id).isNone && info.id ≠ "" && Text.trimSpace info.id = info.id &&
      info = ⟨info.id, memberID, workstationID, workerID⟩
  | .createTerminalSession _ _ _, _ => false
  | .getWorkstationByIDForMember memberID workstationID, .workstation row =>
    row.id = workstationID && row.memberID = memberID
  -- `Attach` has steps of its own
  | .attach _ _, _ => false
  | _, _ => true

/-- What a call does to the table of sessions. -/
def record (c : Call) (answer : Answer) : State :=
  match c, answer with
  | .createTerminalSession _ _ _, .terminalSession info =>
    s.setSession info.id ⟨info, false, true, none, none⟩
  | _, _ => s

/-- The handler goes on after `Attach`. -/
def endAttach (n : ℕ) (x : Socket) (member : Option String)
    (program : Prog Call Answer Response) : State :=
  s.setSocket n { x with handler := .running member program }

/-- `clearAttachment`. -/
def clearAttachment (id : String) (y : Session) (n : ℕ) : State :=
  (s.setSession id (y.clear n)).modifySocket (some n) (·.closeWith 1001)

end Server

end State

/-- The code of the close frame of a response, or that of a connection that ends without
one. -/
def closeCodeOf : Response → ℕ
  | .closed status _ => status
  | _ => 1006

/-- What `close` sends before it closes the attachment. -/
def closeMessages (code : ℕ) (message : String) : List Terminal.Outbound :=
  if code = 1000 then [] else [.error message]

/-- The session that the handler joins with its connection, while it does so. -/
def Handler.attaches : Handler → Option (TerminalSession × Terminal.Request)
  | .running _ (.call (.attach info request) _) => some (info, request)
  | _ => none

/-- What may happen in the browser. -/
inductive BrowserEvent
  /-- A tab is opened, with the storage of another one or with none. -/
  | openTab (tab : ℕ) (source : Option ℕ)
  /-- A tab is reloaded or closed. -/
  | unload (tab : ℕ)
  | effect (component : Component) (workstationID : String) (id n : ℕ) (cols rows : ℤ)
      (throws : Bool)
  | cleanup (component : Component)
  | timer (id n : ℕ) (cols rows : ℤ)
  | onopen (n : ℕ)
  | onmessage (n : ℕ) (throws : Bool)
  | onerror (n : ℕ)
  | onclose (n code : ℕ) (throws : Bool)

/-- What may happen on the server. -/
inductive ServerEvent
  /-- A request arrives and is authenticated. -/
  | serve (n : ℕ) (member : Option String)
  | answer (n : ℕ) (answer : Answer)
  /-- `Attach` locks `attachMu`, closes the attachment of the session and sends `ready`. -/
  | attach (n : ℕ)
  | setAttachment (n : ℕ)
  | attachReturns (n : ℕ) (fails : Bool)
  | respond (n : ℕ)
  | publishBinary (sessionID : String) (payload : Terminal.Payload) (fails : Bool)
  /-- The goroutine of an attachment ends. -/
  | writerStops (n : ℕ)
  | close (sessionID : String) (code : ℕ) (message : String)
  | remove (sessionID : String)

/-- One step of the browser. -/
def State.browserStep (s : State) : BrowserEvent → Option State
  | .openTab tab source =>
    if tab ∈ s.tabs then none
    else some { s with
      tabs := tab :: s.tabs
      storage := Function.update s.storage tab (source.elim (fun _ => none) s.storage) }
  | .unload tab => some (s.unload tab)
  | .effect component workstationID id n cols rows throws =>
    -- ids of workstations have no space at their ends
    if component.1 ∈ s.tabs ∧ s.current component = none ∧ s.runs id = none ∧
        (s.sockets n).isNone ∧ workstationID ≠ "" ∧
        Text.trimSpace workstationID = workstationID then
      some ((s.startEffect component workstationID id throws).connect id
        ⟨component, workstationID, none, none, 0, false⟩ n cols rows)
    else none
  | .cleanup component => do
    let id ← s.current component
    let run ← s.runs id
    return s.cleanup component id run
  | .timer id n cols rows => do
    let run ← s.runs id
    if run.reconnectTimer.isSome ∧ (s.sockets n).isNone then
      let run := { run with reconnectTimer := none }
      some ((s.setRun id run).connect id run n cols rows)
    else none
  | .onopen n => do
    let x ← s.sockets n
    let run ← s.runs x.run
    if x.readyState = .connecting then
      some ((s.setSocket n { x with readyState := .opened }).setRun x.run
        { run with reconnectAttempts := 0 })
    else none
  | .onmessage n throws => do
    let x ← s.sockets n
    let run ← s.runs x.run
    let message ← x.inbox.head?
    if x.readyState = .opened then
      some ((s.setSocket n { x with inbox := x.inbox.tail }).handleMessage run throws message)
    else none
  | .onerror n => some (s.modifySocket (some n) .close)
  | .onclose n code throws => do
    let x ← s.sockets n
    let run ← s.runs x.run
    -- the code of the server, or one for the lack of a code or of a closing frame
    if x.readyState ≠ .closed ∧ (x.closeCode = some code ∨ code = 1005 ∨ code = 1006) then
      some ((s.setSocket n { x with readyState := .closed }).onclose x.run run n
        x.attemptedSessionID code throws)
    else none

/-- One step of the server. -/
def State.serverStep (s : State) : ServerEvent → Option State
  | .serve n member => do
    let x ← s.sockets n
    match x.handler with
    | .waiting =>
      some (s.setSocket n { x with
        handler := .running member (handleBrowserTerminalWebSocket member x.query) })
    | _ => none
  | .answer n answer => do
    let x ← s.sockets n
    match x.handler with
    | .running member (.call c next) =>
      if s.answers c answer then
        some ((s.record c answer).setSocket n { x with handler := .running member (next answer) })
      else none
    | _ => none
  | .attach n => do
    let x ← s.sockets n
    let (info, request) ← x.handler.attaches
    let y ← s.sessions info.id
    if y.attaching = none ∧ !y.closed ∧ !x.attached then
      let s := s.setSession info.id { y with attaching := some n, attachment := none }
      let s := s.setSocket n
        ({ x with attached := true }.send [.ready info.id request.recovered])
      some (s.modifySocket y.attachment (·.closeWith statusPolicyViolation))
    else none
  | .setAttachment n => do
    let x ← s.sockets n
    let (info, _) ← x.handler.attaches
    let y ← s.sessions info.id
    if y.attaching = some n then
      some (s.setSession info.id { y with attaching := none, attachment := some n })
    else none
  | .attachReturns n fails => do
    let x ← s.sockets n
    match x.handler with
    | .running member (.call (.attach info _) next) => do
      let y ← s.sessions info.id
      if y.attaching = some n then
        -- a message could not be sent
        some (((s.endAttach n x member (next .failed)).setSession info.id
          { y with attaching := none }).modifySocket (some n) (·.closeWith statusInternalError))
      else if x.attached then
        let answer := if fails then .failed else .done
        some ((s.endAttach n x member (next answer)).clearAttachment info.id y n)
      else if y.closed then some (s.endAttach n x member (next .failed))
      else none
    | _ => none
  | .respond n => do
    let x ← s.sockets n
    match x.handler with
    | .running _ (.done response) =>
      some (s.setSocket n ({ x with handler := .finished }.closeWith (closeCodeOf response)))
    | _ => none
  | .publishBinary sessionID payload fails => do
    let y ← s.sessions sessionID
    let n ← y.attachment
    if fails then some (s.clearAttachment sessionID y n)
    else some (s.modifySocket (some n) (·.send [.output payload]))
  | .writerStops n => do
    let x ← s.sockets n
    if x.attached then some (s.setSocket n (x.closeWith 1000)) else none
  | .close sessionID code message => do
    let y ← s.sessions sessionID
    if y.closed then none
    else
      let s := s.setSession sessionID { y with closed := true, attachment := none }
      some (s.modifySocket y.attachment fun x =>
        (x.send (closeMessages code message)).closeWith code)
  | .remove sessionID => do
    let y ← s.sessions sessionID
    if y.closed then some (s.setSession sessionID { y with registered := false }) else none

/-- One step. -/
def State.step (s : State) : BrowserEvent ⊕ ServerEvent → Option State
  | .inl e => s.browserStep e
  | .inr e => s.serverStep e

/-- No tab was opened, and no session was made. -/
def State.initial : State where
  tabs := []
  storage := fun _ _ => none
  sessionIDRef := fun _ => none
  current := fun _ => none
  runs := fun _ => none
  sockets := fun _ => none
  sessions := fun _ => none
  rejected := []

/-- All runs of browser and server. -/
def system : System State (BrowserEvent ⊕ ServerEvent) :=
  System.ofStep (· = .initial) State.step

section Steps

variable {s t : State}

/-- What a step of the browser does. -/
inductive Browses (s : State) : State → Prop
  | openTab (tab : ℕ) (source : Option ℕ) : tab ∉ s.tabs →
      Browses s { s with
        tabs := tab :: s.tabs
        storage := Function.update s.storage tab (source.elim (fun _ => none) s.storage) }
  | unload (tab : ℕ) : Browses s (s.unload tab)
  | effect (component : Component) (workstationID : String) (id n : ℕ) (cols rows : ℤ)
      (throws : Bool) : s.current component = none → s.runs id = none → s.sockets n = none →
      workstationID ≠ "" → Text.trimSpace workstationID = workstationID →
      Browses s ((s.startEffect component workstationID id throws).connect id
        ⟨component, workstationID, none, none, 0, false⟩ n cols rows)
  | cleanup (component : Component) (id : ℕ) (run : Run) : s.current component = some id →
      s.runs id = some run → Browses s (s.cleanup component id run)
  | timer (id : ℕ) (run : Run) (n : ℕ) (cols rows : ℤ) : s.runs id = some run →
      run.reconnectTimer.isSome → s.sockets n = none →
      Browses s ((s.setRun id { run with reconnectTimer := none }).connect id
        { run with reconnectTimer := none } n cols rows)
  | onopen (n : ℕ) (x : Socket) (run : Run) : s.sockets n = some x → s.runs x.run = some run →
      x.readyState = .connecting →
      Browses s ((s.setSocket n { x with readyState := .opened }).setRun x.run
        { run with reconnectAttempts := 0 })
  | onmessage (n : ℕ) (x : Socket) (run : Run) (throws : Bool) (message : Terminal.Outbound)
      (inbox : List Terminal.Outbound) : s.sockets n = some x → s.runs x.run = some run →
      x.inbox = message :: inbox → x.readyState = .opened →
      Browses s ((s.setSocket n { x with inbox }).handleMessage run throws message)
  | onerror (n : ℕ) : Browses s (s.modifySocket (some n) .close)
  | onclose (n : ℕ) (x : Socket) (run : Run) (code : ℕ) (throws : Bool) :
      s.sockets n = some x → s.runs x.run = some run → x.readyState ≠ .closed →
      Browses s ((s.setSocket n { x with readyState := .closed }).onclose x.run run n
        x.attemptedSessionID code throws)

/-- The browser does these only. -/
theorem browses_of_browserStep {e : BrowserEvent} (h : s.browserStep e = some t) :
    Browses s t := by
  cases e with
  | openTab tab source =>
    simp only [State.browserStep, Option.ite_none_left_eq_some] at h
    obtain ⟨htab, h⟩ := h
    cases h
    exact .openTab tab source htab
  | unload tab =>
    cases h
    exact .unload tab
  | effect component workstationID id n cols rows throws =>
    simp only [State.browserStep, Option.ite_none_right_eq_some, Option.isNone_iff_eq_none] at h
    obtain ⟨⟨-, hcurrent, hrun, hsocket, hne, htrim⟩, h⟩ := h
    cases h
    exact .effect component workstationID id n cols rows throws hcurrent hrun hsocket hne htrim
  | cleanup component =>
    obtain ⟨id, hid, h⟩ := Option.bind_eq_some_iff.mp h
    obtain ⟨run, hrun, h⟩ := Option.bind_eq_some_iff.mp h
    cases h
    exact .cleanup component id run hid hrun
  | timer id n cols rows =>
    obtain ⟨run, hrun, h⟩ := Option.bind_eq_some_iff.mp h
    simp only [Option.ite_none_right_eq_some, Option.isNone_iff_eq_none] at h
    obtain ⟨⟨htimer, hsocket⟩, h⟩ := h
    cases h
    exact .timer id run n cols rows hrun htimer hsocket
  | onopen n =>
    obtain ⟨x, hx, h⟩ := Option.bind_eq_some_iff.mp h
    obtain ⟨run, hrun, h⟩ := Option.bind_eq_some_iff.mp h
    simp only [Option.ite_none_right_eq_some] at h
    obtain ⟨hstate, h⟩ := h
    cases h
    exact .onopen n x run hx hrun hstate
  | onmessage n throws =>
    obtain ⟨x, hx, h⟩ := Option.bind_eq_some_iff.mp h
    obtain ⟨run, hrun, h⟩ := Option.bind_eq_some_iff.mp h
    obtain ⟨message, hmessage, h⟩ := Option.bind_eq_some_iff.mp h
    simp only [Option.ite_none_right_eq_some] at h
    obtain ⟨hstate, h⟩ := h
    cases h
    obtain ⟨inbox, hinbox⟩ := List.head?_eq_some_iff.mp hmessage
    rw [hinbox, List.tail_cons]
    exact .onmessage n x run throws message inbox hx hrun hinbox hstate
  | onerror n =>
    cases h
    exact .onerror n
  | onclose n code throws =>
    obtain ⟨x, hx, h⟩ := Option.bind_eq_some_iff.mp h
    obtain ⟨run, hrun, h⟩ := Option.bind_eq_some_iff.mp h
    simp only [Option.ite_none_right_eq_some] at h
    obtain ⟨⟨hstate, -⟩, h⟩ := h
    cases h
    exact .onclose n x run code throws hx hrun hstate

/-- What a step of the server does. -/
inductive Serves (s : State) : State → Prop
  | serve (n : ℕ) (x : Socket) (member : Option String) : s.sockets n = some x →
      x.handler = .waiting → Serves s (s.setSocket n { x with
        handler := .running member (handleBrowserTerminalWebSocket member x.query) })
  | answer (n : ℕ) (x : Socket) (member : Option String) (c : Call)
      (next : Answer → Prog Call Answer Response) (answer : Answer) : s.sockets n = some x →
      x.handler = .running member (.call c next) → s.answers c answer →
      Serves s ((s.record c answer).setSocket n { x with handler := .running member (next answer) })
  | attach (n : ℕ) (x : Socket) (info : TerminalSession) (request : Terminal.Request)
      (y : Session) : s.sockets n = some x → x.handler.attaches = some (info, request) →
      s.sessions info.id = some y → y.attaching = none →
      Serves s (((s.setSession info.id
        { y with attaching := some n, attachment := none }).setSocket n
          ({ x with attached := true }.send [.ready info.id request.recovered])).modifySocket
            y.attachment (·.closeWith statusPolicyViolation))
  | setAttachment (n : ℕ) (id : String) (y : Session) : s.sessions id = some y →
      y.attaching = some n →
      Serves s (s.setSession id { y with attaching := none, attachment := some n })
  | attachFails (n : ℕ) (x : Socket) (member : Option String) (info : TerminalSession)
      (request : Terminal.Request) (next : Answer → Prog Call Answer Response) (y : Session) :
      s.sockets n = some x → x.handler = .running member (.call (.attach info request) next) →
      s.sessions info.id = some y → y.attaching = some n →
      Serves s (((s.endAttach n x member (next .failed)).setSession info.id
        { y with attaching := none }).modifySocket (some n) (·.closeWith statusInternalError))
  | attachEnds (n : ℕ) (x : Socket) (member : Option String) (info : TerminalSession)
      (request : Terminal.Request) (next : Answer → Prog Call Answer Response) (y : Session)
      (answer : Answer) : s.sockets n = some x →
      x.handler = .running member (.call (.attach info request) next) →
      s.sessions info.id = some y → y.attaching ≠ some n →
      Serves s ((s.endAttach n x member (next answer)).clearAttachment info.id y n)
  | attachRefused (n : ℕ) (x : Socket) (member : Option String) (info : TerminalSession)
      (request : Terminal.Request) (next : Answer → Prog Call Answer Response) :
      s.sockets n = some x → x.handler = .running member (.call (.attach info request) next) →
      x.attached = false → Serves s (s.endAttach n x member (next .failed))
  | respond (n : ℕ) (x : Socket) (member : Option String) (response : Response) :
      s.sockets n = some x → x.handler = .running member (.done response) →
      Serves s (s.setSocket n ({ x with handler := .finished }.closeWith (closeCodeOf response)))
  | publishFails (id : String) (y : Session) (n : ℕ) : s.sessions id = some y →
      y.attachment = some n → Serves s (s.clearAttachment id y n)
  | publish (n : ℕ) (payload : Terminal.Payload) :
      Serves s (s.modifySocket (some n) (·.send [.output payload]))
  | writerStops (n : ℕ) (x : Socket) : s.sockets n = some x →
      Serves s (s.setSocket n (x.closeWith 1000))
  | close (id : String) (y : Session) (code : ℕ) (message : String) : s.sessions id = some y →
      Serves s ((s.setSession id { y with closed := true, attachment := none }).modifySocket
        y.attachment fun x => (x.send (closeMessages code message)).closeWith code)
  | remove (id : String) (y : Session) : s.sessions id = some y →
      Serves s (s.setSession id { y with registered := false })

/-- A handler that joins its connection with a session is at its call of `Attach`. -/
theorem Handler.exists_of_attaches {handler : Handler} {info : TerminalSession}
    {request : Terminal.Request} (h : handler.attaches = some (info, request)) :
    ∃ member next, handler = .running member (.call (.attach info request) next) := by
  unfold attaches at h
  split at h
  next member info request next =>
    cases h
    exact ⟨member, next, rfl⟩
  next => cases h

/-- The server does these only. -/
theorem serves_of_serverStep {e : ServerEvent} (h : s.serverStep e = some t) : Serves s t := by
  cases e with
  | serve n member =>
    obtain ⟨x, hx, h⟩ := Option.bind_eq_some_iff.mp h
    split at h
    next hhandler =>
      cases h
      exact .serve n x member hx hhandler
    next => cases h
  | answer n answer =>
    obtain ⟨x, hx, h⟩ := Option.bind_eq_some_iff.mp h
    split at h
    next member c next hhandler =>
      simp only [Option.ite_none_right_eq_some] at h
      obtain ⟨hanswer, h⟩ := h
      cases h
      exact .answer n x member c next answer hx hhandler hanswer
    next => cases h
  | attach n =>
    obtain ⟨x, hx, h⟩ := Option.bind_eq_some_iff.mp h
    obtain ⟨⟨info, request⟩, hattaches, h⟩ := Option.bind_eq_some_iff.mp h
    obtain ⟨y, hy, h⟩ := Option.bind_eq_some_iff.mp h
    simp only [Option.ite_none_right_eq_some] at h
    obtain ⟨⟨hattaching, -⟩, h⟩ := h
    cases h
    exact .attach n x info request y hx hattaches hy hattaching
  | setAttachment n =>
    obtain ⟨x, hx, h⟩ := Option.bind_eq_some_iff.mp h
    obtain ⟨⟨info, request⟩, -, h⟩ := Option.bind_eq_some_iff.mp h
    obtain ⟨y, hy, h⟩ := Option.bind_eq_some_iff.mp h
    simp only [Option.ite_none_right_eq_some] at h
    obtain ⟨hattaching, h⟩ := h
    cases h
    exact .setAttachment n info.id y hy hattaching
  | attachReturns n fails =>
    obtain ⟨x, hx, h⟩ := Option.bind_eq_some_iff.mp h
    split at h
    next member info request next hhandler =>
      obtain ⟨y, hy, h⟩ := Option.bind_eq_some_iff.mp h
      split at h
      next hattaching =>
        cases h
        exact .attachFails n x member info request next y hx hhandler hy hattaching
      next hattaching =>
        split at h
        next =>
          cases h
          exact .attachEnds n x member info request next y _ hx hhandler hy hattaching
        next hattached =>
          simp only [Option.ite_none_right_eq_some] at h
          obtain ⟨-, h⟩ := h
          cases h
          exact .attachRefused n x member info request next hx hhandler (by simpa using hattached)
    next => cases h
  | respond n =>
    obtain ⟨x, hx, h⟩ := Option.bind_eq_some_iff.mp h
    split at h
    next member response hhandler =>
      cases h
      exact .respond n x member response hx hhandler
    next => cases h
  | publishBinary sessionID payload fails =>
    obtain ⟨y, hy, h⟩ := Option.bind_eq_some_iff.mp h
    obtain ⟨n, hn, h⟩ := Option.bind_eq_some_iff.mp h
    split at h <;> cases h
    · exact .publishFails sessionID y n hy hn
    · exact .publish n payload
  | writerStops n =>
    obtain ⟨x, hx, h⟩ := Option.bind_eq_some_iff.mp h
    simp only [Option.ite_none_right_eq_some] at h
    obtain ⟨-, h⟩ := h
    cases h
    exact .writerStops n x hx
  | close sessionID code message =>
    obtain ⟨y, hy, h⟩ := Option.bind_eq_some_iff.mp h
    simp only [Option.ite_none_left_eq_some] at h
    obtain ⟨-, h⟩ := h
    cases h
    exact .close sessionID y code message hy
  | remove sessionID =>
    obtain ⟨y, hy, h⟩ := Option.bind_eq_some_iff.mp h
    simp only [Option.ite_none_right_eq_some] at h
    obtain ⟨-, h⟩ := h
    cases h
    exact .remove sessionID y hy

/-- The two sides take turns in any order. -/
theorem browses_or_serves {e : BrowserEvent ⊕ ServerEvent} (h : system.next s e t) :
    Browses s t ∨ Serves s t := by
  cases e with
  | inl e => exact .inl (browses_of_browserStep h)
  | inr e => exact .inr (serves_of_serverStep h)

end Steps

end MiniControl.Frontend.RemoteTerminal
