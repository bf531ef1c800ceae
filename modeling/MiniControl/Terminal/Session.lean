import MiniControl.Terminal.History
import MiniControl.Transition.System

/-!
# Terminal sessions

One session with any number of attach calls, its two output streams, the writers
of its attachments, its idle timer and its shutdown. Every section under the
session's mutex is one step, and so is every send to an attachment and every
closing of one. The order in which calls enter is guarded by a second mutex.
Each attach call makes one attachment, which has the number of the call.
-/

namespace MiniControl.Terminal

open Transition

/-- `terminalAttachmentQueueSize`. -/
def terminalAttachmentQueueSize : ℕ := 128

/-- `terminalOutboundMessage`: the control messages and the output. -/
inductive Outbound
  | ready (sessionID : String) (recovered : Bool)
  | error (message : String)
  | output (payload : Payload)
  deriving DecidableEq

/-- The goroutine that writes the messages of an attachment to its connection. -/
inductive Writer
  | selecting
  | writing
  | stopped
  deriving DecidableEq

/-- `terminalAttachment`: the queue, the channel `done`, its writer, and what the
writer took from the queue. -/
structure Attachment where
  outbound : List Outbound
  done : Bool
  writer : Writer
  taken : List Outbound
  deriving DecidableEq

/-- Why an attach call fails: `terminal session is closed`, `terminal attachment
closed`, `terminal attachment buffer is full`, an error of the SSH session, or an
error of the connection. -/
inductive Failure
  | sessionClosed
  | attachmentClosed
  | bufferFull
  | windowChange
  | input
  deriving DecidableEq

namespace Attachment

/-- `newTerminalAttachment`. -/
def new : Attachment := ⟨[], false, .selecting, []⟩

/-- `send`. When the attachment is closed and has room, the select statement takes
either branch. -/
def send (a : Attachment) (message : Outbound) (choice : Bool) : Except Failure Attachment :=
  if a.done && (choice || terminalAttachmentQueueSize ≤ a.outbound.length) then
    .error .attachmentClosed
  else if a.outbound.length < terminalAttachmentQueueSize then
    .ok { a with outbound := a.outbound ++ [message] }
  else .error .bufferFull

/-- `close`. -/
def close (a : Attachment) : Attachment := { a with done := true }

/-- Everything that was ever enqueued. -/
def enqueued (a : Attachment) : List Outbound := a.taken ++ a.outbound

end Attachment

/-- The arguments of an attach call. -/
structure Request where
  cols : ℤ
  rows : ℤ
  recovered : Bool
  deriving DecidableEq

/-- The position of an attach call, named after what it does next. -/
inductive Phase
  | unused
  | lockAttach (request : Request)
  | checkClosed (request : Request)
  | stopTimer (request : Request)
  | readCurrent (request : Request)
  | closeCurrent (request : Request) (current : ℕ)
  | removeCurrent (request : Request) (current : ℕ)
  | sendReady (request : Request)
  | snapshot (request : Request) (replayedSeq : ℕ)
  | replay (request : Request) (frames : List Frame) (latestSeq : ℕ)
  | setAttachment (request : Request)
  | unlockAttach (request : Request)
  | windowChange
  | readInput
  | clearAttachment (result : Option Failure)
  | closeAttachment (result : Option Failure)
  /-- After a failure under the attach mutex. -/
  | unlockFailed (failure : Failure)
  | closeFailed (failure : Failure)
  | returned (result : Option Failure)
  deriving DecidableEq

/-- The two outputs of the SSH session. -/
inductive Output
  | stdout
  | stderr
  deriving DecidableEq

/-- The position of `streamOutput` and of the `publishBinary` that it runs. -/
inductive Stream
  | reading
  | sending (payload : Payload) (target : ℕ)
  | clearing (target : ℕ)
  | closing (target : ℕ)
  | ended
  deriving DecidableEq

/-- The idle timer: its time runs, or its callback was started. -/
inductive Timer
  | armed
  | fired
  deriving DecidableEq

/-- Why a session is closed. -/
inductive Cause
  /-- The SSH session ended normally. -/
  | exited
  /-- The SSH session or one of its outputs failed. -/
  | failed
  /-- The idle timer fired. -/
  | expired
  deriving DecidableEq

/-- The message of a shutdown. -/
def Cause.message : Cause → String
  | .exited => "terminal closed"
  | .failed => "Terminal session ended unexpectedly."
  | .expired => "terminal session expired"

/-- The position of the one execution of `close`. -/
inductive Closing
  | idle
  | cancelled (cause : Cause)
  | notifying (cause : Cause) (attachment : Option ℕ)
  | detaching (attachment : Option ℕ)
  | finished
  deriving DecidableEq

/-- `terminalSession` with the goroutines that work on it. -/
structure State where
  id : String
  attachMu : Option ℕ
  attachment : Option ℕ
  history : History
  closed : Bool
  idleTimer : Option Timer
  /-- The callbacks of the timer that have started and not yet called `close`. -/
  expiries : ℕ
  closing : Closing
  attachments : ℕ → Option Attachment
  calls : ℕ → Phase
  streams : Output → Stream
  /-- All chunks that were published. -/
  published : List Payload

/-- The steps of the goroutines. -/
inductive Event
  | attach (call : ℕ) (request : Request)
  /-- The next step of an attach call. The choice is that of the select statement
  or of the environment. -/
  | call (call : ℕ) (choice : Bool)
  | publish (output : Output) (payload : Payload)
  /-- The next step of a publication that has a target. -/
  | stream (output : Output) (choice : Bool)
  | streamEnds (output : Output)
  | take (attachment : ℕ)
  | wrote (attachment : ℕ) (ok : Bool)
  | stopWriter (attachment : ℕ)
  /-- The time of the idle timer is over. -/
  | expire
  | beginClose (cause : Cause)
  | close (choice : Bool)

namespace State

/-- Move an attach call. -/
def goto (s : State) (call : ℕ) (phase : Phase) : State :=
  { s with calls := Function.update s.calls call phase }

/-- The call that moved. -/
@[simp]
theorem goto_self (s : State) (call : ℕ) (phase : Phase) : (s.goto call phase).calls call = phase :=
  Function.update_self _ _ _

/-- The other calls. -/
theorem goto_of_ne (s : State) {call other : ℕ} (h : other ≠ call) (phase : Phase) :
    (s.goto call phase).calls other = s.calls other :=
  Function.update_of_ne h _ _

/-- Move an output stream. -/
def setStream (s : State) (output : Output) (stream : Stream) : State :=
  { s with streams := Function.update s.streams output stream }

/-- The stream that moved. -/
@[simp]
theorem setStream_self (s : State) (output : Output) (stream : Stream) :
    (s.setStream output stream).streams output = stream :=
  Function.update_self _ _ _

/-- Put an attachment into the heap. -/
def put (s : State) (a : ℕ) (attachment : Attachment) : State :=
  { s with attachments := Function.update s.attachments a (some attachment) }

/-- Close an attachment. -/
def closeAttachment (s : State) (a : ℕ) : State :=
  { s with attachments := Function.update s.attachments a ((s.attachments a).map .close) }

/-- Send to an attachment. -/
def send (s : State) (a : ℕ) (message : Outbound) (choice : Bool) : Except Failure State :=
  match s.attachments a with
  | none => .error .attachmentClosed
  | some attachment => (attachment.send message choice).map (s.put a)

/-- `scheduleIdleTimeoutLocked`. -/
def scheduleIdleTimeoutLocked (s : State) : State :=
  if s.closed then s else { s with idleTimer := some .armed }

/-- The section of `clearAttachment` under the mutex. -/
def clearAttachment (s : State) (target : ℕ) : State :=
  if s.attachment = some target then { s with attachment := none }.scheduleIdleTimeoutLocked else s

/-- `removeAttachment`. -/
def removeAttachment (s : State) (target : ℕ) : State :=
  if s.attachment = some target then { s with attachment := none } else s

/-- `stopIdleTimer`. A callback that has started goes on. -/
def stopIdleTimer (s : State) : State := { s with idleTimer := none }

end State

/-- The next step of an attach call. -/
def callStep (s : State) (c : ℕ) (choice : Bool) : Option State :=
  match s.calls c with
  | .unused => none
  | .lockAttach request =>
    if s.attachMu = none then some ({ s with attachMu := some c }.goto c (.checkClosed request))
    else none
  | .checkClosed request =>
    some (s.goto c (if s.closed then .unlockFailed .sessionClosed else .stopTimer request))
  | .stopTimer request => some ((s.stopIdleTimer.put c .new).goto c (.readCurrent request))
  | .readCurrent request =>
    match s.attachment with
    | some current => some (s.goto c (.closeCurrent request current))
    | none => some (s.goto c (.sendReady request))
  | .closeCurrent request current =>
    some ((s.closeAttachment current).goto c (.removeCurrent request current))
  | .removeCurrent request current =>
    some ((s.removeAttachment current).goto c (.sendReady request))
  | .sendReady request =>
    match s.send c (.ready s.id request.recovered) choice with
    | .ok t => some (t.goto c (.snapshot request 0))
    | .error failure => some (s.goto c (.unlockFailed failure))
  | .snapshot request replayedSeq =>
    match s.history.snapshotFramesAfter replayedSeq with
    | ([], _) => some (s.goto c (.setAttachment request))
    | (frames, latestSeq) => some (s.goto c (.replay request frames latestSeq))
  | .replay request [] latestSeq => some (s.goto c (.snapshot request latestSeq))
  | .replay request (frame :: frames) latestSeq =>
    match s.send c (.output frame.payload) choice with
    | .ok t => some (t.goto c (.replay request frames latestSeq))
    | .error failure => some (s.goto c (.unlockFailed failure))
  | .setAttachment request => some ({ s with attachment := some c }.goto c (.unlockAttach request))
  | .unlockAttach request =>
    some ({ s with attachMu := none }.goto c
      (if 0 < request.rows ∧ 0 < request.cols then .windowChange else .readInput))
  | .windowChange =>
    some (s.goto c (if choice then .readInput else .clearAttachment (some .windowChange)))
  | .readInput => some (s.goto c (.clearAttachment (if choice then none else some .input)))
  | .clearAttachment result => some ((s.clearAttachment c).goto c (.closeAttachment result))
  | .closeAttachment result => some ((s.closeAttachment c).goto c (.returned result))
  | .unlockFailed failure =>
    some ({ s with attachMu := none }.goto c
      (if failure = Failure.sessionClosed then .returned (some failure) else .closeFailed failure))
  | .closeFailed failure => some ((s.closeAttachment c).goto c (.returned (some failure)))
  | .returned _ => none

/-- `publishBinary` up to its section under the mutex. -/
def publishBinary (s : State) (output : Output) (payload : Payload) : State :=
  if s.closed then s
  else
    { s with
      history := s.history.publish payload
      published := s.published ++ [payload] }.setStream output
        (match s.attachment with
        | none => .reading
        | some target => .sending payload target)

/-- The next step of a publication after its section under the mutex. -/
def streamStep (s : State) (output : Output) (choice : Bool) : Option State :=
  match s.streams output with
  | .sending payload target =>
    match s.send target (.output payload) choice with
    | .ok t => some (t.setStream output .reading)
    | .error _ => some (s.setStream output (.clearing target))
  | .clearing target => some ((s.clearAttachment target).setStream output (.closing target))
  | .closing target => some ((s.closeAttachment target).setStream output .reading)
  | .reading | .ended => none

/-- The next step of the shutdown. -/
def closeStep (s : State) (choice : Bool) : Option State :=
  match s.closing with
  | .cancelled cause => some { s with
      closed := true
      attachment := none
      idleTimer := none
      closing := .notifying cause s.attachment }
  | .notifying cause target =>
    let t := match target with
      | some a =>
        if cause = Cause.exited then s
        else
          match s.send a (.error cause.message) choice with
          | .ok t => t
          | .error _ => s
      | none => s
    some { t with closing := .detaching target }
  | .detaching (some a) => some { s.closeAttachment a with closing := .finished }
  | .detaching none => some { s with closing := .finished }
  | .idle | .finished => none

/-- One step of the writer of an attachment. -/
def writerStep (s : State) (a : ℕ) (f : Attachment → Option Attachment) : Option State :=
  ((s.attachments a).bind f).map (s.put a)

/-- One step of the session. -/
def step (s : State) : Event → Option State
  | .attach c request =>
    if s.calls c = .unused then some (s.goto c (.lockAttach request)) else none
  | .call c choice => callStep s c choice
  | .publish output payload =>
    if s.streams output = .reading then some (publishBinary s output payload) else none
  | .stream output choice => streamStep s output choice
  | .streamEnds output =>
    if s.streams output = .reading then some (s.setStream output .ended) else none
  | .take a => writerStep s a fun x =>
    match x.writer, x.outbound with
    | .selecting, message :: rest =>
      some { x with outbound := rest, taken := x.taken ++ [message], writer := .writing }
    | _, _ => none
  | .wrote a ok => writerStep s a fun x =>
    if x.writer = .writing then
      some (if ok then { x with writer := .selecting } else { x.close with writer := .stopped })
    else none
  | .stopWriter a => writerStep s a fun x =>
    if x.writer = .selecting ∧ (x.done ∨ s.closing ≠ .idle) then
      some { x.close with writer := .stopped }
    else none
  | .expire =>
    if s.idleTimer = some .armed then
      some { s with idleTimer := some .fired, expiries := s.expiries + 1 }
    else none
  | .beginClose cause =>
    if s.closing = .idle then
      match cause with
      | .expired =>
        if 0 < s.expiries then
          some { s with expiries := s.expiries - 1, closing := .cancelled .expired }
        else none
      | cause => some { s with closing := .cancelled cause }
    else none
  | .close choice => closeStep s choice

/-- A session that was just created. -/
def initial (id : String) : State where
  id := id
  attachMu := none
  attachment := none
  history := .empty
  closed := false
  idleTimer := none
  expiries := 0
  closing := .idle
  attachments _ := none
  calls _ := .unused
  streams _ := .reading
  published := []

/-- All runs of a session. -/
def system (id : String) : System State Event := System.ofStep (· = initial id) step

/-- The arguments of a call that gives no size and recovers nothing. -/
def plainRequest : Request := ⟨0, 0, false⟩

end MiniControl.Terminal
