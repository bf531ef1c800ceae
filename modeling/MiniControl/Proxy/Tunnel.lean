import MiniControl.Buffers.Framing
import MiniControl.Proxy.Session
import MiniControl.WorkerCore.ProxyRelay

/-!
# The tunnel of a session

A client, such as the SSH client of a terminal or a VNC viewer, reaches a port of a VM
through two WebSockets and a TCP connection: the server copies messages between the
WebSocket of the client and that of the worker, and the worker writes their bytes to
the target and sends what the target sends. A message is copied in pieces, in frames of
its own, and the worker receives it as a whole. This file joins the two goroutines of
`Relay` and the relay of the worker with everything that is on its way between them.

Messages have a largest size. The server gives up a connection from which a larger one
comes, after it has copied the start of it, and so does the worker.
-/

namespace MiniControl.Tunnel

open Transition Buffers WorkerCore.ProxyRelay
open MiniControl.Proxy (Role)

/-- The relay of the worker, and what happens to it. -/
abbrev Relay := WorkerCore.ProxyRelay.State
abbrev RelayEvent := WorkerCore.ProxyRelay.Event

/-- `websocket.MessageType`. -/
inductive MessageType
  | text
  | binary
  deriving DecidableEq

/-- The largest message that the server reads from a connection, in bytes. -/
def maxProxyMessageBytes : ℕ := 8 <<< 20

/-- `URLSessionWebSocketTask.maximumMessageSize`, which the worker leaves at its default: a
message that reaches this size is not received. -/
def maximumMessageSize : ℕ := 1 <<< 20

/-- What is on its way on a WebSocket in one direction. -/
abbrev Wire := List (Token MessageType UInt8)

/-- Where `copyWS` is: in `src.Reader`, in `io.Copy` between `dst.Writer` and
`writer.Close`, or at its end. -/
inductive CopyWS
  | reading
  | copying
  | returned
  deriving DecidableEq

/-- One direction of `Relay`: what the server has not read from one connection, and what
the other side has not received from the other connection. -/
structure Direction where
  position : CopyWS
  src : Wire
  dst : Wire
  /-- How many bytes of the message were copied. -/
  copied : ℕ
  deriving DecidableEq

/-- The message has more bytes than the read limit allows. The reader of a connection
notices this after one byte more. -/
def Direction.isTooBig (d : Direction) : Bool :=
  d.position = .copying ∧ maxProxyMessageBytes < d.copied

/-- The next action of `copyWS`. One round of `io.Copy` moves at most `n` bytes. -/
def Direction.copyWS (d : Direction) (n : ℕ) : Option Direction :=
  if d.isTooBig then none
  else match d.position, d.src with
    | .reading, .first kind :: src => some ⟨.copying, src, d.dst ++ [.first kind], 0⟩
    | .copying, .last :: src => some ⟨.reading, src, d.dst ++ [.last], 0⟩
    | .copying, src =>
      let bytes := (Token.splitItems src).1.take (min n (maxProxyMessageBytes + 1 - d.copied))
      if bytes = [] then none
      else some ⟨.copying, src.drop bytes.length, d.dst ++ bytes.map .item,
        d.copied + bytes.length⟩
    | _, _ => none

/-- The message that `URLSessionWebSocketTask` makes of what it receives. One that is too
large ends the connection, and so does a text that is not UTF-8. -/
def decodeMessage (kind : MessageType) (bytes : Data) : Option Message :=
  if maximumMessageSize ≤ bytes.length then none
  else match kind with
    | .binary => some (.data bytes)
    | .text => (String.fromUTF8? ⟨bytes.toArray⟩).map .string

/-- What the relay sees of it. -/
def arrival (kind : MessageType) (bytes : Data) : RelayEvent :=
  match decodeMessage kind bytes with
  | some message => .frameArrived message
  | none => .wsFailed

/-- The buffer that is being written. -/
def pendingBuffer : Phase → Data
  | .writing buffer => buffer
  | _ => []

/-- The message that is being sent, always binary. -/
def pendingMessage : SendLoop → Wire
  | .sending data => Token.encode .binary data
  | _ => []

/-- A session with both of its connections. -/
structure State where
  /-- What the client has sent, and whether it is in the middle of a message. -/
  clientSent : Wire
  clientInside : Bool
  /-- From the client to the worker, and from the worker to the client. -/
  toWorker : Direction
  toClient : Direction
  worker : Relay
  /-- What is left of the buffer that is being written, and all that was written. -/
  unflushed : Data
  written : Data
  /-- What the target has sent, as it was read. -/
  read : List Data
  /-- What is left of the message that is being sent. -/
  unsent : Wire
  /-- What the client has received. -/
  received : Wire
  /-- The connections of the server that have not failed and are not closed. -/
  conns : Role → Bool

/-- The direction that reads from the connection of a role. -/
def State.direction (t : State) : Role → Direction
  | .client => t.toWorker
  | .worker => t.toClient

/-- Change the direction that reads from the connection of a role. -/
def State.setDirection (t : State) (d : Direction) : Role → State
  | .client => { t with toWorker := d }
  | .worker => { t with toClient := d }

/-- The connection that a direction writes to. -/
def otherRole : Role → Role
  | .client => .worker
  | .worker => .client

/-- What may happen next. -/
inductive Event
  | clientSends (tokens : Wire)
  /-- The client receives what is on its way, up to a number of tokens. -/
  | clientReceives (n : ℕ)
  /-- A connection of the server fails, or its context ends. -/
  | disconnect (role : Role)
  | copyWS (role : Role) (n : ℕ)
  | copyFails (role : Role)
  /-- A message is larger than the read limit of the connection that it comes from, which
  is closed. -/
  | messageTooBig (role : Role)
  /-- `Relay` has returned, and its caller closes the session. -/
  | closeSession
  /-- A whole message reaches the worker. -/
  | arrive
  /-- A part of the buffer that is being written, and of the message that is being sent,
  leaves the worker. -/
  | flush (n : ℕ)
  | transmit (n : ℕ)
  | worker (e : RelayEvent)
  deriving DecidableEq

/-- A step of the worker, with what it takes from the tunnel and gives to it. -/
def State.workerStep (t : State) (e : RelayEvent) : Option State :=
  match e with
  | .frameArrived _ => none
  | .receive => (step t.worker e).map fun worker =>
      { t with worker, unflushed := pendingBuffer worker.phase }
  | .writeCompleted =>
    if t.unflushed = [] then (step t.worker e).map fun worker => { t with worker } else none
  | .channelRead bytes => (step t.worker e).map fun worker =>
      { t with worker, read := t.read ++ [bytes] }
  | .nextData => (step t.worker e).map fun worker =>
      { t with worker, unsent := pendingMessage worker.tcpToWS }
  | .sendCompleted =>
    if t.unsent = [] then (step t.worker e).map fun worker => { t with worker } else none
  | _ => (step t.worker e).map fun worker => { t with worker }

/-- One step. -/
def State.step (t : State) : Event → Option State
  | .clientSends tokens =>
    if t.conns .client then
      (Token.walk t.clientInside tokens).map fun clientInside =>
        { t with
          clientSent := t.clientSent ++ tokens
          clientInside
          toWorker := { t.toWorker with src := t.toWorker.src ++ tokens } }
    else none
  | .clientReceives n =>
    let tokens := t.toClient.dst.take n
    if tokens = [] then none
    else some { t with
      received := t.received ++ tokens
      toClient := { t.toClient with dst := t.toClient.dst.drop n } }
  | .disconnect role => some { t with conns := Function.update t.conns role false }
  | .copyWS role n =>
    if t.conns (otherRole role) then
      ((t.direction role).copyWS n).map fun d => t.setDirection d role
    else none
  | .copyFails role =>
    if (t.direction role).position ≠ .returned ∧ ¬(t.conns .client ∧ t.conns .worker) then
      some (t.setDirection { t.direction role with position := .returned } role)
    else none
  | .messageTooBig role =>
    if (t.direction role).isTooBig then
      some { t.setDirection { t.direction role with position := .returned } role with
        conns := Function.update t.conns role false }
    else none
  | .closeSession =>
    if (t.toWorker.position = .returned ∨ t.toClient.position = .returned) ∧
        (t.conns .client ∨ t.conns .worker) then
      some { t with conns := fun _ => false }
    else none
  | .arrive =>
    match Token.takeMessage t.toWorker.dst with
    | none => none
    | some (kind, bytes, rest) =>
      (WorkerCore.ProxyRelay.step t.worker (arrival kind bytes)).map fun worker =>
        { t with worker, toWorker := { t.toWorker with dst := rest } }
  | .flush n =>
    let bytes := t.unflushed.take n
    if t.worker.phase.isWriting ∧ t.worker.tcp = .active ∧ bytes ≠ [] then
      some { t with written := t.written ++ bytes, unflushed := t.unflushed.drop n }
    else none
  | .transmit n =>
    let tokens := t.unsent.take n
    match t.worker.tcpToWS with
    | .sending _ =>
      if t.worker.wsOpen ∧ tokens ≠ [] then
        some { t with
          unsent := t.unsent.drop n
          toClient := { t.toClient with src := t.toClient.src ++ tokens } }
      else none
    | _ => none
  | .worker e => t.workerStep e

/-- A session whose two connections were just made. The relay of the worker connects to
the target by then. -/
def State.initial : State where
  clientSent := []
  clientInside := false
  toWorker := ⟨.reading, [], [], 0⟩
  toClient := ⟨.reading, [], [], 0⟩
  worker := { WorkerCore.ProxyRelay.initial with phase := .connecting }
  unflushed := []
  written := []
  read := []
  unsent := []
  received := []
  conns := fun _ => true

/-- All runs of a session. -/
def system : System State Event := System.ofStep (· = .initial) State.step

end MiniControl.Tunnel
