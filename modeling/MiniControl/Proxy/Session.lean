import Mathlib.Data.Int.Notation
import Mathlib.Data.Nat.Notation
import Mathlib.Logic.Function.Basic

/-!
# Proxy sessions

A proxy session joins the connection of a client with that of a worker. This file
has the session object and the parts of the session manager that work on one
session; every one of them runs under the mutex of the session.
-/

namespace MiniControl.Proxy

/-- `SessionState`. -/
inductive SessionState
  | pending
  | active
  | closed
  deriving DecidableEq

/-- `ProxyTarget`. -/
inductive ProxyTarget
  | vm
  | host
  deriving DecidableEq

/-- The two sides of a session. -/
inductive Role
  | client
  | worker
  deriving DecidableEq

/-- A channel that is never sent on, as the number of times that it was closed. Go
panics when a closed channel is closed. -/
structure Channel where
  closes : ℕ
  deriving DecidableEq

namespace Channel

/-- `make(chan struct{})`. -/
def new : Channel := ⟨0⟩

/-- A receive on the channel returns. -/
def isClosed (ch : Channel) : Bool := 0 < ch.closes

/-- `select { case <-ch: default: close(ch) }`. -/
def closeOnce (ch : Channel) : Channel :=
  if ch.isClosed then ch else ⟨ch.closes + 1⟩

/-- The guarded close leaves the channel closed. -/
@[simp] theorem isClosed_closeOnce (ch : Channel) : ch.closeOnce.isClosed = true := by
  unfold closeOnce
  split
  · assumption
  · simp [isClosed]

end Channel

/-- `ProxySession`. A connection has the number of the call that accepted it, and
the id of the session is its key in the tables below. -/
structure ProxySession where
  target : ProxyTarget
  vmID : String
  workerID : String
  port : ℤ
  token : String
  state : SessionState
  createdAt : ℕ
  clientConn : Option ℕ
  workerConn : Option ℕ
  ready : Channel
  done : Channel
  deriving DecidableEq

namespace ProxySession

/-- The session that `Create` makes. -/
def new (target : ProxyTarget) (vmID workerID : String) (port : ℤ) (token : String)
    (createdAt : ℕ) : ProxySession :=
  ⟨target, vmID, workerID, port, token, .pending, createdAt, none, none, .new, .new⟩

/-- The connection of a role. -/
def conn (x : ProxySession) : Role → Option ℕ
  | .client => x.clientConn
  | .worker => x.workerConn

/-- Both sides have a connection. -/
def bothConnected (x : ProxySession) : Bool :=
  x.clientConn.isSome && x.workerConn.isSome

/-- Store the connection of a role. -/
def store (x : ProxySession) (role : Role) (c : ℕ) : ProxySession :=
  match role with
  | .client => { x with clientConn := some c }
  | .worker => { x with workerConn := some c }

/-- The locked section of `SetConn` and its answer. -/
def setConn (x : ProxySession) (role : Role) (c : ℕ) : ProxySession × Bool :=
  let y := x.store role c
  if y.bothConnected then ({ y with state := .active, ready := y.ready.closeOnce }, true)
  else (y, false)

/-- The locked section of `Close`, apart from the connections. -/
def close (x : ProxySession) : ProxySession :=
  { x with state := .closed, done := x.done.closeOnce }

variable (x : ProxySession) (role other : Role) (c : ℕ)

/-- The stored connection. -/
@[simp] theorem conn_store_self : (x.store role c).conn role = some c := by
  cases role <;> rfl

/-- The other role keeps its connection. -/
theorem conn_store_of_ne (h : other ≠ role) : (x.store role c).conn other = x.conn other := by
  cases role <;> cases other <;> first | rfl | exact absurd rfl h

/-- `SetConn` stores the connection. -/
@[simp] theorem conn_setConn : (x.setConn role c).1.conn other = (x.store role c).conn other := by
  simp only [setConn]
  split <;> cases other <;> rfl

/-- `SetConn` does not end a session. -/
@[simp] theorem done_setConn : (x.setConn role c).1.done = x.done := by
  simp only [setConn]
  split <;> cases role <;> rfl

/-- The answer of `SetConn` says whether both sides are connected now. -/
theorem setConn_answer : (x.setConn role c).2 = (x.setConn role c).1.bothConnected := by
  simp only [setConn]
  split
  · next h => exact h.symm
  · next h => simpa using (Bool.eq_false_iff.mpr h).symm

/-- `Close` keeps the connections. -/
@[simp] theorem conn_close : x.close.conn role = x.conn role := by
  cases role <;> rfl

/-- Both sides are connected when each role has a connection. -/
theorem bothConnected_iff : x.bothConnected = true ↔ ∀ role, (x.conn role).isSome := by
  simp only [bothConnected, Bool.and_eq_true]
  constructor
  · rintro ⟨hclient, hworker⟩ (_ | _)
    · exact hclient
    · exact hworker
  · intro h
    exact ⟨h .client, h .worker⟩

/-- A connected session stays connected when a role gets another connection. -/
theorem bothConnected_setConn (h : x.bothConnected = true) :
    (x.setConn role c).1.bothConnected = true := by
  rw [bothConnected_iff] at h ⊢
  intro other
  by_cases hrole : other = role
  · simp [hrole]
  · rw [conn_setConn, conn_store_of_ne x role other c hrole]
    exact h other

end ProxySession

end MiniControl.Proxy
