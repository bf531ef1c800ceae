import Mathlib.Data.Nat.Notation
import MiniControl.Transition.System

/-!
# The relay between a WebSocket and a TCP target

`start` connects to the target and reads the WebSocket until that fails or a write to
the target fails; then it calls `stop`. A second task sends what the target sends. It
ends when the target disconnects or when a send fails, and its end is noticed by no
one. So the relay follows an end of its WebSocket, but an end of its target only when
it has something to write, and while it waits for a write it follows neither.
-/

namespace MiniControl.WorkerCore.ProxyRelay

open Transition

/-- `Data`. -/
abbrev Data := List UInt8

/-- `URLSessionWebSocketTask.Message`, with the cases that are not known yet. -/
inductive Message
  | data (bytes : Data)
  | string (text : String)
  | unknown
  deriving DecidableEq

/-- What is written to the target for a message. -/
def Message.buffer : Message → Option Data
  | .data bytes => some bytes
  | .string text => some text.toUTF8.data.toList
  | .unknown => none

/-- Where `start` is: in `bootstrap.connect`, in `ws.receive` or `channel.writeAndFlush`
of `wsToTCPLoop`, in `tcpChannel.close` of `stop`, or in `group.shutdownGracefully`. -/
inductive Phase
  | created
  | connecting
  | receiving
  | writing (buffer : Data)
  | closing
  | shuttingDown
  | ended
  deriving DecidableEq

/-- `wsToTCPLoop` waits for a write. -/
def Phase.isWriting : Phase → Bool
  | .writing _ => true
  | _ => false

/-- Where `tcpToWebSocketLoop` is. -/
inductive SendLoop
  | notStarted
  | waiting
  | sending (data : Data)
  | returned
  deriving DecidableEq

/-- The channel to the target: not connected, active, or disconnected. -/
inductive Channel
  | none
  | active
  | inactive
  deriving DecidableEq

/-- The relay, its WebSocket and its channel. -/
structure State where
  phase : Phase
  isClosed : Bool
  /-- The WebSocket was closed by the server or has failed. -/
  wsFailed : Bool
  /-- The relay has cancelled its WebSocket. -/
  wsCancelled : Bool
  /-- The messages that have arrived and are not yet received. -/
  incoming : List Message
  tcp : Channel
  /-- The elements of `tcpStream`, and whether it is finished. -/
  stream : List Data
  streamFinished : Bool
  tcpToWS : SendLoop
  /-- `tcpToWSTask` is cancelled. -/
  taskCancelled : Bool
  deriving DecidableEq

namespace State

/-- Sends succeed, and a receive waits for a message. -/
def wsOpen (s : State) : Bool := !s.wsFailed && !s.wsCancelled

/-- `stop`, up to the end of `tcpChannel.close` when there is a channel. -/
def stop (s : State) : State :=
  if s.isClosed then { s with phase := .shuttingDown }
  else
    { s with
      isClosed := true
      streamFinished := true
      taskCancelled := true
      wsCancelled := true
      phase := if s.tcp = .none then .shuttingDown else .closing }

/-- The head of `wsToTCPLoop`. -/
def loopHead (s : State) : State :=
  if s.isClosed then s.stop else { s with phase := .receiving }

/-- `channelInactive`; after `errorCaught`, too, which closes the channel. -/
def disconnect (s : State) : State := { s with tcp := .inactive, streamFinished := true }

end State

/-- What happens to the relay and in it. -/
inductive Event
  /-- `start` is called; the URL of the WebSocket is valid or not. -/
  | begin (valid : Bool)
  | tcpConnected
  | connectFailed
  /-- `bootstrap.connect` returns the channel. -/
  | connected
  | frameArrived (message : Message)
  | wsFailed
  /-- `ws.receive` returns a message. -/
  | receive
  /-- `ws.receive` throws. -/
  | receiveFailed
  | writeCompleted
  | writeFailed
  | channelRead (bytes : Data)
  | channelInactive
  | errorCaught
  /-- `tcpChannel.close` returns. -/
  | closed
  | shutDown
  /-- `tcpToWebSocketLoop` takes an element of the stream. -/
  | nextData
  /-- `tcpToWebSocketLoop` sees the end of the stream. -/
  | streamEnded
  | sendCompleted
  | sendFailed
  deriving DecidableEq

/-- One step. -/
def step (s : State) : Event → Option State
  | .begin valid =>
    if s.phase = .created then
      some { s with phase := if valid then .connecting else .ended }
    else none
  | .tcpConnected =>
    if s.phase = .connecting ∧ s.tcp = .none then some { s with tcp := .active } else none
  | .connectFailed => if s.phase = .connecting ∧ s.tcp = .none then some s.stop else none
  | .connected =>
    if s.phase = .connecting ∧ s.tcp ≠ .none then
      some { s with tcpToWS := .waiting }.loopHead
    else none
  | .frameArrived message =>
    if s.phase ≠ .created ∧ s.wsOpen then
      some { s with incoming := s.incoming ++ [message] }
    else none
  | .wsFailed => if s.phase ≠ .created then some { s with wsFailed := true } else none
  | .receive =>
    match s.phase, s.incoming with
    | .receiving, message :: rest =>
      match message.buffer with
      | some buffer => some { s with incoming := rest, phase := .writing buffer }
      | none => some { s with incoming := rest }.loopHead
    | _, _ => none
  | .receiveFailed => if s.phase = .receiving ∧ ¬s.wsOpen then some s.stop else none
  | .writeCompleted =>
    match s.phase with
    | .writing _ => if s.tcp = .active then some s.loopHead else none
    | _ => none
  | .writeFailed =>
    -- a pending write fails when the channel becomes inactive, and a later one at once
    match s.phase with
    | .writing _ => if s.tcp ≠ .active then some s.stop else none
    | _ => none
  | .channelRead bytes =>
    if s.tcp = .active then
      some (if s.streamFinished then s else { s with stream := s.stream ++ [bytes] })
    else none
  | .channelInactive => if s.tcp = .active then some s.disconnect else none
  | .errorCaught => if s.tcp = .active then some s.disconnect else none
  | .closed =>
    if s.phase = .closing then some { s.disconnect with phase := .shuttingDown } else none
  | .shutDown => if s.phase = .shuttingDown then some { s with phase := .ended } else none
  | .nextData =>
    match s.tcpToWS, s.stream with
    | .waiting, data :: rest => some { s with tcpToWS := .sending data, stream := rest }
    | _, _ => none
  | .streamEnded =>
    if s.tcpToWS = .waiting ∧ (s.stream = [] ∧ s.streamFinished ∨ s.taskCancelled) then
      some { s with tcpToWS := .returned }
    else none
  | .sendCompleted =>
    match s.tcpToWS with
    | .sending _ => if s.wsOpen then some { s with tcpToWS := .waiting } else none
    | _ => none
  | .sendFailed =>
    match s.tcpToWS with
    | .sending _ => if ¬s.wsOpen then some { s with tcpToWS := .returned } else none
    | _ => none

/-- A new relay. -/
def initial : State := ⟨.created, false, false, false, [], .none, [], false, .notStarted, false⟩

/-- All runs of a relay. -/
def system : System State Event := System.ofStep (· = initial) step

/-- What one step does. -/
inductive Steps (s : State) : Event → State → Prop
  | begin (valid : Bool) (hphase : s.phase = .created) :
      Steps s (.begin valid) { s with phase := if valid then .connecting else .ended }
  | tcpConnected (hphase : s.phase = .connecting) (htcp : s.tcp = .none) :
      Steps s .tcpConnected { s with tcp := .active }
  | connectFailed (hphase : s.phase = .connecting) (htcp : s.tcp = .none) :
      Steps s .connectFailed s.stop
  | connected (hphase : s.phase = .connecting) (htcp : s.tcp ≠ .none) :
      Steps s .connected { s with tcpToWS := .waiting }.loopHead
  | frameArrived (message : Message) (hopen : s.wsOpen = true) :
      Steps s (.frameArrived message) { s with incoming := s.incoming ++ [message] }
  | wsFailed (hphase : s.phase ≠ .created) : Steps s .wsFailed { s with wsFailed := true }
  | receive {message : Message} {rest : List Message} {buffer : Data}
      (hphase : s.phase = .receiving) (hincoming : s.incoming = message :: rest)
      (hbuffer : message.buffer = some buffer) :
      Steps s .receive { s with incoming := rest, phase := .writing buffer }
  | pass {message : Message} {rest : List Message} (hphase : s.phase = .receiving)
      (hincoming : s.incoming = message :: rest) (hbuffer : message.buffer = none) :
      Steps s .receive { s with incoming := rest }.loopHead
  | receiveFailed (hphase : s.phase = .receiving) (hopen : ¬s.wsOpen) :
      Steps s .receiveFailed s.stop
  | writeCompleted {buffer : Data} (hphase : s.phase = .writing buffer)
      (htcp : s.tcp = .active) : Steps s .writeCompleted s.loopHead
  | writeFailed {buffer : Data} (hphase : s.phase = .writing buffer) (htcp : s.tcp ≠ .active) :
      Steps s .writeFailed s.stop
  | channelRead (bytes : Data) (stream : List Data) (htcp : s.tcp = .active) :
      Steps s (.channelRead bytes) { s with stream }
  | channelInactive (htcp : s.tcp = .active) : Steps s .channelInactive s.disconnect
  | errorCaught (htcp : s.tcp = .active) : Steps s .errorCaught s.disconnect
  | closed (hphase : s.phase = .closing) :
      Steps s .closed { s.disconnect with phase := .shuttingDown }
  | shutDown (hphase : s.phase = .shuttingDown) : Steps s .shutDown { s with phase := .ended }
  | nextData {data : Data} {rest : List Data} (hloop : s.tcpToWS = .waiting)
      (hstream : s.stream = data :: rest) :
      Steps s .nextData { s with tcpToWS := .sending data, stream := rest }
  | streamEnded (hloop : s.tcpToWS = .waiting) :
      Steps s .streamEnded { s with tcpToWS := .returned }
  | sendCompleted {data : Data} (hloop : s.tcpToWS = .sending data) (hopen : s.wsOpen = true) :
      Steps s .sendCompleted { s with tcpToWS := .waiting }
  | sendFailed {data : Data} (hloop : s.tcpToWS = .sending data) (hopen : ¬s.wsOpen) :
      Steps s .sendFailed { s with tcpToWS := .returned }

/-- The step function takes these steps only. -/
theorem steps_of_step {s t : State} {e : Event} (h : step s e = some t) : Steps s e t := by
  cases e <;> simp only [step, Option.ite_none_right_eq_some, Option.some.injEq] at h
  case begin valid =>
    obtain ⟨hphase, rfl⟩ := h
    exact .begin valid hphase
  case tcpConnected =>
    obtain ⟨⟨hphase, htcp⟩, rfl⟩ := h
    exact .tcpConnected hphase htcp
  case connectFailed =>
    obtain ⟨⟨hphase, htcp⟩, rfl⟩ := h
    exact .connectFailed hphase htcp
  case connected =>
    obtain ⟨⟨hphase, htcp⟩, rfl⟩ := h
    exact .connected hphase htcp
  case frameArrived message =>
    obtain ⟨⟨_, hopen⟩, rfl⟩ := h
    exact .frameArrived message hopen
  case wsFailed =>
    obtain ⟨hphase, rfl⟩ := h
    exact .wsFailed hphase
  case receive =>
    split at h
    case h_2 => cases h
    case h_1 message rest hphase hincoming =>
      split at h <;> cases h
      next hbuffer => exact .receive hphase hincoming hbuffer
      next hbuffer => exact .pass hphase hincoming hbuffer
  case receiveFailed =>
    obtain ⟨⟨hphase, hopen⟩, rfl⟩ := h
    exact .receiveFailed hphase hopen
  case writeCompleted =>
    split at h
    next hphase =>
      obtain ⟨htcp, hstop⟩ := Option.ite_none_right_eq_some.mp h
      exact Option.some.inj hstop ▸ .writeCompleted hphase htcp
    · cases h
  case writeFailed =>
    split at h
    next hphase =>
      obtain ⟨htcp, hstop⟩ := Option.ite_none_right_eq_some.mp h
      exact Option.some.inj hstop ▸ .writeFailed hphase htcp
    · cases h
  case channelRead bytes =>
    obtain ⟨htcp, rfl⟩ := h
    split
    · exact .channelRead bytes s.stream htcp
    · exact .channelRead bytes _ htcp
  case channelInactive =>
    obtain ⟨htcp, rfl⟩ := h
    exact .channelInactive htcp
  case errorCaught =>
    obtain ⟨htcp, rfl⟩ := h
    exact .errorCaught htcp
  case closed =>
    obtain ⟨hphase, rfl⟩ := h
    exact .closed hphase
  case shutDown =>
    obtain ⟨hphase, rfl⟩ := h
    exact .shutDown hphase
  case nextData =>
    split at h <;> cases h
    next hloop hstream => exact .nextData hloop hstream
  case streamEnded =>
    obtain ⟨⟨hloop, _⟩, rfl⟩ := h
    exact .streamEnded hloop
  case sendCompleted =>
    split at h
    next hloop =>
      obtain ⟨hopen, hsent⟩ := Option.ite_none_right_eq_some.mp h
      exact Option.some.inj hsent ▸ .sendCompleted hloop hopen
    · cases h
  case sendFailed =>
    split at h
    next hloop =>
      obtain ⟨hopen, hsent⟩ := Option.ite_none_right_eq_some.mp h
      exact Option.some.inj hsent ▸ .sendFailed hloop hopen
    · cases h

/-- The steps that the relay takes by itself. The others wait for the server, for the
target or for the caller. -/
def ownSteps : List Event :=
  [.connected, .receive, .receiveFailed, .writeFailed, .closed, .shutDown, .nextData, .streamEnded,
   .sendFailed]

/-- The relay has done all that it does by itself. -/
def State.Settled (s : State) : Prop := ∀ e ∈ ownSteps, step s e = none

instance (s : State) : Decidable s.Settled := inferInstanceAs (Decidable (∀ e ∈ ownSteps, _))

/-- The WebSocket is open, and has no message to write to the target. -/
def State.Idle (s : State) : Prop :=
  s.wsOpen = true ∧ ∀ message ∈ s.incoming, message.buffer = none

instance (s : State) : Decidable s.Idle := inferInstanceAs (Decidable (_ ∧ _))

/-- The target does not disconnect while the relay waits for a message, and the
WebSocket does not fail while the relay writes one. -/
def Paired (s : State) : Event → Prop
  | .channelInactive | .errorCaught =>
    s.phase = .connecting ∨ s.phase = .receiving → ¬s.Idle
  | .wsFailed => s.phase.isWriting = false
  | .receive => s.wsFailed = false
  | _ => True

/-- What is known in each phase of a run with such steps. -/
def State.Followed (s : State) : Prop :=
  match s.phase with
  | .created => s.isClosed = false ∧ s.tcp = .none
  | .connecting | .receiving => s.isClosed = false ∧ (s.tcp = .inactive → ¬s.Idle)
  | .writing _ => s.isClosed = false ∧ s.wsFailed = false
  | .closing => s.isClosed = true ∧ s.wsCancelled = true
  | .shuttingDown | .ended =>
    s.tcp ≠ .active ∧ (s.tcp = .inactive → s.isClosed = true ∧ s.wsCancelled = true)

namespace State

variable {s t : State} {e : Event}

/-- `stop` closes a relay that was open. -/
theorem followed_stop (h : s.isClosed = false) : s.stop.Followed := by
  rw [stop, if_neg (by rw [h]; decide), Followed]
  by_cases htcp : s.tcp = .none
  · simp [htcp]
  · simp [htcp]

/-- The loop goes on as long as the relay is open. -/
theorem followed_loopHead (h : s.isClosed = false) (hidle : s.tcp = .inactive → ¬s.Idle) :
    s.loopHead.Followed := by
  rw [loopHead, if_neg (by rw [h]; decide)]
  exact ⟨h, hidle⟩

/-- A target may disconnect unless the relay waits for a message. -/
theorem Followed.disconnect (h : s.Followed) (htcp : s.tcp = .active)
    (hidle : s.phase = .connecting ∨ s.phase = .receiving → ¬s.Idle) : s.disconnect.Followed := by
  unfold Followed State.disconnect at *
  cases hphase : s.phase <;> simp only [hphase, htcp] at h ⊢
  case created => cases h.2
  case connecting => exact ⟨h.1, fun _ => hidle (.inl hphase)⟩
  case receiving => exact ⟨h.1, fun _ => hidle (.inr hphase)⟩
  case writing => exact h
  case closing => exact h
  case shuttingDown => exact absurd rfl h.1
  case ended => exact absurd rfl h.1

/-- The WebSocket may fail unless the relay writes a message. -/
theorem Followed.fail (h : s.Followed) (hwriting : s.phase.isWriting = false) :
    Followed { s with wsFailed := true } := by
  have hopen : ¬Idle { s with wsFailed := true } := fun hidle => Bool.noConfusion hidle.1
  unfold Followed at *
  cases hphase : s.phase <;> simp only [hphase] at h ⊢
  case connecting => exact ⟨h.1, fun _ => hopen⟩
  case receiving => exact ⟨h.1, fun _ => hopen⟩
  case writing buffer =>
    rw [hphase] at hwriting
    cases hwriting
  all_goals exact h

/-- Another message leaves no WebSocket idle. -/
theorem Followed.arrive (h : s.Followed) (message : Message) :
    Followed { s with incoming := s.incoming ++ [message] } := by
  have hidle : Idle { s with incoming := s.incoming ++ [message] } → s.Idle := fun hidle =>
    ⟨hidle.1, fun old hold => hidle.2 old (List.mem_append_left _ hold)⟩
  unfold Followed at *
  cases hphase : s.phase <;> simp only [hphase] at h ⊢
  case connecting => exact ⟨h.1, fun htcp => mt hidle (h.2 htcp)⟩
  case receiving => exact ⟨h.1, fun htcp => mt hidle (h.2 htcp)⟩
  all_goals exact h

/-- Every step with the condition keeps these facts. -/
theorem Followed.step (h : s.Followed) (hpaired : Paired s e) (hsteps : Steps s e t) :
    t.Followed := by
  cases hsteps with
  | begin valid hphase =>
    simp only [Followed, hphase] at h
    cases valid <;> simp [Followed, h]
  | tcpConnected hphase =>
    simp only [Followed, hphase] at h ⊢
    exact ⟨h.1, nofun⟩
  | connectFailed hphase | receiveFailed hphase | writeFailed hphase =>
    simp only [Followed, hphase] at h
    exact followed_stop h.1
  | connected hphase =>
    simp only [Followed, hphase] at h
    exact followed_loopHead h.1 h.2
  | frameArrived message => exact h.arrive message
  | wsFailed => exact h.fail hpaired
  | receive hphase =>
    simp only [Followed, hphase] at h
    exact ⟨h.1, hpaired⟩
  | pass hphase hincoming hbuffer =>
    simp only [Followed, hphase] at h
    refine followed_loopHead h.1 fun htcp hidle => h.2 htcp ⟨hidle.1, ?_⟩
    rw [hincoming]
    exact List.forall_mem_cons.mpr ⟨hbuffer, hidle.2⟩
  | writeCompleted hphase htcp =>
    simp only [Followed, hphase] at h
    exact followed_loopHead h.1 (by rw [htcp]; nofun)
  | channelInactive htcp | errorCaught htcp => exact h.disconnect htcp hpaired
  | closed hphase =>
    simp only [Followed, hphase] at h
    exact ⟨nofun, fun _ => h⟩
  | shutDown hphase =>
    simp only [Followed, hphase] at h
    exact h
  -- the loop to the WebSocket touches nothing that these facts are about
  | channelRead | nextData | streamEnded | sendCompleted | sendFailed => exact h

/-- A settled relay has not begun or has ended, or it waits: for the connection, for a
message of an open WebSocket, or for a write to an active channel. -/
theorem Settled.cases (h : s.Settled) :
    s.phase = .created ∨ s.phase = .ended ∨ s.phase = .connecting ∧ s.tcp = .none ∨
      s.phase = .receiving ∧ s.wsOpen = true ∧ s.incoming = [] ∨
      (∃ buffer, s.phase = .writing buffer) ∧ s.tcp = .active := by
  have own (e : Event) (he : e ∈ ownSteps) := h e he
  cases hphase : s.phase with
  | created => exact .inl rfl
  | ended => exact .inr (.inl rfl)
  | connecting =>
    have hconnected := own .connected (by decide)
    simp only [ProxyRelay.step, hphase, true_and, ite_eq_right_iff, reduceCtorEq, imp_false,
      Decidable.not_not] at hconnected
    exact .inr (.inr (.inl ⟨rfl, hconnected⟩))
  | receiving =>
    have hfailed := own .receiveFailed (by decide)
    have hreceive := own .receive (by decide)
    simp only [ProxyRelay.step, hphase, true_and, ite_eq_right_iff, reduceCtorEq, imp_false,
      Decidable.not_not] at hfailed
    refine .inr (.inr (.inr (.inl ⟨rfl, hfailed, ?_⟩)))
    cases hincoming : s.incoming with
    | nil => rfl
    | cons message rest =>
      simp only [ProxyRelay.step, hphase, hincoming] at hreceive
      split at hreceive <;> cases hreceive
  | writing buffer =>
    have hfailed := own .writeFailed (by decide)
    simp only [ProxyRelay.step, hphase, ite_eq_right_iff, reduceCtorEq, imp_false,
      Decidable.not_not] at hfailed
    exact .inr (.inr (.inr (.inr ⟨⟨buffer, rfl⟩, hfailed⟩)))
  | closing =>
    have hclosed := own .closed (by decide)
    simp [ProxyRelay.step, hphase] at hclosed
  | shuttingDown =>
    have hshut := own .shutDown (by decide)
    simp [ProxyRelay.step, hphase] at hshut

end State

/-- What is left to do for the relay by itself, at most. -/
def State.work (s : State) : ℕ :=
  s.incoming.length +
  (match s.phase with
    | .created => 0
    -- the loop to the WebSocket is still to be started
    | .connecting => 7
    | .receiving => 4
    | .writing _ => 3
    | .closing => 2
    | .shuttingDown => 1
    | .ended => 0) +
  match s.tcpToWS with
    | .notStarted => 0
    | .waiting => 2
    | .sending _ => 1
    | .returned => 0

/-- `stop` leaves little to do. -/
theorem State.work_stop (s : State) :
    s.stop.work ≤ { s with phase := .closing }.work := by
  unfold State.stop
  split
  · simp [State.work]
  · by_cases htcp : s.tcp = .none <;> simp [State.work, htcp]

/-- The next round of the loop leaves as much to do as a receive. -/
theorem State.work_loopHead (s : State) :
    s.loopHead.work ≤ { s with phase := .receiving }.work := by
  unfold State.loopHead
  split
  · exact Nat.le_trans s.work_stop (by simp [State.work])
  · exact Nat.le_refl _

/-- The steps of the relay by itself come to an end. -/
theorem work_lt {s t : State} {e : Event} (hown : e ∈ ownSteps) (hsteps : Steps s e t) :
    t.work < s.work := by
  cases hsteps with
  | connected hphase htcp =>
    refine Nat.lt_of_le_of_lt (State.work_loopHead _) ?_
    simp only [State.work, hphase]
    omega
  | receive hphase hincoming hbuffer => simp [State.work, hphase, hincoming]
  | pass hphase hincoming hbuffer =>
    refine Nat.lt_of_le_of_lt (State.work_loopHead _) ?_
    simp [State.work, hphase, hincoming]
  | receiveFailed hphase | writeFailed hphase =>
    refine Nat.lt_of_le_of_lt s.work_stop ?_
    simp [State.work, hphase]
  | closed hphase | shutDown hphase => simp [State.work, State.disconnect, hphase]
  | nextData hloop | streamEnded hloop | sendFailed hloop => simp [State.work, hloop]
  | _ => simp [ownSteps] at hown

/-- The relay settles after a run of its own steps. -/
theorem settles_of_leadsUnder {s u : State}
    (hrun : system.LeadsUnder (fun _ e => e ∈ ownSteps) s u) :
    ∃ t : State, system.LeadsUnder (fun _ e => e ∈ ownSteps) s t ∧ t.Settled := by
  by_cases hsettled : u.Settled
  · exact ⟨u, hrun, hsettled⟩
  · obtain ⟨e, hown, v, hstep⟩ : ∃ e ∈ ownSteps, ∃ v, step u e = some v := by
      simpa [State.Settled, Option.ne_none_iff_exists'] using hsettled
    have hless : v.work < u.work := work_lt hown (steps_of_step hstep)
    exact settles_of_leadsUnder (.tail hrun hown hstep)
termination_by u.work

/-- A relay that is left alone settles. -/
theorem exists_settled (s : State) :
    ∃ t : State, system.LeadsUnder (fun _ e => e ∈ ownSteps) s t ∧ t.Settled :=
  settles_of_leadsUnder (.refl s)

/-- In every run with the condition these facts hold. -/
theorem followed_of_reachable {s : State} (h : system.ReachableUnder Paired s) : s.Followed := by
  refine h.invariant ?_ fun s e t _ hpaired hnext hs => hs.step hpaired (steps_of_step hnext)
  rintro _ rfl
  exact ⟨rfl, rfl⟩

/-- As long as the target does not disconnect while the relay waits for a message and
the WebSocket does not fail while it writes one, a relay that has done all that it does
by itself is stopped when its target has disconnected, and has no open channel when its
WebSocket has failed. -/
theorem shutdown_propagates {s : State} (h : system.ReachableUnder Paired s)
    (hsettled : s.Settled) :
    (s.tcp = .inactive → s.tcpToWS = .returned → s.incoming = [] →
      s.isClosed = true ∧ s.wsCancelled = true) ∧
    (s.wsFailed = true → s.tcp ≠ .active) := by
  have hfollowed := followed_of_reachable h
  unfold State.Followed at hfollowed
  rcases hsettled.cases with hphase | hphase | ⟨hphase, htcp⟩ | ⟨hphase, hopen, hincoming⟩ |
    ⟨⟨buffer, hphase⟩, htcp⟩ <;> simp only [hphase] at hfollowed
  · simp [hfollowed.2]
  · exact ⟨fun htcp _ _ => hfollowed.2 htcp, fun _ => hfollowed.1⟩
  · simp [htcp]
  · -- an open WebSocket without a message is idle
    have hidle : s.Idle := ⟨hopen, by rw [hincoming]; nofun⟩
    refine ⟨fun htcp => absurd hidle (hfollowed.2 htcp), fun hfailed => ?_⟩
    simp [State.wsOpen, hfailed] at hopen
  · simp [htcp, hfollowed.2]

instance (s : State) (e : Event) : Decidable (Paired s e) := by
  cases e <;> unfold Paired <;> infer_instance

/-- The WebSocket of a relay fails while it waits for a message. -/
def failsIdle : List Event :=
  [.begin true, .tcpConnected, .connected, .wsFailed, .receiveFailed, .streamEnded, .closed,
   .shutDown]

/-- That relay is stopped. -/
theorem shutdown_propagates_failed : ∃ s : State, system.ReachableUnder Paired s ∧ s.Settled ∧
    (s.tcp = .inactive ∧ s.tcpToWS = .returned ∧ s.incoming = [] ∧ s.wsFailed = true) ∧
    (s.isClosed = true ∧ s.wsCancelled = true) ∧ s.tcp ≠ .active := by
  have hrun : ∃ s, runEvents (fun s e => if Paired s e then step s e else none) initial failsIdle =
      some s ∧ s.Settled ∧
      (s.tcp = .inactive ∧ s.tcpToWS = .returned ∧ s.incoming = [] ∧ s.wsFailed = true) :=
    ⟨_, rfl, by decide, by decide⟩
  obtain ⟨s, hs, hsettled, htcp, hreturned, hincoming, hfailed⟩ := hrun
  have hreach : system.ReachableUnder Paired s := reachableUnder_of_runEvents rfl hs
  have hends := shutdown_propagates hreach hsettled
  exact ⟨s, hreach, hsettled, ⟨htcp, hreturned, hincoming, hfailed⟩,
    hends.1 htcp hreturned hincoming, hends.2 hfailed⟩

/-- A target that disconnects from an idle relay leaves it with its WebSocket open,
and a WebSocket that fails during a write leaves the channel active. In both cases
the relay has nothing more to do by itself. -/
theorem half_open_relays :
    (∃ s : State, system.Reachable s ∧ s.Settled ∧ s.tcp = .inactive ∧ s.tcpToWS = .returned ∧
      s.incoming = [] ∧ s.isClosed = false ∧ s.wsCancelled = false ∧ s.wsFailed = false) ∧
    ∃ s : State, system.Reachable s ∧ s.Settled ∧ s.wsFailed = true ∧ s.isClosed = false ∧
      s.tcp = .active := by
  have hidle : ∃ s, runEvents step initial
      [.begin true, .tcpConnected, .connected, .channelInactive, .streamEnded] = some s ∧
      s.Settled ∧ s.tcp = .inactive ∧ s.tcpToWS = .returned ∧ s.incoming = [] ∧
      s.isClosed = false ∧ s.wsCancelled = false ∧ s.wsFailed = false :=
    ⟨_, rfl, by decide, by decide⟩
  have hwriting : ∃ s, runEvents step initial
      [.begin true, .tcpConnected, .connected, .frameArrived (.data [0]), .receive, .wsFailed] =
        some s ∧
      s.Settled ∧ s.wsFailed = true ∧ s.isClosed = false ∧ s.tcp = .active :=
    ⟨_, rfl, by decide, by decide⟩
  obtain ⟨s, hs, hidle⟩ := hidle
  obtain ⟨t, ht, hwriting⟩ := hwriting
  exact ⟨⟨s, reachable_of_runEvents rfl hs, hidle⟩, t, reachable_of_runEvents rfl ht, hwriting⟩

end MiniControl.WorkerCore.ProxyRelay
