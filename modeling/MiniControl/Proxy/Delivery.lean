import MiniControl.Proxy.Tunnel

/-!
# What arrives through a tunnel

Whatever fails and whenever it fails, the target gets a part of the bytes that the
client has sent, from the first one on, in order and without a gap, and the client gets
a part of what the target has sent, as binary messages with the bounds that were read.
-/

namespace MiniControl.Tunnel

open Transition Buffers WorkerCore.ProxyRelay
open MiniControl.Proxy (Role)

section Copying

/-- What one action of `copyWS` does. -/
inductive Copies (d : Direction) : Direction → Prop
  | first (kind : MessageType) (src : Wire) : d.position = .reading → d.src = .first kind :: src →
      Copies d ⟨.copying, src, d.dst ++ [.first kind], 0⟩
  | last (src : Wire) : d.position = .copying → d.src = .last :: src →
      Copies d ⟨.reading, src, d.dst ++ [.last], 0⟩
  | bytes (bytes : Data) (src : Wire) : d.position = .copying → d.src = bytes.map .item ++ src →
      bytes ≠ [] →
      Copies d ⟨.copying, src, d.dst ++ bytes.map .item, d.copied + bytes.length⟩

/-- `copyWS` does these only. -/
theorem copies_of_copyWS {d d' : Direction} {n : ℕ} (h : d.copyWS n = some d') : Copies d d' := by
  unfold Direction.copyWS at h
  obtain ⟨_, h⟩ := Option.ite_none_left_eq_some.mp h
  split at h
  next kind src hposition hsrc =>
    cases h
    exact .first kind src hposition hsrc
  next src hposition hsrc =>
    cases h
    exact .last src hposition hsrc
  next hposition _ =>
    simp only [Option.ite_none_left_eq_some] at h
    obtain ⟨hne, h⟩ := h
    cases h
    have hsplit := Token.append_drop_of_prefix_splitItems
      (List.take_prefix (min n (maxProxyMessageBytes + 1 - d.copied))
        (Token.splitItems d.src).1)
    exact .bytes _ _ hposition hsplit.symm hne
  next => cases h

/-- What is to be read goes on from where `copyWS` is. -/
def Direction.Reads (d : Direction) (inside : Bool) : Prop :=
  d.position ≠ .returned → Token.walk (decide (d.position = .copying)) d.src = some inside

/-- What was written leads to where `copyWS` is. -/
def Direction.Writes (d : Direction) : Prop :=
  d.position ≠ .returned → Token.walk false d.dst = some (decide (d.position = .copying))

variable {d d' : Direction} {inside : Bool}

/-- Nothing is lost or added on the way. -/
theorem Copies.append (h : Copies d d') : d'.dst ++ d'.src = d.dst ++ d.src := by
  cases h with
  | first kind src _ hsrc | last src _ hsrc => simp [hsrc]
  | bytes bytes src _ hsrc => simp [hsrc]

/-- A direction that copies keeps reading whole messages. -/
theorem Copies.reads (h : Copies d d') (hreads : d.Reads inside) : d'.Reads inside := by
  intro _
  cases h with
  | first kind src hposition hsrc | last src hposition hsrc =>
    have hwalk := hreads (by simp [hposition])
    simpa [hposition, hsrc, Token.walk] using hwalk
  | bytes bytes src hposition hsrc =>
    have hwalk := hreads (by simp [hposition])
    simpa [hposition, hsrc, Token.walk_append, Token.walk_map_item] using hwalk

/-- A direction that copies keeps writing whole messages. -/
theorem Copies.writes (h : Copies d d') (hwrites : d.Writes) : d'.Writes := by
  intro _
  cases h with
  | first kind src hposition | last src hposition =>
    have hwalk := hwrites (by simp [hposition])
    simp only [Token.walk_append, hwalk, hposition]
    rfl
  | bytes bytes src hposition =>
    have hwalk := hwrites (by simp [hposition])
    simp [Token.walk_append, hwalk, hposition, Token.walk_map_item]

end Copying

section Worker

variable {s s' : Relay} {e : RelayEvent}

/-- `stop` leaves the relay closed. -/
@[simp] theorem isClosed_stop (s : Relay) : s.stop.isClosed = true := by
  unfold WorkerCore.ProxyRelay.State.stop
  split
  · assumption
  · rfl

/-- `stop` does not touch what is sent. -/
theorem stop_keeps (s : Relay) :
    s.stop.stream = s.stream ∧ s.stop.tcpToWS = s.tcpToWS := by
  unfold WorkerCore.ProxyRelay.State.stop
  split
  · exact ⟨rfl, rfl⟩
  · exact ⟨rfl, rfl⟩

/-- Neither does the head of the loop. -/
theorem loopHead_keeps (s : Relay) :
    s.loopHead.stream = s.stream ∧ s.loopHead.tcpToWS = s.tcpToWS := by
  unfold WorkerCore.ProxyRelay.State.loopHead
  split
  · exact stop_keeps s
  · exact ⟨rfl, rfl⟩

/-- The next round of the loop of an open relay. -/
theorem loopHead_of_open (h : s.isClosed = false) :
    s.loopHead = { s with phase := .receiving } := by
  rw [WorkerCore.ProxyRelay.State.loopHead, if_neg (by rw [h]; decide)]

/-- What is known of the relay in every run of the tunnel. -/
structure Running (s : Relay) : Prop where
  started : s.phase ≠ .created
  connecting : s.phase = .connecting → s.tcpToWS = .notStarted
  live : s.isClosed = false →
    s.phase = .connecting ∨ s.phase = .receiving ∨ s.phase.isWriting = true
  opened : s.phase = .receiving ∨ s.phase.isWriting = true → s.isClosed = false
  loop : s.isClosed = false → s.phase ≠ .connecting → s.tcpToWS ≠ .notStarted
  cancelled : s.taskCancelled = true → s.isClosed = true
  closed : s.isClosed = true → s.streamFinished = true ∧ s.wsCancelled = true
  finished : s.streamFinished = true → s.isClosed = true ∨ s.tcp = .inactive
  returned : s.tcpToWS = .returned → s.isClosed = false → s.wsOpen = true →
    s.streamFinished = true

/-- All of this holds of a relay that was stopped. -/
theorem running_stop
    (hfinished : s.isClosed = true → s.streamFinished = true ∧ s.wsCancelled = true) :
    Running s.stop := by
  have hclosed := isClosed_stop s
  have hopen : s.stop.isClosed ≠ false := by simp
  have hphase : s.stop.phase = .closing ∨ s.stop.phase = .shuttingDown := by
    unfold WorkerCore.ProxyRelay.State.stop
    split
    · exact .inr rfl
    · by_cases htcp : s.tcp = .none <;> simp [htcp]
  refine ⟨?_, ?_, fun h => absurd h hopen, ?_, fun h => absurd h hopen, fun _ => hclosed,
    fun _ => ?_, fun _ => .inl hclosed, fun _ h => absurd h hopen⟩
  · rcases hphase with hphase | hphase <;> simp [hphase]
  · rcases hphase with hphase | hphase <;> simp [hphase]
  · rcases hphase with hphase | hphase <;> simp [hphase, Phase.isWriting]
  · unfold WorkerCore.ProxyRelay.State.stop
    split
    next hclosed => exact hfinished hclosed
    next => exact ⟨rfl, rfl⟩

/-- The relay goes on with the next message. -/
theorem Running.receiving (h : Running s) (hopen : s.isClosed = false)
    (hloop : s.tcpToWS ≠ .notStarted) : Running s.loopHead := by
  rw [loopHead_of_open hopen]
  exact ⟨by simp, by simp, fun _ => .inr (.inl rfl), fun _ => hopen, fun _ _ => hloop, h.cancelled,
    h.closed, h.finished, h.returned⟩

/-- Another position of the loop to the WebSocket, once it has started. -/
theorem Running.setLoop (h : Running s) {loop : SendLoop} (hloop : s.tcpToWS ≠ .notStarted)
    (hne : loop ≠ .notStarted)
    (hreturned : loop = .returned → s.isClosed = false → s.wsOpen = true →
      s.streamFinished = true) : Running { s with tcpToWS := loop } :=
  ⟨h.started, fun hphase => absurd (h.connecting hphase) hloop, h.live, h.opened, fun _ _ => hne,
    h.cancelled, h.closed, h.finished, hreturned⟩

/-- Every step keeps these facts. -/
theorem Running.step (h : Running s) (hstep : WorkerCore.ProxyRelay.step s e = some s') :
    Running s' := by
  have hclosed (hphase : s.phase = .closing ∨ s.phase = .shuttingDown) : s.isClosed ≠ false := by
    intro hopen
    have hlive := h.live hopen
    rcases hphase with hphase | hphase <;> simp [hphase, Phase.isWriting] at hlive
  by_cases hended : e = .streamEnded
  · -- the guard says why the loop ends
    subst hended
    obtain ⟨⟨hloop, hwhy⟩, heq⟩ := Option.ite_none_right_eq_some.mp hstep
    cases heq
    refine h.setLoop (by simp [hloop]) (by simp) fun _ hopen _ => ?_
    rcases hwhy with ⟨_, hfinished⟩ | hcancelled
    · exact hfinished
    · exact (h.closed (h.cancelled hcancelled)).1
  cases steps_of_step hstep with
  | begin valid hphase => exact absurd hphase h.started
  | tcpConnected hphase htcp =>
    refine ⟨h.started, h.connecting, h.live, h.opened, h.loop, h.cancelled, h.closed,
      fun hfinished => ?_, h.returned⟩
    have hbefore := h.finished hfinished
    rw [htcp] at hbefore
    exact .inl (hbefore.resolve_right (by decide))
  | connectFailed | receiveFailed | writeFailed => exact running_stop h.closed
  | connected hphase htcp =>
    by_cases hopen : s.isClosed = false
    · rw [loopHead_of_open (s := { s with tcpToWS := .waiting }) hopen]
      exact ⟨by simp, by simp, fun _ => .inr (.inl rfl), fun _ => hopen, fun _ _ => by simp,
        h.cancelled, h.closed, h.finished, by simp⟩
    · rw [WorkerCore.ProxyRelay.State.loopHead, if_pos (by simpa using hopen)]
      exact running_stop h.closed
  | frameArrived | channelRead =>
    exact ⟨h.started, h.connecting, h.live, h.opened, h.loop, h.cancelled, h.closed, h.finished,
      h.returned⟩
  | wsFailed =>
    refine ⟨h.started, h.connecting, h.live, h.opened, h.loop, h.cancelled, h.closed, h.finished,
      fun _ _ hopen => ?_⟩
    simp [WorkerCore.ProxyRelay.State.wsOpen] at hopen
  | receive hphase hincoming hbuffer =>
    have hopen := h.opened (.inl hphase)
    have hloop := h.loop hopen (by simp [hphase])
    exact ⟨by simp, by simp, fun _ => .inr (.inr rfl), fun _ => hopen, fun _ _ => hloop,
      h.cancelled, h.closed, h.finished, h.returned⟩
  | @pass message rest hphase =>
    have hopen := h.opened (.inl hphase)
    have hpassed : Running { s with incoming := rest } := ⟨h.started, h.connecting, h.live,
      h.opened, h.loop, h.cancelled, h.closed, h.finished, h.returned⟩
    exact hpassed.receiving hopen (h.loop hopen (by simp [hphase]))
  | writeCompleted hphase htcp =>
    have hopen := h.opened (.inr (by simp [hphase, Phase.isWriting]))
    exact h.receiving hopen (h.loop hopen (by simp [hphase]))
  | channelInactive | errorCaught =>
    exact ⟨h.started, h.connecting, h.live, h.opened, h.loop, h.cancelled,
      fun hclosed => ⟨rfl, (h.closed hclosed).2⟩, fun _ => .inr rfl, fun _ _ _ => rfl⟩
  | closed hphase =>
    have hne := hclosed (.inl hphase)
    exact ⟨by simp, by simp, fun hopen => absurd hopen hne, by simp [Phase.isWriting],
      fun hopen => absurd hopen hne, h.cancelled, fun hclosed => ⟨rfl, (h.closed hclosed).2⟩,
      fun _ => .inr rfl, fun _ _ _ => rfl⟩
  | shutDown hphase =>
    have hne := hclosed (.inr hphase)
    exact ⟨by simp, by simp, fun hopen => absurd hopen hne, by simp [Phase.isWriting],
      fun hopen => absurd hopen hne, h.cancelled, h.closed, h.finished, h.returned⟩
  | @nextData data rest hloop =>
    have hnext : Running { s with tcpToWS := .sending data } :=
      h.setLoop (by simp [hloop]) (by simp) (by simp)
    exact ⟨hnext.started, hnext.connecting, hnext.live, hnext.opened, hnext.loop, hnext.cancelled,
      hnext.closed, hnext.finished, hnext.returned⟩
  | sendCompleted hloop => exact h.setLoop (by simp [hloop]) (by simp) (by simp)
  | streamEnded => exact absurd rfl hended
  | sendFailed hloop hopen =>
    exact h.setLoop (by simp [hloop]) (by simp) fun _ _ hopen' => absurd hopen' hopen

/-- A closed relay stays closed. -/
theorem isClosed_of_step (hstep : WorkerCore.ProxyRelay.step s e = some s')
    (hclosed : s.isClosed = true) : s'.isClosed = true := by
  cases steps_of_step hstep with
  | connectFailed | receiveFailed | writeFailed => exact isClosed_stop _
  | connected | pass | writeCompleted =>
    rw [WorkerCore.ProxyRelay.State.loopHead, if_pos hclosed]
    exact isClosed_stop _
  | _ => exact hclosed

/-- A relay that is open was open before. -/
theorem open_of_step (hstep : WorkerCore.ProxyRelay.step s e = some s')
    (hopen : s'.isClosed = false) : s.isClosed = false := by
  by_contra hclosed
  rw [isClosed_of_step hstep (by simpa using hclosed)] at hopen
  cases hopen

/-- Whether the step has to do with the messages to the target. -/
def feeds : RelayEvent → Bool
  | .receive | .writeCompleted | .frameArrived _ => true
  | _ => false

/-- The other steps leave these messages to an open relay, or close it. -/
theorem keeps_of_not_feeds (hstep : WorkerCore.ProxyRelay.step s e = some s')
    (he : feeds e = false) (hopen' : s'.isClosed = false) : s.isClosed = false ∧
      s'.incoming = s.incoming ∧ s'.phase.isWriting = s.phase.isWriting ∧
      (s'.wsOpen = true → s.wsOpen = true) := by
  have hopen := open_of_step hstep hopen'
  refine ⟨hopen, ?_⟩
  cases steps_of_step hstep with
  | connectFailed | receiveFailed | writeFailed => simp at hopen'
  | begin valid hphase =>
    refine ⟨rfl, ?_, fun h => h⟩
    cases valid <;> simp [hphase, Phase.isWriting]
  | connected hphase =>
    rw [loopHead_of_open (s := { s with tcpToWS := .waiting }) hopen]
    exact ⟨rfl, by simp [hphase, Phase.isWriting], fun h => h⟩
  | wsFailed => exact ⟨rfl, rfl, fun h => by simp [WorkerCore.ProxyRelay.State.wsOpen] at h⟩
  | closed hphase | shutDown hphase => exact ⟨rfl, by simp [hphase, Phase.isWriting], fun h => h⟩
  | receive | pass | writeCompleted | frameArrived => cases he
  | _ => exact ⟨rfl, rfl, fun h => h⟩

/-- Whether the step has to do with what the target sends. -/
def drains : RelayEvent → Bool
  | .channelRead _ | .nextData | .streamEnded | .sendCompleted | .sendFailed | .connected => true
  | _ => false

/-- The other steps leave it as it is. -/
theorem keeps_of_not_drains (hstep : WorkerCore.ProxyRelay.step s e = some s')
    (he : drains e = false) : s'.stream = s.stream ∧ s'.tcpToWS = s.tcpToWS := by
  cases steps_of_step hstep with
  | connectFailed | receiveFailed | writeFailed => exact stop_keeps s
  | pass | writeCompleted => exact loopHead_keeps _
  | channelRead | nextData | streamEnded | sendCompleted | sendFailed | connected => cases he
  | _ => exact ⟨rfl, rfl⟩

end Worker

/-- What one step of the worker does to the tunnel. -/
inductive WorkerMoves (t : State) : RelayEvent → State → Prop
  | receive {worker} : step t.worker .receive = some worker →
      WorkerMoves t .receive { t with worker, unflushed := pendingBuffer worker.phase }
  | writeCompleted {worker} : t.unflushed = [] → step t.worker .writeCompleted = some worker →
      WorkerMoves t .writeCompleted { t with worker }
  | channelRead {worker} (bytes : Data) : step t.worker (.channelRead bytes) = some worker →
      WorkerMoves t (.channelRead bytes) { t with worker, read := t.read ++ [bytes] }
  | nextData {worker} : step t.worker .nextData = some worker →
      WorkerMoves t .nextData { t with worker, unsent := pendingMessage worker.tcpToWS }
  | sendCompleted {worker} : t.unsent = [] → step t.worker .sendCompleted = some worker →
      WorkerMoves t .sendCompleted { t with worker }
  | other {worker} {e : RelayEvent} : feeds e = false →
      (drains e = true → e = .streamEnded ∨ e = .sendFailed ∨ e = .connected) →
      step t.worker e = some worker → WorkerMoves t e { t with worker }

variable {t u : State} {e : RelayEvent}

/-- They are steps of the relay. -/
theorem WorkerMoves.step (h : WorkerMoves t e u) :
    WorkerCore.ProxyRelay.step t.worker e = some u.worker := by
  cases h with
  | receive hstep | channelRead _ hstep | nextData hstep => exact hstep
  | writeCompleted _ hstep | sendCompleted _ hstep | other _ _ hstep => exact hstep

/-- The worker takes these steps only. -/
theorem workerMoves_of_workerStep (h : t.workerStep e = some u) : WorkerMoves t e u := by
  cases e with
  | frameArrived => cases h
  | receive =>
    obtain ⟨worker, hstep, rfl⟩ := Option.map_eq_some_iff.mp h
    exact .receive hstep
  | writeCompleted =>
    obtain ⟨hflushed, h⟩ := Option.ite_none_right_eq_some.mp h
    obtain ⟨worker, hstep, rfl⟩ := Option.map_eq_some_iff.mp h
    exact .writeCompleted hflushed hstep
  | channelRead bytes =>
    obtain ⟨worker, hstep, rfl⟩ := Option.map_eq_some_iff.mp h
    exact .channelRead bytes hstep
  | nextData =>
    obtain ⟨worker, hstep, rfl⟩ := Option.map_eq_some_iff.mp h
    exact .nextData hstep
  | sendCompleted =>
    obtain ⟨hsent, h⟩ := Option.ite_none_right_eq_some.mp h
    obtain ⟨worker, hstep, rfl⟩ := Option.map_eq_some_iff.mp h
    exact .sendCompleted hsent hstep
  | _ =>
    obtain ⟨worker, hstep, rfl⟩ := Option.map_eq_some_iff.mp h
    exact .other rfl (by simp [drains]) hstep

section ToTarget

/-- The bytes of messages that are to be written. -/
def incomingBytes (messages : List Message) : Data := messages.flatMap fun m => m.buffer.getD []

/-- What is known of the way to the target: as long as the relay of the worker is open,
what was written, what is being written and what has arrived is in order, and as long as
its WebSocket is open, the rest is still on its way. -/
structure ToTarget (t : State) : Prop where
  written : t.written <+: Token.items t.clientSent
  flushed : t.worker.isClosed = false → t.worker.phase.isWriting = false → t.unflushed = []
  pending : t.worker.isClosed = false →
    t.written ++ (t.unflushed ++ incomingBytes t.worker.incoming) <+: Token.items t.clientSent
  all : t.worker.isClosed = false → t.worker.wsOpen = true →
    t.written ++ (t.unflushed ++ incomingBytes t.worker.incoming) ++
      Token.items (t.toWorker.dst ++ t.toWorker.src) = Token.items t.clientSent

variable {t u : State} {kind : MessageType} {bytes : Data} {message : Message}

/-- The way to the target depends on these parts of the state only. -/
theorem ToTarget.congr (h : ToTarget t)
    (hsame : (u.clientSent, u.written, u.unflushed, u.worker, u.toWorker.dst ++ u.toWorker.src) =
      (t.clientSent, t.written, t.unflushed, t.worker, t.toWorker.dst ++ t.toWorker.src)) :
    ToTarget u := by
  simp only [Prod.mk.injEq] at hsame
  obtain ⟨hsent, hwritten, hunflushed, hworker, hway⟩ := hsame
  constructor
  · rw [hwritten, hsent]
    exact h.written
  · rw [hworker, hunflushed]
    exact h.flushed
  · rw [hworker, hwritten, hunflushed, hsent]
    exact h.pending
  · rw [hworker, hwritten, hunflushed, hsent, hway]
    exact h.all

/-- A step of the worker that has nothing to do with these messages. -/
theorem ToTarget.setWorker (h : ToTarget t) {worker : Relay} {e : RelayEvent}
    (he : feeds e = false) (hstep : step t.worker e = some worker) :
    ToTarget { t with worker } := by
  refine ⟨h.written, fun hopen hphase => ?_, fun hopen => ?_, fun hopen hws => ?_⟩
  · obtain ⟨hopen, _, hwriting, _⟩ := keeps_of_not_feeds hstep he hopen
    exact h.flushed hopen (hwriting ▸ hphase)
  · obtain ⟨hopen, hincoming, _⟩ := keeps_of_not_feeds hstep he hopen
    rw [hincoming]
    exact h.pending hopen
  · obtain ⟨hopen, hincoming, _, hwsOpen⟩ := keeps_of_not_feeds hstep he hopen
    rw [hincoming]
    exact h.all hopen (hwsOpen hws)

/-- What is on its way to a WebSocket that is not open does not arrive any more. -/
theorem ToTarget.lose (h : ToTarget t) (hws : t.worker.wsOpen = false) (d : Direction) :
    ToTarget { t with toWorker := d } :=
  ⟨h.written, h.flushed, h.pending, fun _ hopen => by simp [hws] at hopen⟩

/-- The client sends. -/
theorem ToTarget.clientSends (h : ToTarget t) (tokens : Wire) (clientInside : Bool) :
    ToTarget { t with
      clientSent := t.clientSent ++ tokens
      clientInside
      toWorker := { t.toWorker with src := t.toWorker.src ++ tokens } } := by
  have hprefix : Token.items t.clientSent <+: Token.items (t.clientSent ++ tokens) := by
    rw [Token.items_append]
    exact List.prefix_append _ _
  refine ⟨h.written.trans hprefix, h.flushed, fun hopen => (h.pending hopen).trans hprefix,
    fun hopen hws => ?_⟩
  have hall := h.all hopen hws
  simp only [Token.items_append] at hall ⊢
  rw [← hall]
  simp only [List.append_assoc]

/-- A part of the buffer is written. -/
theorem ToTarget.flush (h : ToTarget t) (hopen : t.worker.isClosed = false)
    (hwriting : t.worker.phase.isWriting = true) (n : ℕ) :
    ToTarget { t with
      written := t.written ++ t.unflushed.take n, unflushed := t.unflushed.drop n } := by
  have hsame : t.written ++ t.unflushed.take n ++
      (t.unflushed.drop n ++ incomingBytes t.worker.incoming) =
        t.written ++ (t.unflushed ++ incomingBytes t.worker.incoming) := by
    rw [List.append_assoc, ← List.append_assoc (t.unflushed.take n), List.take_append_drop]
  refine ⟨?_, fun _ hphase => ?_, fun _ => ?_, fun _ hws => ?_⟩
  · refine List.IsPrefix.trans ?_ (h.pending hopen)
    rw [← hsame]
    exact List.prefix_append _ _
  · rw [hwriting] at hphase
    cases hphase
  · rw [hsame]
    exact h.pending hopen
  · rw [hsame]
    exact h.all hopen hws

/-- The bytes of a message that `URLSessionWebSocketTask` has received. -/
theorem buffer_of_decodeMessage (h : decodeMessage kind bytes = some message) :
    message.buffer = some bytes := by
  obtain ⟨_, h⟩ := Option.ite_none_left_eq_some.mp h
  cases kind with
  | binary =>
    cases h
    rfl
  | text =>
    obtain ⟨text, htext, rfl⟩ := Option.map_eq_some_iff.mp h
    unfold String.fromUTF8? at htext
    split at htext
    next hvalid =>
      cases htext
      rfl
    next => cases htext

/-- A message arrives. -/
theorem ToTarget.arrive (h : ToTarget t) {rest : Wire} {worker : Relay}
    (hmessage : Token.takeMessage t.toWorker.dst = some (kind, bytes, rest))
    (hdecode : decodeMessage kind bytes = some message)
    (hstep : step t.worker (.frameArrived message) = some worker) :
    ToTarget { t with worker, toWorker := { t.toWorker with dst := rest } } := by
  obtain ⟨⟨_, hopen⟩, hworker⟩ := Option.ite_none_right_eq_some.mp hstep
  cases hworker
  have hdst := Token.eq_of_takeMessage hmessage
  have hbytes : incomingBytes (t.worker.incoming ++ [message]) =
      incomingBytes t.worker.incoming ++ bytes := by
    simp [incomingBytes, buffer_of_decodeMessage hdecode]
  have hsame (hclosed : t.worker.isClosed = false) :
      t.written ++ (t.unflushed ++ incomingBytes (t.worker.incoming ++ [message])) ++
        Token.items (rest ++ t.toWorker.src) = Token.items t.clientSent := by
    have hall := h.all hclosed hopen
    simp only [hdst, Token.items_append, Token.items_encode] at hall
    simp only [hbytes, Token.items_append, List.append_assoc] at hall ⊢
    exact hall
  refine ⟨h.written, h.flushed, fun hclosed => ?_, fun hclosed _ => hsame hclosed⟩
  rw [← hsame hclosed]
  exact List.prefix_append _ _

/-- The relay takes a message to write it. -/
theorem ToTarget.receive (h : ToTarget t) (hrunning : Running t.worker)
    {worker : Relay} (hstep : step t.worker .receive = some worker) :
    ToTarget { t with worker, unflushed := pendingBuffer worker.phase } := by
  cases steps_of_step hstep with
  | @receive message rest buffer hphase hincoming hbuffer =>
    have hopen := hrunning.opened (.inl hphase)
    have hflushed := h.flushed hopen (by simp [hphase, Phase.isWriting])
    have hbytes : incomingBytes t.worker.incoming = buffer ++ incomingBytes rest := by
      simp [incomingBytes, hincoming, hbuffer]
    have hpending := h.pending hopen
    have hall := h.all hopen
    rw [hflushed, hbytes] at hpending hall
    exact ⟨h.written, fun _ hwriting => (by cases hwriting), fun _ => hpending, fun _ => hall⟩
  | @pass message rest hphase hincoming hbuffer =>
    have hopen := hrunning.opened (.inl hphase)
    have hflushed := h.flushed hopen (by simp [hphase, Phase.isWriting])
    have hbytes : incomingBytes t.worker.incoming = incomingBytes rest := by
      simp [incomingBytes, hincoming, hbuffer]
    have hpending := h.pending hopen
    have hall := h.all hopen
    rw [hflushed, hbytes] at hpending hall
    rw [loopHead_of_open (s := { t.worker with incoming := rest }) hopen]
    exact ⟨h.written, fun _ _ => rfl, fun _ => hpending, fun _ => hall⟩

/-- The relay has written a message. -/
theorem ToTarget.writeCompleted (h : ToTarget t) (hrunning : Running t.worker)
    {worker : Relay} (hflushed : t.unflushed = [])
    (hstep : step t.worker .writeCompleted = some worker) : ToTarget { t with worker } := by
  cases steps_of_step hstep with
  | writeCompleted hphase =>
    have hopen := hrunning.opened (.inr (by simp [hphase, Phase.isWriting]))
    rw [loopHead_of_open hopen]
    exact ⟨h.written, fun _ _ => hflushed, h.pending, h.all⟩

end ToTarget

section ToClient

/-- What the target has sent, as the messages that the client is to get. -/
def messagesOf (chunks : List Data) : Wire := chunks.flatMap (Token.encode .binary)

/-- What the server has of it, and what the client has received. -/
def State.passed (t : State) : Wire := t.received ++ (t.toClient.dst ++ t.toClient.src)

/-- What is known of the way to the client: all is in order, and as long as the loop of
the worker runs, the rest is still to be sent. Data that is read after the relay was
closed is dropped. -/
structure ToClient (t : State) : Prop where
  passed : t.passed <+: messagesOf t.read
  idle : t.worker.tcpToWS = .notStarted ∨ t.worker.tcpToWS = .waiting → t.unsent = []
  pending : t.worker.tcpToWS ≠ .returned →
    t.passed ++ (t.unsent ++ messagesOf t.worker.stream) <+: messagesOf t.read
  all : t.worker.tcpToWS ≠ .returned → t.worker.isClosed = false →
    t.passed ++ (t.unsent ++ messagesOf t.worker.stream) = messagesOf t.read
  reads : ∃ inside, t.toClient.Reads inside ∧
    (t.worker.tcpToWS ≠ .returned → Token.walk inside t.unsent = some false)

variable {t u : State}

/-- The way to the client depends on these parts of the state only. -/
theorem ToClient.congr (h : ToClient t)
    (hsame : (u.worker, u.unsent, u.read, u.received, u.toClient) =
      (t.worker, t.unsent, t.read, t.received, t.toClient)) : ToClient u := by
  simp only [Prod.mk.injEq] at hsame
  obtain ⟨hworker, hunsent, hread, hreceived, htoClient⟩ := hsame
  have hpassed : u.passed = t.passed := by rw [State.passed, State.passed, hreceived, htoClient]
  constructor
  · rw [hpassed, hread]
    exact h.passed
  · rw [hworker, hunsent]
    exact h.idle
  · rw [hworker, hpassed, hunsent, hread]
    exact h.pending
  · rw [hworker, hpassed, hunsent, hread]
    exact h.all
  · rw [hworker, htoClient, hunsent]
    exact h.reads

/-- A step of the worker that has nothing to do with what the target sends. -/
theorem ToClient.setWorker (h : ToClient t) {worker : Relay} {e : RelayEvent}
    (he : drains e = false) (hstep : step t.worker e = some worker) :
    ToClient { t with worker } := by
  obtain ⟨hstream, hloop⟩ := keeps_of_not_drains hstep he
  refine ⟨h.passed, ?_, ?_, ?_, ?_⟩
  · rw [hloop]
    exact h.idle
  · rw [hloop, hstream]
    exact h.pending
  · rw [hloop, hstream]
    exact fun hreturned hopen => h.all hreturned (open_of_step hstep hopen)
  · rw [hloop]
    exact h.reads

/-- What has passed the worker moves on. -/
theorem ToClient.move (h : ToClient t) {received : Wire} {d : Direction}
    (hpassed : received ++ (d.dst ++ d.src) = t.passed)
    (hreads : ∀ inside, t.toClient.Reads inside → d.Reads inside) :
    ToClient { t with received, toClient := d } := by
  have hsame : State.passed { t with received, toClient := d } = t.passed := hpassed
  refine ⟨?_, h.idle, ?_, ?_, ?_⟩
  · rw [hsame]
    exact h.passed
  · rw [hsame]
    exact h.pending
  · rw [hsame]
    exact h.all
  · obtain ⟨inside, hbefore, hunsent⟩ := h.reads
    exact ⟨inside, hreads inside hbefore, hunsent⟩

/-- A part of a message is sent. -/
theorem ToClient.transmit (h : ToClient t) {data : Data} (hloop : t.worker.tcpToWS = .sending data)
    (n : ℕ) : ToClient { t with
      unsent := t.unsent.drop n
      toClient := { t.toClient with src := t.toClient.src ++ t.unsent.take n } } := by
  have hrunning : t.worker.tcpToWS ≠ .returned := by simp [hloop]
  have hsame : t.received ++ (t.toClient.dst ++ (t.toClient.src ++ t.unsent.take n)) ++
      (t.unsent.drop n ++ messagesOf t.worker.stream) =
        t.passed ++ (t.unsent ++ messagesOf t.worker.stream) := by
    conv_rhs => rw [← List.take_append_drop n t.unsent]
    simp only [State.passed, List.append_assoc]
  refine ⟨?_, fun hidle => ?_, fun _ => ?_, fun _ hopen => ?_, ?_⟩
  · refine List.IsPrefix.trans ?_ (h.pending hrunning)
    rw [← hsame]
    exact List.prefix_append _ _
  · rcases hidle with hidle | hidle <;> cases hloop.symm.trans hidle
  · exact hsame ▸ h.pending hrunning
  · exact hsame.trans (h.all hrunning hopen)
  · obtain ⟨inside, hreads, hunsent⟩ := h.reads
    have hwalk := hunsent hrunning
    rw [← List.take_append_drop n t.unsent, Token.walk_append] at hwalk
    obtain ⟨inside', htake, hdrop⟩ := Option.bind_eq_some_iff.mp hwalk
    refine ⟨inside', fun hposition => ?_, fun _ => hdrop⟩
    rw [Token.walk_append, hreads hposition]
    exact htake

/-- The target sends. -/
theorem ToClient.channelRead (h : ToClient t) (hrunning : Running t.worker) {bytes : Data}
    {worker : Relay} (hstep : step t.worker (.channelRead bytes) = some worker) :
    ToClient { t with worker, read := t.read ++ [bytes] } := by
  have hread : messagesOf (t.read ++ [bytes]) =
      messagesOf t.read ++ Token.encode .binary bytes := by simp [messagesOf]
  have hprefix : messagesOf t.read <+: messagesOf (t.read ++ [bytes]) := by
    rw [hread]
    exact List.prefix_append _ _
  obtain ⟨htcp, hworker⟩ := Option.ite_none_right_eq_some.mp hstep
  cases hworker
  by_cases hfinished : t.worker.streamFinished = true
  · rw [if_pos hfinished]
    refine ⟨h.passed.trans hprefix, h.idle, fun hreturned => (h.pending hreturned).trans hprefix,
      fun _ hopen => ?_, h.reads⟩
    -- the stream of an open relay with an active channel is not finished
    have hopen : t.worker.isClosed = false := hopen
    have hwhy := hrunning.finished hfinished
    simp [htcp, hopen] at hwhy
  · rw [if_neg hfinished]
    have hstream : messagesOf (t.worker.stream ++ [bytes]) =
        messagesOf t.worker.stream ++ Token.encode .binary bytes := by simp [messagesOf]
    have hopen : t.worker.isClosed = false := by
      by_contra hclosed
      exact hfinished (hrunning.closed (by simpa using hclosed)).1
    have hall (hreturned : t.worker.tcpToWS ≠ .returned) :
        t.passed ++ (t.unsent ++ messagesOf (t.worker.stream ++ [bytes])) =
          messagesOf (t.read ++ [bytes]) := by
      rw [hread, hstream, ← h.all hreturned hopen]
      simp only [List.append_assoc]
    exact ⟨h.passed.trans hprefix, h.idle, fun hreturned => (hall hreturned).symm ▸ List.prefix_rfl,
      fun hreturned _ => hall hreturned, h.reads⟩

/-- The loop takes what the target has sent. -/
theorem ToClient.nextData (h : ToClient t) {worker : Relay}
    (hstep : step t.worker .nextData = some worker) :
    ToClient { t with worker, unsent := pendingMessage worker.tcpToWS } := by
  cases steps_of_step hstep with
  | @nextData data rest hloop hstream =>
    have hrunning : t.worker.tcpToWS ≠ .returned := by simp [hloop]
    have hunsent := h.idle (.inr hloop)
    have hmessages : messagesOf t.worker.stream = Token.encode .binary data ++ messagesOf rest := by
      simp [messagesOf, hstream]
    have hpending := h.pending hrunning
    have hall := h.all hrunning
    rw [hunsent, hmessages, List.nil_append] at hpending hall
    obtain ⟨inside, hreads, hwalk⟩ := h.reads
    have hinside : inside = false := by
      have hwalk := hwalk hrunning
      rw [hunsent] at hwalk
      exact Option.some.inj hwalk
    refine ⟨h.passed, fun hidle => ?_, fun _ => hpending, fun _ hopen => hall hopen,
      inside, hreads, fun _ => ?_⟩
    · rcases hidle with hidle | hidle <;> cases hidle
    · rw [hinside]
      exact Token.walk_encode .binary data

/-- A message was sent, the loop starts, or it ends. -/
theorem ToClient.setLoop (h : ToClient t) {worker : Relay}
    (hstream : worker.stream = t.worker.stream)
    (hopen : worker.isClosed = false → t.worker.isClosed = false)
    (hloop : worker.tcpToWS = .returned ∨
      worker.tcpToWS = .waiting ∧ t.worker.tcpToWS ≠ .returned ∧ t.unsent = []) :
    ToClient { t with worker } := by
  rcases hloop with hreturned | ⟨hwaiting, hrunning, hunsent⟩
  · refine ⟨h.passed, fun hidle => ?_, fun hne => absurd hreturned hne,
      fun hne => absurd hreturned hne, ?_⟩
    · rcases hidle with hidle | hidle <;> cases hreturned.symm.trans hidle
    · obtain ⟨inside, hreads, _⟩ := h.reads
      exact ⟨inside, hreads, fun hne => absurd hreturned hne⟩
  · refine ⟨h.passed, fun _ => hunsent, fun _ => ?_, fun _ hclosed => ?_, ?_⟩
    · rw [hstream]
      exact h.pending hrunning
    · rw [hstream]
      exact h.all hrunning (hopen hclosed)
    · obtain ⟨inside, hreads, hwalk⟩ := h.reads
      exact ⟨inside, hreads, fun _ => hwalk hrunning⟩

end ToClient

/-- What holds in every run of a tunnel. -/
structure Carries (t : State) : Prop where
  running : Running t.worker
  reads : t.toWorker.Reads t.clientInside
  writes : t.toWorker.Writes
  toTarget : ToTarget t
  toClient : ToClient t

section Steps

variable {t u : State} {kind : MessageType} {bytes : Data} {rest : Wire}

/-- A message leaves the connection to the worker as a whole. -/
theorem writes_of_takeMessage {d : Direction} (h : d.Writes)
    (hmessage : Token.takeMessage d.dst = some (kind, bytes, rest)) :
    Direction.Writes { d with dst := rest } := by
  intro hposition
  have hwalk := h hposition
  rw [Token.eq_of_takeMessage hmessage, Token.walk_append, Token.walk_encode] at hwalk
  exact hwalk

/-- A step of the worker keeps the invariant. -/
theorem Carries.worker (h : Carries t) {e : RelayEvent} (hmoves : WorkerMoves t e u) :
    Carries u := by
  have hrunning := h.running.step hmoves.step
  cases hmoves with
  | receive hstep =>
    have hclient := h.toClient.setWorker rfl hstep
    exact ⟨hrunning, h.reads, h.writes, h.toTarget.receive h.running hstep, hclient.congr rfl⟩
  | writeCompleted hflushed hstep =>
    exact ⟨hrunning, h.reads, h.writes, h.toTarget.writeCompleted h.running hflushed hstep,
      h.toClient.setWorker rfl hstep⟩
  | channelRead bytes hstep =>
    have htarget := h.toTarget.setWorker rfl hstep
    exact ⟨hrunning, h.reads, h.writes, htarget.congr rfl, h.toClient.channelRead h.running hstep⟩
  | nextData hstep =>
    have htarget := h.toTarget.setWorker rfl hstep
    exact ⟨hrunning, h.reads, h.writes, htarget.congr rfl, h.toClient.nextData hstep⟩
  | sendCompleted hsent hstep =>
    refine ⟨hrunning, h.reads, h.writes, h.toTarget.setWorker rfl hstep, ?_⟩
    cases steps_of_step hstep with
    | sendCompleted hloop =>
      exact h.toClient.setLoop rfl (fun hopen => hopen) (.inr ⟨rfl, by simp [hloop], hsent⟩)
  | other hfeeds hdrains hstep =>
    refine ⟨hrunning, h.reads, h.writes, h.toTarget.setWorker hfeeds hstep, ?_⟩
    by_cases hdrain : drains e = true
    · rcases hdrains hdrain with rfl | rfl | rfl
      · cases steps_of_step hstep
        exact h.toClient.setLoop rfl (fun hopen => hopen) (.inl rfl)
      · cases steps_of_step hstep
        exact h.toClient.setLoop rfl (fun hopen => hopen) (.inl rfl)
      · -- the loop starts when the target is connected
        have hopen := open_of_step hstep
        cases steps_of_step hstep with
        | connected hphase =>
          have hloop := h.running.connecting hphase
          have hunsent := h.toClient.idle (.inl hloop)
          obtain ⟨hstream, hwaiting⟩ := loopHead_keeps { t.worker with tcpToWS := .waiting }
          exact h.toClient.setLoop hstream hopen (.inr ⟨hwaiting, by simp [hloop], hunsent⟩)
    · exact h.toClient.setWorker (by simpa using hdrain) hstep

/-- A message reaches the worker. -/
theorem Carries.arrive (h : Carries t) {worker : Relay}
    (hmessage : Token.takeMessage t.toWorker.dst = some (kind, bytes, rest))
    (hstep : step t.worker (arrival kind bytes) = some worker) :
    Carries { t with worker, toWorker := { t.toWorker with dst := rest } } := by
  have hwrites := writes_of_takeMessage h.writes hmessage
  have hrunning := h.running.step hstep
  unfold arrival at hstep
  split at hstep
  next message hdecode =>
    have hclient := h.toClient.setWorker rfl hstep
    exact ⟨hrunning, h.reads, hwrites, h.toTarget.arrive hmessage hdecode hstep, hclient.congr rfl⟩
  next =>
    have hclient := h.toClient.setWorker rfl hstep
    have htarget := h.toTarget.setWorker rfl hstep
    have hws : worker.wsOpen = false := by
      cases steps_of_step hstep
      rfl
    exact ⟨hrunning, h.reads, hwrites, htarget.lose hws _, hclient.congr rfl⟩

/-- Every step keeps the invariant. -/
theorem Carries.step (h : Carries t) {e : Event} (hstep : t.step e = some u) : Carries u := by
  cases e with
  | clientSends tokens =>
    obtain ⟨_, hstep⟩ := Option.ite_none_right_eq_some.mp hstep
    obtain ⟨inside, hwalk, rfl⟩ := Option.map_eq_some_iff.mp hstep
    refine ⟨h.running, fun hposition => ?_, h.writes, h.toTarget.clientSends tokens inside,
      h.toClient.congr rfl⟩
    rw [Token.walk_append, h.reads hposition]
    exact hwalk
  | clientReceives n =>
    obtain ⟨_, hstep⟩ := Option.ite_none_left_eq_some.mp hstep
    cases hstep
    have hpassed : t.received ++ t.toClient.dst.take n ++
        (t.toClient.dst.drop n ++ t.toClient.src) = t.passed := by
      rw [List.append_assoc, ← List.append_assoc (t.toClient.dst.take n), List.take_append_drop]
      rfl
    exact ⟨h.running, h.reads, h.writes, h.toTarget.congr rfl,
      h.toClient.move hpassed fun _ hreads => hreads⟩
  | disconnect role =>
    cases hstep
    exact ⟨h.running, h.reads, h.writes, h.toTarget.congr rfl, h.toClient.congr rfl⟩
  | copyWS role n =>
    obtain ⟨_, hstep⟩ := Option.ite_none_right_eq_some.mp hstep
    obtain ⟨d, hcopy, rfl⟩ := Option.map_eq_some_iff.mp hstep
    have hcopies := copies_of_copyWS hcopy
    have happend := hcopies.append
    cases role with
    | client =>
      refine ⟨h.running, hcopies.reads h.reads, hcopies.writes h.writes, h.toTarget.congr ?_,
        h.toClient.congr rfl⟩
      exact congrArg (fun way => (t.clientSent, t.written, t.unflushed, t.worker, way)) happend
    | worker =>
      exact ⟨h.running, h.reads, h.writes, h.toTarget.congr rfl,
        h.toClient.move (congrArg (t.received ++ ·) happend) fun _ => hcopies.reads⟩
  | copyFails role =>
    obtain ⟨_, hstep⟩ := Option.ite_none_right_eq_some.mp hstep
    cases hstep
    cases role with
    | client =>
      exact ⟨h.running, fun hne => absurd rfl hne, fun hne => absurd rfl hne,
        h.toTarget.congr rfl, h.toClient.congr rfl⟩
    | worker =>
      exact ⟨h.running, h.reads, h.writes, h.toTarget.congr rfl,
        h.toClient.move rfl fun _ _ hne => absurd rfl hne⟩
  | messageTooBig role =>
    obtain ⟨_, hstep⟩ := Option.ite_none_right_eq_some.mp hstep
    cases hstep
    cases role with
    | client =>
      exact ⟨h.running, fun hne => absurd rfl hne, fun hne => absurd rfl hne,
        h.toTarget.congr rfl, h.toClient.congr rfl⟩
    | worker =>
      have hended : ToClient { t with toClient := { t.toClient with position := .returned } } :=
        h.toClient.move rfl fun _ _ hne => absurd rfl hne
      exact ⟨h.running, h.reads, h.writes, h.toTarget.congr rfl, hended.congr rfl⟩
  | closeSession =>
    obtain ⟨_, hstep⟩ := Option.ite_none_right_eq_some.mp hstep
    cases hstep
    exact ⟨h.running, h.reads, h.writes, h.toTarget.congr rfl, h.toClient.congr rfl⟩
  | arrive =>
    simp only [State.step] at hstep
    split at hstep
    next => cases hstep
    next kind bytes rest hmessage =>
      obtain ⟨worker, hworker, rfl⟩ := Option.map_eq_some_iff.mp hstep
      exact h.arrive hmessage hworker
  | flush n =>
    obtain ⟨⟨hwriting, _⟩, hstep⟩ := Option.ite_none_right_eq_some.mp hstep
    cases hstep
    have hopen := h.running.opened (.inr hwriting)
    exact ⟨h.running, h.reads, h.writes, h.toTarget.flush hopen hwriting n, h.toClient.congr rfl⟩
  | transmit n =>
    simp only [State.step] at hstep
    split at hstep
    next data hloop =>
      obtain ⟨_, hstep⟩ := Option.ite_none_right_eq_some.mp hstep
      cases hstep
      exact ⟨h.running, h.reads, h.writes, h.toTarget.congr rfl, h.toClient.transmit hloop n⟩
    next => cases hstep
  | worker e => exact h.worker (workerMoves_of_workerStep hstep)

end Steps

/-- The invariant holds in every run. -/
theorem carries_of_reachable (h : system.Reachable t) : Carries t := by
  refine System.ReachableUnder.invariant ?_ (fun t e u _ _ hnext ht => ht.step hnext) h
  rintro _ rfl
  refine ⟨⟨by decide, fun _ => rfl, fun _ => .inl rfl, fun _ => rfl, fun _ hne => absurd rfl hne,
      by decide, by decide, by decide, by decide⟩, fun _ => rfl, fun _ => rfl,
    ⟨List.prefix_rfl, fun _ _ => rfl, fun _ => List.prefix_rfl, fun _ _ => rfl⟩,
    ⟨List.prefix_rfl, fun _ => rfl, fun _ => List.prefix_rfl, fun _ _ => rfl,
      false, fun _ => rfl, fun _ => rfl⟩⟩

/-- In every run, whatever fails, the bytes that were written to the target are the first
ones of those that the client has sent, and what the client has received is the beginning
of the chunks that were read from the target, each one a binary message. -/
theorem in_order {t : State} (h : system.Reachable t) :
    t.written <+: Token.items t.clientSent ∧ t.received <+: messagesOf t.read := by
  have hcarries := carries_of_reachable h
  exact ⟨hcarries.toTarget.written, (List.prefix_append _ _).trans hcarries.toClient.passed⟩

/-- A message of the client is being written to the target while a chunk of the target is
on its way to the client. -/
def bothWays : List Event :=
  [.worker .tcpConnected, .worker .connected, .clientSends (Token.encode .binary [1, 2, 3]),
   .copyWS .client 1, .copyWS .client 2, .copyWS .client 2, .copyWS .client 1, .arrive,
   .worker .receive, .flush 2, .worker (.channelRead [7, 8]), .worker .nextData, .transmit 3,
   .copyWS .worker 1, .copyWS .worker 1, .clientReceives 2]

/-- When the client disconnects, the target has two of its bytes, and it has the start of
the chunk. -/
theorem in_order_disconnected : ∃ t, system.Reachable t ∧ t.conns .client = false ∧
    t.written = [1, 2] ∧ t.received = [.first .binary, .item 7] ∧
    t.written <+: Token.items t.clientSent ∧ t.received <+: messagesOf t.read := by
  have hrun : ∃ t, runEvents State.step .initial (bothWays ++ [.disconnect .client]) = some t ∧
      t.conns .client = false ∧ t.written = [1, 2] ∧ t.received = [.first .binary, .item 7] :=
    ⟨_, rfl, rfl, rfl, rfl⟩
  obtain ⟨t, ht, hconn, hwritten, hreceived⟩ := hrun
  have hreach : system.Reachable t := reachable_of_runEvents rfl ht
  exact ⟨t, hreach, hconn, hwritten, hreceived, in_order hreach⟩

end MiniControl.Tunnel
