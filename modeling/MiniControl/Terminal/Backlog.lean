import MiniControl.Terminal.Handover

/-!
# Replays and the size of the queue

An attach call enqueues the `ready` message and all retained frames without
waiting for the writer of its attachment, in rounds, until a round finds nothing
that was published meanwhile. The queue of an attachment takes 128 messages and
the history retains 256 frames. The call succeeds under every schedule of the
writer exactly when the messages fit into the queue, those that are published
before the installation included; otherwise it fails if the writer is slow.
-/

namespace MiniControl.Terminal

open Transition

/-- The call holds the attach mutex. -/
def Phase.Holds : Phase → Prop
  | .checkClosed _ | .stopTimer _ | .readCurrent _ | .closeCurrent _ _ | .removeCurrent _ _
  | .sendReady _ | .snapshot _ _ | .replay _ _ _ | .setAttachment _ | .unlockAttach _
  | .unlockFailed _ => True
  | _ => False

/-- A call that holds the attach mutex is recorded as its holder. -/
def Locked (s : State) : Prop := ∀ c, (s.calls c).Holds → s.attachMu = some c

namespace Locked

variable {s t : State} {c : ℕ} {q : Phase}

/-- A call moves and holds the mutex only if it did before. -/
theorem moved (h : Locked s) {p q : Phase} (hp : s.calls c = p)
    (hcalls : t.calls = Function.update s.calls c q) (hmu : t.attachMu = s.attachMu)
    (hq : q.Holds → p.Holds) : Locked t := by
  intro d hd
  rw [hcalls] at hd
  rw [hmu]
  by_cases hdc : d = c
  · rw [hdc, Function.update_self] at hd
    rw [hdc]
    exact h c (hp ▸ hq hd)
  · rw [Function.update_of_ne hdc] at hd
    exact h d hd

/-- The call that holds the mutex lets go of it. -/
theorem unlocked (h : Locked s) (hp : (s.calls c).Holds)
    (hcalls : t.calls = Function.update s.calls c q) (hq : ¬q.Holds) : Locked t := by
  intro d hd
  rw [hcalls] at hd
  by_cases hdc : d = c
  · rw [hdc, Function.update_self] at hd
    exact absurd hd hq
  · rw [Function.update_of_ne hdc] at hd
    exact absurd (Option.some.inj ((h d hd).symm.trans (h c hp))) hdc

/-- Every step keeps the mutex. -/
theorem step {e : Event} (h : Locked s) (heffect : Effect s e t) : Locked t := by
  cases heffect with
  | move hphase hmoves =>
    refine h.moved hphase rfl rfl fun hq => ?_
    cases hmoves <;> trivial
  | @lock c _ request hphase hfree =>
    intro d hd
    by_cases hdc : d = c
    · rw [hdc]
      rfl
    · rw [State.goto_of_ne _ hdc] at hd
      cases hfree.symm.trans (h d hd)
  | stopTimer hphase => exact h.moved hphase rfl rfl fun _ => trivial
  | closeCurrent hphase => exact h.moved hphase rfl rfl fun _ => trivial
  | @removeCurrent c current _ _ hphase =>
    rcases s.removeAttachment_eq current with ⟨_, heq⟩ | ⟨_, heq⟩
    · rw [heq]
      exact h.moved hphase rfl rfl fun _ => trivial
    · rw [heq]
      exact h.moved hphase rfl rfl fun _ => trivial
  | sent hphase hsends hsend =>
    obtain ⟨_, _, _, _, rfl⟩ := State.send_ok hsend
    refine h.moved hphase rfl rfl fun _ => ?_
    cases hsends <;> trivial
  | sendFailed hphase hsends _ =>
    refine h.moved hphase rfl rfl fun _ => ?_
    cases hsends <;> trivial
  | setAttachment hphase => exact h.moved hphase rfl rfl fun _ => trivial
  | unlock hphase hq =>
    refine h.unlocked (by rw [hphase]; trivial) rfl ?_
    rcases hq with rfl | rfl <;> exact id
  | @clear c _ _ hphase =>
    rcases s.clearAttachment_eq c with ⟨_, heq⟩ | ⟨_, heq⟩
    · rw [heq]
      exact h.moved hphase rfl rfl False.elim
    · rw [heq]
      exact h.moved hphase rfl rfl False.elim
  | finish hphase _ => exact h.moved hphase rfl rfl False.elim
  | unlockFailed hphase hq =>
    refine h.unlocked (by rw [hphase]; trivial) rfl ?_
    rcases hq with rfl | rfl <;> exact id
  | streamSent _ hsend | notify _ hsend =>
    obtain ⟨_, _, _, _, rfl⟩ := State.send_ok hsend
    exact h
  | @streamClear _ _ target _ =>
    rcases s.clearAttachment_eq target with ⟨_, heq⟩ | ⟨_, heq⟩
    · rw [heq]
      exact h
    · rw [heq]
      exact h
  | _ => exact h

end Locked

variable {id : String} {s t : State} {c k : ℕ} {a : Attachment} {o : Output} {request : Request}

/-- The mutex is held by at most one call. -/
theorem locked_of_reachable (h : (system id).Reachable s) : Locked s := by
  refine System.ReachableUnder.invariant ?_ ?_ h
  · rintro s rfl c hc
    exact hc.elim
  · intro s e t _ _ hnext hlocked
    exact hlocked.step (step_effect hnext)

/-- A send to an open attachment with room. -/
theorem State.send_of_room (hc : s.attachments c = some a) (hdone : a.done = false)
    (hroom : a.outbound.length < terminalAttachmentQueueSize) (message : Outbound) (choice : Bool) :
    s.send c message choice = .ok (s.put c { a with outbound := a.outbound ++ [message] }) := by
  rw [State.send, hc]
  simp [Attachment.send, hdone, hroom, Except.map]

/-- A send to an open attachment without room. -/
theorem State.send_of_full (hc : s.attachments c = some a) (hdone : a.done = false)
    (hfull : terminalAttachmentQueueSize ≤ a.outbound.length) (message : Outbound) (choice : Bool) :
    s.send c message choice = .error .bufferFull := by
  rw [State.send, hc]
  simp [Attachment.send, hdone, not_lt.mpr hfull, Except.map]

/-- Everything that was enqueued to an attachment. -/
def State.enqueued (s : State) (c : ℕ) : List Outbound :=
  match s.attachments c with
  | none => []
  | some a => a.enqueued

/-- The message of a retained frame. -/
def Frame.outbound (frame : Frame) : Outbound := .output frame.payload

/-- What a reattach is to enqueue: the `ready` message and all retained frames. -/
def backlog (s : State) (request : Request) : List Outbound :=
  .ready s.id request.recovered :: (s.history.snapshotFramesAfter 0).1.map Frame.outbound

/-- The session stays open, the connection of the call is healthy, chunks are
published only up to a bound on their number, and the call has not yet installed
its attachment. Everything else may happen, with any schedule of the writer. -/
def Undisturbed (c bound : ℕ) (s : State) : Event → Prop
  | .publish _ _ => s.published.length < bound
  | .beginClose _ => False
  | .wrote a ok => a = c → ok = true
  | .call d _ => d = c → (s.calls c).inGap = false
  | _ => True

/-- How many of `k` further chunks the outputs of a session can still publish. -/
def State.publishable (s : State) (k : ℕ) : ℕ :=
  if s.streams .stdout = .ended ∧ s.streams .stderr = .ended then 0 else k

/-- What a replay that began in the state `start` has to enqueue of the given chunks:
the `ready` message and all of them that were retained at the start or came later. -/
def due (start : State) (request : Request) (published : List Payload) : List Outbound :=
  .ready start.id request.recovered ::
    (published.drop (start.published.length - terminalHistoryFrames)).map .output

/-- The positions of a call between the making and the installation of its
attachment, with what it has enqueued of the chunks that are published by now. -/
def Phase.Replaying (c : ℕ) (request : Request) (start : State) (published : List Payload)
    (enqueued : List Outbound) : Phase → Prop
  | .readCurrent r | .removeCurrent r _ | .sendReady r => r = request ∧ enqueued = []
  | .closeCurrent r current => r = request ∧ current ≠ c ∧ enqueued = []
  | .snapshot r replayedSeq => r = request ∧ replayedSeq ≤ published.length ∧
      enqueued = due start request (published.take replayedSeq)
  | .replay r frames latestSeq => r = request ∧ latestSeq ≤ published.length ∧
      enqueued ++ frames.map Frame.outbound = due start request (published.take latestSeq)
  | .setAttachment r => r = request ∧ ∃ n, start.published.length ≤ n ∧ n ≤ published.length ∧
      enqueued = due start request (published.take n)
  | _ => False

/-- A bound on the steps of the rounds that follow, when `n` of the published chunks
have been replayed. -/
def roundSteps (published n : ℕ) : ℕ := if n < published then published - n + 3 else 1

/-- A bound on the steps up to the installation. -/
def Phase.stepsLeft (published : ℕ) : Phase → ℕ
  | .readCurrent _ => published + 7
  | .closeCurrent _ _ => published + 6
  | .removeCurrent _ _ => published + 5
  | .sendReady _ => published + 4
  | .snapshot _ replayedSeq => roundSteps published replayedSeq
  | .replay _ frames latestSeq => frames.length + 1 + roundSteps published latestSeq
  | _ => 0

/-- The next step of the call is a send. -/
def Phase.sending : Phase → Bool
  | .sendReady _ | .replay _ (_ :: _) _ => true
  | _ => false

/-- A call that replays the history of a session, in which nothing that was retained
at the start has been dropped since. -/
structure Attaching (c : ℕ) (request : Request) (start s : State) (a : Attachment) : Prop where
  idle : s.closing = .idle
  sessionID : s.id = start.id
  grown : start.published <+: s.published
  kept : s.published.length - terminalHistoryFrames =
    start.published.length - terminalHistoryFrames
  attachment : s.attachments c = some a
  healthy : a.done = false
  phase : (s.calls c).Replaying c request start s.published a.enqueued

/-- A step of the call takes it closer to the installation, and leaves its writer
alone. -/
def Advances (c : ℕ) (request : Request) (start s : State) (a : Attachment) (e : Event) : Prop :=
  ∃ t new, step s e = some t ∧ Attaching c request start t new ∧ t.published = s.published ∧
    new.taken = a.taken ∧
    (new.outbound.length ≤ terminalAttachmentQueueSize ∨ new.outbound = a.outbound) ∧
    (t.calls c).stepsLeft s.published.length < (s.calls c).stepsLeft s.published.length

section Due

variable {start : State} {request : Request} {published : List Payload}

/-- At the start of a replay it has to enqueue the backlog. -/
theorem due_start (hrec : start.history.Records start.published) (request : Request) :
    due start request start.published = backlog start request := by
  have hpayloads := hrec.payloads_snapshot 0
  rw [Nat.zero_max] at hpayloads
  rw [due, backlog, ← hpayloads, List.map_map]
  rfl

/-- Nothing of no chunks: only the `ready` message. -/
theorem due_nil (start : State) (request : Request) :
    due start request [] = [.ready start.id request.recovered] := by
  simp [due]

/-- Chunks that came after the start are due in addition. -/
theorem due_append (start : State) (request : Request) (later : List Payload) :
    due start request (start.published ++ later) =
      due start request start.published ++ later.map .output := by
  rw [due, due, List.drop_append_of_le_length (Nat.sub_le _ _), List.map_append, List.cons_append]

/-- A round of the replay enqueues what is due and was not yet enqueued. -/
theorem due_round {h : History} (hrec : h.Records published) {n : ℕ}
    (hkept : published.length - terminalHistoryFrames =
      start.published.length - terminalHistoryFrames) :
    due start request (published.take n) ++
        (h.snapshotFramesAfter n).1.map Frame.outbound =
      due start request published := by
  have houtbound : (h.snapshotFramesAfter n).1.map Frame.outbound =
      ((h.snapshotFramesAfter n).1.map Frame.payload).map Outbound.output := by
    rw [List.map_map]
    rfl
  have hlost : start.published.length - terminalHistoryFrames ≤ published.length :=
    hkept ▸ Nat.sub_le _ _
  rw [houtbound, hrec.payloads_snapshot, hkept, due, due, List.cons_append, ← List.map_append]
  generalize start.published.length - terminalHistoryFrames = lost at hlost
  have hchunks : (published.take n).drop lost ++ published.drop (max n lost) =
      published.drop lost := by
    rcases le_total n lost with hle | hle
    · rw [max_eq_right hle, List.drop_eq_nil_of_le, List.nil_append]
      exact (List.length_take_le n published).trans hle
    · rw [max_eq_left hle, ← List.drop_append_of_le_length, List.take_append_drop]
      rw [List.length_take]
      exact le_min hle hlost
  rw [hchunks]

/-- A further chunk does not concern what was enqueued before. -/
theorem Phase.Replaying.publish {c : ℕ} {p : Phase} {enqueued : List Outbound}
    (h : p.Replaying c request start published enqueued)
    (payload : Payload) : p.Replaying c request start (published ++ [payload]) enqueued := by
  have hgrown : published.length ≤ (published ++ [payload]).length := by simp
  cases p with
  | snapshot r n =>
    obtain ⟨hr, hn, henqueued⟩ := h
    refine ⟨hr, hn.trans hgrown, ?_⟩
    rwa [List.take_append_of_le_length hn]
  | replay r frames latestSeq =>
    obtain ⟨hr, hn, henqueued⟩ := h
    refine ⟨hr, hn.trans hgrown, ?_⟩
    rwa [List.take_append_of_le_length hn]
  | setAttachment r =>
    obtain ⟨hr, n, hstart, hn, henqueued⟩ := h
    refine ⟨hr, n, hstart, hn.trans hgrown, ?_⟩
    rwa [List.take_append_of_le_length hn]
  | _ => exact h

end Due

namespace Attaching

variable {c : ℕ} {request : Request} {start s t : State} {a : Attachment} {choice : Bool}
  {q : Phase} {r : Request} {current d bound : ℕ} {o : Output} {id : String}

/-- A call that replays holds the mutex. -/
theorem holds (h : Attaching c request start s a) : (s.calls c).Holds := by
  have hphase := h.phase
  generalize s.calls c = p at hphase
  cases p <;> trivial

/-- A call that replays has not installed its attachment. -/
theorem not_installed (h : Attaching c request start s a) : ¬(s.calls c).Installed := by
  have hphase := h.phase
  generalize s.calls c = p at hphase
  cases p <;> first | exact id | exact hphase.elim

/-- A call that moves without sending. -/
theorem advances_of_move (h : Attaching c request start s a) {u : State}
    (hstep : Terminal.step s (.call c choice) = some (u.goto c q)) (hidle : u.closing = s.closing)
    (hid : u.id = s.id) (hpublished : u.published = s.published)
    (hattachments : u.attachments c = s.attachments c)
    (hphase : q.Replaying c request start s.published a.enqueued)
    (hless : q.stepsLeft s.published.length < (s.calls c).stepsLeft s.published.length) :
    Advances c request start s a (.call c choice) := by
  have hnew : Attaching c request start (u.goto c q) a := by
    refine ⟨hidle.trans h.idle, hid.trans h.sessionID, ?_, ?_, hattachments.trans h.attachment,
      h.healthy, ?_⟩
    · exact hpublished ▸ h.grown
    · exact hpublished ▸ h.kept
    · rw [State.goto_self]
      exact hpublished ▸ hphase
  refine ⟨_, a, hstep, hnew, hpublished, rfl, .inr rfl, ?_⟩
  rwa [State.goto_self]

/-- A call that sends its next message, if there is room for it. -/
theorem advances_of_send (h : Attaching c request start s a) (message : Outbound)
    (hroom : a.outbound.length < terminalAttachmentQueueSize)
    (hstep : ∀ u, s.send c message choice = .ok u →
      Terminal.step s (.call c choice) = some (u.goto c q))
    (hphase : q.Replaying c request start s.published (a.enqueued ++ [message]))
    (hless : q.stepsLeft s.published.length < (s.calls c).stepsLeft s.published.length) :
    Advances c request start s a (.call c choice) := by
  have hsend := State.send_of_room h.attachment h.healthy hroom message choice
  have henqueued : ({ a with outbound := a.outbound ++ [message] } : Attachment).enqueued =
      a.enqueued ++ [message] := (List.append_assoc ..).symm
  have hnew : Attaching c request start
      ((s.put c { a with outbound := a.outbound ++ [message] }).goto c q)
      { a with outbound := a.outbound ++ [message] } := by
    refine ⟨h.idle, h.sessionID, h.grown, h.kept, Function.update_self _ _ _, h.healthy, ?_⟩
    rw [State.goto_self, henqueued]
    exact hphase
  refine ⟨_, _, hstep _ hsend, hnew, rfl, rfl, .inl ?_, ?_⟩
  · simpa [Nat.succ_le_iff] using hroom
  · rwa [State.goto_self]

/-- The call looks for an attachment that it replaces. -/
theorem call_readCurrent (h : Attaching c request start s a) (htargets : Targets s)
    (hcall : s.calls c = .readCurrent r) : Advances c request start s a (.call c choice) := by
  have hphase := h.phase
  rw [hcall] at hphase
  cases hcurrent : s.attachment with
  | none =>
    refine h.advances_of_move (q := .sendReady r) (u := s) ?_ rfl rfl rfl rfl hphase ?_
    · simp [Terminal.step, callStep, hcall, hcurrent]
    · rw [hcall, Phase.stepsLeft, Phase.stepsLeft]
      omega
  | some current =>
    have hne : current ≠ c := by
      rintro rfl
      exact h.not_installed (htargets.attachment current hcurrent)
    refine h.advances_of_move (q := .closeCurrent r current) (u := s) ?_ rfl rfl rfl rfl
      ⟨hphase.1, hne, hphase.2⟩ ?_
    · simp [Terminal.step, callStep, hcall, hcurrent]
    · rw [hcall, Phase.stepsLeft, Phase.stepsLeft]
      omega

/-- It closes the attachment that it replaces. -/
theorem call_closeCurrent (h : Attaching c request start s a)
    (hcall : s.calls c = .closeCurrent r current) :
    Advances c request start s a (.call c choice) := by
  have hphase := h.phase
  rw [hcall] at hphase
  obtain ⟨hr, hne, hnothing⟩ := hphase
  refine h.advances_of_move (q := .removeCurrent r current) (u := s.closeAttachment current) ?_ rfl
    rfl rfl (Function.update_of_ne hne.symm _ _) ⟨hr, hnothing⟩ ?_
  · simp [Terminal.step, callStep, hcall]
  · rw [hcall, Phase.stepsLeft, Phase.stepsLeft]
    omega

/-- It removes the attachment that it has closed. -/
theorem call_removeCurrent (h : Attaching c request start s a)
    (hcall : s.calls c = .removeCurrent r current) :
    Advances c request start s a (.call c choice) := by
  have hphase := h.phase
  rw [hcall] at hphase
  obtain ⟨_, _, hclosing, hheap, hpublished, _⟩ := s.removeAttachment_frame current
  have hid : (s.removeAttachment current).id = s.id := by
    rcases s.removeAttachment_eq current with ⟨_, heq⟩ | ⟨_, heq⟩ <;> rw [heq]
  refine h.advances_of_move (q := .sendReady r) (u := s.removeAttachment current) ?_ hclosing hid
    hpublished (congrFun hheap c) hphase ?_
  · simp [Terminal.step, callStep, hcall]
  · rw [hcall, Phase.stepsLeft, Phase.stepsLeft]
    omega

/-- It sends the `ready` message. -/
theorem call_sendReady (h : Attaching c request start s a)
    (hroom : a.outbound.length < terminalAttachmentQueueSize) (hcall : s.calls c = .sendReady r) :
    Advances c request start s a (.call c choice) := by
  have hphase := h.phase
  rw [hcall] at hphase
  obtain ⟨hr, hnothing⟩ := hphase
  refine h.advances_of_send (q := .snapshot r 0) (.ready s.id r.recovered) hroom ?_
    ⟨hr, Nat.zero_le _, ?_⟩ ?_
  · intro u hsend
    simp only [Terminal.step, callStep, hcall, hsend]
  · rw [hnothing, List.take_zero, due_nil, h.sessionID, hr]
    rfl
  · rw [hcall, Phase.stepsLeft, Phase.stepsLeft, roundSteps]
    split_ifs <;> omega

/-- It begins a round: the next one, or none when nothing is new. -/
theorem call_snapshot (h : Attaching c request start s a) (hrec : s.history.Records s.published)
    {n : ℕ} (hcall : s.calls c = .snapshot r n) :
    Advances c request start s a (.call c choice) := by
  have hphase := h.phase
  rw [hcall] at hphase
  obtain ⟨hr, hn, henqueued⟩ := hphase
  have hround : due start request (s.published.take n) ++
      (s.history.snapshotFramesAfter n).1.map Frame.outbound =
      due start request s.published := due_round hrec h.kept
  have hlength : (s.history.snapshotFramesAfter n).1.length ≤ s.published.length - n := by
    rw [hrec.snapshotFramesAfter, List.length_drop, length_framesFrom]
    omega
  have hsnapshot : s.history.snapshotFramesAfter n =
      ((s.history.snapshotFramesAfter n).1, s.published.length) := by
    rw [← hrec.latest_snapshot n]
  generalize (s.history.snapshotFramesAfter n).1 = frames at hround hlength hsnapshot
  cases frames with
  | nil =>
    rw [List.map_nil, List.append_nil] at hround
    refine h.advances_of_move (q := .setAttachment r) (u := s) ?_ rfl rfl rfl rfl
      ⟨hr, s.published.length, h.grown.length_le, le_rfl, ?_⟩ ?_
    · simp only [Terminal.step, callStep, hcall, hsnapshot]
    · rw [henqueued, hround, List.take_length]
    · rw [hcall]
      simp only [Phase.stepsLeft, roundSteps]
      split_ifs <;> omega
  | cons frame frames =>
    rw [List.length_cons] at hlength
    refine h.advances_of_move (q := .replay r (frame :: frames) s.published.length) (u := s) ?_ rfl
      rfl rfl rfl ⟨hr, le_rfl, ?_⟩ ?_
    · simp only [Terminal.step, callStep, hcall, hsnapshot]
    · rw [henqueued, hround, List.take_length]
    · rw [hcall]
      simp only [Phase.stepsLeft, roundSteps, List.length_cons]
      split_ifs <;> omega

/-- It sends the next frame of its round, or ends the round. -/
theorem call_replay (h : Attaching c request start s a) {frames : List Frame} {latestSeq : ℕ}
    (hroom : (s.calls c).sending = true → a.outbound.length < terminalAttachmentQueueSize)
    (hcall : s.calls c = .replay r frames latestSeq) :
    Advances c request start s a (.call c choice) := by
  have hphase := h.phase
  rw [hcall] at hphase hroom
  obtain ⟨hr, hseq, henqueued⟩ := hphase
  cases frames with
  | nil =>
    rw [List.map_nil, List.append_nil] at henqueued
    refine h.advances_of_move (q := .snapshot r latestSeq) (u := s) ?_ rfl rfl rfl rfl
      ⟨hr, hseq, henqueued⟩ ?_
    · simp only [Terminal.step, callStep, hcall]
    · rw [hcall, Phase.stepsLeft, Phase.stepsLeft]
      exact Nat.lt_add_of_pos_left Nat.one_pos
  | cons frame frames =>
    refine h.advances_of_send (q := .replay r frames latestSeq) frame.outbound (hroom rfl) ?_
      ⟨hr, hseq, ?_⟩ ?_
    · intro u hsend
      rw [Frame.outbound] at hsend
      simp only [Terminal.step, callStep, hcall, hsend]
    · rw [← henqueued, List.append_assoc]
      rfl
    · rw [hcall, Phase.stepsLeft, Phase.stepsLeft, List.length_cons]
      omega

/-- A call that sends fails if there is no room. -/
theorem call_full (h : Attaching c request start s a) (hsending : (s.calls c).sending = true)
    (hfull : terminalAttachmentQueueSize ≤ a.outbound.length) :
    Terminal.step s (.call c choice) = some (s.goto c (.unlockFailed .bufferFull)) := by
  have hsend := fun message => State.send_of_full h.attachment h.healthy hfull message choice
  cases hcall : s.calls c with
  | sendReady r => simp only [Terminal.step, callStep, hcall, hsend]
  | replay r frames latestSeq =>
    rw [hcall] at hsending
    cases frames with
    | nil => cases hsending
    | cons frame frames => simp only [Terminal.step, callStep, hcall, hsend]
  | _ =>
    rw [hcall] at hsending
    cases hsending

/-- Every step of the call takes it closer to the installation, if there is room
for the message that it sends. -/
theorem call (h : Attaching c request start s a) (hsound : Sound s)
    (hgap : (s.calls c).inGap = false)
    (hroom : (s.calls c).sending = true → a.outbound.length < terminalAttachmentQueueSize)
    (choice : Bool) : Advances c request start s a (.call c choice) := by
  cases hcall : s.calls c with
  | readCurrent r => exact h.call_readCurrent hsound.targets hcall
  | closeCurrent r current => exact h.call_closeCurrent hcall
  | removeCurrent r current => exact h.call_removeCurrent hcall
  | sendReady r => exact h.call_sendReady (hroom (by rw [hcall]; rfl)) hcall
  | snapshot r n => exact h.call_snapshot hsound.history hcall
  | replay r frames latestSeq => exact h.call_replay hroom hcall
  | setAttachment r =>
    rw [hcall] at hgap
    cases hgap
  | _ =>
    have hphase := h.phase
    rw [hcall] at hphase
    exact hphase.elim

/-- A step that does not concern the call or its attachment. -/
theorem unconcerned (h : Attaching c request start s a) (hidle : t.closing = s.closing)
    (hid : t.id = s.id) (hpublished : t.published = s.published)
    (hcalls : t.calls c = s.calls c) (hattachments : t.attachments c = s.attachments c) :
    Attaching c request start t a := by
  refine ⟨hidle.trans h.idle, hid.trans h.sessionID, ?_, ?_, hattachments.trans h.attachment,
    h.healthy, ?_⟩
  · exact hpublished ▸ h.grown
  · exact hpublished ▸ h.kept
  · rw [hcalls, hpublished]
    exact h.phase

/-- A step of another call: it does not hold the mutex. -/
theorem of_other_call (h : Attaching c request start s a) (hlocked : Locked s) (hne : d ≠ c)
    (hstep : Terminal.step s (.call d choice) = some t) :
    Attaching c request start t a := by
  have hheld : s.attachMu = some c := hlocked c h.holds
  have hnot : ¬(s.calls d).Holds := fun hd =>
    hne (Option.some.inj ((hlocked d hd).symm.trans hheld))
  simp only [Terminal.step, callStep] at hstep
  cases hcall : s.calls d with
  | unused => simp only [hcall, reduceCtorEq] at hstep
  | returned => simp only [hcall, reduceCtorEq] at hstep
  | lockAttach r => simp only [hcall, hheld, reduceCtorEq, if_false] at hstep
  | windowChange | readInput =>
    simp only [hcall, Option.some.injEq] at hstep
    subst hstep
    exact h.unconcerned rfl rfl rfl (s.goto_of_ne hne.symm _) rfl
  | clearAttachment result =>
    simp only [hcall, Option.some.injEq] at hstep
    subst hstep
    obtain ⟨hcalls, _, hclosing, hheap, hpublished, _⟩ := s.clearAttachment_frame d
    have hid : (s.clearAttachment d).id = s.id := by
      rcases s.clearAttachment_eq d with ⟨_, heq⟩ | ⟨_, heq⟩ <;> rw [heq]
    refine h.unconcerned hclosing hid hpublished ?_ (congrFun hheap c)
    rw [State.goto_of_ne _ hne.symm, hcalls]
  | closeAttachment | closeFailed =>
    simp only [hcall, Option.some.injEq] at hstep
    subst hstep
    exact h.unconcerned rfl rfl rfl (State.goto_of_ne _ hne.symm _)
      (Function.update_of_ne hne.symm _ _)
  | _ =>
    rw [hcall] at hnot
    exact absurd trivial hnot

/-- A step of a stream: it works on another attachment. -/
theorem of_stream (h : Attaching c request start s a) (htargets : Targets s)
    (hstep : Terminal.step s (.stream o choice) = some t) : Attaching c request start t a := by
  have hother : ∀ target, (s.streams o).target = some target → c ≠ target := by
    rintro _ htarget rfl
    exact h.not_installed (htargets.streams o c htarget)
  simp only [Terminal.step, streamStep] at hstep
  cases hstream : s.streams o with
  | reading => simp only [hstream, reduceCtorEq] at hstep
  | ended => simp only [hstream, reduceCtorEq] at hstep
  | sending payload target =>
    have hne := hother target (by rw [hstream]; rfl)
    cases hsend : s.send target (.output payload) choice with
    | error failure =>
      simp only [hstream, hsend, Option.some.injEq] at hstep
      subst hstep
      exact h.unconcerned rfl rfl rfl rfl rfl
    | ok u =>
      simp only [hstream, hsend, Option.some.injEq] at hstep
      subst hstep
      obtain ⟨_, _, _, _, rfl⟩ := State.send_ok hsend
      exact h.unconcerned rfl rfl rfl rfl (Function.update_of_ne hne _ _)
  | clearing target =>
    simp only [hstream, Option.some.injEq] at hstep
    subst hstep
    obtain ⟨hcalls, _, hclosing, hheap, hpublished, _⟩ := s.clearAttachment_frame target
    have hid : (s.clearAttachment target).id = s.id := by
      rcases s.clearAttachment_eq target with ⟨_, heq⟩ | ⟨_, heq⟩ <;> rw [heq]
    exact h.unconcerned hclosing hid hpublished (congrFun hcalls c) (congrFun hheap c)
  | closing target =>
    have hne := hother target (by rw [hstream]; rfl)
    simp only [hstream, Option.some.injEq] at hstep
    subst hstep
    exact h.unconcerned rfl rfl rfl rfl (Function.update_of_ne hne _ _)

/-- A publication, as long as the history keeps what it retained at the start. -/
theorem of_publish (h : Attaching c request start s a) {payload : Payload}
    (hkept : t.published.length - terminalHistoryFrames =
      start.published.length - terminalHistoryFrames)
    (hstep : Terminal.step s (.publish o payload) = some t) : Attaching c request start t a := by
  obtain ⟨_, hnext⟩ := Option.ite_none_right_eq_some.mp hstep
  cases hnext
  unfold publishBinary at hkept ⊢
  split_ifs with hclosed
  · exact h
  · rw [if_neg hclosed] at hkept
    exact ⟨h.idle, h.sessionID, h.grown.trans (List.prefix_append _ _), hkept, h.attachment,
      h.healthy, h.phase.publish payload⟩

/-- A step of a writer: that of the call keeps what was enqueued and goes on. -/
theorem of_writer (h : Attaching c request start s a) {f : Attachment → Option Attachment}
    (hstep : writerStep s d f = some t)
    (hf : d = c → ∀ new, f a = some new → new.enqueued = a.enqueued ∧ new.done = a.done) :
    ∃ new, Attaching c request start t new := by
  obtain ⟨new, hnew, rfl⟩ := Option.map_eq_some_iff.mp hstep
  obtain ⟨old, hold, hfold⟩ := Option.bind_eq_some_iff.mp hnew
  by_cases hdc : d = c
  · subst hdc
    cases h.attachment.symm.trans hold
    obtain ⟨henqueued, hdone⟩ := hf rfl new hfold
    refine ⟨new, h.idle, h.sessionID, h.grown, h.kept, Function.update_self _ _ _,
      hdone.trans h.healthy, ?_⟩
    rw [henqueued]
    exact h.phase
  · exact ⟨a, h.unconcerned rfl rfl rfl rfl (Function.update_of_ne (Ne.symm hdc) _ _)⟩

/-- Every undisturbed step keeps the replay going, if there is room and the history
keeps what it retained at the start. -/
theorem step {e : Event} (h : Attaching c request start s a) (hsound : Sound s) (hlocked : Locked s)
    (hroom : (s.calls c).sending = true → a.outbound.length < terminalAttachmentQueueSize)
    (hkept : t.published.length - terminalHistoryFrames =
      start.published.length - terminalHistoryFrames) (hok : Undisturbed c bound s e)
    (hstep : step s e = some t) :
    ∃ new, Attaching c request start t new := by
  cases e with
  | attach d r =>
    obtain ⟨hunused, hnext⟩ := Option.ite_none_right_eq_some.mp hstep
    cases hnext
    refine ⟨a, h.unconcerned rfl rfl rfl (s.goto_of_ne ?_ _) rfl⟩
    rintro rfl
    have hholds := h.holds
    rw [hunused] at hholds
    exact hholds
  | call d choice =>
    by_cases hdc : d = c
    · subst hdc
      obtain ⟨u, new, hu, hnew, _⟩ := h.call hsound (hok rfl) hroom choice
      cases hstep.symm.trans hu
      exact ⟨new, hnew⟩
    · exact ⟨a, h.of_other_call hlocked hdc hstep⟩
  | publish o payload => exact ⟨a, h.of_publish hkept hstep⟩
  | stream o choice => exact ⟨a, h.of_stream hsound.targets hstep⟩
  | streamEnds o =>
    obtain ⟨_, hnext⟩ := Option.ite_none_right_eq_some.mp hstep
    cases hnext
    exact ⟨a, h.unconcerned rfl rfl rfl rfl rfl⟩
  | take d =>
    refine h.of_writer hstep fun _ new hnew => ?_
    split at hnew
    next message rest _ houtbound =>
      cases hnew
      simp [Attachment.enqueued, houtbound]
    next => cases hnew
  | wrote d ok =>
    refine h.of_writer hstep fun hdc new hnew => ?_
    obtain ⟨_, hnew⟩ := Option.ite_none_right_eq_some.mp hnew
    rw [hok hdc, if_pos rfl] at hnew
    cases hnew
    exact ⟨rfl, rfl⟩
  | stopWriter d =>
    refine h.of_writer hstep fun hdc new hnew => ?_
    obtain ⟨⟨_, hstop⟩, _⟩ := Option.ite_none_right_eq_some.mp hnew
    rw [h.healthy, h.idle] at hstop
    simp at hstop
  | expire =>
    obtain ⟨_, hnext⟩ := Option.ite_none_right_eq_some.mp hstep
    cases hnext
    exact ⟨a, h.unconcerned rfl rfl rfl rfl rfl⟩
  | beginClose => exact hok.elim
  | close choice => simp only [Terminal.step, closeStep, h.idle, reduceCtorEq] at hstep

/-- If everything that is due fits into the queue, there is always room. -/
theorem room (h : Attaching c request start s a)
    (hfits : s.published.length < terminalAttachmentQueueSize)
    (hsending : (s.calls c).sending = true) : a.outbound.length < terminalAttachmentQueueSize := by
  have hphase := h.phase
  have houtbound : a.outbound.length ≤ a.enqueued.length := by
    rw [Attachment.enqueued, List.length_append]
    exact Nat.le_add_left _ _
  generalize s.calls c = p at hsending hphase
  cases p with
  | sendReady r =>
    rw [hphase.2] at houtbound
    exact houtbound.trans_lt (by decide)
  | replay r frames latestSeq =>
    cases frames with
    | nil => cases hsending
    | cons frame frames =>
      have hlength := congrArg List.length hphase.2.2
      simp only [due, List.length_append, List.length_cons, List.length_map, List.length_drop,
        List.length_take] at hlength
      omega
  | _ => cases hsending

/-- A call that has found nothing new in its last round has enqueued the backlog of its
start, and of what came later as much as was published before that round. -/
theorem caught_up (h : Attaching c request start s a)
    (hrec : start.history.Records start.published) (hgap : (s.calls c).inGap = true) :
    s.calls c = .setAttachment request ∧ ∃ later, start.published ++ later <+: s.published ∧
      a.enqueued = backlog start request ++ later.map .output := by
  have hphase := h.phase
  obtain ⟨rest, hrest⟩ := h.grown
  generalize s.calls c = p at hgap hphase
  cases p with
  | setAttachment r =>
    obtain ⟨hr, n, hstart, _, henqueued⟩ := hphase
    have htake : s.published.take n =
        start.published ++ rest.take (n - start.published.length) := by
      rw [← hrest, List.take_append, List.take_of_length_le hstart]
    refine ⟨congrArg _ hr, rest.take (n - start.published.length), ?_, ?_⟩
    · rw [← htake]
      exact List.take_prefix n _
    · rw [henqueued, htake, due_append, due_start hrec]
  | _ => cases hgap

/-- If everything fits into the queue, the call can finish its replay by itself. -/
theorem finishes (h : Attaching c request start s a) (hreach : (system id).Reachable s)
    (hrec : start.history.Records start.published)
    (hfits : s.published.length < terminalAttachmentQueueSize) :
    ∃ n u later, runEvents Terminal.step s (List.replicate n (.call c true)) = some u ∧
      u.calls c = .setAttachment request ∧
      u.enqueued c = backlog start request ++ later.map .output ∧
      start.published ++ later <+: u.published := by
  induction hsteps : (s.calls c).stepsLeft s.published.length using Nat.strong_induction_on
    generalizing s a with
  | _ steps ih =>
    cases hgap : (s.calls c).inGap with
    | true =>
      obtain ⟨hphase, later, hlater, henqueued⟩ := h.caught_up hrec hgap
      refine ⟨0, s, later, rfl, hphase, ?_, hlater⟩
      rw [State.enqueued, h.attachment]
      exact henqueued
    | false =>
      obtain ⟨t, new, hstep, hnew, hpublished, _, _, hless⟩ :=
        h.call (sound_of_reachable hreach) hgap (h.room hfits) true
      rw [← hpublished] at hfits
      obtain ⟨n, u, later, hrun, hend⟩ :=
        ih _ (hsteps ▸ hless) hnew (hreach.next hstep) hfits (by rw [hpublished])
      refine ⟨n + 1, u, later, ?_, hend⟩
      rw [List.replicate_succ, runEvents, hstep]
      exact hrun

/-- If the backlog of the start does not fit into the queue, nothing more is published
and the writer does not run, the call fails. -/
theorem overflows {first : State} (h : Attaching c request start s a)
    (hrun : (system id).LeadsUnder (Undisturbed c bound) first s)
    (hfirst : (system id).Reachable first) (hrec : start.history.Records start.published)
    (hlong : terminalAttachmentQueueSize < (backlog start request).length) (htaken : a.taken = [])
    (hqueue : a.outbound.length ≤ terminalAttachmentQueueSize) :
    ∃ u, (system id).LeadsUnder (Undisturbed c bound) first u ∧
      u.calls c = .unlockFailed .bufferFull := by
  induction hsteps : (s.calls c).stepsLeft s.published.length using Nat.strong_induction_on
    generalizing s a with
  | _ steps ih =>
    cases hgap : (s.calls c).inGap with
    | true =>
      -- the queue would hold more than it can
      obtain ⟨_, later, _, henqueued⟩ := h.caught_up hrec hgap
      rw [Attachment.enqueued, htaken, List.nil_append] at henqueued
      rw [henqueued, List.length_append] at hqueue
      omega
    | false =>
      have hreach := hrun.leads.reachable hfirst
      have hok : Undisturbed c bound s (.call c true) := fun _ => hgap
      by_cases hroom : (s.calls c).sending = true → a.outbound.length < terminalAttachmentQueueSize
      · obtain ⟨t, new, hstep, hnew, hpublished, hsame, hlength, hless⟩ :=
          h.call (sound_of_reachable hreach) hgap hroom true
        refine ih _ (hsteps ▸ hless) hnew (.tail hrun hok hstep) (hsame.trans htaken) ?_
          (by rw [hpublished])
        rcases hlength with hle | heq
        · exact hle
        · rwa [heq]
      · push Not at hroom
        obtain ⟨hsending, hfull⟩ := hroom
        exact ⟨_, .tail hrun hok (h.call_full hsending hfull), State.goto_self _ _ _⟩

end Attaching

/-- A stream that has ended stays so. -/
theorem Effect.ended {e : Event} (h : Effect s e t) (hended : s.streams o = .ended) :
    t.streams o = .ended := by
  have hset : ∀ {u : State} {o' : Output} {stream : Stream}, u.streams = s.streams →
      s.streams o' ≠ .ended → (u.setStream o' stream).streams o = .ended := by
    intro u o' stream hu hlive
    have hne : o ≠ o' := fun heq => hlive (heq ▸ hended)
    exact (Function.update_of_ne hne _ _).trans ((congrFun hu o).trans hended)
  cases h with
  | removeCurrent => exact (congrFun (s.removeAttachment_frame _).2.1 o).trans hended
  | clear => exact (congrFun (s.clearAttachment_frame _).2.1 o).trans hended
  | sent _ _ hsend | notify _ hsend =>
    obtain ⟨_, _, _, _, rfl⟩ := State.send_ok hsend
    exact hended
  | publishDetached hstream _ _ | publishAttached hstream _ _ =>
    exact hset rfl (by rw [hstream]; nofun)
  | streamSent hstream hsend =>
    obtain ⟨_, _, _, _, rfl⟩ := State.send_ok hsend
    exact hset rfl (by rw [hstream]; nofun)
  | streamFailed hstream | streamClose hstream => exact hset rfl (by rw [hstream]; nofun)
  | streamClear hstream =>
    exact hset (s.clearAttachment_frame _).2.1 (by rw [hstream]; nofun)
  | streamEnds hstream => exact hset rfl (by rw [hstream]; nofun)
  | _ => exact hended

/-- A session is open until its shutdown has begun. -/
theorem open_of_reachable (h : (system id).Reachable s) :
    s.closing = .idle → s.closed = false := by
  refine System.ReachableUnder.invariant (P := fun s => s.closing = .idle → s.closed = false)
    ?_ ?_ h
  · rintro s rfl _
    rfl
  · intro s e t _ _ hnext hopen hidle
    cases step_effect hnext with
    | removeCurrent =>
      rw [State.goto, State.removeAttachment_closed]
      exact hopen ((s.removeAttachment_frame _).2.2.1.symm.trans hidle)
    | clear =>
      rw [State.goto, State.clearAttachment_closed]
      exact hopen ((s.clearAttachment_frame _).2.2.1.symm.trans hidle)
    | streamClear =>
      rw [State.setStream, State.clearAttachment_closed]
      exact hopen ((s.clearAttachment_frame _).2.2.1.symm.trans hidle)
    | sent _ _ hsend | streamSent _ hsend =>
      obtain ⟨_, _, _, _, rfl⟩ := State.send_ok hsend
      exact hopen hidle
    | beginClose | beginExpiry | shut | notify | quiet | detach | finished => cases hidle
    | _ => exact hopen hidle

/-- The call has just made its attachment, and the session is open. -/
structure Made (c : ℕ) (request : Request) (s : State) : Prop where
  idle : s.closing = .idle
  phase : s.calls c = .readCurrent request
  attachment : s.attachments c = some .new

/-- How far a publication is from its end. -/
def Stream.stepsLeft : Stream → ℕ
  | .sending _ _ => 3
  | .clearing _ => 2
  | .closing _ => 1
  | .reading | .ended => 0

/-- A publication that works on an attachment gets closer to its end by itself. -/
theorem stream_advances (hlive : s.streams o ≠ .ended) (hbusy : s.streams o ≠ .reading) :
    ∃ t, step s (.stream o true) = some t ∧
      t.calls = s.calls ∧ t.published = s.published ∧ t.streams o ≠ .ended ∧
      (t.streams o).stepsLeft < (s.streams o).stepsLeft := by
  cases hstream : s.streams o with
  | reading => exact absurd hstream hbusy
  | ended => exact absurd hstream hlive
  | sending payload target =>
    cases hsend : s.send target (.output payload) true with
    | error failure =>
      refine ⟨s.setStream o (.clearing target), ?_, rfl, rfl, ?_, ?_⟩
      · simp only [step, streamStep, hstream, hsend]
      · simp
      · simp [Stream.stepsLeft]
    | ok u =>
      obtain ⟨_, _, _, _, hu⟩ := State.send_ok hsend
      refine ⟨u.setStream o .reading, ?_, by rw [hu]; rfl, by rw [hu]; rfl, ?_, ?_⟩
      · simp only [step, streamStep, hstream, hsend]
      · simp
      · simp [Stream.stepsLeft]
  | clearing target =>
    obtain ⟨hcalls, _, _, _, hpublished, _⟩ := s.clearAttachment_frame target
    refine ⟨(s.clearAttachment target).setStream o (.closing target), ?_, hcalls, hpublished,
      ?_, ?_⟩
    · simp only [step, streamStep, hstream]
    · simp
    · simp [Stream.stepsLeft]
  | closing target =>
    refine ⟨(s.closeAttachment target).setStream o .reading, ?_, rfl, rfl, ?_, ?_⟩
    · simp only [step, streamStep, hstream]
    · simp
    · simp [Stream.stepsLeft]

/-- An output of an open session can publish. -/
theorem publish_advances (hreading : s.streams o = .reading) (hopen : s.closed = false)
    (payload : Payload) : ∃ t,
      step s (.publish o payload) = some t ∧ t.published = s.published ++ [payload] ∧
      t.calls = s.calls ∧ t.attachments = s.attachments ∧ t.closing = s.closing ∧
      t.streams o ≠ .ended := by
  refine ⟨publishBinary s o payload, if_pos hreading, ?_⟩
  have hnot : ¬s.closed = true := by simp [hopen]
  rw [publishBinary, if_neg hnot]
  refine ⟨rfl, rfl, rfl, rfl, ?_⟩
  rw [State.setStream_self]
  cases s.attachment with
  | none => simp
  | some target => simp

namespace Made

variable {id : String} {c bound : ℕ} {request : Request} {first s : State} {o : Output}

/-- The replay begins. -/
theorem attaching (h : Made c request s) : Attaching c request s s .new := by
  refine ⟨h.idle, rfl, List.prefix_rfl, rfl, h.attachment, rfl, ?_⟩
  rw [h.phase]
  exact ⟨rfl, rfl⟩

/-- While the call waits, an output that has not ended can end its publication. -/
theorem reads (h : Made c request s) (hlive : s.streams o ≠ .ended)
    (hrun : (system id).LeadsUnder (Undisturbed c bound) first s)
    (hfirst : (system id).Reachable first) :
    ∃ t, (system id).LeadsUnder (Undisturbed c bound) first t ∧ Made c request t ∧
      t.streams o = .reading ∧ t.published = s.published := by
  induction hsteps : (s.streams o).stepsLeft using Nat.strong_induction_on generalizing s with
  | _ steps ih =>
    by_cases hreading : s.streams o = .reading
    · exact ⟨s, hrun, h, hreading, rfl⟩
    · obtain ⟨t, hstep, hcalls, hpublished, hstill, hless⟩ := stream_advances hlive hreading
      have hreach := hrun.leads.reachable hfirst
      have hnext := h.attaching.of_stream (sound_of_reachable hreach).targets hstep
      have hmade : Made c request t :=
        ⟨hnext.idle, (congrFun hcalls c).trans h.phase, hnext.attachment⟩
      obtain ⟨u, hu, hmade, hreads, hsame⟩ :=
        ih _ (hsteps ▸ hless) hmade hstill (hrun.tail (e := .stream o true) trivial hstep) rfl
      exact ⟨u, hu, hmade, hreads, hsame.trans hpublished⟩

/-- While the call waits, an output that has not ended can publish any number of chunks
up to the bound. -/
theorem publishes (h : Made c request s) (hlive : s.streams o ≠ .ended)
    (hrun : (system id).LeadsUnder (Undisturbed c bound) first s)
    (hfirst : (system id).Reachable first) {j : ℕ} (hbound : s.published.length + j ≤ bound) :
    ∃ t, (system id).LeadsUnder (Undisturbed c bound) first t ∧ Made c request t ∧
      t.published.length = s.published.length + j := by
  induction j generalizing s with
  | zero => exact ⟨s, hrun, h, rfl⟩
  | succ j ih =>
    obtain ⟨t, ht, hmade, hreading, hsame⟩ := h.reads hlive hrun hfirst
    have hopen := open_of_reachable (ht.leads.reachable hfirst) hmade.idle
    obtain ⟨u, hstep, hpublished, hcalls, hheap, hclosing, hstill⟩ :=
      publish_advances hreading hopen []
    have hok : Undisturbed c bound t (.publish o []) := by
      rw [Undisturbed, hsame]
      omega
    have hnext : Made c request u :=
      ⟨hclosing.trans hmade.idle, (congrFun hcalls c).trans hmade.phase,
        (congrFun hheap c).trans hmade.attachment⟩
    have hlength : u.published.length = s.published.length + 1 := by
      rw [hpublished, List.length_append, hsame, List.length_singleton]
    obtain ⟨v, hv, hmade, hcount⟩ := ih hnext hstill (.tail ht hok hstep) (by omega)
    exact ⟨v, hv, hmade, by omega⟩

end Made

/-- The start of a replay: the call has just made its attachment. -/
theorem made_of_step {made s : State} {choice : Bool} (hphase : made.calls c = .stopTimer request)
    (hopen : made.closing = .idle) (hnext : step made (.call c choice) = some s) :
    Made c request s := by
  obtain rfl : (made.stopIdleTimer.put c .new).goto c (.readCurrent request) = s := by
    simpa [step, callStep, hphase] using hnext
  exact ⟨hopen, State.goto_self _ _ _, Function.update_self _ _ _⟩

/-- A call that has failed never installs its attachment. -/
theorem left_of_runEvents {s u : State} {es : List Event} (hreach : (system id).Reachable s)
    (hleft : (s.calls c).Left) (h : runEvents step s es = some u) : (u.calls c).Left := by
  induction es generalizing s with
  | nil =>
    cases h
    exact hleft
  | cons e es ih =>
    obtain ⟨t, hstep, hrest⟩ := Option.bind_eq_some_iff.mp h
    have hnext := (step_effect hstep).left (sound_of_reachable hreach).targets hleft
    exact ih (hreach.next hstep) hnext hrest

/-- The frames that a session retains. -/
theorem length_snapshot (h : (system id).Reachable s) :
    (s.history.snapshotFramesAfter 0).1.length = min s.published.length terminalHistoryFrames := by
  rw [(sound_of_reachable h).history.snapshotFramesAfter, List.length_drop, length_framesFrom]
  omega

/-- An undisturbed run publishes no more than its bound, and nothing when the outputs of
the session have ended. -/
theorem published_of_undisturbed
    (hrun : (system id).LeadsUnder (Undisturbed c (s.published.length + k)) s t)
    (hreach : (system id).Reachable s) :
    t.published.length ≤ s.published.length + s.publishable k := by
  rw [State.publishable]
  split_ifs with hended
  · have hsame : (∀ o, t.streams o = .ended) ∧ t.published = s.published := by
      refine System.LeadsUnder.invariant (P := fun t => (∀ o, t.streams o = .ended) ∧
        t.published = s.published) ?_ hrun hreach ⟨fun o => ?_, rfl⟩
      · rintro u e v _ _ hstep ⟨hall, hpublished⟩
        have heffect := step_effect hstep
        refine ⟨fun o => heffect.ended (hall o), ?_⟩
        rcases heffect.published with ⟨heq, _⟩ | ⟨o, payload, rfl, _⟩
        · exact heq.trans hpublished
        · -- an output that has ended does not publish
          have hreading := (Option.ite_none_right_eq_some.mp hstep).1
          rw [hall o] at hreading
          cases hreading
      · cases o with
        | stdout => exact hended.1
        | stderr => exact hended.2
    rw [hsame.2, Nat.add_zero]
  · refine System.LeadsUnder.invariant
      (P := fun t => t.published.length ≤ s.published.length + k) ?_ hrun hreach
      (Nat.le_add_right _ _)
    rintro u e v _ hok hstep hle
    rcases (step_effect hstep).published with ⟨heq, _⟩ | ⟨o, payload, rfl, heq, _⟩
    · rwa [heq]
    · rw [heq, List.length_append, List.length_singleton]
      exact hok

/-- If the retained frames and the chunks that may still be published do not leave room
for the `ready` message, the call fails under some schedule. -/
theorem overflow_of_made (hmade : Made c request s) (hreach : (system id).Reachable s)
    (hlong : terminalAttachmentQueueSize ≤
      (s.history.snapshotFramesAfter 0).1.length + s.publishable k) :
    ∃ t, (system id).LeadsUnder (Undisturbed c (s.published.length + k)) s t ∧
      t.calls c = .unlockFailed .bufferFull := by
  -- a state in which all these chunks are retained and the call has not yet begun
  obtain ⟨u, hrun, hwaits, hretained⟩ : ∃ u,
      (system id).LeadsUnder (Undisturbed c (s.published.length + k)) s u ∧ Made c request u ∧
      terminalAttachmentQueueSize ≤ (u.history.snapshotFramesAfter 0).1.length := by
    rw [State.publishable] at hlong
    split_ifs at hlong with hended
    · exact ⟨s, .refl s, hmade, hlong⟩
    · obtain ⟨o, hlive⟩ : ∃ o, s.streams o ≠ .ended := by
        rcases not_and_or.mp hended with h | h
        · exact ⟨.stdout, h⟩
        · exact ⟨.stderr, h⟩
      obtain ⟨u, hrun, hwaits, hcount⟩ := hmade.publishes hlive (.refl s) hreach (j := k) le_rfl
      refine ⟨u, hrun, hwaits, ?_⟩
      rw [length_snapshot hreach] at hlong
      rw [length_snapshot (hrun.leads.reachable hreach), hcount]
      simp only [terminalAttachmentQueueSize, terminalHistoryFrames] at hlong ⊢
      omega
  have hu := hrun.leads.reachable hreach
  refine hwaits.attaching.overflows hrun hreach (sound_of_reachable hu).history ?_ rfl
    (Nat.zero_le _)
  rw [backlog, List.length_cons, List.length_map]
  omega

/-- An attach call to an open session enqueues the `ready` message and all retained
frames in their order, and after them only what was published meanwhile, whatever the
schedule of the writer and of everything else is in which at most `k` more chunks are
published before the installation, exactly when the retained frames and these chunks
leave room for the `ready` message in the queue. -/
theorem attach_replays_iff (id : String) {made s : State} {c : ℕ} {request : Request}
    {choice : Bool}
    (hreach : (system id).Reachable made) (hphase : made.calls c = .stopTimer request)
    (hopen : made.closing = .idle) (hnext : (system id).next made (.call c choice) s) (k : ℕ) :
    (∀ t, (system id).LeadsUnder (Undisturbed c (s.published.length + k)) s t →
      ∃ n u later, runEvents step t (List.replicate n (.call c true)) = some u ∧
        u.calls c = .setAttachment request ∧
        u.enqueued c = backlog s request ++ later.map .output ∧
        s.published ++ later <+: u.published) ↔
    (s.history.snapshotFramesAfter 0).1.length + s.publishable k < terminalAttachmentQueueSize := by
  have hs := hreach.next hnext
  have hrec := (sound_of_reachable hs).history
  have hmade := made_of_step hphase hopen hnext
  constructor
  · intro hall
    by_contra hlong
    obtain ⟨t, hrun, hfailed⟩ := overflow_of_made hmade hs (Nat.le_of_not_lt hlong)
    obtain ⟨n, u, _, hend, hset, _⟩ := hall t hrun
    have hleft := left_of_runEvents (hrun.leads.reachable hs) (by rw [hfailed]; trivial) hend
    rw [hset] at hleft
    exact hleft
  · intro hshort t hrun
    -- nothing is dropped from the history, since it never holds more than the queue
    have hfits : s.published.length + s.publishable k < terminalAttachmentQueueSize := by
      rw [length_snapshot hs] at hshort
      simp only [terminalAttachmentQueueSize, terminalHistoryFrames] at hshort ⊢
      omega
    have hfew : ∀ u, (system id).LeadsUnder (Undisturbed c (s.published.length + k)) s u →
        u.published.length < terminalAttachmentQueueSize := fun u hu =>
      (published_of_undisturbed hu hs).trans_lt hfits
    have hattaching : ∀ u, (system id).LeadsUnder (Undisturbed c (s.published.length + k)) s u →
        ∃ a, Attaching c request s u a := by
      intro u hu
      induction hu with
      | refl => exact ⟨_, hmade.attaching⟩
      | @tail v w e hpre hok hstep ih =>
        obtain ⟨a, ha⟩ := ih
        have hv := hpre.leads.reachable hs
        have hw := hfew w (.tail hpre hok hstep)
        have hbefore := hfew s (.refl s)
        refine ha.step (sound_of_reachable hv) (locked_of_reachable hv) (ha.room (hfew v hpre)) ?_
          hok hstep
        simp only [terminalAttachmentQueueSize, terminalHistoryFrames] at hw hbefore ⊢
        omega
    obtain ⟨a, ha⟩ := hattaching t hrun
    exact ha.finishes (hrun.leads.reachable hs) hrec (hfew t hrun)

/-- A call of a client that comes back. -/
def returningRequest : Request := ⟨80, 24, true⟩

/-- Two chunks are replayed, whatever the schedule is and whatever is published in up to
hundred more chunks. -/
theorem attach_replays_iff_two : ∃ made s : State,
    (system "t").Reachable made ∧ made.calls 0 = .stopTimer returningRequest ∧
    made.closing = .idle ∧ (system "t").next made (.call 0 true) s ∧ s.published = [[1], [2]] ∧
    ∀ t, (system "t").LeadsUnder (Undisturbed 0 (s.published.length + 100)) s t →
      ∃ n u later, runEvents step t (List.replicate n (.call 0 true)) = some u ∧
        u.calls 0 = .setAttachment returningRequest ∧
        u.enqueued 0 = backlog s returningRequest ++ later.map .output ∧
        s.published ++ later <+: u.published := by
  have hrun : ∃ made s, runEvents step (initial "t")
      [.publish .stdout [1], .publish .stderr [2], .attach 0 returningRequest, .call 0 true,
        .call 0 true] = some made ∧ made.calls 0 = .stopTimer returningRequest ∧
      made.closing = .idle ∧ step made (.call 0 true) = some s ∧ s.published = [[1], [2]] ∧
      s.publishable 100 = 100 :=
    ⟨_, _, rfl, rfl, rfl, rfl, rfl, rfl⟩
  obtain ⟨made, s, hmade, hphase, hopen, hnext, hpublished, hmore⟩ := hrun
  have hreach : (system "t").Reachable made := reachable_of_runEvents rfl hmade
  refine ⟨made, s, hreach, hphase, hopen, hnext, hpublished, ?_⟩
  refine (attach_replays_iff "t" hreach hphase hopen hnext 100).mpr ?_
  rw [length_snapshot (hreach.next hnext), hpublished, hmore]
  decide

/-- A session without calls may have published any number of chunks. -/
theorem exists_published (n : ℕ) : ∃ s : State, (system "t").Reachable s ∧
    s.published.length = n ∧ s.attachMu = none ∧ s.attachment = none ∧ s.closed = false ∧
    s.closing = .idle ∧ s.calls 0 = .unused ∧ s.streams .stdout = .reading := by
  induction n with
  | zero => exact ⟨initial "t", .init rfl, rfl, rfl, rfl, rfl, rfl, rfl, rfl⟩
  | succ n ih =>
    obtain ⟨s, hreach, hlength, hmu, hattachment, hclosed, hclosing, hcalls, hstream⟩ := ih
    have hstep : step s (.publish .stdout []) = some ({ s with
        history := s.history.publish []
        published := s.published ++ [[]] }.setStream .stdout .reading) := by
      simp [step, hstream, publishBinary, hclosed, hattachment]
    refine ⟨_, hreach.next hstep, ?_, hmu, hattachment, hclosed, hclosing, hcalls, ?_⟩
    · simp [State.setStream, hlength]
    · simp [State.setStream]

/-- A reattach to a session with 128 retained frames fails with a full buffer if the
writer of the attachment does not run meanwhile, although nothing is published. -/
theorem long_history_fills_buffer : ∃ made s t : State,
    (system "t").Reachable made ∧ made.calls 0 = .stopTimer returningRequest ∧
    made.closing = .idle ∧ (system "t").next made (.call 0 true) s ∧
    (s.history.snapshotFramesAfter 0).1.length = 128 ∧
    (system "t").LeadsUnder (Undisturbed 0 s.published.length) s t ∧
    t.calls 0 = .unlockFailed .bufferFull := by
  obtain ⟨s, hreach, hlength, hmu, _, hclosed, hclosing, hcalls, _⟩ := exists_published 128
  have hattach : step s (.attach 0 returningRequest) =
      some (s.goto 0 (.lockAttach returningRequest)) := by
    simp [step, hcalls]
  have hlock : step (s.goto 0 (.lockAttach returningRequest)) (.call 0 true) =
      some ({ s.goto 0 (.lockAttach returningRequest) with attachMu := some 0 }.goto 0
        (.checkClosed returningRequest)) := by
    simp [step, callStep, State.goto, hmu]
  have hcheck : ∀ u : State, u.calls 0 = .checkClosed returningRequest → u.closed = false →
      step u (.call 0 true) = some (u.goto 0 (.stopTimer returningRequest)) := by
    intro u hu hopen
    simp [step, callStep, hu, hopen]
  obtain ⟨made, hmade, hphase, hopen, hpublished⟩ : ∃ made : State, (system "t").Reachable made ∧
      made.calls 0 = .stopTimer returningRequest ∧ made.closing = .idle ∧
      made.published = s.published :=
    ⟨_, ((hreach.next hattach).next hlock).next (hcheck _ (State.goto_self _ _ _) hclosed),
      State.goto_self _ _ _, hclosing, rfl⟩
  obtain ⟨first, hnext, hsame⟩ : ∃ first, step made (.call 0 true) = some first ∧
      first.published = made.published := by
    simp only [step, callStep, hphase, Option.some.injEq, exists_eq_left']
    rfl
  have hfirst := hmade.next hnext
  have hretained : (first.history.snapshotFramesAfter 0).1.length = 128 := by
    rw [length_snapshot hfirst, hsame, hpublished, hlength]
    rfl
  obtain ⟨t, hrun, hfailed⟩ := overflow_of_made (k := 0) (made_of_step hphase hopen hnext) hfirst
    (by rw [hretained]; exact Nat.le_add_right _ _)
  exact ⟨made, first, t, hmade, hphase, hopen, hnext, hretained, hrun, hfailed⟩

end MiniControl.Terminal
