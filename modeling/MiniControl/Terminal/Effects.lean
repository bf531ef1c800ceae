import MiniControl.Terminal.Session

/-!
# What one step of a session does

`Effect` lists the outcomes of a step. The moves of an attach call that change
nothing but its position are listed apart, and so are the messages that it sends.
-/

namespace MiniControl.Terminal

/-- The moves of an attach call that change only its position. -/
inductive Phase.Moves (s : State) : Phase → Phase → Prop
  | attach (request : Request) : Moves s .unused (.lockAttach request)
  | refuse (request : Request) : s.closed = true →
      Moves s (.checkClosed request) (.unlockFailed .sessionClosed)
  | admitted (request : Request) : s.closed = false →
      Moves s (.checkClosed request) (.stopTimer request)
  | found (request : Request) {current : ℕ} : s.attachment = some current →
      Moves s (.readCurrent request) (.closeCurrent request current)
  | free (request : Request) : s.attachment = none →
      Moves s (.readCurrent request) (.sendReady request)
  | caughtUp (request : Request) (replayedSeq : ℕ) :
      (s.history.snapshotFramesAfter replayedSeq).1 = [] →
      Moves s (.snapshot request replayedSeq) (.setAttachment request)
  | snapshot (request : Request) (replayedSeq : ℕ) {frames : List Frame} {latestSeq : ℕ} :
      s.history.snapshotFramesAfter replayedSeq = (frames, latestSeq) → frames ≠ [] →
      Moves s (.snapshot request replayedSeq) (.replay request frames latestSeq)
  | replayed (request : Request) (latestSeq : ℕ) :
      Moves s (.replay request [] latestSeq) (.snapshot request latestSeq)
  | resized : Moves s .windowChange .readInput
  | resizeFailed : Moves s .windowChange (.clearAttachment (some .windowChange))
  | inputEnded (result : Option Failure) : Moves s .readInput (.clearAttachment result)

/-- The messages that an attach call sends, and where it goes from there. -/
inductive Phase.Sends (sessionID : String) : Phase → Outbound → Phase → Prop
  | ready (request : Request) : Sends sessionID (.sendReady request)
      (.ready sessionID request.recovered) (.snapshot request 0)
  | frame (request : Request) (frame : Frame) (frames : List Frame) (latestSeq : ℕ) :
      Sends sessionID (.replay request (frame :: frames) latestSeq) (.output frame.payload)
        (.replay request frames latestSeq)

/-- The last steps of an attach call, after which its attachment is closed. -/
inductive Phase.Ends : Phase → Option Failure → Prop
  | ended (result : Option Failure) : Ends (.closeAttachment result) result
  | failed (failure : Failure) : Ends (.closeFailed failure) (some failure)

/-- What one step of a session does. -/
inductive Effect (s : State) : Event → State → Prop
  | move {e : Event} {c : ℕ} {p q : Phase} : s.calls c = p → p.Moves s q →
      Effect s e (s.goto c q)
  | lock {c : ℕ} {choice : Bool} {request : Request} : s.calls c = .lockAttach request →
      s.attachMu = none →
      Effect s (.call c choice) ({ s with attachMu := some c }.goto c (.checkClosed request))
  | stopTimer {c : ℕ} {choice : Bool} {request : Request} : s.calls c = .stopTimer request →
      Effect s (.call c choice) ((s.stopIdleTimer.put c .new).goto c (.readCurrent request))
  | closeCurrent {c current : ℕ} {choice : Bool} {request : Request} :
      s.calls c = .closeCurrent request current →
      Effect s (.call c choice)
        ((s.closeAttachment current).goto c (.removeCurrent request current))
  | removeCurrent {c current : ℕ} {choice : Bool} {request : Request} :
      s.calls c = .removeCurrent request current →
      Effect s (.call c choice) ((s.removeAttachment current).goto c (.sendReady request))
  | sent {c : ℕ} {choice : Bool} {p q : Phase} {message : Outbound} {t : State} :
      s.calls c = p → p.Sends s.id message q → s.send c message choice = .ok t →
      Effect s (.call c choice) (t.goto c q)
  | sendFailed {c : ℕ} {choice : Bool} {p q : Phase} {message : Outbound} {failure : Failure} :
      s.calls c = p → p.Sends s.id message q → s.send c message choice = .error failure →
      Effect s (.call c choice) (s.goto c (.unlockFailed failure))
  | setAttachment {c : ℕ} {choice : Bool} {request : Request} :
      s.calls c = .setAttachment request →
      Effect s (.call c choice) ({ s with attachment := some c }.goto c (.unlockAttach request))
  | unlock {c : ℕ} {choice : Bool} {request : Request} {q : Phase} :
      s.calls c = .unlockAttach request → q = .windowChange ∨ q = .readInput →
      Effect s (.call c choice) ({ s with attachMu := none }.goto c q)
  | clear {c : ℕ} {choice : Bool} {result : Option Failure} :
      s.calls c = .clearAttachment result →
      Effect s (.call c choice) ((s.clearAttachment c).goto c (.closeAttachment result))
  | finish {c : ℕ} {choice : Bool} {p : Phase} {result : Option Failure} :
      s.calls c = p → p.Ends result →
      Effect s (.call c choice) ((s.closeAttachment c).goto c (.returned result))
  | unlockFailed {c : ℕ} {choice : Bool} {failure : Failure} {q : Phase} :
      s.calls c = .unlockFailed failure →
      q = .returned (some failure) ∨ q = .closeFailed failure →
      Effect s (.call c choice) ({ s with attachMu := none }.goto c q)
  | publishClosed {o : Output} {payload : Payload} : s.streams o = .reading → s.closed = true →
      Effect s (.publish o payload) s
  | publishDetached {o : Output} {payload : Payload} : s.streams o = .reading →
      s.closed = false → s.attachment = none →
      Effect s (.publish o payload)
        ({ s with
          history := s.history.publish payload
          published := s.published ++ [payload] }.setStream o .reading)
  | publishAttached {o : Output} {payload : Payload} {target : ℕ} : s.streams o = .reading →
      s.closed = false → s.attachment = some target →
      Effect s (.publish o payload)
        ({ s with
          history := s.history.publish payload
          published := s.published ++ [payload] }.setStream o (.sending payload target))
  | streamSent {o : Output} {choice : Bool} {payload : Payload} {target : ℕ} {t : State} :
      s.streams o = .sending payload target → s.send target (.output payload) choice = .ok t →
      Effect s (.stream o choice) (t.setStream o .reading)
  | streamFailed {o : Output} {choice : Bool} {payload : Payload} {target : ℕ} :
      s.streams o = .sending payload target →
      Effect s (.stream o choice) (s.setStream o (.clearing target))
  | streamClear {o : Output} {choice : Bool} {target : ℕ} : s.streams o = .clearing target →
      Effect s (.stream o choice) ((s.clearAttachment target).setStream o (.closing target))
  | streamClose {o : Output} {choice : Bool} {target : ℕ} : s.streams o = .closing target →
      Effect s (.stream o choice) ((s.closeAttachment target).setStream o .reading)
  | streamEnds {o : Output} : s.streams o = .reading →
      Effect s (.streamEnds o) (s.setStream o .ended)
  | writer {e : Event} {a : ℕ} {old new : Attachment} : s.attachments a = some old →
      new.enqueued = old.enqueued → Effect s e (s.put a new)
  | expire : s.idleTimer = some .armed →
      Effect s .expire { s with idleTimer := some .fired, expiries := s.expiries + 1 }
  | beginClose {cause : Cause} : s.closing = .idle → cause ≠ .expired →
      Effect s (.beginClose cause) { s with closing := .cancelled cause }
  | beginExpiry : s.closing = .idle → 0 < s.expiries →
      Effect s (.beginClose .expired)
        { s with expiries := s.expiries - 1, closing := .cancelled .expired }
  | shut {choice : Bool} {cause : Cause} : s.closing = .cancelled cause →
      Effect s (.close choice) { s with
        closed := true
        attachment := none
        idleTimer := none
        closing := .notifying cause s.attachment }
  | notify {choice : Bool} {cause : Cause} {a : ℕ} {t : State} :
      s.closing = .notifying cause (some a) → s.send a (.error cause.message) choice = .ok t →
      Effect s (.close choice) { t with closing := .detaching (some a) }
  | quiet {choice : Bool} {cause : Cause} {target : Option ℕ} :
      s.closing = .notifying cause target →
      Effect s (.close choice) { s with closing := .detaching target }
  | detach {choice : Bool} {a : ℕ} : s.closing = .detaching (some a) →
      Effect s (.close choice) { s.closeAttachment a with closing := .finished }
  | finished {choice : Bool} : s.closing = .detaching none →
      Effect s (.close choice) { s with closing := .finished }

variable {s t : State} {choice : Bool} {a : ℕ} {e : Event} {message : Outbound}

/-- The steps of an attach call. -/
theorem callStep_effect {c : ℕ} (h : callStep s c choice = some t) :
    Effect s (.call c choice) t := by
  unfold callStep at h
  split at h
  next => cases h
  next request hphase =>
    split_ifs at h with hfree
    cases h
    exact .lock hphase hfree
  next request hphase =>
    cases h
    cases hclosed : s.closed with
    | true => exact .move hphase (.refuse request hclosed)
    | false => exact .move hphase (.admitted request hclosed)
  next request hphase =>
    cases h
    exact .stopTimer hphase
  next request hphase =>
    split at h
    next current hcurrent =>
      cases h
      exact .move hphase (.found request hcurrent)
    next hcurrent =>
      cases h
      exact .move hphase (.free request hcurrent)
  next request current hphase =>
    cases h
    exact .closeCurrent hphase
  next request current hphase =>
    cases h
    exact .removeCurrent hphase
  next request hphase =>
    split at h
    next u hsend =>
      cases h
      exact .sent hphase (.ready request) hsend
    next failure hsend =>
      cases h
      exact .sendFailed hphase (.ready request) hsend
  next request replayedSeq hphase =>
    split at h
    next hframes =>
      cases h
      exact .move hphase (.caughtUp request replayedSeq (congrArg Prod.fst hframes))
    next frames latestSeq hne hframes =>
      cases h
      exact .move hphase (.snapshot request replayedSeq hframes hne)
  next request latestSeq hphase =>
    cases h
    exact .move hphase (.replayed request latestSeq)
  next request frame frames latestSeq hphase =>
    split at h
    next u hsend =>
      cases h
      exact .sent hphase (.frame request frame frames latestSeq) hsend
    next failure hsend =>
      cases h
      exact .sendFailed hphase (.frame request frame frames latestSeq) hsend
  next request hphase =>
    cases h
    exact .setAttachment hphase
  next request hphase =>
    cases h
    refine .unlock hphase ?_
    split_ifs
    · exact .inl rfl
    · exact .inr rfl
  next hphase =>
    cases h
    cases choice with
    | true => exact .move hphase .resized
    | false => exact .move hphase .resizeFailed
  next hphase =>
    cases h
    exact .move hphase (.inputEnded _)
  next result hphase =>
    cases h
    exact .clear hphase
  next result hphase =>
    cases h
    exact .finish hphase (.ended result)
  next failure hphase =>
    cases h
    refine .unlockFailed hphase ?_
    split_ifs
    · exact .inl rfl
    · exact .inr rfl
  next failure hphase =>
    cases h
    exact .finish hphase (.failed failure)
  next => cases h

/-- The steps of a publication. -/
theorem streamStep_effect {o : Output} (h : streamStep s o choice = some t) :
    Effect s (.stream o choice) t := by
  unfold streamStep at h
  split at h
  next payload target hstream =>
    split at h
    next u hsend =>
      cases h
      exact .streamSent hstream hsend
    next =>
      cases h
      exact .streamFailed hstream
  next target hstream =>
    cases h
    exact .streamClear hstream
  next target hstream =>
    cases h
    exact .streamClose hstream
  next => cases h
  next => cases h

/-- The steps of the shutdown. -/
theorem closeStep_effect (h : closeStep s choice = some t) :
    Effect s (.close choice) t := by
  unfold closeStep at h
  split at h
  next cause hclosing =>
    cases h
    exact .shut hclosing
  next cause target hclosing =>
    cases h
    cases target with
    | none => exact .quiet hclosing
    | some a =>
      dsimp only
      split_ifs
      · exact .quiet hclosing
      · split
        next u hsend => exact .notify hclosing hsend
        next => exact .quiet hclosing
  next a hclosing =>
    cases h
    exact .detach hclosing
  next hclosing =>
    cases h
    exact .finished hclosing
  next => cases h
  next => cases h

/-- A step of a writer enqueues nothing. -/
theorem writerStep_effect {f : Attachment → Option Attachment}
    (hf : ∀ old new, f old = some new → new.enqueued = old.enqueued)
    (h : writerStep s a f = some t) : Effect s e t := by
  obtain ⟨new, hnew, rfl⟩ := Option.map_eq_some_iff.mp h
  obtain ⟨old, hold, hstep⟩ := Option.bind_eq_some_iff.mp hnew
  exact .writer hold (hf old new hstep)

/-- Every step has one of the listed effects. -/
theorem step_effect (h : step s e = some t) : Effect s e t := by
  cases e with
  | attach c request =>
    obtain ⟨hphase, hnext⟩ := Option.ite_none_right_eq_some.mp h
    cases hnext
    exact .move hphase (.attach request)
  | call c choice => exact callStep_effect h
  | publish o payload =>
    obtain ⟨hstream, hnext⟩ := Option.ite_none_right_eq_some.mp h
    cases hnext
    unfold publishBinary
    split_ifs with hclosed
    · exact .publishClosed hstream hclosed
    · have hopen : s.closed = false := by simpa using hclosed
      split
      next hattachment => exact .publishDetached hstream hopen hattachment
      next target hattachment => exact .publishAttached hstream hopen hattachment
  | stream o choice => exact streamStep_effect h
  | streamEnds o =>
    obtain ⟨hstream, hnext⟩ := Option.ite_none_right_eq_some.mp h
    cases hnext
    exact .streamEnds hstream
  | take a =>
    refine writerStep_effect (fun old new hnew => ?_) h
    split at hnew
    next message rest _ houtbound =>
      cases hnew
      simp [Attachment.enqueued, houtbound]
    next => cases hnew
  | wrote a ok =>
    refine writerStep_effect (fun old new hnew => ?_) h
    obtain ⟨_, hnew⟩ := Option.ite_none_right_eq_some.mp hnew
    cases hnew
    cases ok with
    | true => rfl
    | false => rfl
  | stopWriter a =>
    refine writerStep_effect (fun old new hnew => ?_) h
    obtain ⟨_, hnew⟩ := Option.ite_none_right_eq_some.mp hnew
    cases hnew
    rfl
  | expire =>
    obtain ⟨harmed, hnext⟩ := Option.ite_none_right_eq_some.mp h
    cases hnext
    exact .expire harmed
  | beginClose cause =>
    obtain ⟨hidle, hnext⟩ := Option.ite_none_right_eq_some.mp h
    cases cause with
    | expired =>
      obtain ⟨hpos, hnext⟩ := Option.ite_none_right_eq_some.mp hnext
      cases hnext
      exact .beginExpiry hidle hpos
    | exited =>
      cases hnext
      exact .beginClose hidle nofun
    | failed =>
      cases hnext
      exact .beginClose hidle nofun
  | close choice => exact closeStep_effect h

/-- A send that succeeds appends the message to the queue. -/
theorem Attachment.send_ok {a new : Attachment} (h : a.send message choice = .ok new) :
    new.enqueued = a.enqueued ++ [message] := by
  unfold Attachment.send at h
  split_ifs at h
  cases h
  simp [enqueued]

/-- A send that succeeds changes one attachment. -/
theorem State.send_ok (h : s.send a message choice = .ok t) :
    ∃ old new, s.attachments a = some old ∧
      new.enqueued = old.enqueued ++ [message] ∧ t = s.put a new := by
  unfold State.send at h
  split at h
  next => cases h
  next old hold =>
    cases hsend : old.send message choice with
    | error failure =>
      rw [hsend] at h
      cases h
    | ok new =>
      rw [hsend] at h
      cases h
      exact ⟨old, new, hold, Attachment.send_ok hsend, rfl⟩

/-- What the section of `clearAttachment` does. -/
theorem State.clearAttachment_eq (s : State) (a : ℕ) :
    (s.attachment = some a ∧ s.clearAttachment a = { s with
      attachment := none
      idleTimer := if s.closed then s.idleTimer else some .armed }) ∨
    (s.attachment ≠ some a ∧ s.clearAttachment a = s) := by
  unfold State.clearAttachment State.scheduleIdleTimeoutLocked
  by_cases h : s.attachment = some a
  · rw [if_pos h]
    refine .inl ⟨h, ?_⟩
    cases s.closed with
    | true => simp
    | false => simp
  · exact .inr ⟨h, if_neg h⟩

/-- What `removeAttachment` does. -/
theorem State.removeAttachment_eq (s : State) (a : ℕ) :
    (s.attachment = some a ∧ s.removeAttachment a = { s with attachment := none }) ∨
    (s.attachment ≠ some a ∧ s.removeAttachment a = s) := by
  unfold State.removeAttachment
  by_cases h : s.attachment = some a
  · exact .inl ⟨h, if_pos h⟩
  · exact .inr ⟨h, if_neg h⟩

/-- The sections that detach attach nothing. -/
theorem State.attachment_of_clearAttachment {a b : ℕ}
    (h : (s.clearAttachment a).attachment = some b) : s.attachment = some b := by
  rcases s.clearAttachment_eq a with ⟨_, heq⟩ | ⟨_, heq⟩
  · rw [heq] at h
    cases h
  · rwa [heq] at h

/-- The fields that `clearAttachment` leaves. -/
theorem State.clearAttachment_frame (s : State) (a : ℕ) :
    (s.clearAttachment a).calls = s.calls ∧ (s.clearAttachment a).streams = s.streams ∧
      (s.clearAttachment a).closing = s.closing ∧
      (s.clearAttachment a).attachments = s.attachments ∧
      (s.clearAttachment a).published = s.published ∧
      (s.clearAttachment a).history = s.history := by
  rcases s.clearAttachment_eq a with ⟨_, heq⟩ | ⟨_, heq⟩
  · simp [heq]
  · simp [heq]

/-- The fields that `removeAttachment` leaves. -/
theorem State.removeAttachment_frame (s : State) (a : ℕ) :
    (s.removeAttachment a).calls = s.calls ∧ (s.removeAttachment a).streams = s.streams ∧
      (s.removeAttachment a).closing = s.closing ∧
      (s.removeAttachment a).attachments = s.attachments ∧
      (s.removeAttachment a).published = s.published ∧
      (s.removeAttachment a).history = s.history := by
  rcases s.removeAttachment_eq a with ⟨_, heq⟩ | ⟨_, heq⟩
  · simp [heq]
  · simp [heq]

/-- Detaching closes nothing. -/
theorem State.clearAttachment_closed (s : State) (a : ℕ) :
    (s.clearAttachment a).closed = s.closed := by
  rcases s.clearAttachment_eq a with ⟨_, heq⟩ | ⟨_, heq⟩
  · rw [heq]
  · rw [heq]

/-- Removing closes nothing. -/
theorem State.removeAttachment_closed (s : State) (a : ℕ) :
    (s.removeAttachment a).closed = s.closed := by
  rcases s.removeAttachment_eq a with ⟨_, heq⟩ | ⟨_, heq⟩
  · rw [heq]
  · rw [heq]

end MiniControl.Terminal
