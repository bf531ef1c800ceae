import MiniControl.Terminal.Effects

/-!
# The replay of the history

An attach call replays the history in rounds, and nobody else enqueues to its
attachment before it is installed. What it has enqueued is therefore what was
kept at its first round, followed by what was published up to its last round, as
long as no more chunks are published meanwhile than the history keeps.
-/

namespace MiniControl.Terminal

open Transition

/-- The chunk of an output message. -/
def Outbound.payload? : Outbound → Option Payload
  | .output payload => some payload
  | _ => none

namespace State

/-- The chunks that were enqueued to an attachment. -/
def outputs (s : State) (a : ℕ) : List Payload :=
  match s.attachments a with
  | none => []
  | some attachment => attachment.enqueued.filterMap Outbound.payload?

variable (s : State) {a b : ℕ} {t : State} {message : Outbound} {choice : Bool}

/-- The chunks of an attachment that was put into the heap. -/
theorem outputs_put_self (a : ℕ) (new : Attachment) :
    (s.put a new).outputs a = new.enqueued.filterMap Outbound.payload? := by
  simp [outputs, put]

/-- The chunks of the other attachments. -/
theorem outputs_put_of_ne (h : b ≠ a) (new : Attachment) :
    (s.put a new).outputs b = s.outputs b := by
  simp [outputs, put, Function.update_of_ne h]

/-- An attachment that enqueues nothing keeps its chunks. -/
theorem outputs_put {old new : Attachment} (hold : s.attachments a = some old)
    (henqueued : new.enqueued = old.enqueued) (b : ℕ) : (s.put a new).outputs b = s.outputs b := by
  by_cases h : b = a
  · rw [h, outputs_put_self, henqueued, outputs, hold]
  · exact s.outputs_put_of_ne h new

/-- Closing an attachment keeps its chunks. -/
theorem outputs_closeAttachment (a b : ℕ) : (s.closeAttachment a).outputs b = s.outputs b := by
  by_cases h : b = a
  · rw [h]
    cases hold : s.attachments a with
    | none => simp [outputs, closeAttachment, hold]
    | some old => simp [outputs, closeAttachment, hold, Attachment.close, Attachment.enqueued]
  · simp [outputs, closeAttachment, Function.update_of_ne h]

variable {s}

/-- A message that was sent adds its chunk to its attachment. -/
theorem outputs_send (h : s.send a message choice = .ok t) :
    t.outputs a = s.outputs a ++ message.payload?.toList := by
  obtain ⟨old, new, hold, henqueued, rfl⟩ := send_ok h
  rw [outputs_put_self, henqueued, List.filterMap_append, outputs, hold]
  cases hpayload : message.payload? with
  | none => simp [hpayload]
  | some payload => simp [hpayload]

/-- A message that was sent adds nothing to the other attachments. -/
theorem outputs_send_of_ne (h : s.send a message choice = .ok t) (hne : b ≠ a) :
    t.outputs b = s.outputs b := by
  obtain ⟨old, new, _, _, rfl⟩ := send_ok h
  exact s.outputs_put_of_ne hne new

end State

/-- The attach call has installed its attachment, or it has returned. -/
def Phase.Installed : Phase → Prop
  | .unlockAttach _ | .windowChange | .readInput | .clearAttachment _ | .closeAttachment _
  | .returned _ => True
  | _ => False

/-- The attachment of the call exists, and no chunk was enqueued to it. -/
def Phase.Fresh : Phase → Prop
  | .readCurrent _ | .closeCurrent _ _ | .removeCurrent _ _ | .sendReady _ | .snapshot _ 0 => True
  | _ => False

/-- The attachment that a publication works on. -/
def Stream.target : Stream → Option ℕ
  | .sending _ target | .clearing target | .closing target => some target
  | .reading | .ended => none

/-- The attachment that the shutdown works on. -/
def Closing.target : Closing → Option ℕ
  | .notifying _ target | .detaching target => target
  | .idle | .cancelled _ | .finished => none

/-- Only attachments that were installed are in use by others than their call. -/
structure Targets (s : State) : Prop where
  attachment : ∀ a, s.attachment = some a → (s.calls a).Installed
  streams : ∀ o a, (s.streams o).target = some a → (s.calls a).Installed
  closing : ∀ a, s.closing.target = some a → (s.calls a).Installed

namespace Targets

variable {s t : State}

/-- A call moves and stays installed. -/
theorem moved (h : Targets s) {c : ℕ} {p q : Phase} (hp : s.calls c = p)
    (hcalls : t.calls = Function.update s.calls c q)
    (hattachment : ∀ a, t.attachment = some a → s.attachment = some a)
    (hstreams : t.streams = s.streams) (hclosing : t.closing = s.closing)
    (hq : p.Installed → q.Installed) : Targets t := by
  have hkeep : ∀ a, (s.calls a).Installed → (t.calls a).Installed := by
    intro a ha
    rw [hcalls]
    by_cases hac : a = c
    · subst hac
      rw [Function.update_self]
      exact hq (hp ▸ ha)
    · rwa [Function.update_of_ne hac]
  refine ⟨fun a ha => hkeep a (h.attachment a (hattachment a ha)), ?_, ?_⟩
  · rw [hstreams]
    exact fun o a ha => hkeep a (h.streams o a ha)
  · rw [hclosing]
    exact fun a ha => hkeep a (h.closing a ha)

/-- A publication moves and works on an attachment that was installed. -/
theorem streamed (h : Targets s) {o : Output} {stream : Stream}
    (hstreams : t.streams = Function.update s.streams o stream)
    (hattachment : ∀ a, t.attachment = some a → s.attachment = some a)
    (hcalls : t.calls = s.calls) (hclosing : t.closing = s.closing)
    (htarget : ∀ a, stream.target = some a → (s.calls a).Installed) : Targets t := by
  refine ⟨?_, fun o' a ha => ?_, ?_⟩
  · rw [hcalls]
    exact fun a ha => h.attachment a (hattachment a ha)
  · rw [hcalls]
    rw [hstreams] at ha
    by_cases ho : o' = o
    · subst ho
      rw [Function.update_self] at ha
      exact htarget a ha
    · rw [Function.update_of_ne ho] at ha
      exact h.streams o' a ha
  · rw [hcalls, hclosing]
    exact h.closing

/-- Every step keeps the targets. -/
theorem step {e : Event} (h : Targets s) (heffect : Effect s e t) : Targets t := by
  cases heffect with
  | move hphase hmoves =>
    refine h.moved hphase rfl (fun _ => id) rfl rfl fun hp => ?_
    cases hmoves <;> trivial
  | lock hphase _ => exact h.moved hphase rfl (fun _ => id) rfl rfl False.elim
  | stopTimer hphase => exact h.moved hphase rfl (fun _ => id) rfl rfl False.elim
  | closeCurrent hphase => exact h.moved hphase rfl (fun _ => id) rfl rfl False.elim
  | @removeCurrent c current _ _ hphase =>
    rcases s.removeAttachment_eq current with ⟨_, heq⟩ | ⟨_, heq⟩
    · rw [heq]
      exact h.moved hphase rfl nofun rfl rfl False.elim
    · rw [heq]
      exact h.moved hphase rfl (fun _ => id) rfl rfl False.elim
  | sent hphase hsends hsend =>
    obtain ⟨_, _, _, _, rfl⟩ := State.send_ok hsend
    refine h.moved hphase rfl (fun _ => id) rfl rfl fun hp => ?_
    cases hsends <;> exact hp.elim
  | sendFailed hphase hsends _ =>
    refine h.moved hphase rfl (fun _ => id) rfl rfl fun hp => ?_
    cases hsends <;> exact hp.elim
  | @setAttachment c _ request hphase =>
    have hgoto : Targets (s.goto c (.unlockAttach request)) :=
      h.moved hphase rfl (fun _ => id) rfl rfl False.elim
    refine ⟨fun a ha => ?_, hgoto.streams, hgoto.closing⟩
    cases ha
    simp [State.goto, Phase.Installed]
  | unlock hphase hq =>
    refine h.moved hphase rfl (fun _ => id) rfl rfl fun _ => ?_
    rcases hq with rfl | rfl <;> trivial
  | @clear c _ _ hphase =>
    obtain ⟨hcalls, hstreams, hclosing, _⟩ := s.clearAttachment_frame c
    exact h.moved hphase (congrArg (Function.update · c _) hcalls)
      (fun _ => State.attachment_of_clearAttachment) hstreams hclosing fun _ => trivial
  | finish hphase _ => exact h.moved hphase rfl (fun _ => id) rfl rfl fun _ => trivial
  | unlockFailed hphase _ => exact h.moved hphase rfl (fun _ => id) rfl rfl False.elim
  | publishClosed _ _ => exact h
  | publishDetached _ _ _ => exact h.streamed rfl (fun _ => id) rfl rfl nofun
  | publishAttached _ _ hattachment =>
    refine h.streamed rfl (fun _ => id) rfl rfl fun a ha => ?_
    cases ha
    exact h.attachment _ hattachment
  | streamSent _ hsend =>
    obtain ⟨_, _, _, _, rfl⟩ := State.send_ok hsend
    exact h.streamed rfl (fun _ => id) rfl rfl nofun
  | @streamFailed o _ _ target hstream =>
    refine h.streamed rfl (fun _ => id) rfl rfl fun a ha => h.streams o a ?_
    rw [hstream]
    exact ha
  | @streamClear o _ target hstream =>
    obtain ⟨hcalls, hstreams, hclosing, _⟩ := s.clearAttachment_frame target
    refine h.streamed (congrArg (Function.update · o _) hstreams)
      (fun _ => State.attachment_of_clearAttachment) hcalls hclosing fun a ha => h.streams o a ?_
    rw [hstream]
    exact ha
  | streamClose _ => exact h.streamed rfl (fun _ => id) rfl rfl nofun
  | streamEnds _ => exact h.streamed rfl (fun _ => id) rfl rfl nofun
  | writer _ _ => exact ⟨h.attachment, h.streams, h.closing⟩
  | expire _ => exact ⟨h.attachment, h.streams, h.closing⟩
  | beginClose _ _ => exact ⟨h.attachment, h.streams, nofun⟩
  | beginExpiry _ _ => exact ⟨h.attachment, h.streams, nofun⟩
  | shut _ => exact ⟨nofun, h.streams, h.attachment⟩
  | notify hclosing hsend =>
    obtain ⟨_, _, _, _, rfl⟩ := State.send_ok hsend
    refine ⟨h.attachment, h.streams, fun a ha => h.closing a ?_⟩
    rw [hclosing]
    exact ha
  | quiet hclosing =>
    refine ⟨h.attachment, h.streams, fun a ha => h.closing a ?_⟩
    rw [hclosing]
    exact ha
  | detach _ => exact ⟨h.attachment, h.streams, nofun⟩
  | finished _ => exact ⟨h.attachment, h.streams, nofun⟩

end Targets

/-- The attach call replays no more: it has installed its attachment or failed. -/
def Phase.Left : Phase → Prop
  | .unlockFailed _ | .closeFailed _ => True
  | p => p.Installed

variable {p : Phase} {s t : State} {e : Event} {c replayedSeq : ℕ} {id : String}
  {base : List Payload}

/-- A call that has not replayed anything has not left. -/
theorem Phase.Fresh.not_left (h : p.Fresh) : ¬p.Left := by
  cases p <;> first | exact h.elim | exact id

/-- An installed call has left. -/
theorem Phase.Installed.left (h : p.Installed) : p.Left := by
  cases p <;> first | exact h.elim | trivial

/-- A step of a call, and what it enqueues to the attachment of the call. -/
inductive Own (c : ℕ) (s t : State) : Prop
  | move : (s.calls c).Moves s (t.calls c) → t.outputs c = s.outputs c → Own c s t
  | enter {request : Request} : s.calls c = .lockAttach request →
      t.calls c = .checkClosed request → Own c s t
  | create {request : Request} : s.calls c = .stopTimer request →
      t.calls c = .readCurrent request → t.outputs c = [] → Own c s t
  | closeCurrent {request : Request} {current : ℕ} : s.calls c = .closeCurrent request current →
      t.calls c = .removeCurrent request current → t.outputs c = s.outputs c → Own c s t
  | removeCurrent {request : Request} {current : ℕ} : s.calls c = .removeCurrent request current →
      t.calls c = .sendReady request → t.outputs c = s.outputs c → Own c s t
  | send {message : Outbound} : (s.calls c).Sends s.id message (t.calls c) →
      t.outputs c = s.outputs c ++ message.payload?.toList → Own c s t
  | leave : (t.calls c).Left → Own c s t

/-- A step leaves a call where it is and enqueues nothing to an attachment that
is not installed, or it is a step of that call. -/
theorem Effect.at_call (h : Effect s e t) (htargets : Targets s) (c : ℕ) :
    (t.calls c = s.calls c ∧ (¬(s.calls c).Installed → t.outputs c = s.outputs c)) ∨
      (t.published = s.published ∧ Own c s t) := by
  have hother : ∀ {a}, (s.calls a).Installed → ¬(s.calls c).Installed → c ≠ a := by
    rintro a ha hc rfl
    exact hc ha
  -- a call that moves is this one or another one
  have hcall : ∀ {u : State} {d : ℕ} {q : Phase}, u.calls = s.calls →
      u.published = s.published → (c ≠ d → u.outputs c = s.outputs c) →
      (c = d → Own c s (u.goto d q)) →
      ((u.goto d q).calls c = s.calls c ∧
        (¬(s.calls c).Installed → (u.goto d q).outputs c = s.outputs c)) ∨
        ((u.goto d q).published = s.published ∧ Own c s (u.goto d q)) := by
    intro u d q hcalls hpublished houtputs hown
    by_cases hcd : c = d
    · exact .inr ⟨hpublished, hown hcd⟩
    · refine .inl ⟨?_, fun _ => houtputs hcd⟩
      rw [u.goto_of_ne hcd, hcalls]
  -- a call that moves on after the replay
  have hleave : ∀ {u : State} {d : ℕ} {q : Phase}, u.calls = s.calls →
      u.published = s.published → u.outputs c = s.outputs c → q.Left →
      ((u.goto d q).calls c = s.calls c ∧
        (¬(s.calls c).Installed → (u.goto d q).outputs c = s.outputs c)) ∨
        ((u.goto d q).published = s.published ∧ Own c s (u.goto d q)) := by
    intro u d q hcalls hpublished houtputs hq
    refine hcall hcalls hpublished (fun _ => houtputs) ?_
    rintro rfl
    refine .leave ?_
    rwa [State.goto_self]
  cases h with
  | @move _ d p q hphase hmoves =>
    refine hcall rfl rfl (fun _ => rfl) ?_
    rintro rfl
    refine .move ?_ rfl
    rwa [hphase, State.goto_self]
  | lock hphase _ =>
    refine hcall rfl rfl (fun _ => rfl) ?_
    rintro rfl
    exact .enter hphase (State.goto_self _ _ _)
  | stopTimer hphase =>
    refine hcall rfl rfl (fun hne => State.outputs_put_of_ne _ hne _) ?_
    rintro rfl
    exact .create hphase (State.goto_self _ _ _) (State.outputs_put_self _ _ _)
  | @closeCurrent d current _ _ hphase =>
    refine hcall rfl rfl (fun _ => s.outputs_closeAttachment _ _) ?_
    rintro rfl
    exact .closeCurrent hphase (State.goto_self _ _ _) (s.outputs_closeAttachment _ _)
  | @removeCurrent d current _ _ hphase =>
    obtain ⟨hcalls, _, _, hheap, hpublished, _⟩ := s.removeAttachment_frame current
    have houtputs : (s.removeAttachment current).outputs c = s.outputs c := by
      rw [State.outputs, hheap, State.outputs]
    refine hcall hcalls hpublished (fun _ => houtputs) ?_
    rintro rfl
    exact .removeCurrent hphase (State.goto_self _ _ _) houtputs
  | @sent d _ p q message u hphase hsends hsend =>
    obtain ⟨_, _, _, _, hu⟩ := State.send_ok hsend
    refine hcall (by rw [hu]; rfl) (by rw [hu]; rfl)
      (fun hne => State.outputs_send_of_ne hsend hne) ?_
    rintro rfl
    have houtputs := State.outputs_send hsend
    refine .send ?_ houtputs
    rwa [hphase, State.goto_self]
  | sendFailed _ _ _ => exact hleave rfl rfl rfl trivial
  | setAttachment _ => exact hleave rfl rfl rfl trivial
  | unlock _ hq =>
    refine hleave rfl rfl rfl ?_
    rcases hq with rfl | rfl <;> trivial
  | @clear d _ _ _ =>
    obtain ⟨hcalls, _, _, hheap, hpublished, _⟩ := s.clearAttachment_frame d
    refine hleave hcalls hpublished ?_ trivial
    rw [State.outputs, hheap, State.outputs]
  | finish _ _ => exact hleave rfl rfl (s.outputs_closeAttachment _ _) trivial
  | unlockFailed _ hq =>
    refine hleave rfl rfl rfl ?_
    rcases hq with rfl | rfl <;> trivial
  | publishClosed _ _ => exact .inl ⟨rfl, fun _ => rfl⟩
  | publishDetached _ _ _ => exact .inl ⟨rfl, fun _ => rfl⟩
  | publishAttached _ _ _ => exact .inl ⟨rfl, fun _ => rfl⟩
  | @streamSent o _ payload target u hstream hsend =>
    obtain ⟨_, _, _, _, hu⟩ := State.send_ok hsend
    have htarget := htargets.streams o target (by rw [hstream]; rfl)
    refine .inl ⟨by rw [hu]; rfl, fun hc => ?_⟩
    have houtputs := State.outputs_send_of_ne hsend (hother htarget hc)
    exact houtputs
  | streamFailed _ => exact .inl ⟨rfl, fun _ => rfl⟩
  | @streamClear o _ target _ =>
    obtain ⟨hcalls, _, _, hheap, _⟩ := s.clearAttachment_frame target
    refine .inl ⟨congrFun hcalls c, fun _ => ?_⟩
    exact congrArg (fun heap => State.outputs { s with attachments := heap } c) hheap
  | streamClose _ => exact .inl ⟨rfl, fun _ => s.outputs_closeAttachment _ _⟩
  | streamEnds _ => exact .inl ⟨rfl, fun _ => rfl⟩
  | writer hold henqueued => exact .inl ⟨rfl, fun _ => s.outputs_put hold henqueued c⟩
  | expire _ => exact .inl ⟨rfl, fun _ => rfl⟩
  | beginClose _ _ => exact .inl ⟨rfl, fun _ => rfl⟩
  | beginExpiry _ _ => exact .inl ⟨rfl, fun _ => rfl⟩
  | shut _ => exact .inl ⟨rfl, fun _ => rfl⟩
  | @notify _ cause a u hclosing hsend =>
    obtain ⟨_, _, _, _, hu⟩ := State.send_ok hsend
    have htarget := htargets.closing a (by rw [hclosing]; rfl)
    refine .inl ⟨by rw [hu]; rfl, fun hc => ?_⟩
    have houtputs := State.outputs_send_of_ne hsend (hother htarget hc)
    exact houtputs
  | quiet _ => exact .inl ⟨rfl, fun _ => rfl⟩
  | detach _ => exact .inl ⟨rfl, fun _ => s.outputs_closeAttachment _ _⟩
  | finished _ => exact .inl ⟨rfl, fun _ => rfl⟩

/-- Only a publication changes the history, and it moves no call. -/
theorem Effect.published (h : Effect s e t) :
    (t.published = s.published ∧ t.history = s.history) ∨
      ∃ o payload, e = .publish o payload ∧ t.published = s.published ++ [payload] ∧
        t.history = s.history.publish payload ∧ t.calls = s.calls := by
  cases h with
  | removeCurrent => exact .inl (s.removeAttachment_frame _).2.2.2.2
  | clear => exact .inl (s.clearAttachment_frame _).2.2.2.2
  | streamClear => exact .inl (s.clearAttachment_frame _).2.2.2.2
  | sent _ _ hsend | streamSent _ hsend | notify _ hsend =>
    obtain ⟨_, _, _, _, rfl⟩ := State.send_ok hsend
    exact .inl ⟨rfl, rfl⟩
  | publishDetached => exact .inr ⟨_, _, rfl, rfl, rfl, rfl⟩
  | publishAttached => exact .inr ⟨_, _, rfl, rfl, rfl, rfl⟩
  | _ => exact .inl ⟨rfl, rfl⟩

/-- What is published stays published. -/
theorem Effect.published_prefix (h : Effect s e t) :
    s.published <+: t.published := by
  rcases h.published with ⟨heq, _⟩ | ⟨_, payload, _, heq, _⟩
  · rw [heq]
  · rw [heq]
    exact List.prefix_append _ _

/-- Before its first round a call has enqueued no chunk, and a round that finds
frames has a positive number. -/
structure Unreplayed (c : ℕ) (s : State) : Prop where
  fresh : (s.calls c).Fresh → s.outputs c = []
  latest : ∀ request frames latestSeq, s.calls c = .replay request frames latestSeq → 0 < latestSeq

/-- What holds in every reachable state. -/
structure Sound (s : State) : Prop where
  targets : Targets s
  history : s.history.Records s.published
  unreplayed : ∀ c, Unreplayed c s

/-- A round that finds frames has a positive number. -/
theorem latestSeq_pos (h : s.history.Records s.published) {replayedSeq latestSeq : ℕ}
    {frames : List Frame} (hsnapshot : s.history.snapshotFramesAfter replayedSeq =
      (frames, latestSeq)) (hne : frames ≠ []) : 0 < latestSeq := by
  rw [h.snapshotFramesAfter] at hsnapshot
  cases hsnapshot
  refine Nat.pos_of_ne_zero fun hzero => hne ?_
  rw [List.length_eq_zero_iff.mp hzero]
  simp [framesFrom]

/-- Every step keeps what a call has not yet replayed. -/
theorem Unreplayed.step (h : Unreplayed c s) (htargets : Targets s)
    (hhistory : s.history.Records s.published) (heffect : Effect s e t) :
    Unreplayed c t := by
  rcases heffect.at_call htargets c with ⟨hcalls, houtputs⟩ | ⟨_, hown⟩
  · refine ⟨fun hfresh => ?_, fun request frames latestSeq hphase => ?_⟩
    · rw [hcalls] at hfresh
      rw [houtputs fun hinstalled => hfresh.not_left hinstalled.left]
      exact h.fresh hfresh
    · rw [hcalls] at hphase
      exact h.latest _ _ _ hphase
  · cases hown with
    | move hmoves houtputs =>
      obtain ⟨hfresh, hlatest⟩ := h
      refine ⟨fun hfresh' => ?_, fun request frames latestSeq hphase => ?_⟩
      · rw [houtputs]
        generalize s.calls c = p at hmoves hfresh hlatest
        generalize t.calls c = q at hmoves hfresh'
        cases hmoves with
        | found | free => exact hfresh trivial
        | replayed request latestSeq =>
          have hpos := hlatest _ _ _ rfl
          cases latestSeq with
          | zero => exact absurd hpos (lt_irrefl 0)
          | succ n => exact hfresh'.elim
        | _ => exact hfresh'.elim
      · rw [hphase] at hmoves
        generalize s.calls c = p at hmoves
        cases hmoves with
        | snapshot _ _ hsnapshot hne => exact latestSeq_pos hhistory hsnapshot hne
    | enter _ hphase =>
      refine ⟨fun hfresh => ?_, fun _ _ _ heq => ?_⟩
      · rw [hphase] at hfresh
        exact hfresh.elim
      · cases hphase.symm.trans heq
    | create _ hphase houtputs =>
      refine ⟨fun _ => houtputs, fun _ _ _ heq => ?_⟩
      cases hphase.symm.trans heq
    | closeCurrent hbefore hphase houtputs | removeCurrent hbefore hphase houtputs =>
      refine ⟨fun _ => houtputs.trans (h.fresh ?_), fun _ _ _ heq => ?_⟩
      · rw [hbefore]
        trivial
      · cases hphase.symm.trans heq
    | send hsends houtputs =>
      obtain ⟨hfresh, hlatest⟩ := h
      refine ⟨fun hfresh' => ?_, fun request frames latestSeq hphase => ?_⟩
      · rw [houtputs]
        generalize s.calls c = p at hsends hfresh
        generalize t.calls c = q at hsends hfresh'
        cases hsends with
        | ready => rw [hfresh trivial]; rfl
        | frame => exact hfresh'.elim
      · rw [hphase] at hsends
        generalize hp : s.calls c = p at hsends
        cases hsends with
        | frame => exact hlatest _ _ _ hp
    | leave hleft =>
      refine ⟨fun hfresh => absurd hleft hfresh.not_left, fun _ _ _ heq => ?_⟩
      rw [heq] at hleft
      exact hleft.elim

/-- What holds in every reachable state. -/
theorem sound_of_reachable (h : (system id).Reachable s) : Sound s := by
  refine System.ReachableUnder.invariant ?_ ?_ h
  · rintro s rfl
    exact ⟨⟨nofun, nofun, nofun⟩, .empty, fun c => ⟨fun _ => rfl, nofun⟩⟩
  · intro s e t _ _ hnext hsound
    have heffect := step_effect hnext
    refine ⟨hsound.targets.step heffect, ?_, fun c =>
      (hsound.unreplayed c).step hsound.targets hsound.history heffect⟩
    rcases heffect.published with ⟨hpublished, hhistory⟩ | ⟨_, payload, _, hpublished, hhistory, _⟩
    · rw [hpublished, hhistory]
      exact hsound.history
    · rw [hpublished, hhistory]
      exact hsound.history.publish payload

/-- The chunk that a step hands to `publishBinary`. -/
def Event.chunk? : Event → Option Payload
  | .publish _ payload => some payload
  | _ => none

/-- A closed session stays closed. -/
theorem Effect.closed (h : Effect s e t) (hclosed : s.closed = true) :
    t.closed = true := by
  cases h with
  | removeCurrent => exact (s.removeAttachment_closed _).trans hclosed
  | clear | streamClear => exact (s.clearAttachment_closed _).trans hclosed
  | sent _ _ hsend | streamSent _ hsend | notify _ hsend =>
    obtain ⟨_, _, _, _, rfl⟩ := State.send_ok hsend
    exact hclosed
  | shut => rfl
  | _ => exact hclosed

/-- A session that is open after a step was open before it, and has published the
chunk of the step. -/
theorem published_of_step (h : step s e = some t) (hopen : t.closed = false) :
    s.closed = false ∧ t.published = s.published ++ e.chunk?.toList := by
  have heffect := step_effect h
  have hbefore : s.closed = false := by
    by_contra hclosed
    have hafter := heffect.closed (Bool.not_eq_false _ ▸ hclosed)
    exact Bool.noConfusion (hopen.symm.trans hafter)
  refine ⟨hbefore, ?_⟩
  cases e with
  | publish o payload =>
    obtain ⟨_, hnext⟩ := Option.ite_none_right_eq_some.mp h
    rw [← Option.some.inj hnext, publishBinary, hbefore]
    rfl
  | _ =>
    rcases heffect.published with ⟨hsame, _⟩ | ⟨_, _, hpublish, _⟩
    · exact hsame.trans (List.append_nil _).symm
    · cases hpublish

/-- An open session has published all chunks of its run. -/
theorem published_of_runEvents {events : List Event} (h : runEvents step s events = some t)
    (hopen : t.closed = false) :
    s.closed = false ∧ t.published = s.published ++ events.filterMap Event.chunk? := by
  induction events generalizing s with
  | nil =>
    cases h
    exact ⟨hopen, (List.append_nil _).symm⟩
  | cons e events ih =>
    obtain ⟨u, hstep, hrest⟩ := Option.bind_eq_some_iff.mp h
    obtain ⟨hu, hpublished⟩ := ih hrest
    obtain ⟨hs, hfirst⟩ := published_of_step hstep hu
    refine ⟨hs, ?_⟩
    rw [hpublished, hfirst, List.append_assoc]
    cases hchunk : e.chunk? with
    | none => rw [List.filterMap_cons_none hchunk]; rfl
    | some payload => rw [List.filterMap_cons_some hchunk]; rfl

/-- The history of an open session is the list of the chunks of its run: a snapshot
returns, of the last 256 frames, those above the given number. Their numbers are
consecutive and end with the number of chunks, and each has its own chunk. -/
theorem snapshot_of_publications (id : String) {events : List Event} {s : State}
    (hrun : runEvents step (initial id) events = some s) (hopen : s.closed = false) (a : ℕ) :
    let chunks := events.filterMap Event.chunk?
    let n := chunks.length
    ∃ frames, s.history.snapshotFramesAfter a = (frames, n) ∧
      frames = ((framesFrom 0 chunks).drop (n - min n 256)).filter (a < ·.seq) ∧
      frames.map Frame.seq = List.range' (n - frames.length + 1) frames.length ∧
      ∀ frame ∈ frames, ∃ k, frame.seq = k + 1 ∧ chunks[k]? = some frame.payload := by
  intro chunks n
  have hreach : (system id).Reachable s := reachable_of_runEvents rfl hrun
  have hpublished : s.published = chunks := (published_of_runEvents hrun hopen).2
  have hrecords := (sound_of_reachable hreach).history
  rw [hpublished] at hrecords
  refine ⟨_, hrecords.snapshotFramesAfter a, ?_, ?_, fun frame hframe => ?_⟩
  · have hkept : max a (chunks.length - terminalHistoryFrames) = max a (n - min n 256) := by
      rw [terminalHistoryFrames]
      omega
    rw [filter_drop_framesFrom, hkept]
  · rw [drop_framesFrom, map_seq_framesFrom, length_framesFrom, List.length_drop]
    rcases Nat.le_total n (max a (n - terminalHistoryFrames)) with hnone | hsome
    · rw [Nat.sub_eq_zero_of_le hnone]
      rfl
    · rw [Nat.sub_sub_self hsome, Nat.zero_add]
  · obtain ⟨k, hseq, hpayload⟩ := payload_of_mem_framesFrom (List.mem_of_mem_drop hframe)
    exact ⟨k, by omega, hpayload⟩

/-- A client that has the first chunk gets the second one. -/
theorem snapshot_of_publications_two : ∃ s : State,
    runEvents step (initial "t") [.publish .stdout [1], .attach 0 ⟨80, 24, true⟩,
      .publish .stderr [2]] = some s ∧ s.closed = false ∧
    s.history.snapshotFramesAfter 1 = ([⟨2, [2]⟩], 2) := by
  have hrun : ∃ s : State, runEvents step (initial "t") [.publish .stdout [1],
      .attach 0 ⟨80, 24, true⟩, .publish .stderr [2]] = some s ∧ s.closed = false :=
    ⟨_, rfl, rfl⟩
  obtain ⟨s, hs, hopen⟩ := hrun
  obtain ⟨frames, hsnapshot, hframes, _⟩ := snapshot_of_publications "t" hs hopen 1
  refine ⟨s, hs, hopen, ?_⟩
  rw [hsnapshot, hframes]
  rfl

/-- The chunks that are kept of a history. -/
def kept (published : List Payload) : List Payload :=
  published.drop (published.length - terminalHistoryFrames)

/-- What a call has enqueued, depending on its position: `base` was published at
its first round, `published` is published now, and `outs` is enqueued. -/
def Phase.Replays (base published outs : List Payload) : Phase → Prop
  | .snapshot _ replayedSeq => base.length ≤ replayedSeq ∧ replayedSeq ≤ published.length ∧
      outs = kept base ++ (published.take replayedSeq).drop base.length
  | .replay _ frames latestSeq => base.length ≤ latestSeq ∧ latestSeq ≤ published.length ∧
      outs ++ frames.map Frame.payload = kept base ++ (published.take latestSeq).drop base.length
  | .setAttachment _ => outs = kept base ++ published.drop base.length
  | p => p.Left

/-- A call that has left replays nothing. -/
theorem Phase.Left.replays (h : p.Left) (base published outs : List Payload) :
    p.Replays base published outs := by
  cases p <;> first | exact h.elim | trivial

/-- No publication is under way. -/
def State.Silent (s : State) : Prop :=
  (s.streams .stdout).target = none ∧ (s.streams .stderr).target = none

instance (s : State) : Decidable s.Silent := instDecidableAnd

/-- No stream works on an attachment. -/
theorem State.Silent.target (h : s.Silent) (o : Output) :
    (s.streams o).target = none := by
  cases o with
  | stdout => exact h.1
  | stderr => exact h.2

/-- The call has found nothing new in its last round and not yet installed its
attachment. -/
def Phase.inGap : Phase → Bool
  | .setAttachment _ => true
  | _ => false

/-- Chunks are published one after another. -/
def OneByOne (s : State) : Event → Prop
  | .publish _ _ => s.Silent
  | _ => True

instance (s : State) (e : Event) : Decidable (OneByOne s e) := by
  cases e
  case publish => exact instDecidableAnd
  all_goals exact instDecidableTrue

/-- No chunk is published between the last round of the call and the installation
of its attachment. -/
def OutsideGap (c : ℕ) (s : State) : Event → Prop
  | .publish _ _ => (s.calls c).inGap = false
  | _ => True

instance (c : ℕ) (s : State) (e : Event) : Decidable (OutsideGap c s e) := by
  cases e
  case publish => exact instDecidableEqBool _ _
  all_goals exact instDecidableTrue

/-- The condition on a run under which nothing gets lost. -/
def Orderly (c : ℕ) (s : State) (e : Event) : Prop := OneByOne s e ∧ OutsideGap c s e

instance (c : ℕ) (s : State) (e : Event) : Decidable (Orderly c s e) := instDecidableAnd

/-- A further chunk does not concern the rounds before. -/
theorem Phase.Replays.publish {base published outs : List Payload}
    (h : p.Replays base published outs) (hgap : p.inGap = false) (payload : Payload) :
    p.Replays base (published ++ [payload]) outs := by
  cases p with
  | snapshot request replayedSeq =>
    obtain ⟨hbase, hlength, houts⟩ := h
    refine ⟨hbase, ?_, ?_⟩
    · rw [List.length_append]
      omega
    · rwa [List.take_append_of_le_length hlength]
  | replay request frames latestSeq =>
    obtain ⟨hbase, hlength, houts⟩ := h
    refine ⟨hbase, ?_, ?_⟩
    · rw [List.length_append]
      omega
    · rwa [List.take_append_of_le_length hlength]
  | setAttachment request => cases hgap
  | _ => exact h

/-- A round enqueues what was published since the round before. -/
theorem replays_snapshot {h : History} {base published outs : List Payload}
    (hrec : h.Records published) (hfew : published.length < base.length + terminalHistoryFrames)
    (hbase : base.length ≤ replayedSeq) (hlength : replayedSeq ≤ published.length)
    (houts : outs = kept base ++ (published.take replayedSeq).drop base.length) :
    outs ++ (h.snapshotFramesAfter replayedSeq).1.map Frame.payload =
      kept base ++ published.drop base.length := by
  have hmax : max replayedSeq (published.length - terminalHistoryFrames) = replayedSeq := by omega
  rw [hrec.payloads_snapshot, hmax, houts, List.append_assoc, ← List.drop_append_of_le_length,
    List.take_append_drop]
  rw [List.length_take]
  omega

/-- Every step keeps what the call has enqueued in line with what was published. -/
theorem Phase.Replays.step (h : (s.calls c).Replays base s.published (s.outputs c))
    (hsound : Sound s) (heffect : Effect s e t) (horderly : Orderly c s e)
    (hfew : t.published.length < base.length + terminalHistoryFrames) :
    (t.calls c).Replays base t.published (t.outputs c) := by
  rcases heffect.at_call hsound.targets c with ⟨hcalls, houtputs⟩ | ⟨hpublished, hown⟩
  · rw [hcalls]
    by_cases hleft : (s.calls c).Left
    · exact hleft.replays _ _ _
    · rw [houtputs fun hinstalled => hleft hinstalled.left]
      rcases heffect.published with ⟨heq, _⟩ | ⟨o, payload, rfl, heq, _, _⟩
      · rwa [heq]
      · rw [heq]
        exact h.publish horderly.2 payload
  · rw [hpublished] at hfew ⊢
    cases hown with
    | move hmoves houtputs =>
      rw [houtputs]
      generalize s.calls c = p at h hmoves
      generalize t.calls c = q at hmoves
      cases hmoves with
      | caughtUp request replayedSeq hempty =>
        obtain ⟨hbase, hlength, houts⟩ := h
        have hround := replays_snapshot hsound.history hfew hbase hlength houts
        rwa [hempty, List.map_nil, List.append_nil] at hround
      | @snapshot request replayedSeq frames latestSeq hsnapshot hne =>
        obtain ⟨hbase, hlength, houts⟩ := h
        have hround := replays_snapshot hsound.history hfew hbase hlength houts
        have hlatest : s.published.length = latestSeq := by
          rw [← hsound.history.latest_snapshot replayedSeq, hsnapshot]
        rw [hsnapshot] at hround
        refine ⟨(hbase.trans hlength).trans hlatest.le, hlatest.ge, ?_⟩
        rwa [← hlatest, List.take_length]
      | replayed request latestSeq =>
        obtain ⟨hbase, hlength, houts⟩ := h
        rw [List.map_nil, List.append_nil] at houts
        exact ⟨hbase, hlength, houts⟩
      | resized | resizeFailed | inputEnded => trivial
      | _ => exact h.elim
    | enter hphase _ | create hphase _ _ | closeCurrent hphase _ _ | removeCurrent hphase _ _ =>
      rw [hphase] at h
      exact h.elim
    | send hsends houtputs =>
      rw [houtputs]
      generalize s.calls c = p at h hsends
      generalize t.calls c = q at hsends
      cases hsends with
      | ready => exact h.elim
      | frame request frame frames latestSeq =>
        obtain ⟨hbase, hlength, houts⟩ := h
        refine ⟨hbase, hlength, ?_⟩
        rw [← houts, List.append_assoc]
        rfl
    | leave hleft => exact hleft.replays _ _ _

/-- The first round enqueues what is kept. -/
theorem replays_first {request : Request} {choice : Bool} (hsound : Sound s)
    (hphase : s.calls c = .snapshot request 0) (hnext : step s (.call c choice) = some t) :
    t.published = s.published ∧ (t.calls c).Replays s.published t.published (t.outputs c) := by
  have houts : s.outputs c = [] := (hsound.unreplayed c).fresh (by rw [hphase]; trivial)
  have hkept := hsound.history.payloads_snapshot 0
  rw [Nat.zero_max] at hkept
  simp only [step, callStep, hphase] at hnext
  split at hnext
  next hframes =>
    cases hnext
    rw [hframes] at hkept
    refine ⟨rfl, ?_⟩
    rw [State.goto_self]
    change s.outputs c = kept s.published ++ s.published.drop s.published.length
    rw [houts, List.drop_length, List.append_nil]
    exact hkept
  next frames latestSeq hne hframes =>
    cases hnext
    have hlatest : s.published.length = latestSeq := by
      rw [← hsound.history.latest_snapshot 0, hframes]
    have hreplay : s.outputs c ++ frames.map Frame.payload =
        kept s.published ++ (s.published.take latestSeq).drop s.published.length := by
      rw [hframes] at hkept
      rw [houts, List.nil_append, hkept, ← hlatest, List.take_length, List.drop_length,
        List.append_nil, kept]
    refine ⟨rfl, ?_⟩
    rw [State.goto_self]
    exact ⟨hlatest.le, hlatest.ge, hreplay⟩

/-- The rounds of a call, up to the installation of its attachment. -/
theorem replays_of_leads (hrun : (system id).LeadsUnder (Orderly c) s t)
    (hreach : (system id).Reachable s) (hgrown : base <+: s.published)
    (h : (s.calls c).Replays base s.published (s.outputs c)) :
    base <+: t.published ∧ (t.published.length < base.length + terminalHistoryFrames →
      (t.calls c).Replays base t.published (t.outputs c)) := by
  refine System.LeadsUnder.invariant (P := fun u => base <+: u.published ∧
    (u.published.length < base.length + terminalHistoryFrames →
      (u.calls c).Replays base u.published (u.outputs c))) ?_ hrun hreach ⟨hgrown, fun _ => h⟩
  rintro u e v hu horderly hnext ⟨hgrown, hreplays⟩
  have heffect := step_effect hnext
  refine ⟨hgrown.trans heffect.published_prefix, fun hfew => ?_⟩
  have hbefore := heffect.published_prefix.length_le.trans_lt hfew
  exact (hreplays hbefore).step (sound_of_reachable hu) heffect horderly hfew

end MiniControl.Terminal
