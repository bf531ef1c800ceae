import MiniControl.Terminal.Watch

/-!
# Sessions under the watch

Sessions simulate the watch over idle sessions, so that its two guarantees hold
for them under conditions on their steps: the timer never threatens an attached
session as long as no attachment is cleared and no timer has fired while a call
attaches, and no session leaks as long as no call fails while it attaches. The
attach call itself ensures neither.
-/

namespace MiniControl.Terminal

open Transition

/-- The steps of a session behind a step of the watch. -/
def Causes (s : State) (e : Event) : WatchEvent → Prop
  | .stop => ∃ c choice request, e = .call c choice ∧ s.calls c = .stopTimer request
  | .clear =>
    (∃ c choice result, e = .call c choice ∧ s.calls c = .clearAttachment result ∧
      s.attachment = some c) ∨
    ∃ o choice a, e = .stream o choice ∧ s.streams o = .clearing a ∧ s.attachment = some a
  | .fail => ∃ c choice message q failure, e = .call c choice ∧ (s.calls c).Sends s.id message q ∧
      s.send c message choice = .error failure
  | .other => True

/-- A call that moves, as the watch sees it. -/
theorem State.watch_goto (s : State) (c : ℕ) (q : Phase) :
    (s.goto c q).watch = { s.watch with stage := Function.update s.watch.stage c q.stage } := by
  unfold State.watch State.goto
  congr 1
  funext d
  by_cases hdc : d = c
  · subst hdc
    simp
  · simp [Function.update_of_ne hdc]

variable {q : Phase} {s : State} {e : Event} {a : WatchEvent}

/-- A call that moves within its stage, as the watch sees it. -/
theorem State.watch_goto_same (s : State) {c : ℕ} (h : (s.calls c).stage = q.stage) :
    (s.goto c q).watch = s.watch := by
  rw [State.watch_goto, ← h, show (s.calls c).stage = s.watch.stage c from rfl,
    Function.update_eq_self]

/-- A move keeps the stage of a call or advances it. -/
theorem Phase.Moves.stage {p q : Phase} (h : p.Moves s q) :
    p.stage = q.stage ∨ p.stage.Advances s.closed q.stage := by
  cases h with
  | attach => exact .inr .enter
  | refuse _ hclosed => exact .inr (.refuse hclosed)
  | _ => exact .inl rfl

/-- Every step of a session is a step of the watch. -/
theorem Effect.watch {s t : State} (h : Effect s e t) :
    ∃ a, Causes s e a ∧ WatchStep s.watch a t.watch := by
  -- a call moves within its stage
  have hsame : ∀ {u : State} {c : ℕ} {p q : Phase}, u.watch = s.watch → u.calls c = p →
      p.stage = q.stage → ∃ a, Causes s e a ∧ WatchStep s.watch a (u.goto c q).watch := by
    rintro u c p q hu rfl hstage
    rw [u.watch_goto_same hstage, hu]
    exact ⟨.other, trivial, .skip⟩
  -- a call advances to another stage
  have hadvance : ∀ {u : State} {c : ℕ} {p q : Phase}, u.watch = s.watch → s.calls c = p →
      p.stage.Advances s.closed q.stage →
      ∃ a, Causes s e a ∧ WatchStep s.watch a (u.goto c q).watch := by
    rintro u c p q hu rfl hstage
    rw [u.watch_goto, hu]
    exact ⟨.other, trivial, .advance rfl hstage⟩
  have hskip : ∀ {u : State}, u.watch = s.watch →
      ∃ a, Causes s e a ∧ WatchStep s.watch a u.watch := by
    intro u hu
    rw [hu]
    exact ⟨.other, trivial, .skip⟩
  cases h with
  | move hphase hmoves =>
    rcases hmoves.stage with hstage | hstage
    · exact hsame rfl hphase hstage
    · exact hadvance rfl hphase hstage
  | lock hphase _ => exact hsame rfl hphase rfl
  | @stopTimer c choice request hphase =>
    refine ⟨.stop, ⟨c, choice, request, rfl, hphase⟩, ?_⟩
    rw [State.watch_goto]
    exact .stop (congrArg Phase.stage hphase)
  | closeCurrent hphase => exact hsame rfl hphase rfl
  | @removeCurrent c current _ request hphase =>
    rcases s.removeAttachment_eq current with ⟨_, heq⟩ | ⟨_, heq⟩
    · rw [heq, State.watch_goto_same]
      · exact ⟨.other, trivial, .remove (congrArg Phase.stage hphase)⟩
      · exact (congrArg Phase.stage hphase : (s.calls c).stage = .attaching)
    · rw [heq]
      exact hsame rfl hphase rfl
  | sent hphase hsends hsend =>
    obtain ⟨_, _, _, _, rfl⟩ := State.send_ok hsend
    refine hsame rfl hphase ?_
    cases hsends <;> rfl
  | @sendFailed c choice p q message failure hphase hsends hsend =>
    refine ⟨.fail, ⟨c, choice, message, q, failure, rfl, hphase ▸ hsends, hsend⟩, ?_⟩
    rw [State.watch_goto]
    refine .fail ((congrArg Phase.stage hphase).trans ?_)
    cases hsends <;> rfl
  | setAttachment hphase =>
    refine ⟨.other, trivial, ?_⟩
    rw [State.watch_goto]
    exact .install (congrArg Phase.stage hphase)
  | unlock hphase hq =>
    refine hsame rfl hphase ?_
    rcases hq with rfl | rfl <;> rfl
  | @clear c choice result hphase =>
    rcases s.clearAttachment_eq c with ⟨hattached, heq⟩ | ⟨_, heq⟩
    · refine ⟨.clear, .inl ⟨c, choice, result, rfl, hphase, hattached⟩, ?_⟩
      rw [heq, State.watch_goto_same]
      · exact .clear (by simp [State.watch, hattached])
      · exact (congrArg Phase.stage hphase : (s.calls c).stage = .attached)
    · rw [heq]
      exact hsame rfl hphase rfl
  | finish hphase hends =>
    refine hadvance rfl hphase ?_
    cases hends with
    | ended => exact .attached
    | failed => exact .failed
  | unlockFailed hphase hq =>
    rcases hq with rfl | rfl
    · exact hadvance rfl hphase .failed
    · exact hsame rfl hphase rfl
  | publishClosed _ _ => exact hskip rfl
  | publishDetached _ _ _ => exact hskip rfl
  | publishAttached _ _ _ => exact hskip rfl
  | streamSent _ hsend =>
    obtain ⟨_, _, _, _, rfl⟩ := State.send_ok hsend
    exact hskip rfl
  | streamFailed _ => exact hskip rfl
  | @streamClear o choice target hstream =>
    rcases s.clearAttachment_eq target with ⟨hattached, heq⟩ | ⟨_, heq⟩
    · refine ⟨.clear, .inr ⟨o, choice, target, rfl, hstream, hattached⟩, ?_⟩
      rw [heq]
      exact .clear (by simp [State.watch, hattached])
    · rw [heq]
      exact hskip rfl
  | streamClose _ => exact hskip rfl
  | streamEnds _ => exact hskip rfl
  | writer _ _ => exact hskip rfl
  | expire harmed => exact ⟨.other, trivial, .expire harmed (.inl (Nat.succ_pos _))⟩
  | beginClose _ hcause =>
    refine ⟨.other, trivial, .close (fun hexpiring => ?_) nofun⟩
    exact hexpiring.imp id fun heq => absurd (Closing.cancelled.inj heq) hcause
  | beginExpiry _ hpos => exact ⟨.other, trivial, .close (fun _ => .inl hpos) nofun⟩
  | shut _ => exact ⟨.other, trivial, .shut⟩
  | notify hclosing hsend =>
    obtain ⟨_, _, _, _, rfl⟩ := State.send_ok hsend
    exact ⟨.other, trivial, .close (fun hexpiring => hexpiring.imp id nofun) nofun⟩
  | quiet _ => exact ⟨.other, trivial, .close (fun hexpiring => hexpiring.imp id nofun) nofun⟩
  | detach _ => exact ⟨.other, trivial, .close (fun hexpiring => hexpiring.imp id nofun) nofun⟩
  | finished _ => exact ⟨.other, trivial, .close (fun hexpiring => hexpiring.imp id nofun) nofun⟩

/-- Restricted runs of a session are restricted runs of the watch. -/
theorem watch_of_reachable {id : String} {ok : State → Event → Prop}
    {ok' : Watch → WatchEvent → Prop} (hok : ∀ s e a, ok s e → Causes s e a → ok' s.watch a)
    (h : (system id).ReachableUnder ok s) : watchSystem.ReachableUnder ok' s.watch := by
  refine System.ReachableUnder.map ?_ ?_ h
  · rintro s rfl
    exact ⟨rfl, rfl, nofun, rfl, fun _ => rfl⟩
  · intro s e t hs hnext
    obtain ⟨a, hcauses, hwatch⟩ := (step_effect hnext).watch
    exact ⟨a, hok s e a hs hcauses, hwatch⟩

/-- No call has stopped the timer without having installed its attachment. -/
def State.NoneAttaching (s : State) : Prop := ∀ c, (s.calls c).stage ≠ .attaching

/-- A call stops the timer only when no callback of it is under way, and an
attachment that is installed is cleared only while no call attaches. -/
def Calm (s : State) : Event → Prop
  | .call c _ =>
    match s.calls c with
    | .stopTimer _ => s.expiries = 0 ∧ s.closing ≠ .cancelled .expired
    | .clearAttachment _ => s.attachment = some c → s.NoneAttaching
    | _ => True
  | .stream o _ =>
    match s.streams o with
    | .clearing a => s.attachment = some a → s.NoneAttaching
    | _ => True
  | _ => True

/-- Calm steps are calm for the watch. -/
theorem Calm.watch (h : Calm s e) (hcauses : Causes s e a) : s.watch.Calm a := by
  cases a with
  | stop =>
    obtain ⟨c, choice, request, rfl, hphase⟩ := hcauses
    rw [Calm, hphase] at h
    rintro (hpos | hclosing)
    · exact absurd hpos (by omega)
    · exact h.2 hclosing
  | clear =>
    rcases hcauses with ⟨c, choice, result, rfl, hphase, hattached⟩ |
      ⟨o, choice, a, rfl, hstream, hattached⟩
    · rw [Calm, hphase] at h
      exact h hattached
    · rw [Calm, hstream] at h
      exact h hattached
  | fail => trivial
  | other => trivial

/-- On an open session with an attachment no idle timer is armed, no callback of
it is under way, and it is not about to close the session. -/
theorem no_timer_while_attached (id : String) {s : State}
    (h : (system id).ReachableUnder Calm s) (hopen : s.closed = false) {a : ℕ}
    (hattached : s.attachment = some a) :
    s.idleTimer = none ∧ s.expiries = 0 ∧ s.closing ≠ .cancelled .expired := by
  have hsafe := Watch.safe_of_reachable (watch_of_reachable (fun _ _ _ => Calm.watch) h)
  have hbusy : s.watch.attachment ≠ none := by simp [State.watch, hattached]
  obtain ⟨htimer, hexpiring⟩ := hsafe hopen (.inl hbusy)
  refine ⟨htimer, ?_, fun hclosing => hexpiring (.inr hclosing)⟩
  by_contra hpos
  exact hexpiring (.inl (Nat.pos_of_ne_zero hpos))

/-- A call attaches and returns, which arms the timer, and a second call attaches. -/
theorem no_timer_while_attached_again : ∃ s t : State, (system "t").ReachableUnder Calm s ∧
    s.attachment = none ∧ s.idleTimer = some .armed ∧ (system "t").ReachableUnder Calm t ∧
    t.closed = false ∧ t.attachment = some 1 ∧
    t.idleTimer = none ∧ t.expiries = 0 ∧ t.closing ≠ .cancelled .expired := by
  have h : (system "t").ReachableUnder Calm (initial "t") := .init rfl
  have hlocked := (h.take (.attach 0 plainRequest) trivial rfl).take (.call 0 true) trivial rfl
  have hchecked := hlocked.take (.call 0 true) trivial rfl
  have hstopped := hchecked.take (.call 0 true) ⟨rfl, nofun⟩ rfl
  have hready := (hstopped.take (.call 0 true) trivial rfl).take (.call 0 true) trivial rfl
  have hset := (hready.take (.call 0 true) trivial rfl).take (.call 0 true) trivial rfl
  have hread := (hset.take (.call 0 true) trivial rfl).take (.call 0 true) trivial rfl
  have hcleared := hread.take (.call 0 true) (fun _ => by rintro (_ | c) <;> nofun) rfl
  have hreturned := hcleared.take (.call 0 true) trivial rfl
  have hlocked' :=
    (hreturned.take (.attach 1 plainRequest) trivial rfl).take (.call 1 true) trivial rfl
  have hchecked' := hlocked'.take (.call 1 true) trivial rfl
  have hstopped' := hchecked'.take (.call 1 true) ⟨rfl, nofun⟩ rfl
  have hready' := (hstopped'.take (.call 1 true) trivial rfl).take (.call 1 true) trivial rfl
  have hset' := (hready'.take (.call 1 true) trivial rfl).take (.call 1 true) trivial rfl
  exact ⟨_, _, hreturned, rfl, rfl, hset', rfl, rfl, no_timer_while_attached "t" hset' rfl rfl⟩

/-- While a second call is between stopping the timer and installing its
attachment, the first one returns and clears its own attachment. -/
def clearedWhileAttaching : List Event :=
  [.attach 0 plainRequest] ++ List.replicate 8 (.call 0 true) ++
  [.attach 1 plainRequest, .call 1 true, .call 1 true, .call 1 true, .call 0 true, .call 0 true] ++
  List.replicate 4 (.call 1 true)

/-- The second call has attached, but the timer is armed; it fires and is about to
close the session with its attachment. -/
theorem timer_armed_while_attached : ∃ s t : State, (system "t").Reachable s ∧
    s.closed = false ∧ s.attachment = some 1 ∧ s.idleTimer = some .armed ∧
    (system "t").Reachable t ∧ t.closed = false ∧ t.attachment = some 1 ∧
    t.closing = .cancelled .expired := by
  have hrun : ∃ s t, runEvents step (initial "t") clearedWhileAttaching = some s ∧
      runEvents step (initial "t") (clearedWhileAttaching ++ [.expire, .beginClose .expired]) =
        some t ∧
      s.closed = false ∧ s.attachment = some 1 ∧ s.idleTimer = some .armed ∧
      t.closed = false ∧ t.attachment = some 1 ∧ t.closing = .cancelled .expired :=
    ⟨_, _, rfl, rfl, rfl, rfl, rfl, rfl, rfl, rfl⟩
  obtain ⟨s, t, hs, ht, hopen, hattached, harmed, hrest⟩ := hrun
  exact ⟨s, t, reachable_of_runEvents rfl hs, hopen, hattached, harmed,
    reachable_of_runEvents rfl ht, hrest⟩

/-- An attach call finds its own attachment open and with room whenever it sends. -/
def Room (s : State) : Event → Prop
  | .call c _ =>
    match s.calls c with
    | .sendReady _ | .replay _ (_ :: _) _ => ∃ a, s.attachments c = some a ∧ a.done = false ∧
        a.outbound.length < terminalAttachmentQueueSize
    | _ => True
  | _ => True

/-- With room no send of an attach call fails. -/
theorem Room.succeeds (h : Room s e) (hcauses : Causes s e a) : a.Succeeds := by
  cases a with
  | fail =>
    obtain ⟨c, choice, message, q, failure, rfl, hsends, hsend⟩ := hcauses
    obtain ⟨x, hx, hopen, hroom⟩ : ∃ a, s.attachments c = some a ∧ a.done = false ∧
        a.outbound.length < terminalAttachmentQueueSize := by
      generalize hphase : s.calls c = p at hsends
      cases hsends with
      | ready =>
        rw [Room, hphase] at h
        exact h
      | frame =>
        rw [Room, hphase] at h
        exact h
    simp [State.send, hx, Attachment.send, hopen, hroom] at hsend
    cases hsend
  | _ => trivial

/-- Once a call has returned, an open session without an attachment and without a
call in progress has its idle timer armed, or the timer has fired and is about to
close it. -/
theorem timer_while_detached (id : String) {s : State} (h : (system id).ReachableUnder Room s)
    (hopen : s.closed = false) (hdetached : s.attachment = none)
    (hidle : ∀ c, s.calls c = .unused ∨ ∃ result, s.calls c = .returned result)
    {c : ℕ} {result : Option Failure} (hreturned : s.calls c = .returned result) :
    s.idleTimer = some .armed ∨
      (s.idleTimer = some .fired ∧ (0 < s.expiries ∨ s.closing ≠ .idle)) := by
  have hkept := Watch.kept_of_reachable (watch_of_reachable (fun _ _ _ => Room.succeeds) h)
  have hpast : ∃ d, (s.watch.stage d).Past := by
    refine ⟨c, ?_⟩
    rw [show s.watch.stage c = (s.calls c).stage from rfl, hreturned]
    trivial
  rcases hkept.past hopen hpast with hattached | htimer | ⟨d, hd⟩
  · exact absurd hdetached hattached
  · cases hcase : s.idleTimer with
    | none => exact absurd hcase htimer
    | some timer =>
      cases timer with
      | armed => exact .inl rfl
      | fired =>
        refine .inr ⟨rfl, ?_⟩
        rcases hkept.fired hcase with (hpos | hclosing) | hclosing
        · exact .inl hpos
        · exact .inr (by rw [hclosing]; exact nofun)
        · exact .inr hclosing
  · rw [show s.watch.stage d = (s.calls d).stage from rfl] at hd
    rcases hidle d with heq | ⟨_, heq⟩
    · rw [heq] at hd
      cases hd
    · rw [heq] at hd
      cases hd

/-- A call attaches and returns. -/
theorem timer_while_detached_returned : ∃ s : State, (system "t").ReachableUnder Room s ∧
    s.closed = false ∧ s.attachment = none ∧ s.calls 0 = .returned none ∧
    (s.idleTimer = some .armed ∨
      (s.idleTimer = some .fired ∧ (0 < s.expiries ∨ s.closing ≠ .idle))) := by
  have h : (system "t").ReachableUnder Room (initial "t") := .init rfl
  have hlocked := (h.take (.attach 0 plainRequest) trivial rfl).take (.call 0 true) trivial rfl
  have hstopped := (hlocked.take (.call 0 true) trivial rfl).take (.call 0 true) trivial rfl
  have hgreets := hstopped.take (.call 0 true) trivial rfl
  have hready := hgreets.take (.call 0 true) ⟨.new, rfl, rfl, by decide⟩ rfl
  have hset := (hready.take (.call 0 true) trivial rfl).take (.call 0 true) trivial rfl
  have hread := (hset.take (.call 0 true) trivial rfl).take (.call 0 true) trivial rfl
  have hreturned := (hread.take (.call 0 true) trivial rfl).take (.call 0 true) trivial rfl
  refine ⟨_, hreturned, rfl, rfl, rfl, timer_while_detached "t" hreturned rfl rfl ?_ (c := 0) rfl⟩
  rintro (_ | c)
  · exact .inr ⟨_, rfl⟩
  · exact .inl rfl

/-- The writer of a second attachment fails during the replay. -/
def failedReplay : List Event :=
  [.publish .stdout [1], .attach 0 plainRequest] ++ List.replicate 14 (.call 0 true) ++
  [.attach 1 plainRequest] ++ List.replicate 6 (.call 1 true) ++
  [.take 1, .wrote 1 false, .call 1 true, .call 1 true, .call 1 true]

set_option maxRecDepth 4000 in
/-- Both calls have returned, and the open session has neither an attachment nor a
timer. -/
theorem failed_replay_leaks : ∃ s : State, (system "t").Reachable s ∧ s.closed = false ∧
    s.attachment = none ∧ (∀ c, s.calls c = .unused ∨ ∃ result, s.calls c = .returned result) ∧
    s.calls 0 = .returned none ∧ s.calls 1 = .returned (some .attachmentClosed) ∧
    s.idleTimer = none ∧ s.expiries = 0 ∧ s.closing = .idle := by
  have hrun : ∃ s, runEvents step (initial "t") failedReplay = some s ∧ s.closed = false ∧
      s.attachment = none ∧ (∀ c, s.calls c = .unused ∨ ∃ result, s.calls c = .returned result) ∧
      s.calls 0 = .returned none ∧ s.calls 1 = .returned (some .attachmentClosed) ∧
      s.idleTimer = none ∧ s.expiries = 0 ∧ s.closing = .idle := by
    refine ⟨_, rfl, rfl, rfl, ?_, rfl, rfl, rfl, rfl, rfl⟩
    rintro (_ | _ | c)
    · exact .inr ⟨none, rfl⟩
    · exact .inr ⟨some .attachmentClosed, rfl⟩
    · exact .inl rfl
  obtain ⟨s, hs, hrest⟩ := hrun
  exact ⟨s, reachable_of_runEvents rfl hs, hrest⟩

end MiniControl.Terminal
