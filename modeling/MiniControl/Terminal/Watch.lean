import MiniControl.Terminal.Effects

/-!
# The watch over an idle session

What the idle timer is for, without queues, history and mutexes: a session is
attached, is being attached, or its timer runs. The watch knows of every attach
call only whether it is in between, has failed, has attached or has returned. The
sessions simulate the watch.
-/

namespace MiniControl.Terminal

open Transition

/-- How far an attach call is. -/
inductive Stage
  | outside
  | entering
  /-- The call has stopped the timer and not yet installed its attachment. -/
  | attaching
  | failing
  | attached
  | returned
  deriving DecidableEq

/-- The stage of a position. -/
def Phase.stage : Phase → Stage
  | .unused => .outside
  | .lockAttach _ | .checkClosed _ | .stopTimer _ => .entering
  | .readCurrent _ | .closeCurrent _ _ | .removeCurrent _ _ | .sendReady _ | .snapshot _ _
  | .replay _ _ _ | .setAttachment _ => .attaching
  | .unlockFailed _ | .closeFailed _ => .failing
  | .unlockAttach _ | .windowChange | .readInput | .clearAttachment _ | .closeAttachment _ =>
    .attached
  | .returned _ => .returned

/-- The state of the watch. -/
structure Watch where
  attachment : Option ℕ
  idleTimer : Option Timer
  /-- The timer has fired, and its callback has not yet closed the session. -/
  expiring : Prop
  /-- The shutdown has begun. -/
  closing : Prop
  closed : Bool
  stage : ℕ → Stage

/-- What a session looks like for the watch. -/
def State.watch (s : State) : Watch where
  attachment := s.attachment
  idleTimer := s.idleTimer
  expiring := 0 < s.expiries ∨ s.closing = .cancelled .expired
  closing := s.closing ≠ .idle
  closed := s.closed
  stage c := (s.calls c).stage

/-- The steps of the watch that matter for its purpose. -/
inductive WatchEvent
  | stop
  | clear
  | fail
  | other

/-- A call moves on. It fails in front of the timer only on a closed session. -/
inductive Stage.Advances (closed : Bool) : Stage → Stage → Prop
  | enter : Advances closed .outside .entering
  | refuse : closed = true → Advances closed .entering .failing
  | attached : Advances closed .attached .returned
  | failed : Advances closed .failing .returned

/-- One step of the watch. -/
inductive WatchStep (w : Watch) : WatchEvent → Watch → Prop
  | skip : WatchStep w .other w
  | advance {c : ℕ} {old new : Stage} : w.stage c = old → old.Advances w.closed new →
      WatchStep w .other { w with stage := Function.update w.stage c new }
  | stop {c : ℕ} : w.stage c = .entering →
      WatchStep w .stop
        { w with idleTimer := none, stage := Function.update w.stage c .attaching }
  | remove {c : ℕ} : w.stage c = .attaching → WatchStep w .other { w with attachment := none }
  | install {c : ℕ} : w.stage c = .attaching →
      WatchStep w .other
        { w with attachment := some c, stage := Function.update w.stage c .attached }
  | fail {c : ℕ} : w.stage c = .attaching →
      WatchStep w .fail { w with stage := Function.update w.stage c .failing }
  | clear : w.attachment ≠ none →
      WatchStep w .clear { w with
        attachment := none
        idleTimer := if w.closed then w.idleTimer else some .armed }
  | expire {expiring : Prop} : w.idleTimer = some .armed → expiring →
      WatchStep w .other { w with idleTimer := some .fired, expiring }
  | close {expiring closing : Prop} : (expiring → w.expiring) → closing →
      WatchStep w .other { w with expiring, closing }
  | shut {expiring closing : Prop} : WatchStep w .other
      { w with attachment := none, idleTimer := none, expiring, closing, closed := true }

/-- The runs of the watch. -/
def watchSystem : System Watch WatchEvent where
  init w := w.idleTimer = none ∧ w.attachment = none ∧ ¬w.expiring ∧ w.closed = false ∧
    ∀ c, w.stage c = .outside
  next := WatchStep

/-- On an open session that is attached or being attached no timer runs and none
has fired. -/
def Watch.Safe (w : Watch) : Prop :=
  w.closed = false → (w.attachment ≠ none ∨ ∃ c, w.stage c = .attaching) →
    w.idleTimer = none ∧ ¬w.expiring

/-- The timer is stopped only when it has not fired, and an attachment is cleared
only while no call is in between. -/
def Watch.Calm (w : Watch) : WatchEvent → Prop
  | .stop => ¬w.expiring
  | .clear => ∀ c, w.stage c ≠ .attaching
  | _ => True

/-- The call that has moved, or another one, is at a given stage. -/
theorem exists_update_iff {stages : ℕ → Stage} {c : ℕ} {new : Stage} {P : Stage → Prop} :
    (∃ d, P (Function.update stages c new d)) ↔ P new ∨ ∃ d, d ≠ c ∧ P (stages d) := by
  constructor
  · rintro ⟨d, hd⟩
    by_cases hdc : d = c
    · rw [hdc, Function.update_self] at hd
      exact .inl hd
    · rw [Function.update_of_ne hdc] at hd
      exact .inr ⟨d, hdc, hd⟩
  · rintro (hnew | ⟨d, hdc, hd⟩)
    · exact ⟨c, by rwa [Function.update_self]⟩
    · exact ⟨d, by rwa [Function.update_of_ne hdc]⟩

variable {w w' : Watch} {e : WatchEvent}

/-- Calm steps keep the watch safe. -/
theorem Watch.Safe.step (h : w.Safe) (hcalm : w.Calm e) (hstep : WatchStep w e w') : w'.Safe := by
  cases hstep with
  | skip => exact h
  | @advance c old new hold hadvances =>
    intro hopen hbusy
    refine h hopen (hbusy.imp id fun hattaching => ?_)
    rcases (exists_update_iff (P := (· = .attaching))).mp hattaching with rfl | ⟨d, _, hd⟩
    · cases hadvances
    · exact ⟨d, hd⟩
  | stop => exact fun _ _ => ⟨rfl, hcalm⟩
  | remove hstage => exact fun hopen _ => h hopen (.inr ⟨_, hstage⟩)
  | install hstage => exact fun hopen _ => h hopen (.inr ⟨_, hstage⟩)
  | fail hstage => exact fun hopen _ => h hopen (.inr ⟨_, hstage⟩)
  | clear =>
    rintro hopen (hnone | ⟨d, hd⟩)
    · exact absurd rfl hnone
    · exact absurd hd (hcalm d)
  | expire harmed _ =>
    intro hopen hbusy
    cases harmed.symm.trans (h hopen hbusy).1
  | close hexpiring _ =>
    exact fun hopen hbusy => ⟨(h hopen hbusy).1, mt hexpiring (h hopen hbusy).2⟩
  | shut => exact nofun

/-- Along calm runs the watch is safe. -/
theorem Watch.safe_of_reachable (h : watchSystem.ReachableUnder Watch.Calm w) :
    w.Safe := by
  refine System.ReachableUnder.invariant ?_ ?_ h
  · rintro w ⟨htimer, _, hexpiring, _, _⟩ _ _
    exact ⟨htimer, hexpiring⟩
  · exact fun w e w' _ hcalm hnext hsafe => hsafe.step hcalm hnext

/-- The call is past the installation of its attachment, or it has failed. -/
def Stage.Past : Stage → Prop
  | .failing | .attached | .returned => True
  | _ => False

/-- Once a call is past the installation, an open session is attached, is being
attached, or has a timer; and a timer that has fired is about to close it. -/
structure Watch.Kept (w : Watch) : Prop where
  past : w.closed = false → (∃ c, (w.stage c).Past) →
    w.attachment ≠ none ∨ w.idleTimer ≠ none ∨ ∃ c, w.stage c = .attaching
  fired : w.idleTimer = some .fired → w.expiring ∨ w.closing

/-- No call fails in between. -/
def WatchEvent.Succeeds : WatchEvent → Prop
  | .fail => False
  | _ => True

/-- Steps in which no call fails in between keep the session from leaking. -/
theorem Watch.Kept.step (h : w.Kept) (hsucceeds : e.Succeeds) (hstep : WatchStep w e w') :
    w'.Kept := by
  cases hstep with
  | skip => exact h
  | @advance c old new hold hadvances =>
    refine ⟨fun hopen hpast => ?_, h.fired⟩
    have hbefore : ∃ d, (w.stage d).Past := by
      rcases exists_update_iff.mp hpast with hnew | ⟨d, _, hd⟩
      · refine ⟨c, hold ▸ ?_⟩
        cases hadvances with
        | enter => exact hnew
        | refuse hclosed => cases hopen.symm.trans hclosed
        | attached | failed => trivial
      · exact ⟨d, hd⟩
    refine (h.past hopen hbefore).imp id (Or.imp id ?_)
    rintro ⟨d, hd⟩
    refine (exists_update_iff (P := (· = .attaching))).mpr ?_
    refine .inr ⟨d, ?_, hd⟩
    rintro rfl
    rw [hold.symm.trans hd] at hadvances
    cases hadvances
  | @stop c _ =>
    exact ⟨fun _ _ => .inr (.inr ⟨c, Function.update_self _ _ _⟩), nofun⟩
  | remove hstage => exact ⟨fun _ _ => .inr (.inr ⟨_, hstage⟩), h.fired⟩
  | install => exact ⟨fun _ _ => .inl nofun, h.fired⟩
  | fail => exact hsucceeds.elim
  | clear =>
    refine ⟨fun hopen _ => .inr (.inl ?_), ?_⟩
    · dsimp only
      rw [show w.closed = false from hopen]
      exact nofun
    · dsimp only
      split_ifs
      · exact h.fired
      · exact nofun
  | expire _ hexpiring => exact ⟨fun _ _ => .inr (.inl nofun), fun _ => .inl hexpiring⟩
  | close _ hclosing => exact ⟨h.past, fun _ => .inr hclosing⟩
  | shut => exact ⟨nofun, nofun⟩

/-- Along runs in which no call fails in between no session leaks. -/
theorem Watch.kept_of_reachable (h : watchSystem.ReachableUnder (fun _ e => e.Succeeds) w) :
    w.Kept := by
  refine System.ReachableUnder.invariant ?_ ?_ h
  · rintro w ⟨htimer, _, _, _, hstage⟩
    refine ⟨fun _ ⟨c, hc⟩ => ?_, fun hfired => ?_⟩
    · rw [hstage c] at hc
      exact hc.elim
    · cases htimer.symm.trans hfired
  · exact fun w e w' _ hsucceeds hnext hkept => hkept.step hsucceeds hnext

end MiniControl.Terminal
