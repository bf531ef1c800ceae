import MiniControl.Frontend.Ownership

/-!
# A terminal shows its own machine

The server lets a member back into any session of the member, whatever workstation the
query names. That a terminal of one workstation never shows a shell of another one is up
to the browser: it files the ids under the workstations, also in duplicated tabs. A
session that a terminal had to give up is not asked for again.
-/

namespace MiniControl.Frontend.RemoteTerminal

open Transition Rest

variable {s t : State} {id n : ℕ} {run run' : Run} {x x' : Socket}

section Relations

variable {α β : Type} {r : α → β → Prop}

/-- What is related to something is something. -/
theorem exists_of_rel_some_right {a : Option α} {b : β} (h : Option.Rel r a (some b)) :
    ∃ a', a = some a' ∧ r a' b := by
  cases h with
  | some h => exact ⟨_, rfl, h⟩

/-- And the other way round. -/
theorem exists_of_rel_some_left {a : α} {b : Option β} (h : Option.Rel r (some a) b) :
    ∃ b', b = some b' ∧ r a b' := by
  cases h with
  | some h => exact ⟨_, rfl, h⟩

end Relations

section Continues

/-- A run of the effect later on. -/
structure Run.Follows (run run' : Run) : Prop where
  component : run'.component = run.component
  workstationID : run'.workstationID = run.workstationID
  disposed : run'.disposed = false → run.disposed = false

/-- A WebSocket later on, as far as the browser is concerned. -/
structure Socket.Follows (x x' : Socket) : Prop where
  run : x'.run = x.run
  attempted : x'.attemptedSessionID = x.attemptedSessionID
  query : x'.query = x.query
  handler : x'.handler = x.handler
  attached : x'.attached = x.attached
  inbox : ∀ message ∈ x'.inbox, message ∈ x.inbox
  closed : x'.readyState ≠ .closed → x.readyState ≠ .closed

/-- A run follows itself. -/
theorem Run.Follows.refl (run : Run) : run.Follows run := ⟨rfl, rfl, id⟩

/-- A connection follows itself. -/
theorem Socket.Follows.refl (x : Socket) : x.Follows x :=
  ⟨rfl, rfl, rfl, rfl, rfl, fun _ h => h, id⟩

/-- The browser makes neither a run of the effect nor a WebSocket. -/
structure Continues (s t : State) : Prop where
  sessions : t.sessions = s.sessions
  runs : ∀ id, Option.Rel Run.Follows (s.runs id) (t.runs id)
  sockets : ∀ n, Option.Rel Socket.Follows (s.sockets n) (t.sockets n)

namespace Continues

/-- A step that changes no session, no run and no connection continues the state. -/
theorem of_same (hsessions : t.sessions = s.sessions) (hruns : t.runs = s.runs)
    (hsockets : t.sockets = s.sockets) : Continues s t := by
  refine ⟨hsessions, fun id => ?_, fun n => ?_⟩
  · rw [hruns]
    cases s.runs id with
    | none => exact .none
    | some run => exact .some (.refl run)
  · rw [hsockets]
    cases s.sockets n with
    | none => exact .none
    | some x => exact .some (.refl x)

/-- A run of the effect was there before. -/
theorem exists_run (h : Continues s t) (hrun : t.runs id = some run') :
    ∃ run, s.runs id = some run ∧ run.Follows run' :=
  exists_of_rel_some_right (hrun ▸ h.runs id)

/-- A WebSocket was there before. -/
theorem exists_socket (h : Continues s t) (hx : t.sockets n = some x') :
    ∃ x, s.sockets n = some x ∧ x.Follows x' :=
  exists_of_rel_some_right (hx ▸ h.sockets n)

/-- A run goes on. -/
theorem setRun (h : Continues s t) (hrun : t.runs id = some run) (hfollows : run.Follows run') :
    Continues s (t.setRun id run') := by
  refine ⟨h.sessions, fun j => ?_, h.sockets⟩
  by_cases hj : j = id
  · subst hj
    obtain ⟨first, hfirst, hbefore⟩ := h.exists_run hrun
    simp only [State.setRun, Function.update_self, hfirst]
    exact .some ⟨hfollows.component.trans hbefore.component,
      hfollows.workstationID.trans hbefore.workstationID,
      fun hdisposed => hbefore.disposed (hfollows.disposed hdisposed)⟩
  · simp only [State.setRun, Function.update_of_ne hj]
    exact h.runs j

/-- A connection goes on. -/
theorem setSocket (hx : s.sockets n = some x) (hfollows : x.Follows x') :
    Continues s (s.setSocket n x') := by
  refine ⟨rfl, (of_same rfl rfl rfl).runs, fun m => ?_⟩
  by_cases hm : m = n
  · subst hm
    simp only [State.setSocket, Function.update_self, hx]
    exact .some hfollows
  · simp only [State.setSocket, Function.update_of_ne hm]
    exact (of_same rfl rfl rfl).sockets m

/-- `close` in the browser. -/
theorem close (h : Continues s t) (hsockets : t.sockets = s.sockets) (ref : Option ℕ) :
    Continues s (t.modifySocket ref .close) := by
  refine ⟨h.sessions, h.runs, fun m => ?_⟩
  have hsame := (of_same (s := s) rfl rfl rfl).sockets m
  by_cases hm : ref = some m
  · simp only [State.modifySocket, hm, if_true, hsockets]
    cases s.sockets m with
    | none => exact .none
    | some x =>
      refine .some ?_
      unfold Socket.close
      cases hx : x.readyState with
      | connecting | opened => exact ⟨rfl, rfl, rfl, rfl, rfl, fun _ h => h, by simp [hx]⟩
      | closing | closed => exact .refl x
  · simp only [State.modifySocket, hm, if_false, hsockets]
    exact hsame

/-- A tab that is unloaded ends its runs and its connections, which is a way to go on. -/
theorem unload (s : State) (tab : ℕ) : Continues s (s.unload tab) := by
  refine ⟨rfl, fun id => ?_, fun n => ?_⟩
  · simp only [State.unload]
    cases s.runs id with
    | none => exact .none
    | some run =>
      refine .some ?_
      dsimp only
      split
      · exact ⟨rfl, rfl, by simp⟩
      · exact .refl run
  · simp only [State.unload]
    cases s.sockets n with
    | none => exact .none
    | some x =>
      refine .some ?_
      dsimp only
      split
      · exact ⟨rfl, rfl, rfl, rfl, rfl, fun _ h => h, by simp⟩
      · exact .refl x

/-- A connection stays joined with its session while the state goes on. -/
theorem joined (h : Continues s t) {info : TerminalSession} (hjoined : s.Joined n info) :
    t.Joined n info := by
  obtain ⟨x, member, request, next, hx, hattached, hhandler⟩ := hjoined
  obtain ⟨x', hx', hfollows⟩ := exists_of_rel_some_left (hx ▸ h.sockets n)
  exact ⟨x', member, request, next, hx', hfollows.attached.trans hattached,
    hfollows.handler.trans hhandler⟩

end Continues

/-- A step that makes nothing new keeps the invariant, if what is kept and what is given up
are as they should be. -/
theorem Owned.continues (h : Owned s) (hstep : Continues s t)
    (hstorage : ∀ tab workstationID sessionID,
      t.storage tab (storageKey workstationID) = some sessionID →
      s.known.Leads sessionID workstationID)
    (href : ∀ id run sessionID, t.runs id = some run → run.disposed = false →
      t.sessionIDRef run.component = some sessionID →
      s.known.Leads sessionID run.workstationID ∧ (id, sessionID) ∉ t.rejected)
    (hgivenUp : ∀ n x sessionID, t.sockets n = some x → x.readyState ≠ .closed →
      (x.run, sessionID) ∈ t.rejected → (x.run, sessionID) ∈ s.rejected)
    (honce : t.rejected.Nodup)
    (hrejected : ∀ id sessionID, (id, sessionID) ∈ t.rejected →
      s.runs id ≠ none ∧ s.known sessionID ≠ none) : Owned t := by
  have hknown : t.known = s.known := by
    unfold State.known
    rw [hstep.sessions]
  constructor
  · rw [hknown]
    exact h.ids
  · rw [hknown]
    exact hstorage
  · intro id run' hrun'
    obtain ⟨run, hrun, hfollows⟩ := hstep.exists_run hrun'
    rw [hfollows.workstationID]
    exact h.runs id run hrun
  · rw [hknown]
    exact href
  · intro n x' run' hx' hrun'
    obtain ⟨x, hx, hfollows⟩ := hstep.exists_socket hx'
    obtain ⟨run, hrun, hfollowsRun⟩ := hstep.exists_run hrun'
    rw [hfollows.run] at hrun
    have hsub : t.givenUp x' ⊆ s.givenUp x := by
      rintro sessionID ⟨hopen, hmem⟩
      exact ⟨hfollows.closed hopen, hfollows.run ▸ hgivenUp n x' sessionID hx' hopen hmem⟩
    rw [hknown, hfollowsRun.workstationID]
    exact (h.socket n x run hx hrun).of_same hfollows.attempted hfollows.query hfollows.handler
      (fun _ _ => hfollows.inbox _) (.refl _) hsub
  · intro sessionID y n hy hn
    rw [hstep.sessions] at hy
    exact hstep.joined (h.joined sessionID y n hy hn)
  · rw [hstep.sessions]
    exact h.exclusive
  · exact honce
  · intro id sessionID hmem
    obtain ⟨hrun, hsession⟩ := hrejected id sessionID hmem
    rw [hknown]
    refine ⟨?_, hsession⟩
    obtain ⟨run, hrun⟩ := Option.ne_none_iff_exists'.mp hrun
    obtain ⟨run', hrun', -⟩ := exists_of_rel_some_left (hrun ▸ hstep.runs id)
    simp [hrun']

/-- The same for a step that neither keeps nor gives up anything. -/
theorem Owned.continues_same (h : Owned s) (hstep : Continues s t)
    (hstorage : ∀ tab workstationID sessionID,
      t.storage tab (storageKey workstationID) = some sessionID →
      s.known.Leads sessionID workstationID)
    (href : t.sessionIDRef = s.sessionIDRef) (hrejected : t.rejected = s.rejected) : Owned t := by
  apply h.continues hstep hstorage
  · intro id run' sessionID hrun' hdisposed hsession
    obtain ⟨run, hrun, hfollows⟩ := hstep.exists_run hrun'
    rw [href, hfollows.component] at hsession
    rw [hrejected, hfollows.workstationID]
    exact h.ref id run sessionID hrun (hfollows.disposed hdisposed) hsession
  · rw [hrejected]
    exact fun _ _ _ _ _ hmem => hmem
  · rw [hrejected]
    exact h.once
  · rw [hrejected]
    exact h.rejected

end Continues

/-- A new connection asks for a session of the workstation that the run has not given up. -/
theorem Owned.connect (h : Owned s) (hwired : Wired s) {cols rows : ℤ}
    (hsessions : t.sessions = s.sessions) (hstorage : t.storage = s.storage)
    (hrejected : t.rejected = s.rejected) (hsockets : t.sockets = s.sockets)
    (hn : s.sockets n = none) (hruns : ∀ j, j ≠ id → t.runs j = s.runs j)
    (hdisposed : run.disposed = false)
    (hrun : run.workstationID ≠ "" ∧ Text.trimSpace run.workstationID = run.workstationID)
    (hsame : ∀ old, s.runs id = some old → old.workstationID = run.workstationID)
    (href : ∀ sessionID, t.sessionIDRef run.component = some sessionID →
      s.known.Leads sessionID run.workstationID ∧ (id, sessionID) ∉ s.rejected)
    (hothers : ∀ j other sessionID, j ≠ id → s.runs j = some other → other.disposed = false →
      t.sessionIDRef other.component = some sessionID →
      s.known.Leads sessionID other.workstationID ∧ (j, sessionID) ∉ s.rejected) :
    Owned (t.connect id run n cols rows) := by
  have hknown : t.known = s.known := by
    unfold State.known
    rw [hsessions]
  rw [State.connect_eq hdisposed]
  constructor
  · change ∀ sessionID info, t.known sessionID = some info → _
    rw [hknown]
    exact h.ids
  · intro tab workstationID sessionID hstored
    change t.storage tab _ = _ at hstored
    change t.known.Leads _ _
    rw [hstorage] at hstored
    rw [hknown]
    exact h.storage tab workstationID sessionID hstored
  · intro j other hother
    by_cases hj : j = id
    · subst hj
      simp only [State.setSocket, State.setRun, Function.update_self, Option.some.injEq] at hother
      subst hother
      exact hrun
    · simp only [State.setSocket, State.setRun, Function.update_of_ne hj, hruns j hj] at hother
      exact h.runs j other hother
  · intro j other sessionID hother hactive hsession
    change t.sessionIDRef _ = _ at hsession
    change t.known.Leads _ _ ∧ _ ∉ t.rejected
    rw [hknown, hrejected]
    by_cases hj : j = id
    · subst hj
      simp only [State.setSocket, State.setRun, Function.update_self, Option.some.injEq] at hother
      subst hother
      exact href sessionID hsession
    · simp only [State.setSocket, State.setRun, Function.update_of_ne hj, hruns j hj] at hother
      exact hothers j other sessionID hj hother hactive hsession
  · intro m x run' hx hrun'
    by_cases hm : m = n
    · subst hm
      simp only [State.setSocket, Function.update_self, Option.some.injEq] at hx
      subst hx
      simp only [State.setSocket, State.setRun, Function.update_self, Option.some.injEq] at hrun'
      subst hrun'
      refine ⟨rfl, ⟨rfl, ?_⟩, by simp, trivial⟩
      cases hsession : t.sessionIDRef run.component with
      | none => exact .inl rfl
      | some sessionID =>
        obtain ⟨hleads, hfine⟩ := href sessionID hsession
        refine .inr ⟨hknown ▸ hleads, fun hmem => hfine ?_⟩
        exact hrejected ▸ hmem.2
    · simp only [State.setSocket, Function.update_of_ne hm] at hx
      change t.sockets m = some x at hx
      rw [hsockets] at hx
      obtain ⟨old, hold⟩ := hwired.made m x hx
      have hworkstation : run'.workstationID = old.workstationID := by
        by_cases hid : x.run = id
        · simp only [State.setSocket, State.setRun, hid, Function.update_self,
            Option.some.injEq] at hrun'
          subst hrun'
          exact (hsame old (hid ▸ hold)).symm
        · simp only [State.setSocket, State.setRun, Function.update_of_ne hid, hruns _ hid,
            hold, Option.some.injEq] at hrun'
          rw [hrun']
      have howned := h.socket m x old hx hold
      rw [hworkstation]
      refine howned.of_same rfl rfl rfl (fun _ _ h => h) ?_ ?_
      · exact hknown ▸ Known.Grows.refl _
      · exact fun sessionID hmem => ⟨hmem.1, hrejected ▸ hmem.2⟩
  · intro sessionID y m hy hm
    change t.sessions sessionID = some y at hy
    rw [hsessions] at hy
    obtain ⟨x, member, request, next, hx, hrest⟩ := h.joined sessionID y m hy hm
    have hne : m ≠ n := by
      rintro rfl
      rw [hn] at hx
      cases hx
    have hbefore : t.Joined m y.info := ⟨x, member, request, next, hsockets ▸ hx, hrest⟩
    exact State.Joined.setSocket_of_ne hbefore hne _
  · change ∀ sessionID y, t.sessions sessionID = some y → _
    rw [hsessions]
    exact h.exclusive
  · change t.rejected.Nodup
    rw [hrejected]
    exact h.once
  · intro j sessionID hmem
    change _ ∈ t.rejected at hmem
    rw [hrejected] at hmem
    obtain ⟨hold, hsession⟩ := h.rejected j sessionID hmem
    change _ ∧ t.known sessionID ≠ none
    rw [hknown]
    refine ⟨?_, hsession⟩
    by_cases hj : j = id
    · simp [State.setSocket, State.setRun, hj]
    · simpa [State.setSocket, State.setRun, hj, hruns j hj] using hold

/-- Closing a WebSocket does not change whose it is. -/
theorem Run.follows_onclose (run : Run) (n : ℕ) (attempted : Option String) (code : ℕ) :
    run.Follows (run.onclose n attempted code) := by
  have hschedule : ∀ next : Run, run.Follows next → run.Follows next.scheduleReconnect := by
    intro next hnext
    unfold scheduleReconnect
    split
    · exact hnext
    · exact ⟨hnext.component, hnext.workstationID, hnext.disposed⟩
  have hfirst : run.Follows (if run.socketRef = some n then { run with socketRef := none }
      else run) := by
    split
    · exact ⟨rfl, rfl, fun h => h⟩
    · exact .refl run
  unfold onclose
  generalize (if run.socketRef = some n then { run with socketRef := none } else run) = first
    at hfirst
  dsimp only
  split
  · exact hfirst
  · split
    all_goals exact hschedule _ ⟨hfirst.component, hfirst.workstationID, hfirst.disposed⟩

/-- The terminal keeps the id of the session that it is joined with. -/
theorem Owned.ready (h : Owned s) (hwired : Wired s) (hx : s.sockets n = some x)
    (hrun : s.runs x.run = some run) {sessionID : String} {recovered throws : Bool}
    {inbox : List Terminal.Outbound} (hinbox : x.inbox = .ready sessionID recovered :: inbox)
    (hstate : x.readyState = .opened) (hset : Continues s (s.setSocket n { x with inbox })) :
    Owned ((s.setSocket n { x with inbox }).handleMessage run throws
      (.ready sessionID recovered)) := by
  have hopen : x.readyState ≠ .closed := by simp [hstate]
  have hactive : run.disposed = false := by
    cases hwired.connection x.run run hrun with
    | connected _ _ hdisposed | waiting _ hdisposed => exact hdisposed
    | disposed _ _ hclosed =>
      rcases hclosed n _ ⟨x, hx, rfl, hstate⟩ with heq | heq <;> cases heq
  obtain ⟨hleads, hfine⟩ := (h.socket n x run hx hrun).inbox sessionID recovered (by simp [hinbox])
  have hkept : (x.run, sessionID) ∉ s.rejected := fun hmem => hfine ⟨hopen, hmem⟩
  unfold State.handleMessage
  dsimp only
  split
  next hne =>
    apply h.continues
    · exact ⟨hset.sessions, hset.runs, hset.sockets⟩
    · intro tab workstationID found hstored
      by_cases htab : tab = run.component.1
      · subst htab
        simp only [Function.update_self] at hstored
        rcases eq_of_saveTerminalSessionID hstored with hstored | ⟨rfl, rfl⟩
        · exact h.storage _ _ _ hstored
        · exact hleads
      · simp only [Function.update_of_ne htab] at hstored
        exact h.storage tab workstationID found hstored
    · intro id other found hother hactive' hsession
      by_cases hcomponent : other.component = run.component
      · -- a component has one effect only
        have hone := (hwired.current run.component id).mpr ⟨other, hother, hcomponent, hactive'⟩
        have htwo := (hwired.current run.component x.run).mpr ⟨run, hrun, rfl, hactive⟩
        rw [hone] at htwo
        cases htwo
        simp only [hcomponent, Function.update_self, Option.some.injEq] at hsession
        subst hsession
        change s.runs x.run = some other at hother
        rw [hrun] at hother
        cases hother
        exact ⟨hleads, hkept⟩
      · simp only [Function.update_of_ne hcomponent] at hsession
        exact h.ref id other found hother hactive' hsession
    · exact fun _ _ _ _ _ hmem => hmem
    · exact h.once
    · exact h.rejected
  next => exact h.continues_same hset h.storage rfl rfl

/-- The terminal gives up a session once. -/
theorem Owned.gives_up (h : Owned s) (hwired : Wired s) (hx : s.sockets n = some x)
    (hrun : s.runs x.run = some run) (hstate : x.readyState ≠ .closed) {code : ℕ} {throws : Bool}
    (hactive : run.disposed = false) (hrejects : Run.rejects x.attemptedSessionID code = true)
    (hset : Continues s ((s.setSocket n { x with readyState := .closed }).setRun x.run
      (run.onclose n x.attemptedSessionID code))) :
    Owned { (s.setSocket n { x with readyState := .closed }).setRun x.run
        (run.onclose n x.attemptedSessionID code) with
      sessionIDRef := Function.update s.sessionIDRef run.component none
      storage := Function.update s.storage run.component.1
        (clearTerminalSessionID (s.storage run.component.1) throws run.workstationID)
      rejected := (x.run, x.attemptedSessionID.getD "") :: s.rejected } := by
  have howned := h.socket n x run hx hrun
  have hsession : x.attemptedSessionID.getD "" ≠ "" := by
    cases hattempted : x.attemptedSessionID with
    | none => simp [Run.rejects, truthy, hattempted] at hrejects
    | some sessionID =>
      simp only [Run.rejects, truthy, hattempted, Option.any_some, Bool.and_eq_true,
        decide_eq_true_eq] at hrejects
      exact hrejects.1
  obtain ⟨hleads, hfine⟩ := howned.asks.session.resolve_left (howned.attempted ▸ hsession)
  rw [howned.attempted] at hleads hfine
  apply h.continues
  · exact ⟨hset.sessions, hset.runs, hset.sockets⟩
  · intro tab workstationID found hstored
    by_cases htab : tab = run.component.1
    · subst htab
      simp only [Function.update_self] at hstored
      exact h.storage _ _ _ (eq_of_clearTerminalSessionID hstored)
    · simp only [Function.update_of_ne htab] at hstored
      exact h.storage tab workstationID found hstored
  · intro id other' found hother' hactive' hfound
    obtain ⟨other, hother, hfollows⟩ := hset.exists_run hother'
    by_cases hcomponent : other'.component = run.component
    · simp [hcomponent] at hfound
    · simp only [Function.update_of_ne hcomponent] at hfound
      rw [hfollows.component] at hfound hcomponent
      rw [hfollows.workstationID]
      obtain ⟨hleads', hfine'⟩ := h.ref id other found hother (hfollows.disposed hactive') hfound
      refine ⟨hleads', fun hmem => ?_⟩
      rcases List.mem_cons.mp hmem with heq | hmem
      · cases heq
        rw [hrun] at hother
        cases hother
        exact hcomponent rfl
      · exact hfine' hmem
  · intro m y found hy hopen hmem
    rcases List.mem_cons.mp hmem with heq | hmem
    · -- the run has no other WebSocket
      have hyrun : y.run = x.run := congrArg Prod.fst heq
      have hne : m ≠ n := by
        rintro rfl
        simp only [State.setRun, State.setSocket, Function.update_self, Option.some.injEq] at hy
        subst hy
        exact hopen rfl
      simp only [State.setRun, State.setSocket, Function.update_of_ne hne] at hy
      cases hwired.connection x.run run hrun with
      | connected k _ _ _ _ _ _ hone =>
        have hnk := hone n _ ⟨x, hx, rfl, rfl⟩ hstate
        have hmk := hone m _ ⟨y, hy, hyrun, rfl⟩ hopen
        exact absurd (hmk.trans hnk.symm) hne
      | waiting _ _ _ _ _ _ hclosed => exact absurd (hclosed n _ ⟨x, hx, rfl, rfl⟩) hstate
      | disposed hdisposed => simp [hdisposed] at hactive
    · exact hmem
  · exact List.nodup_cons.mpr ⟨fun hmem => hfine ⟨hstate, hmem⟩, h.once⟩
  · intro id found hmem
    rcases List.mem_cons.mp hmem with heq | hmem
    · cases heq
      obtain ⟨info, hinfo, -⟩ := hleads
      exact ⟨by simp [hrun], by simp [hinfo]⟩
    · exact h.rejected id found hmem

/-- The browser keeps what every terminal has to do with. -/
theorem Owned.browses (h : Owned s) (hwired : Wired s) (hstep : Browses s t) : Owned t := by
  cases hstep with
  | openTab tab source htab =>
    refine h.continues_same (.of_same rfl rfl rfl) ?_ rfl rfl
    intro tab' workstationID sessionID hstored
    by_cases htab' : tab' = tab
    · subst htab'
      simp only [Function.update_self] at hstored
      cases source with
      | none => cases hstored
      | some source => exact h.storage source workstationID sessionID hstored
    · simp only [Function.update_of_ne htab'] at hstored
      exact h.storage tab' workstationID sessionID hstored
  | unload tab => exact h.continues_same (.unload s tab) h.storage rfl rfl
  | effect component workstationID id n cols rows throws hcurrent hrun hn hne htrim =>
    refine h.connect hwired rfl rfl rfl rfl hn (fun _ _ => rfl) rfl ⟨hne, htrim⟩ ?_ ?_ ?_
    · intro old hold
      rw [hrun] at hold
      cases hold
    · intro sessionID hsession
      simp only [State.startEffect, Function.update_self] at hsession
      refine ⟨h.storage _ _ _ (eq_of_loadTerminalSessionID hsession), fun hmem => ?_⟩
      exact (h.rejected id sessionID hmem).1 hrun
    · intro j other sessionID hj hother hactive hsession
      have hmounted := (hwired.current other.component j).mpr ⟨other, hother, rfl, hactive⟩
      have hne : other.component ≠ component := by
        intro heq
        rw [heq, hcurrent] at hmounted
        cases hmounted
      simp only [State.startEffect, Function.update_of_ne hne] at hsession
      exact h.ref j other sessionID hother hactive hsession
  | cleanup component id run hcurrent hrun =>
    refine h.continues_same ?_ h.storage rfl rfl
    have hset : Continues s (s.setRun id { run with disposed := true, reconnectTimer := none }) :=
      (Continues.of_same rfl rfl rfl).setRun hrun ⟨rfl, rfl, by simp⟩
    apply Continues.close
    · exact ⟨hset.sessions, hset.runs, hset.sockets⟩
    · rfl
  | timer id run n cols rows hrun htimer hn =>
    have hdisposed : run.disposed = false := by
      cases hwired.connection id run hrun with
      | connected _ _ hdisposed | waiting _ hdisposed => exact hdisposed
      | disposed _ hnone => simp [hnone] at htimer
    refine h.connect hwired rfl rfl rfl rfl hn ?_ hdisposed (h.runs id run hrun) ?_ ?_ ?_
    · intro j hj
      exact Function.update_of_ne hj _ _
    · intro old hold
      rw [hrun] at hold
      cases hold
      rfl
    · intro sessionID hsession
      exact h.ref id run sessionID hrun hdisposed hsession
    · intro j other sessionID _ hother hactive hsession
      exact h.ref j other sessionID hother hactive hsession
  | onopen n x run hx hrun hstate =>
    refine h.continues_same ?_ h.storage rfl rfl
    refine Continues.setRun (Continues.setSocket hx ?_) hrun ?_
    · exact ⟨rfl, rfl, rfl, rfl, rfl, fun _ h => h, by simp [hstate]⟩
    · exact ⟨rfl, rfl, id⟩
  | onmessage n x run throws message inbox hx hrun hinbox hstate =>
    have hset : Continues s (s.setSocket n { x with inbox }) := by
      refine .setSocket hx ⟨rfl, rfl, rfl, rfl, rfl, fun m hm => ?_, fun h => h⟩
      rw [hinbox]
      exact List.mem_cons_of_mem _ hm
    cases message with
    | ready sessionID recovered => exact h.ready hwired hx hrun hinbox hstate hset
    | error | output => exact h.continues_same hset h.storage rfl rfl
  | onerror n =>
    exact h.continues_same (.close (.of_same rfl rfl rfl) rfl (some n)) h.storage rfl rfl
  | onclose n x run code throws hx hrun hstate =>
    have hset : Continues s ((s.setSocket n { x with readyState := .closed }).setRun x.run
        (run.onclose n x.attemptedSessionID code)) := by
      refine Continues.setRun (.setSocket hx ?_) hrun (run.follows_onclose n _ code)
      exact ⟨rfl, rfl, rfl, rfl, rfl, fun _ h => h, by simp⟩
    unfold State.onclose
    dsimp only
    split
    next hrejects =>
      simp only [Bool.and_eq_true, Bool.not_eq_true'] at hrejects
      exact h.gives_up hwired hx hrun hstate hrejects.1 hrejects.2 hset
    next => exact h.continues_same hset h.storage rfl rfl

/-- Without tabs and sessions there is nothing to own. -/
theorem owned_initial : Owned .initial where
  ids sessionID info h := by cases h
  storage tab workstationID sessionID h := by cases h
  runs id run h := by cases h
  ref id run sessionID h := by cases h
  socket n x run h := by cases h
  joined sessionID y n h := by cases h
  exclusive sessionID y h := by cases h
  once := List.nodup_nil
  rejected id sessionID h := by cases h

/-- Every terminal has to do with its own workstation only. -/
theorem owned (h : system.Reachable s) : Owned s := by
  refine h.invariant ?_ ?_
  · rintro s rfl
    exact owned_initial
  · intro s e t hreach _ hnext hs
    rcases browses_or_serves hnext with hstep | hstep
    · exact hs.browses (wired hreach) hstep
    · exact hs.serves (wired hreach) hstep

/-- Whatever tabs and members there are, a connection is joined only with a session of the
workstation that its terminal is for, and of the member who is signed in. An attachment of
a session is such a connection. -/
theorem own_machine (h : system.Reachable s) {run : Run} (hx : s.sockets n = some x)
    (hrun : s.runs x.run = some run) :
    (∀ member info request next,
      x.handler = .running member (.call (.attach info request) next) →
      info.workstationID = run.workstationID ∧ member = some info.memberID) ∧
    ∀ sessionID y, s.sessions sessionID = some y → y.attachment = some n →
      y.info.workstationID = run.workstationID ∧
      ∃ member request next, x.handler = .running member (.call (.attach y.info request) next) := by
  have howned := owned h
  have hjoins : ∀ member info request next,
      x.handler = .running member (.call (.attach info request) next) →
      info.workstationID = run.workstationID ∧ member = some info.memberID := by
    intro member info request next hhandler
    obtain ⟨-, hmember, hworkstation, -⟩ :=
      (howned.socket n x run hx hrun).handler.joins hhandler
    exact ⟨hworkstation, hmember⟩
  refine ⟨hjoins, fun sessionID y hy hattachment => ?_⟩
  obtain ⟨-, member, request, next, hhandler⟩ :=
    (howned.joined sessionID y n hy (.inl hattachment)).handler hx
  exact ⟨(hjoins member y.info request next hhandler).1, member, request, next, hhandler⟩

/-- The first tab has its shell back. -/
theorem own_machine_duplicated : ∃ s x run y, system.Reachable s ∧ s.sockets 2 = some x ∧
    s.runs x.run = some run ∧ s.sessions "shell" = some y ∧ y.attachment = some 2 ∧
    y.info.workstationID = run.workstationID := by
  have hrun : ∃ s x run y, runEvents State.step .initial duplicated = some s ∧
      s.sockets 2 = some x ∧ s.runs x.run = some run ∧ s.sessions "shell" = some y ∧
      y.attachment = some 2 := ⟨_, _, _, _, rfl, rfl, rfl, rfl, rfl⟩
  obtain ⟨s, x, run, y, hs, hx, hrun, hy, hattachment⟩ := hrun
  have hreach : system.Reachable s := reachable_of_runEvents rfl hs
  obtain ⟨-, hown⟩ := own_machine hreach hx hrun
  exact ⟨s, x, run, y, hreach, hx, hrun, hy, hattachment, (hown "shell" y hy hattachment).1⟩

/-- A terminal is told at most once to give up a session, and asks for it on no connection
that it has afterwards. -/
theorem rejected_once (h : system.Reachable s) :
    s.rejected.Nodup ∧ ∀ id sessionID, (id, sessionID) ∈ s.rejected →
      ∀ n x, s.sockets n = some x → x.run = id → x.readyState ≠ .closed →
        x.query.session ≠ sessionID ∧
        ∀ recovered, .ready sessionID recovered ∉ x.inbox := by
  have howned := owned h
  refine ⟨howned.once, fun id sessionID hmem n x hx hid hopen => ?_⟩
  subst hid
  obtain ⟨run, hrun⟩ := (wired h).made n x hx
  have hsocket := howned.socket n x run hx hrun
  have hgivenUp : sessionID ∈ s.givenUp x := ⟨hopen, hmem⟩
  constructor
  · rintro rfl
    rcases hsocket.asks.session with hempty | ⟨-, hfine⟩
    · obtain ⟨info, hinfo⟩ := Option.ne_none_iff_exists'.mp (howned.rejected _ _ hmem).2
      exact (howned.ids _ info hinfo).2.1 hempty
    · exact hfine hgivenUp
  · intro recovered hready
    exact (hsocket.inbox sessionID recovered hready).2 hgivenUp

/-- The copy asks for another shell. -/
theorem rejected_once_duplicated : ∃ s x, system.Reachable s ∧ (1, "shell") ∈ s.rejected ∧
    s.sockets 3 = some x ∧ x.run = 1 ∧ x.readyState ≠ .closed ∧ x.query.session ≠ "shell" := by
  have hrun : ∃ s x, runEvents State.step .initial (duplicated ++ [.inl (.timer 1 3 80 24)]) =
      some s ∧ s.rejected = [(1, "shell")] ∧ s.sockets 3 = some x ∧ x.run = 1 ∧
      x.readyState = .connecting := ⟨_, _, rfl, rfl, rfl, rfl, rfl⟩
  obtain ⟨s, x, hs, hrejected, hx, hxrun, hstate⟩ := hrun
  have hreach : system.Reachable s := reachable_of_runEvents rfl hs
  have hmem : (1, "shell") ∈ s.rejected := by simp [hrejected]
  have hopen : x.readyState ≠ .closed := by simp [hstate]
  obtain ⟨-, hnever⟩ := rejected_once hreach
  exact ⟨s, x, hreach, hmem, hx, hxrun, hopen, (hnever 1 "shell" hmem 3 x hx hxrun hopen).1⟩

end MiniControl.Frontend.RemoteTerminal
