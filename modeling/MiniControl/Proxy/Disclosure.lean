import MiniControl.Proxy.Consistency

/-!
# What a poll discloses

A worker that polls is told the tokens of the pending sessions that the call collected
when it started. Sessions that no longer belong to the worker are closed on the way,
one after another, while other calls run.
-/

namespace MiniControl.Proxy

open Transition

/-- The sessions that a poll has yet to look at, and its result so far. -/
def Phase.polled : Phase → Option (List SessionID × List PendingResp)
  | .polling sessions result => some (sessions, result)
  | .removing _ _ (.poll sessions result) => some (sessions, result)
  | .closing _ _ (.poll sessions result) => some (sessions, result)
  | .returned (.pending result) => some ([], result)
  | _ => none

/-- The sessions that a poll under way has yet to look at. -/
def Phase.remaining : Phase → Option (List SessionID)
  | .polling sessions _ => some sessions
  | .removing _ _ (.poll sessions _) => some sessions
  | .closing _ _ (.poll sessions _) => some sessions
  | _ => none

/-- The session was created for the worker. -/
def State.CreatedFor (s : State) (workerID : String) (id : SessionID) : Prop :=
  ∃ x, s.created id = some x ∧ x.workerID = workerID

/-- The entry has the token of a session that was created for the worker. -/
def State.Entitled (s : State) (workerID : String) (p : PendingResp) : Prop :=
  ∃ x, s.created p.sessionID = some x ∧ x.workerID = workerID ∧ x.token = p.token

/-- The call is a poll that has seen and will see sessions of the worker only. -/
structure State.Polls (s : State) (c : ℕ) (workerID : String) (sessions : List SessionID)
    (result : List PendingResp) : Prop where
  phase : (s.calls c).polled = some (sessions, result)
  sessions : ∀ id ∈ sessions, s.CreatedFor workerID id
  result : ∀ p ∈ result, s.Entitled workerID p

section

variable {s t : State} {e : Event} {workerID : String} {c : ℕ} {sessions order : List SessionID}
  {result : List PendingResp}

/-- A poll that still has sessions to close keeps its answer. -/
theorem polled_closeAll (sessions : List SessionID) (result : List PendingResp)
    (ids : List SessionID) :
    (Phase.closeAll (.poll sessions result) ids).polled = some (sessions, result) := by
  cases ids <;> rfl

/-- The worker of a session stays. -/
theorem Effect.createdFor {id : SessionID} (h : Effect s e t) (hs : s.CreatedFor workerID id) :
    t.CreatedFor workerID id := by
  obtain ⟨x, hx, hworker⟩ := hs
  refine h.persists hx hworker (fun role c hworker => ?_) fun hworker => hworker
  simp only [ProxySession.setConn]
  split <;> cases role <;> exact hworker

/-- The worker and the token of a session stay. -/
theorem Effect.entitled {p : PendingResp} (h : Effect s e t) (hs : s.Entitled workerID p) :
    t.Entitled workerID p := by
  obtain ⟨x, hx, hkept⟩ := hs
  refine h.persists hx hkept (fun role c hkept => ?_) fun hkept => hkept
  simp only [ProxySession.setConn]
  split <;> cases role <;> exact hkept

/-- What a step does to the sessions that a poll has yet to look at and to its result. -/
inductive PolledChange (s : State) (e : Event) (t : State) (c : ℕ) (sessions : List SessionID)
    (result : List PendingResp) : Prop
  | same (ht : (t.calls c).polled = some (sessions, result))
  | report (choice : Bool) (id : SessionID) (rest : List SessionID) (x : ProxySession)
      (he : e = .call c choice) (hsessions : sessions = id :: rest) (hx : s.created id = some x)
      (ht : (t.calls c).polled =
        some (rest, result ++ [⟨id, x.target, x.vmID, x.port, x.token⟩]))
  | drop (choice : Bool) (id : SessionID) (rest : List SessionID) (x : ProxySession)
      (he : e = .call c choice) (hc : s.calls c = .polling (id :: rest) result)
      (hsessions : sessions = id :: rest) (hx : s.created id = some x) (htarget : x.target = .vm)
      (ht : (t.calls c).polled = some (rest, result))

/-- A poll looks at its sessions one after another. -/
theorem Effect.polled (h : Effect s e t) (hpolled : (s.calls c).polled = some (sessions, result)) :
    PolledChange s e t c sessions result := by
  cases h.call c with
  | same ht => exact .same (by rw [ht, hpolled])
  | start hc _ =>
    rw [hc] at hpolled
    cases hpolled
  | join _ _ _ _ _ hc =>
    rw [hc] at hpolled
    cases hpolled
  | remove id rest next hc _ ht =>
    rw [hc] at hpolled
    cases next with
    | finish => cases hpolled
    | poll => exact .same (by rw [ht]; exact hpolled)
  | close id rest next x hc _ _ ht =>
    rw [hc] at hpolled
    cases next with
    | finish => cases hpolled
    | poll =>
      cases hpolled
      exact .same (by rw [ht, polled_closeAll])
  | move choice he hmoves =>
    generalize hp : s.calls c = p at hmoves hpolled
    generalize hq : t.calls c = q at hmoves
    cases hmoves with
    | polled =>
      cases hpolled
      exact .same (by rw [hq]; rfl)
    | @drop id x rest _ hx htarget =>
      cases hpolled
      exact .drop choice id rest x he hp rfl hx htarget (by rw [hq]; rfl)
    | @report id x rest _ hx =>
      cases hpolled
      exact .report choice id rest x he rfl hx (by rw [hq]; rfl)
    | skip rest next =>
      cases next with
      | finish => cases hpolled
      | poll =>
        cases hpolled
        exact .same (by rw [hq, polled_closeAll])
    | _ => cases hpolled

/-- Every step keeps a poll among the sessions of its worker. -/
theorem State.Polls.step (hs : s.Polls c workerID sessions result) (h : Effect s e t) :
    ∃ sessions' result', t.Polls c workerID sessions' result' := by
  have hsessions : ∀ id ∈ sessions, t.CreatedFor workerID id := fun id hid =>
    h.createdFor (hs.sessions id hid)
  have hresult : ∀ p ∈ result, t.Entitled workerID p := fun p hp => h.entitled (hs.result p hp)
  cases h.polled hs.phase with
  | same ht => exact ⟨sessions, result, ht, hsessions, hresult⟩
  | drop choice id rest x he hc heq hx _ ht =>
    subst heq
    exact ⟨rest, result, ht, fun id hid => hsessions id (List.mem_cons_of_mem _ hid), hresult⟩
  | report choice id rest x he heq hx ht =>
    subst heq
    refine ⟨rest, _, ht, fun id hid => hsessions id (List.mem_cons_of_mem _ hid), fun p hp => ?_⟩
    rcases List.mem_append.mp hp with hold | hnew
    · exact hresult p hold
    · rw [List.mem_singleton.mp hnew]
      obtain ⟨y, hy, hworker⟩ := hs.sessions id List.mem_cons_self
      obtain rfl : x = y := Option.some.inj (hx.symm.trans hy)
      exact h.entitled ⟨x, hx, hworker, rfl⟩

/-- A poll starts with the pending sessions of its worker. -/
theorem polls_of_poll (h : system.next s (.poll c workerID order) t) :
    t.Polls c workerID order [] ∧ t.calls c = .polling order [] ∧
      order.Perm (s.select (ProxySession.isPendingOf workerID)) := by
  obtain ⟨_, horder, rfl⟩ := start_eq h
  refine ⟨⟨by rw [State.goto_self]; rfl, fun id hid => ?_, fun p hp => absurd hp List.not_mem_nil⟩,
    s.goto_self c _, horder⟩
  obtain ⟨x, hx, hpending⟩ := State.mem_select.mp (horder.mem_iff.mp hid)
  simp only [ProxySession.isPendingOf, Bool.and_eq_true, decide_eq_true_eq] at hpending
  exact ⟨x, (Option.ite_none_right_eq_some.mp hx).2, hpending.1⟩

/-- A poll answers with the tokens of sessions that were created for its worker. -/
theorem entitled_of_poll {u : State} (hpoll : system.next s (.poll c workerID order) t)
    (hrun : system.Leads t u) (hresult : u.calls c = .returned (.pending result)) :
    ∀ p ∈ result, u.Entitled workerID p := by
  have hstart : t.Polls c workerID order [] := (polls_of_poll hpoll).1
  have hpolls : ∃ sessions result, u.Polls c workerID sessions result := by
    clear hresult
    induction hrun with
    | refl => exact ⟨order, [], hstart⟩
    | tail _ _ hnext ih =>
      obtain ⟨sessions, result, hpolls⟩ := ih
      exact hpolls.step (step_effect hnext)
  obtain ⟨sessions, result', hpolls⟩ := hpolls
  have hphase := hpolls.phase
  rw [hresult] at hphase
  cases hphase
  exact hpolls.result

/-- The poll under way has a result so far. -/
theorem Phase.polled_of_remaining {p : Phase} (h : p.remaining = some sessions) :
    ∃ result, p.polled = some (sessions, result) := by
  cases p with
  | polling ids result =>
    cases h
    exact ⟨result, rfl⟩
  | removing id rest next | closing id rest next =>
    cases next with
    | finish => cases h
    | poll ids result =>
      cases h
      exact ⟨result, rfl⟩
  | _ => cases h

/-- A call that only has sessions to close looks at no further ones. -/
theorem remaining_closeAll_finish (result : Result) (ids : List SessionID) :
    (Phase.closeAll (.finish result) ids).remaining = none := by
  cases ids <;> rfl

/-- A call that is not a poll does not become one. -/
theorem Effect.remaining (h : Effect s e t) (hc : s.calls c ≠ .unused)
    (hs : (s.calls c).remaining = none) : (t.calls c).remaining = none := by
  cases h.call c with
  | same ht => rw [ht, hs]
  | start hunused _ => exact absurd hunused hc
  | join _ _ _ x _ _ _ _ ht =>
    rw [ht]
    split <;> rfl
  | remove id rest next hphase _ ht =>
    rw [hphase] at hs
    rw [ht]
    cases next with
    | poll => cases hs
    | finish => rfl
  | close id rest next x hphase _ _ ht =>
    rw [hphase] at hs
    cases next with
    | poll => cases hs
    | finish result => rw [ht, remaining_closeAll_finish]
  | move _ _ hmoves =>
    generalize s.calls c = p at hmoves hs
    generalize t.calls c = q at hmoves
    cases hmoves with
    | skip rest next =>
      cases next with
      | poll => cases hs
      | finish result => exact remaining_closeAll_finish result rest
    | drop | report => cases hs
    | _ => rfl

/-- Where sessions and polls come from, by the event of the step. -/
inductive Origin (s : State) : Event → State → Prop
  | kept {e : Event} {t : State} (hcreated : t.created = s.created) (hcalls : t.calls = s.calls) :
      Origin s e t
  | create (id : SessionID) (target : ProxyTarget) (vmID workerID : String) (port : ℤ)
      (token : String) (createdAt : ℕ) :
      Origin s (.create id target vmID workerID port token createdAt)
        (s.create id (.new target vmID workerID port token createdAt))
  | poll (c : ℕ) (workerID : String) (order : List SessionID) :
      Origin s (.poll c workerID order) (s.goto c (.polling order []))
  | start {e : Event} {c : ℕ} {p : Phase} (hc : s.calls c = .unused) (hp : p.remaining = none) :
      Origin s e (s.goto c p)
  | call {c : ℕ} {choice : Bool} {t : State} (hc : s.calls c ≠ .unused)
      (hcalls : ∀ d, d ≠ c → t.calls d = s.calls d)
      (hcreated : ∀ id x, t.created id = some x → ∃ y, s.created id = some y) :
      Origin s (.call c choice) t

/-- The action of a call is one of that call on a session that exists. -/
theorem origin_call {choice : Bool} (h : callStep s c choice (s.calls c) = some t) :
    Origin s (.call c choice) t := by
  have hgoto {u : State} {p : Phase} (ht : t = u.goto c p) (hcalls : u.calls = s.calls)
      (hcreated : ∀ id x, u.created id = some x → ∃ y, s.created id = some y) :
      Origin s (.call c choice) t := by
    subst ht
    refine .call (fun hc => ?_) (fun d hd => ?_) hcreated
    · rw [hc] at h
      cases h
    · rw [State.goto_of_ne _ _ hd, hcalls]
  have hput {id : SessionID} {x y : ProxySession} (hx : s.created id = some x) :
      ∀ other z, (s.put id y).created other = some z → ∃ z', s.created other = some z' := by
    intro other z hz
    by_cases hid : other = id
    · exact ⟨x, hid ▸ hx⟩
    · exact ⟨z, by rwa [State.put_of_ne _ _ hid] at hz⟩
  have hmove {p : Phase} (ht : s.goto c p = t) : Origin s (.call c choice) t :=
    hgoto ht.symm rfl fun _ x hx => ⟨x, hx⟩
  generalize hphase : s.calls c = phase at h
  cases phase with
  | unused | returned => cases h
  | get request role =>
    rw [callStep] at h
    split at h
    · exact hmove (Option.some.inj h)
    · split at h <;> exact hmove (Option.some.inj h)
  | accept | lookup | relaying => exact hmove (Option.some.inj h)
  | update id role =>
    obtain ⟨x, hx, hxt⟩ := Option.map_eq_some_iff.mp h
    exact hgoto hxt.symm rfl (hput hx)
  | awaitReady id | wait id =>
    obtain ⟨x, hx, hxt⟩ := Option.bind_eq_some_iff.mp h
    split at hxt
    · exact hmove (Option.some.inj hxt)
    · exact hmove (Option.some.inj (Option.ite_none_right_eq_some.mp hxt).2)
  | readConns id =>
    obtain ⟨x, hx, hxt⟩ := Option.map_eq_some_iff.mp h
    split at hxt <;> exact hmove hxt
  | polling ids result =>
    cases ids with
    | nil => exact hmove (Option.some.inj h)
    | cons id rest =>
      obtain ⟨x, hx, hxt⟩ := Option.map_eq_some_iff.mp h
      split at hxt <;> exact hmove hxt
  | removing id rest next =>
    rw [callStep] at h
    split at h
    · exact hgoto (Option.some.inj h).symm rfl fun _ x hx => ⟨x, hx⟩
    · exact hmove (Option.some.inj h)
  | closing id rest next =>
    obtain ⟨x, hx, hxt⟩ := Option.map_eq_some_iff.mp h
    exact hgoto hxt.symm rfl (hput hx)

/-- Sessions are made by `Create`, and polls start with the event of a poll. -/
theorem step_origin (h : step s e = some t) : Origin s e t := by
  have hstart {c : ℕ} {p : ProxySession → Bool} {order : List SessionID} {result : Result}
      (h : s.start c p order (.closeAll (.finish result) order) = some t) : Origin s e t := by
    obtain ⟨hc, _, rfl⟩ := start_eq h
    exact .start hc (remaining_closeAll_finish result order)
  cases e with
  | tick elapsed =>
    obtain rfl := Option.some.inj h
    exact .kept rfl rfl
  | create id target vmID workerID port token createdAt =>
    obtain ⟨_, ht⟩ := Option.ite_none_right_eq_some.mp h
    obtain rfl := Option.some.inj ht
    exact .create id target vmID workerID port token createdAt
  | serve c request =>
    obtain ⟨hc, ht⟩ := Option.ite_none_right_eq_some.mp h
    split at ht
    · obtain rfl := Option.some.inj ht
      exact .start hc rfl
    · obtain rfl := Option.some.inj ht
      exact .start hc rfl
  | poll c workerID order =>
    obtain ⟨_, _, rfl⟩ := start_eq h
    exact .poll c workerID order
  | close c id =>
    obtain ⟨hc, ht⟩ := Option.ite_none_right_eq_some.mp h
    obtain rfl := Option.some.inj ht
    exact .start hc rfl
  | closeByWorker c workerID order => exact hstart h
  | closeByVM c vmID order => exact hstart h
  | reap c order => exact hstart h
  | call c choice => exact origin_call h
  | disconnect c =>
    obtain ⟨_, ht⟩ := Option.ite_none_right_eq_some.mp h
    obtain rfl := Option.some.inj ht
    exact .kept rfl rfl

/-- Only the event of a poll starts a poll. -/
theorem remaining_of_step (h : step s e = some t) (hpoll : ∀ c w order, e ≠ .poll c w order)
    (hs : (s.calls c).remaining = none) : (t.calls c).remaining = none := by
  cases step_origin h with
  | kept _ hcalls => rw [hcalls, hs]
  | create => exact hs
  | poll d workerID order => exact absurd rfl (hpoll d workerID order)
  | @start _ d p _ hp =>
    by_cases hcd : c = d
    · rw [hcd, State.goto_self, hp]
    · rw [State.goto_of_ne _ _ hcd, hs]
  | @call d choice _ hd hcalls _ =>
    by_cases hcd : c = d
    · subst hcd
      exact (step_effect h).remaining hd hs
    · rw [hcalls c hcd, hs]

end

end MiniControl.Proxy
