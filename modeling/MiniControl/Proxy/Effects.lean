import MiniControl.Proxy.Manager

/-!
# What a step of the session manager does

The steps by what they change: the position of a call alone, one session object, the
map, the connections, or the time. All invariants of the manager are proved by cases
on this.
-/

namespace MiniControl.Proxy

open Transition

/-- The answer of `SetConn` that a handler returned with. -/
def Next.answer : Next → Option (SessionID × Bool)
  | .finish (.served id bothReady) => some (id, bothReady)
  | _ => none

/-- The answer of `SetConn` to a WebSocket handler that has it, with the session. -/
def Phase.answer : Phase → Option (SessionID × Bool)
  | .awaitReady id | .readConns id | .relaying id _ _ => some (id, true)
  | .wait id => some (id, false)
  | .removing _ _ next | .closing _ _ next => next.answer
  | .returned (.served id bothReady) => some (id, bothReady)
  | _ => none

/-- Closing sessions keeps the answer. -/
@[simp] theorem Phase.answer_closeAll (next : Next) (ids : List SessionID) :
    (Phase.closeAll next ids).answer = next.answer := by
  cases ids with
  | nil => cases next with
    | poll sessions result => rfl
    | finish result => cases result <;> rfl
  | cons id rest => rfl

/-- The positions in which calls start. -/
inductive State.Starts (s : State) : Phase → Prop
  | refuse (error : ApiError) : Starts s (.returned (.refused error))
  | serve {request : Request} {role : Role} (hcheck : request.check = .ok role) :
      Starts s (.get request role)
  | poll {workerID : String} {order : List SessionID}
      (horder : order.Perm (s.select (ProxySession.isPendingOf workerID))) :
      Starts s (.polling order [])
  | close (id : SessionID) : Starts s (.removing id [] (.finish .done))
  | closeByWorker {workerID : String} {order : List SessionID}
      (horder : order.Perm (s.select (·.workerID = workerID))) :
      Starts s (.closeAll (.finish (.count order.length)) order)
  | closeByVM {vmID : String} {order : List SessionID}
      (horder : order.Perm (s.select (·.vmID = vmID))) :
      Starts s (.closeAll (.finish (.count order.length)) order)
  | reap {order : List SessionID} (horder : order.Perm (s.select s.isStale)) :
      Starts s (.closeAll (.finish .done) order)

/-- The actions of a call that change only its position. -/
inductive State.Moves (s : State) : Phase → Phase → Prop
  | turnedAway (request : Request) (role : Role) (error : ApiError) :
      Moves s (.get request role) (.returned (.refused error))
  | admitted {request : Request} {role : Role} {x : ProxySession}
      (hget : s.get request.session = some x) (htoken : tokensMatch x.token request.token = true) :
      Moves s (.get request role) (.accept request.session role)
  | acceptFailed (id : SessionID) (role : Role) :
      Moves s (.accept id role) (.returned .acceptFailed)
  | accepted (id : SessionID) (role : Role) : Moves s (.accept id role) (.lookup id role)
  | found {id : SessionID} {role : Role} (hmem : id ∈ s.sessions) :
      Moves s (.lookup id role) (.update id role)
  | notFound {id : SessionID} {role : Role} (hmem : id ∉ s.sessions) :
      Moves s (.lookup id role) (.wait id)
  | relayCancelled (id : SessionID) : Moves s (.awaitReady id) (.closeServed id true)
  | relayReady {id : SessionID} {x : ProxySession} (hx : s.created id = some x)
      (hready : x.ready.isClosed = true) : Moves s (.awaitReady id) (.readConns id)
  | relay {id : SessionID} {x : ProxySession} {client worker : ℕ} (hx : s.created id = some x)
      (hclient : x.clientConn = some client) (hworker : x.workerConn = some worker) :
      Moves s (.readConns id) (.relaying id client worker)
  | noRelay (id : SessionID) : Moves s (.readConns id) (.closeServed id true)
  | relayEnded (id : SessionID) (client worker : ℕ) :
      Moves s (.relaying id client worker) (.closeServed id true)
  | waitCancelled (id : SessionID) : Moves s (.wait id) (.closeServed id false)
  | ended {id : SessionID} {x : ProxySession} (hx : s.created id = some x)
      (hdone : x.done.isClosed = true) : Moves s (.wait id) (.returned (.served id false))
  | polled (result : List PendingResp) : Moves s (.polling [] result) (.returned (.pending result))
  | drop {id : SessionID} {x : ProxySession} (rest : List SessionID) (result : List PendingResp)
      (hx : s.created id = some x) (htarget : x.target = .vm) :
      Moves s (.polling (id :: rest) result) (.removing id [] (.poll rest result))
  | report {id : SessionID} {x : ProxySession} (rest : List SessionID) (result : List PendingResp)
      (hx : s.created id = some x) : Moves s (.polling (id :: rest) result)
        (.polling rest (result ++ [⟨id, x.target, x.vmID, x.port, x.token⟩]))
  | skip {id : SessionID} (rest : List SessionID) (next : Next) (hmem : id ∉ s.sessions) :
      Moves s (.removing id rest next) (.closeAll next rest)

/-- The effects of one step. -/
inductive Effect (s : State) (e : Event) (t : State) : Prop
  | tick (elapsed : ℕ) (ht : t = { s with clock := s.clock + elapsed })
  | disconnect (c : ℕ) (ht : t = { s with closedConns := Function.update s.closedConns c true })
  | create (id : SessionID) (target : ProxyTarget) (vmID workerID : String) (port : ℤ)
      (token : String) (createdAt : ℕ) (hfresh : s.created id = none) (hnow : createdAt ≤ s.clock)
      (ht : t = s.create id (.new target vmID workerID port token createdAt))
  | start (c : ℕ) (p : Phase) (hc : s.calls c = .unused) (hstarts : s.Starts p)
      (ht : t = s.goto c p)
  | move (c : ℕ) (choice : Bool) (p : Phase) (he : e = .call c choice)
      (hmoves : s.Moves (s.calls c) p) (ht : t = s.goto c p)
  | join (c : ℕ) (choice : Bool) (id : SessionID) (role : Role) (x : ProxySession)
      (he : e = .call c choice) (hc : s.calls c = .update id role) (hx : s.created id = some x)
      (ht : t = (s.put id (x.setConn role c).1).goto c
        (if (x.setConn role c).2 then .awaitReady id else .wait id))
  | remove (c : ℕ) (id : SessionID) (rest : List SessionID) (next : Next)
      (hc : s.calls c = .removing id rest next) (hmem : id ∈ s.sessions)
      (ht : t = (s.remove id).goto c (.closing id rest next))
  | close (c : ℕ) (id : SessionID) (rest : List SessionID) (next : Next) (x : ProxySession)
      (hc : s.calls c = .closing id rest next) (hx : s.created id = some x)
      (ht : t = (s.closeSession id x).goto c (.closeAll next rest))

variable {s t : State} {c : ℕ} {e : Event} {p : Phase} {id : SessionID} {x : ProxySession}

/-- The effect of the next action of a call. -/
theorem callStep_effect {choice : Bool} (h : callStep s c choice (s.calls c) = some t) :
    Effect s (.call c choice) t := by
  have move {p : Phase} (hmoves : s.Moves (s.calls c) p) (ht : t = s.goto c p) :
      Effect s (.call c choice) t :=
    .move c choice p rfl hmoves ht
  cases hc : s.calls c with
  | unused => simp [callStep, hc] at h
  | returned result => simp [callStep, hc] at h
  | get request role =>
    rw [hc, callStep] at h
    cases hget : s.get request.session with
    | none =>
      rw [hget] at h
      exact move (hc ▸ .turnedAway request role _) (Option.some.inj h).symm
    | some x =>
      rw [hget] at h
      simp only at h
      split at h
      · next htoken => exact move (hc ▸ .admitted hget htoken) (Option.some.inj h).symm
      · exact move (hc ▸ .turnedAway request role _) (Option.some.inj h).symm
  | accept id role =>
    rw [hc, callStep] at h
    refine move ?_ (Option.some.inj h).symm
    rw [hc]
    split
    · exact .accepted id role
    · exact .acceptFailed id role
  | lookup id role =>
    rw [hc, callStep] at h
    refine move ?_ (Option.some.inj h).symm
    rw [hc]
    split
    · next hmem => exact .found hmem
    · next hmem => exact .notFound hmem
  | update id role =>
    rw [hc, callStep] at h
    obtain ⟨x, hx, hxt⟩ := Option.map_eq_some_iff.mp h
    exact .join c choice id role x rfl hc hx hxt.symm
  | awaitReady id =>
    rw [hc, callStep] at h
    obtain ⟨x, hx, hxt⟩ := Option.bind_eq_some_iff.mp h
    split at hxt
    · exact move (hc ▸ .relayCancelled id) (Option.some.inj hxt).symm
    · split at hxt
      · next hready => exact move (hc ▸ .relayReady hx hready) (Option.some.inj hxt).symm
      · cases hxt
  | readConns id =>
    rw [hc, callStep] at h
    obtain ⟨x, hx, hxt⟩ := Option.map_eq_some_iff.mp h
    split at hxt
    · next hclient hworker => exact move (hc ▸ .relay hx hclient hworker) hxt.symm
    · exact move (hc ▸ .noRelay id) hxt.symm
  | relaying id client worker =>
    rw [hc, callStep] at h
    exact move (hc ▸ .relayEnded id client worker) (Option.some.inj h).symm
  | wait id =>
    rw [hc, callStep] at h
    obtain ⟨x, hx, hxt⟩ := Option.bind_eq_some_iff.mp h
    split at hxt
    · exact move (hc ▸ .waitCancelled id) (Option.some.inj hxt).symm
    · split at hxt
      · next hdone => exact move (hc ▸ .ended hx hdone) (Option.some.inj hxt).symm
      · cases hxt
  | polling ids result =>
    cases ids with
    | nil =>
      rw [hc, callStep] at h
      exact move (hc ▸ .polled result) (Option.some.inj h).symm
    | cons id rest =>
      rw [hc, callStep] at h
      obtain ⟨x, hx, hxt⟩ := Option.map_eq_some_iff.mp h
      split at hxt
      · next hstale =>
        rw [Bool.and_eq_true, decide_eq_true_eq] at hstale
        exact move (hc ▸ .drop rest result hx hstale.1) hxt.symm
      · exact move (hc ▸ .report rest result hx) hxt.symm
  | removing id rest next =>
    rw [hc, callStep] at h
    split at h
    · next hmem => exact .remove c id rest next hc hmem (Option.some.inj h).symm
    · next hmem => exact move (hc ▸ .skip rest next hmem) (Option.some.inj h).symm
  | closing id rest next =>
    rw [hc, callStep] at h
    obtain ⟨x, hx, hxt⟩ := Option.map_eq_some_iff.mp h
    exact .close c id rest next x hc hx hxt.symm

/-- A call that starts with sessions of the map. -/
theorem start_eq {p : ProxySession → Bool} {order : List SessionID} {next : Phase}
    (h : s.start c p order next = some t) :
    s.calls c = .unused ∧ order.Perm (s.select p) ∧ t = s.goto c next := by
  obtain ⟨⟨hc, horder⟩, ht⟩ := Option.ite_none_right_eq_some.mp h
  exact ⟨hc, horder, (Option.some.inj ht).symm⟩

/-- The effect of a step. -/
theorem step_effect (h : step s e = some t) : Effect s e t := by
  cases e with
  | tick elapsed => exact .tick elapsed (Option.some.inj h).symm
  | create id target vmID workerID port token createdAt =>
    obtain ⟨⟨hfresh, hnow⟩, ht⟩ := Option.ite_none_right_eq_some.mp h
    exact .create id target vmID workerID port token createdAt hfresh hnow
      (Option.some.inj ht).symm
  | serve c request =>
    obtain ⟨hc, ht⟩ := Option.ite_none_right_eq_some.mp h
    split at ht
    · next role hcheck => exact .start c _ hc (.serve hcheck) (Option.some.inj ht).symm
    · next error _ => exact .start c _ hc (.refuse error) (Option.some.inj ht).symm
  | poll c workerID order =>
    obtain ⟨hc, horder, ht⟩ := start_eq h
    exact .start c _ hc (.poll horder) ht
  | close c id =>
    obtain ⟨hc, ht⟩ := Option.ite_none_right_eq_some.mp h
    exact .start c _ hc (.close id) (Option.some.inj ht).symm
  | closeByWorker c workerID order =>
    obtain ⟨hc, horder, ht⟩ := start_eq h
    exact .start c _ hc (.closeByWorker horder) ht
  | closeByVM c vmID order =>
    obtain ⟨hc, horder, ht⟩ := start_eq h
    exact .start c _ hc (.closeByVM horder) ht
  | reap c order =>
    obtain ⟨hc, horder, ht⟩ := start_eq h
    exact .start c _ hc (.reap horder) ht
  | call c choice => exact callStep_effect h
  | disconnect c =>
    obtain ⟨_, ht⟩ := Option.ite_none_right_eq_some.mp h
    exact .disconnect c (Option.some.inj ht).symm

/-- What a step does to one session object. -/
inductive SessionChange (s : State) (e : Event) (t : State) (id : SessionID) : Prop
  | same (ht : t.created id = s.created id)
  | made (target : ProxyTarget) (vmID workerID : String) (port : ℤ) (token : String)
      (createdAt : ℕ) (hfresh : s.created id = none) (hmem : id ∈ t.sessions)
      (ht : t.created id = some (.new target vmID workerID port token createdAt))
  | joined (c : ℕ) (choice : Bool) (role : Role) (x : ProxySession) (he : e = .call c choice)
      (hc : s.calls c = .update id role) (hx : s.created id = some x)
      (ht : t.created id = some (x.setConn role c).1)
      (hanswer : (t.calls c).answer = some (id, (x.setConn role c).2))
  | closed (x : ProxySession) (hx : s.created id = some x) (ht : t.created id = some x.close)
      (hconns : ∀ role c, x.conn role = some c → t.closedConns c = true)

/-- The answer of a call that got it. -/
theorem Phase.answer_ite (b : Bool) (id : SessionID) :
    (if b then Phase.awaitReady id else .wait id).answer = some (id, b) := by
  cases b <;> rfl

/-- The change of a session object in a step. -/
theorem Effect.session (h : Effect s e t) (id : SessionID) :
    SessionChange s e t id := by
  cases h with
  | tick elapsed ht | disconnect c ht | start c p _ _ ht | move c choice p _ _ ht
  | remove c other rest next _ _ ht =>
    subst ht
    exact .same rfl
  | create other target vmID workerID port token createdAt hfresh _ ht =>
    subst ht
    by_cases hid : id = other
    · subst hid
      exact .made target vmID workerID port token createdAt hfresh List.mem_cons_self
        (s.put_self id _)
    · exact .same (s.put_of_ne _ hid)
  | join c choice other role x he hc hx ht =>
    subst ht
    by_cases hid : id = other
    · subst hid
      refine .joined c choice role x he hc hx (s.put_self id _) ?_
      rw [State.goto_self, Phase.answer_ite]
    · exact .same (s.put_of_ne _ hid)
  | close c other rest next x hc hx ht =>
    subst ht
    by_cases hid : id = other
    · subst hid
      refine .closed x hx (s.put_self id _) ?_
      rintro (_ | _) d hd
      · simp [State.goto, State.closeSession, show x.clientConn = some d from hd]
      · simp [State.goto, State.closeSession, show x.workerConn = some d from hd]
    · exact .same (s.put_of_ne _ hid)

/-- What a step does to the position of one call. -/
inductive CallChange (s : State) (e : Event) (t : State) (c : ℕ) : Prop
  | same (ht : t.calls c = s.calls c)
  | start (hc : s.calls c = .unused) (hstarts : s.Starts (t.calls c))
  | move (choice : Bool) (he : e = .call c choice) (hmoves : s.Moves (s.calls c) (t.calls c))
  | join (choice : Bool) (id : SessionID) (role : Role) (x : ProxySession)
      (he : e = .call c choice) (hc : s.calls c = .update id role) (hx : s.created id = some x)
      (hx' : t.created id = some (x.setConn role c).1)
      (ht : t.calls c = if (x.setConn role c).2 then .awaitReady id else .wait id)
  | remove (id : SessionID) (rest : List SessionID) (next : Next)
      (hc : s.calls c = .removing id rest next) (hmem : id ∈ s.sessions)
      (ht : t.calls c = .closing id rest next)
  | close (id : SessionID) (rest : List SessionID) (next : Next) (x : ProxySession)
      (hc : s.calls c = .closing id rest next) (hx : s.created id = some x)
      (hx' : t.created id = some x.close) (ht : t.calls c = .closeAll next rest)

/-- The change of the position of a call in a step. -/
theorem Effect.call (h : Effect s e t) (c : ℕ) : CallChange s e t c := by
  -- A call other than the one that acts keeps its position.
  have other {d : ℕ} {u : State} {p : Phase} (hcd : c ≠ d) (ht : t = u.goto d p)
      (hcalls : u.calls = s.calls) : CallChange s e t c := by
    refine .same ?_
    rw [ht, State.goto_of_ne _ _ hcd, hcalls]
  cases h with
  | tick elapsed ht | disconnect d ht | create id _ _ _ _ _ _ _ _ ht =>
    subst ht
    exact .same rfl
  | start d p hd hstarts ht =>
    by_cases hcd : c = d
    · subst hcd
      exact .start hd (by rwa [ht, State.goto_self])
    · exact other hcd ht rfl
  | move d choice p he hmoves ht =>
    by_cases hcd : c = d
    · subst hcd
      exact .move choice he (by rwa [ht, State.goto_self])
    · exact other hcd ht rfl
  | join d choice id role x he hd hx ht =>
    by_cases hcd : c = d
    · subst hcd
      refine .join choice id role x he hd hx ?_ (by rw [ht, State.goto_self])
      rw [ht]
      exact s.put_self id _
    · exact other hcd ht rfl
  | remove d id rest next hd hmem ht =>
    by_cases hcd : c = d
    · subst hcd
      exact .remove id rest next hd hmem (by rw [ht, State.goto_self])
    · exact other hcd ht rfl
  | close d id rest next x hd hx ht =>
    by_cases hcd : c = d
    · subst hcd
      refine .close id rest next x hd hx ?_ (by rw [ht, State.goto_self])
      rw [ht]
      exact s.put_self id _
    · exact other hcd ht rfl

/-- What a step does to the answer that a call has. -/
inductive AnswerChange (s : State) (e : Event) (t : State) (c : ℕ) : Prop
  | same (ht : (t.calls c).answer = (s.calls c).answer)
  | missed (choice : Bool) (id : SessionID) (role : Role) (he : e = .call c choice)
      (hc : s.calls c = .lookup id role) (hmem : id ∉ s.sessions)
      (ht : (t.calls c).answer = some (id, false))
  | joined (choice : Bool) (id : SessionID) (role : Role) (x : ProxySession)
      (he : e = .call c choice) (hc : s.calls c = .update id role) (hx : s.created id = some x)
      (hx' : t.created id = some (x.setConn role c).1)
      (ht : (t.calls c).answer = some (id, (x.setConn role c).2))

/-- Calls start without an answer. -/
theorem State.Starts.answer (h : s.Starts p) : p.answer = none := by
  cases h with
  | refuse error | serve _ | poll _ | close id => rfl
  | closeByWorker _ | closeByVM _ | reap _ => exact Phase.answer_closeAll _ _

/-- Only a lookup that fails gives an answer without the session. -/
theorem State.Moves.answer {p q : Phase} (h : s.Moves p q) : q.answer = p.answer ∨
    ∃ id role, p = .lookup id role ∧ id ∉ s.sessions ∧ q = .wait id := by
  cases h with
  | notFound hmem => exact .inr ⟨_, _, rfl, hmem, rfl⟩
  | skip rest next _ => exact .inl (Phase.answer_closeAll next rest)
  | _ => exact .inl rfl

/-- The change of an answer in a step. -/
theorem Effect.answer (h : Effect s e t) (c : ℕ) : AnswerChange s e t c := by
  cases h.call c with
  | same ht => exact .same (congrArg Phase.answer ht)
  | start hc hstarts => exact .same (by rw [hstarts.answer, hc]; rfl)
  | move choice he hmoves =>
    rcases hmoves.answer with hsame | ⟨id, role, hc, hmem, ht⟩
    · exact .same hsame
    · exact .missed choice id role he hc hmem (by rw [ht]; rfl)
  | join choice id role x he hc hx hx' ht =>
    exact .joined choice id role x he hc hx hx' (by rw [ht, Phase.answer_ite])
  | remove id rest next hc _ ht => exact .same (by rw [ht, hc]; rfl)
  | close id rest next x hc _ _ ht =>
    refine .same ?_
    rw [ht, hc, Phase.answer_closeAll]
    rfl

/-- Answers are final. -/
theorem Effect.answer_kept {answer : SessionID × Bool} (h : Effect s e t)
    (hc : (s.calls c).answer = some answer) : (t.calls c).answer = some answer := by
  cases h.answer c with
  | same ht => rw [ht, hc]
  | missed _ _ _ _ hphase => rw [hphase] at hc; cases hc
  | joined _ _ _ _ _ hphase => rw [hphase] at hc; cases hc

/-- What `SetConn` and `Close` keep of a session stays. -/
theorem Effect.persists {P : ProxySession → Prop} (h : Effect s e t) (hx : s.created id = some x)
    (hP : P x) (hset : ∀ role c, P x → P (x.setConn role c).1) (hclose : P x → P x.close) :
    ∃ y, t.created id = some y ∧ P y := by
  cases h.session id with
  | same ht => exact ⟨x, ht ▸ hx, hP⟩
  | made _ _ _ _ _ _ hfresh => rw [hfresh] at hx; cases hx
  | joined c _ role y _ _ hy ht _ =>
    obtain rfl : x = y := Option.some.inj (hx ▸ hy)
    exact ⟨_, ht, hset role c hP⟩
  | closed y hy ht _ =>
    obtain rfl : x = y := Option.some.inj (hx ▸ hy)
    exact ⟨_, ht, hclose hP⟩

/-- Sessions that ended have ended for good. -/
theorem Effect.done (h : Effect s e t) (hx : s.created id = some x)
    (hdone : x.done.isClosed = true) :
    ∃ y, t.created id = some y ∧ y.done.isClosed = true := by
  refine h.persists hx hdone (fun role c hdone => ?_) fun _ => x.done.isClosed_closeOnce
  rwa [ProxySession.done_setConn]

/-- Connections stay closed. -/
theorem Effect.closedConns (h : Effect s e t) (hc : s.closedConns c = true) :
    t.closedConns c = true := by
  cases h with
  | disconnect d ht =>
    subst ht
    by_cases hcd : c = d
    · simp [hcd]
    · simp [hcd, hc]
  | close d id rest next x _ _ ht =>
    subst ht
    simp [State.goto, State.closeSession, hc]
  | tick _ ht | create _ _ _ _ _ _ _ _ _ ht | start _ _ _ _ ht | move _ _ _ _ _ ht
  | join _ _ _ _ _ _ _ _ ht | remove _ _ _ _ _ _ ht =>
    subst ht
    exact hc

/-- A session leaves the map only in the first section of `Close`. -/
theorem Effect.sessions (h : Effect s e t) (hmem : id ∈ s.sessions) :
    id ∈ t.sessions ∨ ∃ c rest next, t.calls c = .closing id rest next := by
  cases h with
  | create _ _ _ _ _ _ _ _ _ ht =>
    subst ht
    exact .inl (List.mem_cons_of_mem _ hmem)
  | remove c other rest next _ _ ht =>
    subst ht
    by_cases hid : id = other
    · subst hid
      exact .inr ⟨c, rest, next, State.goto_self ..⟩
    · exact .inl (List.mem_filter.mpr ⟨hmem, decide_eq_true hid⟩)
  | tick _ ht | disconnect _ ht | start _ _ _ _ ht | move _ _ _ _ _ ht
  | join _ _ _ _ _ _ _ _ ht | close _ _ _ _ _ _ _ ht =>
    subst ht
    exact .inl hmem

/-- A `Close` between its sections stays there until it closes the session. -/
theorem Effect.closing {rest : List SessionID} {next : Next} (h : Effect s e t)
    (hc : s.calls c = .closing id rest next) :
    t.calls c = .closing id rest next ∨ ∃ x : ProxySession, t.created id = some x.close := by
  cases h.call c with
  | same ht => exact .inl (ht.trans hc)
  | start hphase _ => rw [hc] at hphase; cases hphase
  | move _ _ hmoves => rw [hc] at hmoves; cases hmoves
  | join _ _ _ _ _ hphase => rw [hc] at hphase; cases hphase
  | remove _ _ _ hphase => rw [hc] at hphase; cases hphase
  | close id' _ _ x hphase _ hx' =>
    rw [hc] at hphase
    cases hphase
    exact .inr ⟨x, hx'⟩

end MiniControl.Proxy
