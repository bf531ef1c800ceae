import MiniControl.Proxy.Relays

/-!
# The invariant of the session manager

The sections of the eight operations interleave, and still every session object and
the map agree: the channels are closed once, a session in the map is pending as long
as a side is missing, and a session that ended is out of the map for good. An
operation that collects sessions under one lock and closes them one by one under
others leaves none of those that it has collected, and touches no other.
-/

namespace MiniControl.Proxy

open Transition

/-- A channel that is closed with a guard is closed at most once. -/
theorem Channel.closes_closeOnce {ch : Channel} (h : ch.closes ≤ 1) :
    ch.closeOnce.closes ≤ 1 := by
  unfold closeOnce
  split
  · exact h
  · next hopen =>
    have hzero : ch.closes = 0 := by simpa [isClosed] using hopen
    simp [hzero]

/-- What holds of every session object: its channels were closed at most once, and
`ready` is closed when both sides are connected. -/
structure ProxySession.Consistent (x : ProxySession) : Prop where
  readyOnce : x.ready.closes ≤ 1
  doneOnce : x.done.closes ≤ 1
  ready : x.ready.isClosed = x.bothConnected

/-- What holds of a session in the map: it has not ended, and it is pending as long
as a side is missing. -/
structure ProxySession.Live (x : ProxySession) : Prop where
  unended : x.done.isClosed = false
  pending : x.state = .pending ↔ x.bothConnected = false

namespace ProxySession

variable {x : ProxySession} (role : Role) (c : ℕ)

/-- Storing a connection leaves the channels and the state. -/
theorem store_rest : (x.store role c).ready = x.ready ∧ (x.store role c).done = x.done ∧
    (x.store role c).state = x.state := by
  cases role <;> exact ⟨rfl, rfl, rfl⟩

/-- A side is missing after `SetConn` only where one was missing before. -/
theorem bothConnected_eq_false_of_store (h : (x.store role c).bothConnected = false) :
    x.bothConnected = false := by
  rw [← Bool.not_eq_true, bothConnected_iff] at h ⊢
  intro hboth
  apply h
  intro other
  by_cases hrole : other = role
  · simp [hrole]
  · rw [conn_store_of_ne x role other c hrole]
    exact hboth other

/-- The channels of a new session are open. -/
theorem Consistent.new {target : ProxyTarget} {vmID workerID token : String} {port : ℤ}
    {createdAt : ℕ} : (new target vmID workerID port token createdAt).Consistent :=
  ⟨Nat.zero_le _, Nat.zero_le _, rfl⟩

/-- `SetConn` keeps a session consistent. -/
theorem Consistent.setConn (h : x.Consistent) : (x.setConn role c).1.Consistent := by
  obtain ⟨hready, hdone, _⟩ := x.store_rest role c
  simp only [ProxySession.setConn]
  split
  · next hboth =>
    refine ⟨?_, hdone ▸ h.doneOnce, ?_⟩
    · exact Channel.closes_closeOnce (hready ▸ h.readyOnce)
    · exact (Channel.isClosed_closeOnce _).trans hboth.symm
  · next hmissing =>
    have hfalse : (x.store role c).bothConnected = false := by simpa using hmissing
    refine ⟨hready ▸ h.readyOnce, hdone ▸ h.doneOnce, ?_⟩
    rw [hready, h.ready, hfalse, bothConnected_eq_false_of_store role c hfalse]

/-- `Close` keeps a session consistent. -/
theorem Consistent.close (h : x.Consistent) : x.close.Consistent :=
  ⟨h.readyOnce, Channel.closes_closeOnce h.doneOnce, h.ready⟩

/-- `SetConn` keeps a session in the map as it should be. -/
theorem Live.setConn (h : x.Live) : (x.setConn role c).1.Live := by
  refine ⟨by rw [done_setConn, h.unended], ?_⟩
  simp only [ProxySession.setConn]
  split
  · next hboth =>
    refine iff_of_false ?_ ?_
    · intro hpending
      cases hpending
    · rw [Bool.not_eq_false]
      exact hboth
  · next hmissing =>
    have hfalse : (x.store role c).bothConnected = false := by simpa using hmissing
    rw [(x.store_rest role c).2.2, h.pending]
    exact iff_of_true (bothConnected_eq_false_of_store role c hfalse) hfalse

end ProxySession

/-- The session was created and is not in the map any more. -/
structure State.Removed (s : State) (id : SessionID) : Prop where
  created : (s.created id).isSome
  missing : id ∉ s.sessions

/-- The invariant of the session objects, the map, and the `Close` calls between
their two sections. -/
structure Consistent (s : State) : Prop where
  session : ∀ id x, s.created id = some x → x.Consistent
  live : ∀ id x, s.created id = some x → id ∈ s.sessions → x.Live
  mapped : ∀ id ∈ s.sessions, (s.created id).isSome
  closing : ∀ c id rest next, s.calls c = .closing id rest next → s.Removed id

variable {s t : State} {e : Event} {id : SessionID} {p : Phase} {c : ℕ} {x : ProxySession}
  {order : List SessionID}

/-- Sessions stay created. -/
theorem Effect.created (h : Effect s e t) (hs : (s.created id).isSome) :
    (t.created id).isSome := by
  obtain ⟨x, hx⟩ := Option.isSome_iff_exists.mp hs
  obtain ⟨y, hy, _⟩ := h.persists (P := fun _ => True) hx trivial (fun _ _ _ => trivial)
    fun _ => trivial
  rw [hy]
  rfl

/-- A session is in the map because it was before, or because it was created now. -/
theorem Effect.mem_sessions (h : Effect s e t) (hmem : id ∈ t.sessions) :
    id ∈ s.sessions ∨ s.created id = none ∧ (t.created id).isSome := by
  cases h with
  | create other _ _ _ _ _ _ hfresh _ ht =>
    subst ht
    rcases List.mem_cons.mp hmem with rfl | hold
    · refine .inr ⟨hfresh, ?_⟩
      exact Option.isSome_iff_exists.mpr ⟨_, s.put_self id _⟩
    · exact .inl hold
  | remove c other rest next _ _ ht =>
    subst ht
    exact .inl (List.mem_filter.mp hmem).1
  | tick _ ht | disconnect _ ht | start _ _ _ _ ht | move _ _ _ _ _ ht
  | join _ _ _ _ _ _ _ _ ht | close _ _ _ _ _ _ _ ht =>
    subst ht
    exact .inl hmem

/-- Ids are fresh, so a session that was removed never returns to the map. -/
theorem Effect.removed (h : Effect s e t) (hs : s.Removed id) : t.Removed id := by
  refine ⟨h.created hs.created, ?_⟩
  intro hmem
  rcases h.mem_sessions hmem with hold | ⟨hfresh, _⟩
  · exact hs.missing hold
  · have hsome := hs.created
    rw [hfresh] at hsome
    cases hsome

/-- A call that closes sessions one after another is not between the sections of a
`Close` when it goes on to the next one. -/
theorem Phase.closeAll_ne_closing (next next' : Next) (ids rest : List SessionID) :
    Phase.closeAll next ids ≠ .closing id rest next' := by
  cases ids with
  | nil => cases next <;> nofun
  | cons other ids => nofun

/-- No call starts between the sections of a `Close`. -/
theorem State.Starts.ne_closing (h : s.Starts p) (rest : List SessionID) (next : Next) :
    p ≠ .closing id rest next := by
  cases h with
  | refuse | serve | poll | close => nofun
  | closeByWorker | closeByVM | reap => exact Phase.closeAll_ne_closing _ _ _ _

/-- Only the first section of a `Close` leads between its sections. -/
theorem State.Moves.ne_closing {p q : Phase} (h : s.Moves p q) (rest : List SessionID)
    (next : Next) : q ≠ .closing id rest next := by
  cases h with
  | skip => exact Phase.closeAll_ne_closing _ _ _ _
  | relayCancelled | noRelay | relayEnded | waitCancelled =>
    exact Phase.closeAll_ne_closing _ _ _ _
  | _ => nofun

/-- A `Close` between its sections has removed its session from the map. -/
theorem Effect.closing_removed (h : Effect s e t) (hs : Consistent s) {rest : List SessionID}
    {next : Next} (hc : t.calls c = .closing id rest next) :
    t.Removed id := by
  by_cases hsame : t.calls c = s.calls c
  · exact h.removed (hs.closing c id rest next (hsame ▸ hc))
  -- The call has moved, so it is the one that acts.
  have acting {d : ℕ} {u : State} {p : Phase} (ht : t = u.goto d p) (hu : u.calls = s.calls) :
      d = c ∧ p = .closing id rest next := by
    by_cases hcd : c = d
    · subst hcd
      rw [ht, State.goto_self] at hc
      exact ⟨rfl, hc⟩
    · refine absurd ?_ hsame
      rw [ht, State.goto_of_ne _ _ hcd, hu]
  cases h with
  | tick _ ht | disconnect _ ht | create _ _ _ _ _ _ _ _ _ ht =>
    subst ht
    exact absurd rfl hsame
  | start d p _ hstarts ht => exact absurd (acting ht rfl).2 (hstarts.ne_closing rest next)
  | move d _ p _ hmoves ht => exact absurd (acting ht rfl).2 (hmoves.ne_closing rest next)
  | join d _ id' role x _ _ _ ht =>
    have hphase := (acting ht rfl).2
    split at hphase <;> cases hphase
  | close d id' rest' next' x _ _ ht =>
    exact absurd (acting ht rfl).2 (Phase.closeAll_ne_closing _ _ _ _)
  | remove d id' rest' next' _ hmem ht =>
    obtain ⟨rfl, hphase⟩ := acting ht rfl
    cases hphase
    refine ⟨?_, ?_⟩
    · rw [ht]
      exact hs.mapped id hmem
    · simp [ht, State.goto, State.remove]

/-- A session in the map is as it should be after every step. -/
theorem Consistent.live_step (hs : Consistent s) (h : Effect s e t) {y : ProxySession}
    (hy : t.created id = some y) (hmem : id ∈ t.sessions) : y.Live := by
  cases h with
  | tick _ ht | disconnect _ ht | start _ _ _ _ ht | move _ _ _ _ _ ht =>
    subst ht
    exact hs.live id y hy hmem
  | remove c other rest next _ _ ht =>
    subst ht
    exact hs.live id y hy (List.mem_filter.mp hmem).1
  | create other _ _ _ _ _ _ _ _ ht =>
    subst ht
    by_cases hid : id = other
    · subst hid
      obtain rfl := Option.some.inj ((s.put_self id _).symm.trans hy)
      exact ⟨rfl, iff_of_true rfl rfl⟩
    · refine hs.live id y ((s.put_of_ne _ hid).symm.trans hy) ?_
      exact (List.mem_cons.mp hmem).resolve_left hid
  | join c _ other role x _ _ hx ht =>
    subst ht
    by_cases hid : id = other
    · subst hid
      obtain rfl := Option.some.inj ((s.put_self id _).symm.trans hy)
      exact (hs.live id x hx hmem).setConn role c
    · exact hs.live id y ((s.put_of_ne _ hid).symm.trans hy) hmem
  | close c other rest next x hc hx ht =>
    subst ht
    by_cases hid : id = other
    · -- A session that is closed now was taken out of the map before.
      subst hid
      exact absurd hmem (hs.closing c id rest next hc).missing
    · exact hs.live id y ((s.put_of_ne _ hid).symm.trans hy) hmem

/-- Every step keeps the session objects and the map consistent. -/
theorem Consistent.step (hs : Consistent s) (h : Effect s e t) : Consistent t where
  session id y hy := by
    cases h.session id with
    | same ht => exact hs.session id y (ht ▸ hy)
    | made _ _ _ _ _ _ _ _ ht =>
      obtain rfl := Option.some.inj (ht ▸ hy)
      exact .new
    | joined c _ role x _ _ hx ht _ =>
      obtain rfl := Option.some.inj (ht ▸ hy)
      exact (hs.session id x hx).setConn role c
    | closed x hx ht _ =>
      obtain rfl := Option.some.inj (ht ▸ hy)
      exact (hs.session id x hx).close
  live id y hy hmem := hs.live_step h hy hmem
  mapped id hmem := by
    rcases h.mem_sessions hmem with hold | ⟨_, hsome⟩
    · exact h.created (hs.mapped id hold)
    · exact hsome
  closing c id rest next hc := h.closing_removed hs hc

/-- The session objects and the map are consistent in every reachable state. -/
theorem consistent_of_reachable (h : system.Reachable s) : Consistent s := by
  refine System.ReachableUnder.invariant ?_ ?_ h
  · rintro _ rfl
    exact ⟨nofun, nofun, nofun, nofun⟩
  · intro s e t _ _ hnext hs
    exact hs.step (step_effect hnext)

/-- A session that ended is out of the map. -/
theorem Consistent.removed_of_done (hs : Consistent s) (hx : s.created id = some x)
    (hdone : x.done.isClosed = true) : s.Removed id := by
  refine ⟨Option.isSome_iff_exists.mpr ⟨x, hx⟩, ?_⟩
  intro hmem
  have hopen := (hs.live id x hx hmem).unended
  rw [hdone] at hopen
  cases hopen

/-- A session that was removed stays so. -/
theorem State.Removed.of_leads (hs : s.Removed id) (hrun : system.Leads s t) : t.Removed id := by
  induction hrun with
  | refl => exact hs
  | tail _ _ hnext ih => exact (step_effect hnext).removed ih

/-- The sessions that a call has still to take out of the map. -/
def Phase.toClose : Phase → List SessionID
  | .removing id rest _ => id :: rest
  | .closing _ rest _ => rest
  | _ => []

/-- A call that starts to close sessions has to close all of them. -/
@[simp] theorem Phase.toClose_closeAll (next : Next) (ids : List SessionID) :
    (Phase.closeAll next ids).toClose = ids := by
  cases ids with
  | nil => cases next <;> rfl
  | cons id rest => rfl

/-- The call closes sessions one after another and then returns. -/
def Phase.ClosesFor (result : Result) : Phase → Prop
  | .removing _ _ next | .closing _ _ next => next = .finish result
  | .returned r => r = result
  | _ => False

/-- A call that starts to close sessions closes them and then returns. -/
theorem Phase.closesFor_closeAll (result : Result) (ids : List SessionID) :
    (Phase.closeAll (.finish result) ids).ClosesFor result := by
  cases ids <;> rfl

/-- A call is closing the listed sessions: every one of them is still to be closed or
was removed. -/
structure State.Working (s : State) (c : ℕ) (order : List SessionID) (result : Result) :
    Prop where
  closes : (s.calls c).ClosesFor result
  created : ∀ id ∈ order, (s.created id).isSome
  within : ∀ id ∈ (s.calls c).toClose, id ∈ order
  removed : ∀ id ∈ order, id ∈ (s.calls c).toClose ∨ s.Removed id

/-- Every step keeps the call at work. -/
theorem State.Working.step {result : Result} (hw : s.Working c order result) (hs : Consistent s)
    (h : Effect s e t) :
    t.Working c order result := by
  have hcreated : ∀ id ∈ order, (t.created id).isSome := fun id hid => h.created (hw.created id hid)
  -- A session that the call leaves behind is removed, and the others stay to be closed.
  have leave (closed : List SessionID) (hcloses : (t.calls c).ClosesFor result)
      (hsplit : (s.calls c).toClose = closed ++ (t.calls c).toClose)
      (hclosed : ∀ id ∈ closed, t.Removed id) : t.Working c order result := by
    refine ⟨hcloses, hcreated, fun id hid => hw.within id ?_, fun id hid => ?_⟩
    · rw [hsplit]
      exact List.mem_append_right _ hid
    · rcases hw.removed id hid with htodo | hremoved
      · rw [hsplit] at htodo
        exact (List.mem_append.mp htodo).symm.imp_right (hclosed id)
      · exact .inr (h.removed hremoved)
  have hcloses := hw.closes
  cases h.call c with
  | same ht => exact leave [] (ht ▸ hcloses) (by rw [ht]; rfl) nofun
  | start hc _ =>
    rw [hc] at hcloses
    cases hcloses
  | join _ _ _ _ _ hc =>
    rw [hc] at hcloses
    cases hcloses
  | move _ _ hmoves =>
    generalize hp : s.calls c = p at hmoves hcloses
    generalize hq : t.calls c = q at hmoves
    cases hmoves with
    | @skip id rest next hmem =>
      obtain rfl : next = .finish result := hcloses
      have htodo : id ∈ (s.calls c).toClose := by
        rw [hp]
        exact List.mem_cons_self
      refine leave [id] ?_ ?_ fun other hother => ?_
      · rw [hq]
        exact Phase.closesFor_closeAll result rest
      · rw [hp, hq, Phase.toClose_closeAll]
        rfl
      · obtain rfl := List.mem_singleton.mp hother
        exact h.removed ⟨hw.created _ (hw.within _ htodo), hmem⟩
    | _ => cases hcloses
  | remove id rest next hc hmem ht =>
    rw [hc] at hcloses
    refine leave [id] (ht ▸ hcloses) ?_ fun other hother => ?_
    · rw [hc, ht]
      rfl
    · obtain rfl := List.mem_singleton.mp hother
      exact h.closing_removed hs ht
  | close id rest next x hc hx hx' ht =>
    rw [hc] at hcloses
    obtain rfl : next = .finish result := hcloses
    refine leave [] ?_ ?_ nofun
    · rw [ht]
      exact Phase.closesFor_closeAll result rest
    · rw [hc, ht, Phase.toClose_closeAll]
      rfl

/-- A step of a call takes out of the map only a session that the call has to close. -/
theorem Effect.mem_toClose (h : Effect s e t) (hmoved : t.calls c ≠ s.calls c)
    (hmem : id ∈ s.sessions) (hgone : id ∉ t.sessions) : id ∈ (s.calls c).toClose := by
  cases h with
  | create _ _ _ _ _ _ _ _ _ ht =>
    subst ht
    exact absurd (List.mem_cons_of_mem _ hmem) hgone
  | tick _ ht | disconnect _ ht | start _ _ _ _ ht | move _ _ _ _ _ ht
  | join _ _ _ _ _ _ _ _ ht | close _ _ _ _ _ _ _ ht =>
    subst ht
    exact absurd hmem hgone
  | remove d other rest next hd _ ht =>
    subst ht
    have hid : id = other := by
      by_contra hne
      exact hgone (List.mem_filter.mpr ⟨hmem, decide_eq_true hne⟩)
    have hcd : c = d := by
      by_contra hne
      exact hmoved (State.goto_of_ne _ _ hne)
    subst hid hcd
    rw [hd]
    exact List.mem_cons_self

/-- The worker of a session never changes. -/
theorem workerID_of_leads (hrun : system.Leads s t) (hx : s.created id = some x) :
    ∃ y, t.created id = some y ∧ y.workerID = x.workerID := by
  induction hrun with
  | refl => exact ⟨x, hx, rfl⟩
  | tail _ _ hnext ih =>
    obtain ⟨y, hy, hworker⟩ := ih
    refine (step_effect hnext).persists hy hworker (fun role c hworker => ?_) fun hworker => hworker
    simp only [ProxySession.setConn]
    split <;> cases role <;> exact hworker

/-- The sessions that a call collects are those of the map that meet its condition. -/
theorem State.mem_select {p : ProxySession → Bool} :
    id ∈ s.select p ↔ ∃ x, s.get id = some x ∧ p x = true := by
  simp only [State.select, State.get, List.mem_filter, Option.any_eq_true]
  constructor
  · rintro ⟨hmem, x, hx, hp⟩
    exact ⟨x, by rw [if_pos hmem, hx], hp⟩
  · rintro ⟨x, hx, hp⟩
    obtain ⟨hmem, hx⟩ := Option.ite_none_right_eq_some.mp hx
    exact ⟨hmem, x, hx, hp⟩

/-- `CloseByWorker` works on the sessions of its worker from its start to its end. -/
theorem working_of_closeByWorker {workerID : String} {u : State} (h : system.Reachable s)
    (hstart : step s (.closeByWorker c workerID order) = some t) (hrun : system.Leads t u) :
    u.Working c order (.count order.length) := by
  obtain ⟨hc, horder, rfl⟩ := start_eq hstart
  have hmapped := (consistent_of_reachable h).mapped
  refine System.Leads.invariant (P := fun u => u.Working c order (.count order.length)) ?_ hrun
    (h.next hstart) ?_
  · intro u e v hu hnext hw
    exact hw.step (consistent_of_reachable hu) (step_effect hnext)
  · refine ⟨?_, fun id hid => ?_, fun id hid => ?_, fun id hid => .inl ?_⟩
    · rw [State.goto_self]
      exact Phase.closesFor_closeAll _ _
    · obtain ⟨x, hx, _⟩ := State.mem_select.mp (horder.mem_iff.mp hid)
      exact hmapped id (Option.ite_none_right_eq_some.mp hx).1
    · simpa using hid
    · simpa using hid

/-- In every reachable state the channels of every session were closed at most once,
`ready` is closed exactly when both connections are set, and a session in the map is
pending exactly when it does not have both. A session whose channel `done` is closed is
never again returned by `Get` or `GetPending`. When `CloseByWorker` returns, none of the
sessions of its worker that were there when it started is in the map, and no step of it
has taken out a session of another worker. -/
theorem manager_invariant (h : system.Reachable s) :
    (∀ id x, s.created id = some x → x.ready.closes ≤ 1 ∧ x.done.closes ≤ 1 ∧
      (x.ready.isClosed = true ↔ x.clientConn.isSome ∧ x.workerConn.isSome) ∧
      (id ∈ s.sessions → (x.state = .pending ↔ ¬(x.clientConn.isSome ∧ x.workerConn.isSome)))) ∧
    (∀ id x, s.created id = some x → x.done.isClosed = true → ∀ t, system.Leads s t →
      t.get id = none ∧ ∀ workerID, id ∉ t.select (ProxySession.isPendingOf workerID)) ∧
    ∀ c workerID order t, step s (.closeByWorker c workerID order) = some t →
      ∀ u, system.Leads t u →
        (∀ result, u.calls c = .returned result →
          ∀ id x, s.get id = some x → x.workerID = workerID → id ∉ u.sessions) ∧
        ∀ e v, system.next u e v → v.calls c ≠ u.calls c →
          ∀ id x, u.get id = some x → id ∉ v.sessions → x.workerID = workerID := by
  have hs := consistent_of_reachable h
  have hboth : ∀ x : ProxySession,
      x.bothConnected = true ↔ x.clientConn.isSome ∧ x.workerConn.isSome := by
    simp [ProxySession.bothConnected]
  refine ⟨?_, ?_, ?_⟩
  · intro id x hx
    obtain ⟨hready, hdone, hequal⟩ := hs.session id x hx
    refine ⟨hready, hdone, ?_, fun hmem => ?_⟩
    · rw [hequal]
      exact hboth x
    · rw [(hs.live id x hx hmem).pending, ← hboth, Bool.not_eq_true]
  · intro id x hx hdone t hrun
    have hremoved := (hs.removed_of_done hx hdone).of_leads hrun
    have hget : t.get id = none := if_neg hremoved.missing
    refine ⟨hget, fun workerID hmem => ?_⟩
    obtain ⟨y, hy, _⟩ := State.mem_select.mp hmem
    rw [hget] at hy
    cases hy
  · intro c workerID order t hstart u hrun
    have hw := working_of_closeByWorker h hstart hrun
    obtain ⟨_, horder, rfl⟩ := start_eq hstart
    refine ⟨fun result hreturned id x hx hworker => ?_, ?_⟩
    · have hid : id ∈ order :=
        horder.mem_iff.mpr (State.mem_select.mpr ⟨x, hx, decide_eq_true hworker⟩)
      rcases hw.removed id hid with htodo | hremoved
      · rw [hreturned] at htodo
        cases htodo
      · exact hremoved.missing
    · intro e v hnext hmoved id x hx hgone
      obtain ⟨hmem, hx⟩ := Option.ite_none_right_eq_some.mp hx
      have hid := hw.within id ((step_effect hnext).mem_toClose hmoved hmem hgone)
      -- The session is one of those that the call has collected at its start.
      obtain ⟨y, hy, hworker⟩ := State.mem_select.mp (horder.mem_iff.mp hid)
      have hy' := (Option.ite_none_right_eq_some.mp hy).2
      obtain ⟨z, hz, hsame⟩ := workerID_of_leads hrun hy'
      obtain rfl : z = x := Option.some.inj (hz ▸ hx)
      exact hsame.trans (of_decide_eq_true hworker)

/-- A session of another worker. -/
def createOther : Event := .create "q" .vm "v'" "w'" 5900 "k'" 0

/-- Both sides join a session, its worker registers again, and a session of another
worker stays in the map. -/
theorem manager_invariant_relayed : ∃ s t u : State, system.Reachable s ∧
    step s (.closeByWorker 2 "w" ["p"]) = some t ∧ system.Leads t u ∧
    u.calls 2 = .returned (.count 1) ∧
    u.sessions = ["q"] ∧
    (∀ x, s.created "p" = some x → x.ready.closes ≤ 1) ∧ "p" ∉ u.sessions := by
  have hrun : ∃ s t u x, runEvents step initial (createOther :: relayed) = some s ∧
      step s (.closeByWorker 2 "w" ["p"]) = some t ∧
      runEvents step t [.call 2 true, .call 2 true] = some u ∧
      s.get "p" = some x ∧ x.workerID = "w" ∧
      u.calls 2 = .returned (.count 1) ∧ u.sessions = ["q"] :=
    ⟨_, _, _, _, rfl, rfl, rfl, rfl, rfl, rfl, rfl⟩
  obtain ⟨s, t, u, x, hs, ht, hu, hx, hworker, hreturned, hsessions⟩ := hrun
  have hreach : system.Reachable s := reachable_of_runEvents rfl hs
  have hleads : system.Leads t u := leads_of_runEvents hu
  obtain ⟨hchannels, _, hclose⟩ := manager_invariant hreach
  refine ⟨s, t, u, hreach, ht, hleads, hreturned, hsessions,
    fun y hy => (hchannels "p" y hy).1, ?_⟩
  exact (hclose 2 "w" ["p"] t ht u hleads).1 _ hreturned "p" x hx hworker

end MiniControl.Proxy
