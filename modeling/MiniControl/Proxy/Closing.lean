import MiniControl.Proxy.Relays

/-!
# Closed sessions

`Close` takes a session out of the map and then closes it with its connections.
Sessions stay closed and leave no connection open in the runs in which `SetConn`
finds its session in the map, stores the connection before the session is closed,
and replaces no open connection. Where `SetConn` runs late, the session becomes
active again, and a connection that was replaced stays open for ever.
-/

namespace MiniControl.Proxy

open Transition

variable {s t : State} {e : Event} {id : SessionID} {c : ℕ} {choice : Bool} {role : Role}
  {x : ProxySession}

/-- `Close` has run on the session: the session is out of the map, and no `Close` of
it is between its two sections. -/
structure State.HasClosed (s : State) (id : SessionID) : Prop where
  created : (s.created id).isSome
  removed : id ∉ s.sessions
  finished : ∀ c rest next, s.calls c ≠ .closing id rest next

/-- Every session is in the map, or a `Close` has taken it out and is about to close
it, or it was closed. -/
def Accounted (s : State) : Prop :=
  ∀ id x, s.created id = some x → id ∈ s.sessions ∨
    (∃ c rest next, s.calls c = .closing id rest next) ∨ x.done.isClosed = true

/-- Every step keeps account of the sessions. -/
theorem Accounted.step (hs : Accounted s) (h : Effect s e t) : Accounted t := by
  intro id y hy
  cases hx : s.created id with
  | none =>
    cases h.session id with
    | made _ _ _ _ _ _ _ hmem _ => exact .inl hmem
    | same ht => rw [ht, hx] at hy; cases hy
    | joined _ _ _ x _ _ hx' => rw [hx] at hx'; cases hx'
    | closed x hx' => rw [hx] at hx'; cases hx'
  | some x =>
    rcases hs id x hx with hmem | ⟨c, rest, next, hc⟩ | hdone
    · exact (h.sessions hmem).imp_right .inl
    · rcases h.closing hc with hkept | ⟨z, hz⟩
      · exact .inr (.inl ⟨c, rest, next, hkept⟩)
      · rw [hz] at hy
        cases hy
        exact .inr (.inr z.done.isClosed_closeOnce)
    · obtain ⟨z, hz, hzdone⟩ := h.done hx hdone
      rw [hz] at hy
      cases hy
      exact .inr (.inr hzdone)

/-- Every session is accounted for in every reachable state. -/
theorem accounted_of_reachable (h : system.Reachable s) : Accounted s := by
  refine System.ReachableUnder.invariant ?_ ?_ h
  · rintro _ rfl id x hx
    cases hx
  · intro s e t _ _ hnext hs
    exact hs.step (step_effect hnext)

/-- The channel `done` of a session on which `Close` has run is closed. -/
theorem State.HasClosed.done (hclosed : s.HasClosed id) (h : system.Reachable s) :
    ∃ x, s.created id = some x ∧ x.done.isClosed = true := by
  obtain ⟨x, hx⟩ := Option.isSome_iff_exists.mp hclosed.created
  refine ⟨x, hx, ?_⟩
  rcases accounted_of_reachable h id x hx with hmem | ⟨c, rest, next, hc⟩ | hdone
  · exact absurd hmem hclosed.removed
  · exact absurd hc (hclosed.finished c rest next)
  · exact hdone

/-- Whether a step of `SetConn` is in time: its lookup finds the session, and when it
stores the connection, the session is not closed and any connection of the role is. -/
def inTime (s : State) : Event → Bool
  | .call c _ =>
    match s.calls c with
    | .lookup id _ => id ∈ s.sessions
    | .update id role =>
      (s.created id).all fun x => !x.done.isClosed && (x.conn role).all s.closedConns
    | _ => true
  | _ => true

/-- Every `SetConn` finds its session in the map, stores its connection before the
session is closed, and replaces no open connection. -/
abbrev InTime (s : State) (e : Event) : Prop := inTime s e = true

/-- A lookup in time finds the session. -/
theorem InTime.found (h : InTime s e) (he : e = .call c choice) (hc : s.calls c = .lookup id role) :
    id ∈ s.sessions := by
  subst he
  simpa [InTime, inTime, hc] using h

/-- A connection that is stored in time. -/
theorem InTime.stored (h : InTime s e) (he : e = .call c choice) (hc : s.calls c = .update id role)
    (hx : s.created id = some x) :
    x.done.isClosed = false ∧ ∀ d, x.conn role = some d → s.closedConns d = true := by
  subst he
  simp only [InTime, inTime, hc, hx, Option.all_some, Bool.and_eq_true, Bool.not_eq_true'] at h
  refine ⟨h.1, ?_⟩
  intro d hd
  simpa [hd] using h.2

/-- Sessions that ended are closed with their connections, and the connection of every
call that was answered is closed or still the connection of its role. -/
structure Tidy (s : State) : Prop where
  closed : ∀ id x, s.created id = some x → x.done.isClosed = true →
    x.state = .closed ∧ ∀ role c, x.conn role = some c → s.closedConns c = true
  kept : ∀ c id bothReady, (s.calls c).answer = some (id, bothReady) →
    ∃ x, s.created id = some x ∧ ((∃ role, x.conn role = some c) ∨ s.closedConns c = true)

/-- Ended sessions are closed after a step in time. -/
theorem Tidy.closed_step (hs : Tidy s) (hok : InTime s e) (h : Effect s e t) {y : ProxySession}
    (hy : t.created id = some y) (hdone : y.done.isClosed = true) :
    y.state = .closed ∧ ∀ role c, y.conn role = some c → t.closedConns c = true := by
  cases h.session id with
  | same ht =>
    obtain ⟨hstate, hconns⟩ := hs.closed id y (ht ▸ hy) hdone
    exact ⟨hstate, fun role c hc => h.closedConns (hconns role c hc)⟩
  | made _ _ _ _ _ _ _ _ ht =>
    rw [ht] at hy
    cases hy
    cases hdone
  | joined c _ role x he hphase hx ht _ =>
    rw [ht] at hy
    cases hy
    rw [ProxySession.done_setConn, (hok.stored he hphase hx).1] at hdone
    cases hdone
  | closed x hx ht hconns =>
    rw [ht] at hy
    cases hy
    refine ⟨rfl, ?_⟩
    intro role c hc
    exact hconns role c (x.conn_close role ▸ hc)

/-- Answered calls do not lose an open connection in a step in time. -/
theorem Tidy.kept_step (hs : Tidy s) (hok : InTime s e) (h : Effect s e t) {bothReady : Bool}
    (hc : (s.calls c).answer = some (id, bothReady)) :
    ∃ y, t.created id = some y ∧ ((∃ role, y.conn role = some c) ∨ t.closedConns c = true) := by
  obtain ⟨x, hx, hkept⟩ := hs.kept c id bothReady hc
  rcases hkept with ⟨role, hconn⟩ | hclosed
  · cases h.session id with
    | same ht => exact ⟨x, ht ▸ hx, .inl ⟨role, hconn⟩⟩
    | made _ _ _ _ _ _ hfresh => rw [hfresh] at hx; cases hx
    | joined d _ role' y he hphase hy ht _ =>
      obtain rfl : x = y := Option.some.inj (hx ▸ hy)
      refine ⟨_, ht, ?_⟩
      by_cases hrole : role = role'
      · subst hrole
        exact .inr (h.closedConns ((hok.stored he hphase hx).2 c hconn))
      · refine .inl ⟨role, ?_⟩
        rw [ProxySession.conn_setConn, ProxySession.conn_store_of_ne _ _ _ _ hrole, hconn]
    | closed y hy ht hconns =>
      obtain rfl : x = y := Option.some.inj (hx ▸ hy)
      exact ⟨_, ht, .inr (hconns role c hconn)⟩
  · obtain ⟨y, hy, _⟩ := h.persists (P := fun _ => True) hx trivial (fun _ _ _ => trivial)
      fun _ => trivial
    exact ⟨y, hy, .inr (h.closedConns hclosed)⟩

/-- Steps in time keep everything tidy. -/
theorem Tidy.step (hs : Tidy s) (hok : InTime s e) (h : Effect s e t) : Tidy t := by
  refine ⟨fun id y hy hdone => hs.closed_step hok h hy hdone, ?_⟩
  intro c id bothReady hc
  cases h.answer c with
  | same ht => exact hs.kept_step hok h (ht ▸ hc)
  | missed _ id' role he hphase hmem _ => exact absurd (hok.found he hphase) hmem
  | joined _ id' role x _ _ _ hx' ht =>
    rw [hc] at ht
    obtain ⟨rfl, _⟩ := Prod.mk.inj (Option.some.inj ht)
    refine ⟨_, hx', .inl ⟨role, ?_⟩⟩
    rw [ProxySession.conn_setConn, ProxySession.conn_store_self]

/-- Sessions end for good. -/
theorem done_of_leads (hrun : system.Leads s t) (hx : s.created id = some x)
    (hdone : x.done.isClosed = true) : ∃ y, t.created id = some y ∧ y.done.isClosed = true := by
  induction hrun with
  | refl => exact ⟨x, hx, hdone⟩
  | tail _ _ hnext ih =>
    obtain ⟨y, hy, hydone⟩ := ih
    exact (step_effect hnext).done hy hydone

/-- After `Close` has run on a session, the session is closed for ever, and the
connection of every handler that `SetConn` has answered for it is closed. -/
theorem closed_for_good (h : system.ReachableUnder InTime s) (hclosed : s.HasClosed id)
    (hrun : system.LeadsUnder InTime s t) :
    (∃ y, t.created id = some y ∧ y.state = .closed) ∧
      ∀ c bothReady, (t.calls c).answer = some (id, bothReady) → t.closedConns c = true := by
  have htidy : Tidy t := by
    refine System.ReachableUnder.invariant ?_ ?_ (hrun.reachable h)
    · rintro _ rfl
      exact ⟨nofun, nofun⟩
    · intro s e t _ hok hnext hs
      exact hs.step hok (step_effect hnext)
  obtain ⟨x, hx, hdone⟩ := hclosed.done h.reachable
  obtain ⟨y, hy, hydone⟩ := done_of_leads hrun.leads hx hdone
  obtain ⟨hstate, hconns⟩ := htidy.closed id y hy hydone
  refine ⟨⟨y, hy, hstate⟩, ?_⟩
  intro c bothReady hc
  obtain ⟨z, hz, hkept⟩ := htidy.kept c id bothReady hc
  obtain rfl : y = z := Option.some.inj (hy ▸ hz)
  rcases hkept with ⟨role, hconn⟩ | hclosed
  · exact hconns role c hconn
  · exact hclosed

/-- The worker of the session registers again, and its sessions are closed. -/
def closeAsCallTwo : List Event := [.closeByWorker 2 "w" ["p"], .call 2 true, .call 2 true]

/-- A client joins, the session is closed, and the client's handler returns. -/
theorem closed_for_good_client : ∃ s t : State, system.ReachableUnder InTime s ∧
    s.HasClosed "p" ∧ system.LeadsUnder InTime s t ∧ t.calls 0 = .returned (.served "p" false) ∧
    (∃ y, t.created "p" = some y ∧ y.state = .closed) ∧ t.closedConns 0 = true := by
  let next := fun s e => if InTime s e then step s e else none
  have hrun : ∃ s t, runEvents next initial (createSession :: join 0 "client" ++ closeAsCallTwo) =
      some s ∧ runEvents next s [.call 0 true] = some t ∧ s.HasClosed "p" ∧
      t.calls 0 = .returned (.served "p" false) := by
    refine ⟨_, _, rfl, rfl, ⟨rfl, by decide, ?_⟩, rfl⟩
    rintro (_ | _ | _ | c) rest next <;> nofun
  obtain ⟨s, t, hs, ht, hclosed, hreturned⟩ := hrun
  have hreach : system.ReachableUnder InTime s := reachableUnder_of_runEvents rfl hs
  have hleads : system.LeadsUnder InTime s t := leadsUnder_of_runEvents ht
  obtain ⟨hstate, hconns⟩ := closed_for_good hreach hclosed hleads
  exact ⟨s, t, hreach, hclosed, hleads, hreturned, hstate,
    hconns 0 false (congrArg Phase.answer hreturned)⟩

/-- The worker has joined, and `SetConn` has found the session for a client, when the
session is closed. -/
def closedInBetween : List Event :=
  createSession :: join 0 "worker" ++ [.serve 1 (joinRequest "client")] ++
    List.replicate 3 (.call 1 true) ++ closeAsCallTwo

/-- Two clients join one after the other, the session is closed, and both handlers
return. -/
def closedAfterRejoin : List Event :=
  createSession :: join 0 "client" ++ join 1 "client" ++ closeAsCallTwo ++
    [.call 0 true, .call 1 true]

/-- A session becomes active after `Close` has run on it, and the connection of the
first of two clients is open after `Close` and both handlers have returned. -/
theorem closed_session_reopens : ∃ s t u : State,
    system.Reachable s ∧ s.HasClosed "p" ∧ system.Leads s t ∧
    (∃ y, t.created "p" = some y ∧ y.state = .active) ∧
    system.Reachable u ∧ u.HasClosed "p" ∧ u.calls 0 = .returned (.served "p" false) ∧
    u.calls 1 = .returned (.served "p" false) ∧ u.calls 2 = .returned (.count 1) ∧
    u.closedConns 0 = false := by
  have hrun : ∃ s t, runEvents step initial closedInBetween = some s ∧
      runEvents step s [.call 1 true] = some t ∧ s.HasClosed "p" ∧
      ∃ y, t.created "p" = some y ∧ y.state = .active := by
    refine ⟨_, _, rfl, rfl, ⟨rfl, by decide, ?_⟩, _, rfl, rfl⟩
    rintro (_ | _ | _ | c) rest next <;> nofun
  have hrun' : ∃ u, runEvents step initial closedAfterRejoin = some u ∧ u.HasClosed "p" ∧
      u.calls 0 = .returned (.served "p" false) ∧ u.calls 1 = .returned (.served "p" false) ∧
      u.calls 2 = .returned (.count 1) ∧ u.closedConns 0 = false := by
    refine ⟨_, rfl, ⟨rfl, by decide, ?_⟩, rfl, rfl, rfl, rfl⟩
    rintro (_ | _ | _ | c) rest next <;> nofun
  obtain ⟨s, t, hs, ht, hclosed, hactive⟩ := hrun
  obtain ⟨u, hu, hrest⟩ := hrun'
  exact ⟨s, t, u, reachable_of_runEvents rfl hs, hclosed, leads_of_runEvents ht, hactive,
    reachable_of_runEvents rfl hu, hrest⟩

end MiniControl.Proxy
