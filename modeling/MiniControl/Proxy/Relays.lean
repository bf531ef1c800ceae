import MiniControl.Proxy.Effects

/-!
# Relays

A WebSocket handler runs a relay when `SetConn` answers that both sides are
connected. As long as no connection arrives at a session that has both of its
connections, `SetConn` gives this answer once for a session, and no two relays read
from the same connection. A client that joins again starts a second relay.
-/

namespace MiniControl.Proxy

open Transition

variable {s t : State} {e : Event} {c : ℕ} {id : SessionID}

/-- The call was answered by `SetConn` for the session. -/
def State.Joined (s : State) (c : ℕ) (id : SessionID) : Prop :=
  ∃ bothReady, (s.calls c).answer = some (id, bothReady)

/-- The connections of a session, and those that its relays read from, were accepted
by calls that joined it. -/
structure Owned (s : State) : Prop where
  conn : ∀ id x role c, s.created id = some x → x.conn role = some c → s.Joined c id
  relay : ∀ c id client worker, s.calls c = .relaying id client worker →
    ∀ conn ∈ [client, worker], s.Joined conn id

/-- Calls stay joined. -/
theorem Effect.joined (h : Effect s e t) (hc : s.Joined c id) :
    t.Joined c id := by
  obtain ⟨bothReady, hanswer⟩ := hc
  exact ⟨bothReady, h.answer_kept hanswer⟩

/-- A relay reads from the connections that its session had when it started. -/
theorem Effect.relaying {c client worker : ℕ} (h : Effect s e t)
    (hc : t.calls c = .relaying id client worker) : s.calls c = .relaying id client worker ∨
      ∃ x, s.created id = some x ∧ x.clientConn = some client ∧ x.workerConn = some worker := by
  cases h.call c with
  | same ht => exact .inl (ht ▸ hc)
  | start _ hstarts =>
    have hnone := hstarts.answer
    rw [hc] at hnone
    cases hnone
  | move _ _ hmoves =>
    rw [hc] at hmoves
    generalize s.calls c = p at hmoves
    generalize hq : Phase.relaying id client worker = q at hmoves
    cases hmoves with
    | relay hx hclient hworker =>
      cases hq
      exact .inr ⟨_, hx, hclient, hworker⟩
    | skip rest next _ => cases rest <;> cases next <;> cases hq
    | _ => cases hq
  | join _ _ _ _ _ _ _ _ ht =>
    rw [hc] at ht
    split at ht <;> cases ht
  | remove _ _ _ _ _ ht =>
    rw [hc] at ht
    cases ht
  | close _ rest next _ _ _ _ ht =>
    rw [hc] at ht
    cases rest <;> cases next <;> cases ht

/-- Every step keeps the connections with the calls that joined. -/
theorem Owned.step (hs : Owned s) (h : Effect s e t) : Owned t := by
  refine ⟨?_, ?_⟩
  · intro id y role c hy hconn
    cases h.session id with
    | same ht => exact h.joined (hs.conn id y role c (ht ▸ hy) hconn)
    | made target vmID workerID port token createdAt _ _ ht =>
      rw [ht] at hy
      cases hy
      cases role <;> cases hconn
    | joined d choice role' x _ _ hx ht hanswer =>
      rw [ht] at hy
      cases hy
      rw [ProxySession.conn_setConn] at hconn
      by_cases hrole : role = role'
      · subst hrole
        rw [ProxySession.conn_store_self] at hconn
        cases hconn
        exact ⟨_, hanswer⟩
      · rw [ProxySession.conn_store_of_ne _ _ _ _ hrole] at hconn
        exact h.joined (hs.conn id x role c hx hconn)
    | closed x hx ht _ =>
      rw [ht] at hy
      cases hy
      exact h.joined (hs.conn id x role c hx (x.conn_close role ▸ hconn))
  · intro c id client worker hc conn hconn
    rcases h.relaying hc with hold | ⟨x, hx, hclient, hworker⟩
    · exact h.joined (hs.relay c id client worker hold conn hconn)
    · simp only [List.mem_cons, List.not_mem_nil, or_false] at hconn
      rcases hconn with rfl | rfl
      · exact h.joined (hs.conn id x .client conn hx hclient)
      · exact h.joined (hs.conn id x .worker conn hx hworker)

/-- In every reachable state the connections belong to the calls that joined. -/
theorem owned_of_reachable (h : system.Reachable s) : Owned s := by
  refine System.ReachableUnder.invariant ?_ ?_ h
  · rintro _ rfl
    exact ⟨nofun, nofun⟩
  · intro s e t _ _ hnext hs
    exact hs.step (step_effect hnext)

/-- Whether the step brings a connection to a session that does not have both of its
connections, if it brings one to a session at all. -/
def joinsOnce (s : State) : Event → Bool
  | .call c _ =>
    match s.calls c with
    | .update id _ => (s.created id).all (!·.bothConnected)
    | _ => true
  | _ => true

/-- No connection arrives at a session that has both of its connections. -/
abbrev JoinsOnce (s : State) (e : Event) : Prop := joinsOnce s e = true

/-- A session that a connection arrives at does not have both. -/
theorem JoinsOnce.not_bothConnected {choice : Bool} {role : Role} {x : ProxySession}
    (h : JoinsOnce s e) (he : e = .call c choice) (hc : s.calls c = .update id role)
    (hx : s.created id = some x) : x.bothConnected = false := by
  subst he
  simpa [JoinsOnce, joinsOnce, hc, hx] using h

/-- `SetConn` has answered that both sides are connected only where they are, and to
one call for a session. -/
structure AnsweredOnce (s : State) : Prop where
  connected : ∀ c id, (s.calls c).answer = some (id, true) →
    ∃ x, s.created id = some x ∧ x.bothConnected = true
  unique : ∀ c d id, (s.calls c).answer = some (id, true) → (s.calls d).answer = some (id, true) →
    c = d

/-- A positive answer is old, or it is given in this step to the call that acts, and
then no call has one for its session. -/
theorem AnsweredOnce.fresh (hs : AnsweredOnce s) (hok : JoinsOnce s e) (h : Effect s e t)
    (hc : (t.calls c).answer = some (id, true)) :
    (s.calls c).answer = some (id, true) ∨
      (∃ choice, e = .call c choice) ∧ (∃ y, t.created id = some y ∧ y.bothConnected = true) ∧
        ∀ d, (s.calls d).answer ≠ some (id, true) := by
  cases h.answer c with
  | same ht => exact .inl (ht ▸ hc)
  | missed _ _ _ _ _ _ ht =>
    rw [hc] at ht
    cases ht
  | joined choice id' role x he hphase hx hx' ht =>
    rw [hc] at ht
    obtain ⟨rfl, hready⟩ := Prod.mk.inj (Option.some.inj ht)
    rw [ProxySession.setConn_answer] at hready
    refine .inr ⟨⟨choice, he⟩, ⟨_, hx', hready.symm⟩, ?_⟩
    intro d hd
    obtain ⟨y, hy, hboth⟩ := hs.connected d id hd
    obtain rfl : x = y := Option.some.inj (hx ▸ hy)
    rw [hok.not_bothConnected he hphase hx] at hboth
    cases hboth

/-- A step that brings no connection to a connected session keeps the answers
unique. -/
theorem AnsweredOnce.step (hs : AnsweredOnce s) (hok : JoinsOnce s e) (h : Effect s e t) :
    AnsweredOnce t := by
  refine ⟨?_, ?_⟩
  · intro c id hc
    rcases hs.fresh hok h hc with hold | ⟨_, hconnected, _⟩
    · obtain ⟨x, hx, hboth⟩ := hs.connected c id hold
      exact h.persists hx hboth (x.bothConnected_setConn · ·) fun hboth => hboth
    · exact hconnected
  · intro c d id hc hd
    rcases hs.fresh hok h hc with hcold | ⟨⟨choice, hce⟩, _, hnone⟩ <;>
      rcases hs.fresh hok h hd with hdold | ⟨⟨choice', hde⟩, _, hnone'⟩
    · exact hs.unique c d id hcold hdold
    · exact absurd hcold (hnone' c)
    · exact absurd hdold (hnone d)
    · cases hce.symm.trans hde
      rfl

/-- `SetConn` answers at most one call of a session that both sides are connected, so
that at most one relay runs for it, and no two relays read from the same connection. -/
theorem one_relay (h : system.ReachableUnder JoinsOnce s) :
    (∀ c d id, (s.calls c).answer = some (id, true) → (s.calls d).answer = some (id, true) →
      c = d) ∧
    ∀ c d id id' client worker client' worker', s.calls c = .relaying id client worker →
      s.calls d = .relaying id' client' worker' → c ≠ d →
      id ≠ id' ∧ ∀ conn ∈ [client, worker], conn ∉ [client', worker'] := by
  have honce : AnsweredOnce s := by
    refine System.ReachableUnder.invariant ?_ ?_ h
    · rintro _ rfl
      exact ⟨nofun, nofun⟩
    · intro s e t _ hok hnext hs
      exact hs.step hok (step_effect hnext)
  have howned := owned_of_reachable h.reachable
  refine ⟨honce.unique, ?_⟩
  intro c d id id' client worker client' worker' hc hd hcd
  have hid : id ≠ id' := by
    rintro rfl
    exact hcd (honce.unique c d id (congrArg Phase.answer hc) (congrArg Phase.answer hd))
  refine ⟨hid, ?_⟩
  intro conn hconn hconn'
  -- A connection that both relays read from was accepted for two sessions.
  obtain ⟨_, hanswer⟩ := howned.relay c id client worker hc conn hconn
  obtain ⟨_, hanswer'⟩ := howned.relay d id' client' worker' hd conn hconn'
  rw [hanswer] at hanswer'
  exact hid (Prod.mk.inj (Option.some.inj hanswer')).1

/-- A session for a virtual machine of a worker. -/
def createSession : Event := .create "p" .vm "v" "w" 22 "k" 0

/-- A request for one side of that session. -/
def joinRequest (role : String) : Request := ⟨"p", role, "k", true, true⟩

/-- A handler joins that session and is answered. -/
def join (c : ℕ) (role : String) : List Event :=
  .serve c (joinRequest role) :: List.replicate 4 (.call c true)

/-- A worker and a client join, and the relay starts. -/
def relayed : List Event :=
  createSession :: join 0 "worker" ++ join 1 "client" ++ [.call 1 true, .call 1 true]

/-- One of the two handlers runs the relay between their connections. -/
theorem one_relay_relayed : ∃ s : State, system.ReachableUnder JoinsOnce s ∧
    s.calls 1 = .relaying "p" 1 0 ∧
    ∀ d, (s.calls d).answer = some ("p", true) → d = 1 := by
  have hrun : ∃ s, runEvents (fun s e => if JoinsOnce s e then step s e else none) initial
      relayed = some s ∧ s.calls 1 = .relaying "p" 1 0 := ⟨_, rfl, rfl⟩
  obtain ⟨s, hs, hrelay⟩ := hrun
  have hreach : system.ReachableUnder JoinsOnce s := reachableUnder_of_runEvents rfl hs
  refine ⟨s, hreach, hrelay, ?_⟩
  intro d hd
  exact (one_relay hreach).1 d 1 "p" hd (congrArg Phase.answer hrelay)

/-- The client joins once more. -/
def rejoined : List Event := relayed ++ join 2 "client" ++ [.call 2 true, .call 2 true]

/-- A second relay of the session reads from the connection of its worker. -/
theorem rejoin_starts_second_relay : ∃ s, system.Reachable s ∧
    s.calls 1 = .relaying "p" 1 0 ∧ s.calls 2 = .relaying "p" 2 0 := by
  have hrun : ∃ s, runEvents step initial rejoined = some s ∧
      s.calls 1 = .relaying "p" 1 0 ∧ s.calls 2 = .relaying "p" 2 0 := ⟨_, rfl, rfl, rfl⟩
  obtain ⟨s, hs, hrelays⟩ := hrun
  exact ⟨s, reachable_of_runEvents rfl hs, hrelays⟩

end MiniControl.Proxy
