import MiniControl.Proxy.Consistency

/-!
# The reaper of proxy sessions

`reap` selects its sessions under the mutex of the manager and closes them one by
one afterwards. Their age only grows, so that every session is old enough when it is
closed. Their state may change: a side that joins after the selection completes a
session that is closed all the same.
-/

namespace MiniControl.Proxy

open Transition

/-- The sessions that a call has selected and not yet closed. -/
def Phase.unclosed : Phase → List SessionID
  | .removing id rest _ | .closing id rest _ => id :: rest
  | _ => []

/-- A call that starts to close sessions has closed none of them. -/
@[simp] theorem Phase.unclosed_closeAll (next : Next) (ids : List SessionID) :
    (Phase.closeAll next ids).unclosed = ids := by
  cases ids with
  | nil => cases next <;> rfl
  | cons id rest => rfl

/-- The next action of the call is the section of `SetConn` that completes the session. -/
def State.completes (s : State) (d : ℕ) (id : SessionID) : Bool :=
  match s.calls d with
  | .update other role => other = id && (s.created id).any fun x => (x.setConn role d).2
  | _ => false

/-- No session is completed between its selection by the call and its closing. -/
def SparesSelected (c : ℕ) (s : State) : Event → Prop
  | .call d _ => ∀ id ∈ (s.calls c).unclosed, s.completes d id = false
  | _ => True

instance (c : ℕ) (s : State) (e : Event) : Decidable (SparesSelected c s e) := by
  cases e
  case call => exact List.decidableBAll _ _
  all_goals exact instDecidableTrue

variable {s t : State} {e : Event} {id : SessionID} {c : ℕ}

/-- Time does not go back. -/
theorem Effect.clock (h : Effect s e t) : s.clock ≤ t.clock := by
  cases h with
  | tick elapsed ht =>
    subst ht
    exact Nat.le_add_right _ _
  | disconnect _ ht | create _ _ _ _ _ _ _ _ _ ht | start _ _ _ _ ht | move _ _ _ _ _ ht
  | join _ _ _ _ _ _ _ _ ht | remove _ _ _ _ _ _ ht | close _ _ _ _ _ _ _ ht =>
    subst ht
    exact Nat.le_refl _

/-- A call that closes sessions selects no further ones. -/
theorem Effect.unclosed {result : Result} (h : Effect s e t)
    (hcloses : (s.calls c).ClosesFor result) :
    (t.calls c).ClosesFor result ∧ ∀ id ∈ (t.calls c).unclosed, id ∈ (s.calls c).unclosed := by
  cases h.call c with
  | same ht => exact ⟨ht ▸ hcloses, fun id hid => ht ▸ hid⟩
  | start hc _ =>
    rw [hc] at hcloses
    cases hcloses
  | join _ _ _ _ _ hc =>
    rw [hc] at hcloses
    cases hcloses
  | move _ _ hmoves =>
    generalize s.calls c = p at hmoves hcloses
    generalize t.calls c = q at hmoves
    cases hmoves with
    | skip rest next _ =>
      obtain rfl : next = .finish result := hcloses
      refine ⟨Phase.closesFor_closeAll result rest, fun id hid => ?_⟩
      rw [Phase.unclosed_closeAll] at hid
      exact List.mem_cons_of_mem _ hid
    | _ => cases hcloses
  | remove id rest next hc _ ht =>
    rw [hc] at hcloses ⊢
    rw [ht]
    exact ⟨hcloses, fun _ hid => hid⟩
  | close id rest next x hc _ _ ht =>
    rw [hc] at hcloses ⊢
    obtain rfl : next = .finish result := hcloses
    rw [ht]
    refine ⟨Phase.closesFor_closeAll result rest, fun id hid => ?_⟩
    rw [Phase.unclosed_closeAll] at hid
    exact List.mem_cons_of_mem _ hid

/-- `SetConn` and `Close` keep the time of a session. -/
theorem Effect.createdAt {x : ProxySession} (h : Effect s e t) (hx : s.created id = some x) :
    ∃ y, t.created id = some y ∧ y.createdAt = x.createdAt := by
  refine h.persists hx rfl (fun role c _ => ?_) fun h => h
  simp only [ProxySession.setConn]
  split <;> cases role <;> rfl

/-- The call reaps: the sessions that it has selected are old enough. -/
structure State.Reaps (s : State) (c : ℕ) : Prop where
  closes : (s.calls c).ClosesFor .done
  stale : ∀ id ∈ (s.calls c).unclosed, ∃ x, s.created id = some x ∧
    pendingSessionMaxAge < s.clock - x.createdAt

/-- Every step lets the call reap. -/
theorem State.Reaps.step (hs : s.Reaps c) (h : Effect s e t) : t.Reaps c := by
  obtain ⟨hcloses, hwithin⟩ := h.unclosed hs.closes
  refine ⟨hcloses, fun id hid => ?_⟩
  obtain ⟨x, hx, hage⟩ := hs.stale id (hwithin id hid)
  obtain ⟨y, hy, hcreated⟩ := h.createdAt hx
  refine ⟨y, hy, ?_⟩
  have hclock := h.clock
  omega

/-- A step that spares the selected sessions leaves all of them incomplete. -/
theorem SparesSelected.step (hok : SparesSelected c s e) (hs : s.Reaps c) (h : Effect s e t)
    (happart : ∀ id ∈ (s.calls c).unclosed, ∀ x, s.created id = some x → x.bothConnected = false) :
    ∀ id ∈ (t.calls c).unclosed, ∀ x, t.created id = some x → x.bothConnected = false := by
  intro id hid y hy
  have hselected := (h.unclosed hs.closes).2 id hid
  obtain ⟨x, hx, _⟩ := hs.stale id hselected
  have hx' := happart id hselected x hx
  cases h.session id with
  | same ht => exact happart id hselected y (ht ▸ hy)
  | made _ _ _ _ _ _ hfresh =>
    rw [hfresh] at hx
    cases hx
  | joined d choice role z he hd hz ht _ =>
    subst he
    have hspared : s.completes d id = false := hok id hselected
    simp only [State.completes, hd, hz, decide_true, Bool.true_and, Option.any_some] at hspared
    obtain rfl := Option.some.inj (ht ▸ hy)
    rw [← z.setConn_answer]
    exact hspared
  | closed z hz ht _ =>
    obtain rfl : x = z := Option.some.inj (hx ▸ hz)
    obtain rfl := Option.some.inj (ht ▸ hy)
    exact hx'

/-- The start of the reaper: what it selects is old and lacks a side. -/
theorem reaps_of_reap {order : List SessionID} (h : system.Reachable s)
    (hstart : step s (.reap c order) = some t) :
    t.Reaps c ∧
      ∀ id ∈ (t.calls c).unclosed, ∀ x, t.created id = some x → x.bothConnected = false := by
  obtain ⟨_, horder, rfl⟩ := start_eq hstart
  have hselected : ∀ id ∈ order, ∃ x, s.created id = some x ∧ x.bothConnected = false ∧
      pendingSessionMaxAge < s.clock - x.createdAt := by
    intro id hid
    obtain ⟨x, hget, hstale⟩ := State.mem_select.mp (horder.mem_iff.mp hid)
    obtain ⟨hmem, hx⟩ := Option.ite_none_right_eq_some.mp hget
    rw [State.isStale, Bool.and_eq_true, decide_eq_true_eq, decide_eq_true_eq] at hstale
    have hlive := (consistent_of_reachable h).live id x hx hmem
    exact ⟨x, hx, hlive.pending.mp hstale.1, hstale.2⟩
  have hunclosed : ((s.goto c (.closeAll (.finish .done) order)).calls c).unclosed = order := by
    rw [State.goto_self, Phase.unclosed_closeAll]
  refine ⟨⟨?_, fun id hid => ?_⟩, fun id hid x hx => ?_⟩
  · rw [State.goto_self]
    exact Phase.closesFor_closeAll _ _
  · obtain ⟨x, hx, _, hage⟩ := hselected id (hunclosed ▸ hid)
    exact ⟨x, hx, hage⟩
  · obtain ⟨y, hy, happart, _⟩ := hselected id (hunclosed ▸ hid)
    obtain rfl : y = x := Option.some.inj (hy.symm.trans hx)
    exact happart

/-- The reaper closes no session that is younger than `pendingSessionMaxAge`, in any
run. In a run that completes no session between its selection and its closing, the
reaper closes no session that has both connections. -/
theorem reap_closes_incomplete {order : List SessionID} (h : system.Reachable s)
    (hstart : step s (.reap c order) = some t) :
    (∀ u, system.Leads t u → ∀ id rest next, u.calls c = .closing id rest next →
      ∃ x, u.created id = some x ∧ pendingSessionMaxAge < u.clock - x.createdAt) ∧
    ∀ u, system.LeadsUnder (SparesSelected c) t u → ∀ id rest next,
      u.calls c = .closing id rest next →
      ∃ x, u.created id = some x ∧ ¬(x.clientConn.isSome ∧ x.workerConn.isSome) := by
  obtain ⟨hreaps, happart⟩ := reaps_of_reap h hstart
  have hage : ∀ u, system.Leads t u → u.Reaps c := by
    intro u hrun
    refine System.Leads.invariant (P := fun u => u.Reaps c) ?_ hrun (h.next hstart) hreaps
    intro u e v _ hnext hu
    exact hu.step (step_effect hnext)
  constructor
  · intro u hrun id rest next hclosing
    refine (hage u hrun).stale id ?_
    rw [hclosing]
    exact List.mem_cons_self
  · intro u hrun id rest next hclosing
    have hunclosed : id ∈ (u.calls c).unclosed := by
      rw [hclosing]
      exact List.mem_cons_self
    obtain ⟨x, hx, _⟩ := (hage u hrun.leads).stale id hunclosed
    have hapart : u.Reaps c ∧
        ∀ id ∈ (u.calls c).unclosed, ∀ x, u.created id = some x → x.bothConnected = false := by
      refine System.LeadsUnder.invariant (P := fun u => u.Reaps c ∧ ∀ id ∈ (u.calls c).unclosed,
        ∀ x, u.created id = some x → x.bothConnected = false) ?_ hrun (h.next hstart)
        ⟨hreaps, happart⟩
      rintro u e v _ hok hnext ⟨hu, hu'⟩
      exact ⟨hu.step (step_effect hnext), hok.step hu (step_effect hnext) hu'⟩
    refine ⟨x, hx, ?_⟩
    simpa [ProxySession.bothConnected] using hapart.2 id hunclosed x hx

/-- A client joins and waits for more than a minute, and its worker is about to join. -/
def belated : List Event :=
  [createSession] ++ join 0 "client" ++
    [.tick (61 * 1000000000), .serve 1 (joinRequest "worker"), .call 1 true, .call 1 true,
      .call 1 true]

/-- The reaper closes the session of a client that nobody has joined. -/
theorem reap_closes_incomplete_alone : ∃ s t u : State, system.Reachable s ∧
    step s (.reap 2 ["p"]) = some t ∧ u.calls 2 = .closing "p" [] (.finish .done) ∧
    ∃ x, u.created "p" = some x ∧ ¬(x.clientConn.isSome ∧ x.workerConn.isSome) := by
  have hrun : ∃ s t u, runEvents step initial belated = some s ∧
      step s (.reap 2 ["p"]) = some t ∧
      runEvents (fun s e => if SparesSelected 2 s e then step s e else none) t
        [.call 2 true] = some u ∧ u.calls 2 = .closing "p" [] (.finish .done) :=
    ⟨_, _, _, rfl, rfl, rfl, rfl⟩
  obtain ⟨s, t, u, hs, ht, hu, hclosing⟩ := hrun
  have hreach : system.Reachable s := reachable_of_runEvents rfl hs
  refine ⟨s, t, u, hreach, ht, hclosing, ?_⟩
  exact (reap_closes_incomplete hreach ht).2 u (leadsUnder_of_runEvents hu) _ _ _ hclosing

/-- The worker joins between the selection and the closing: the reaper closes an
active session, and with it both connections. -/
theorem reap_closes_active : ∃ s t u v : State, ∃ x, system.Reachable s ∧
    step s (.reap 2 ["p"]) = some t ∧ system.Leads t u ∧
    u.calls 2 = .closing "p" [] (.finish .done) ∧ u.created "p" = some x ∧
    x.state = .active ∧ x.clientConn.isSome ∧ x.workerConn.isSome ∧
    step u (.call 2 true) = some v ∧ v.closedConns 0 = true ∧ v.closedConns 1 = true := by
  have hrun : ∃ s t u v x, runEvents step initial belated = some s ∧
      step s (.reap 2 ["p"]) = some t ∧
      runEvents step t [.call 1 true, .call 2 true] = some u ∧
      u.calls 2 = .closing "p" [] (.finish .done) ∧ u.created "p" = some x ∧
      x.state = .active ∧ x.clientConn.isSome ∧ x.workerConn.isSome ∧
      step u (.call 2 true) = some v ∧ v.closedConns 0 = true ∧ v.closedConns 1 = true :=
    ⟨_, _, _, _, _, rfl, rfl, rfl, rfl, rfl, rfl, rfl, rfl, rfl, rfl, rfl⟩
  obtain ⟨s, t, u, v, x, hs, ht, hu, hrest⟩ := hrun
  exact ⟨s, t, u, v, x, reachable_of_runEvents rfl hs, ht, leads_of_runEvents hu, hrest⟩

end MiniControl.Proxy
