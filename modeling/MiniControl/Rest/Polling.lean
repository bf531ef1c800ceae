import MiniControl.Fleet.Releasing
import MiniControl.Heartbeat.Safety
import MiniControl.Proxy.Disclosure
import MiniControl.Rest.MemberRequests

/-!
# Polls for pending sessions

A poll of a worker looks up the workstation of each of its pending sessions, and the
legacy VM when there is no such workstation. A session whose VM is not on the worker is
closed. Meanwhile the database, the session manager and the other requests go on. A
session is made for a VM that a request found on a worker before, and a workstation
never moves, so a poll would keep all sessions of existing workstations; but a lookup
that fails counts as one that finds nothing.
-/

namespace MiniControl.Rest.Polling

open Transition Fleet
open Heartbeat (Owned Advances)

/-- What a deployment fixes. -/
structure Setup where
  server : Server
  /-- The ids of legacy VMs. No workstation is given one of them. -/
  legacy : String → Bool

/-- A poll: its worker, and whether the lookup of the workstation of the session that it
looks at has found no row. -/
structure Poll where
  workerID : String
  missed : Bool
  deriving DecidableEq

/-- The tables and the session manager. -/
structure State where
  fleet : Fleet.State
  proxy : Proxy.State
  /-- The `vms` table. -/
  vms : String → Option VM
  /-- The VMs that requests for sessions have found, each with its worker. -/
  found : List (String × String)
  polls : ℕ → Poll

/-- What may happen next. -/
inductive Event
  | fleet (tx : ℕ) (action : Action)
  | setVM (id : String) (vm : Option VM)
  /-- A request for a session finds the workstation running. -/
  | findWorkstation (id : String)
  /-- A request for a session finds the legacy VM available. -/
  | findVM (id : String)
  | proxy (e : Proxy.Event)
  | poll (c : ℕ) (workerID : String) (order : List Proxy.SessionID)
  /-- `GetWorkstationByID` in `pendingSessionBelongsToWorker`, and whether it fails other
  than by finding no row. -/
  | lookupWorkstation (c : ℕ) (fails : Bool)
  /-- `GetVM` in `pendingSessionBelongsToWorker`, and whether it fails. -/
  | lookupVM (c : ℕ) (fails : Bool)
  deriving DecidableEq

namespace State

variable (s : State)

/-- The session of a VM that the poll looks at. -/
def awaited (c : ℕ) : Option Proxy.ProxySession :=
  match s.proxy.calls c with
  | .polling (id :: _) _ => (s.proxy.created id).filter (·.target = .vm)
  | _ => none

/-- The poll goes on when it knows whether the session belongs to its worker. -/
def decideSession (c : ℕ) (belongs : Bool) : Option State :=
  (Proxy.step s.proxy (.call c belongs)).map fun proxy =>
    { s with proxy, polls := Function.update s.polls c { s.polls c with missed := false } }

/-- The steps of the session manager apart from polls: a session of a VM is made for a
VM that was found, and a poll does not go on before it has looked the VM up. -/
def admits : Proxy.Event → Bool
  | .create _ .vm vmID workerID _ _ _ => (vmID, workerID) ∈ s.found
  | .poll _ _ _ => false
  | .call c _ => (s.awaited c).isNone
  | _ => true

end State

/-- One step of the system. -/
def Setup.step (setup : Setup) (s : State) : Event → Option State
  | .fleet tx action =>
    (setup.server.program.step s.fleet (tx, action)).bind fun fleet =>
      if fleet.shared.usedIDs.any setup.legacy then none else some { s with fleet }
  | .setVM id vm =>
    if setup.legacy id then some { s with vms := Function.update s.vms id vm } else none
  | .findWorkstation id =>
    (s.fleet.shared.db.workstations.find? (·.id = id)).bind fun row =>
      if row.powerState = .running then some { s with found := (id, row.workerID) :: s.found }
      else none
  | .findVM id =>
    (s.vms id).bind fun vm =>
      if vm.state ∈ [VMState.ready, .busy, .bootstrapping] then
        some { s with found := (id, vm.workerID) :: s.found }
      else none
  | .proxy e =>
    if s.admits e then (Proxy.step s.proxy e).map fun proxy => { s with proxy } else none
  | .poll c workerID order =>
    (Proxy.step s.proxy (.poll c workerID order)).map fun proxy =>
      { s with proxy, polls := Function.update s.polls c ⟨workerID, false⟩ }
  | .lookupWorkstation c fails =>
    (s.awaited c).bind fun x =>
      if (s.polls c).missed then none
      else if fails then s.decideSession c false
      else match s.fleet.shared.db.workstations.find? (·.id = x.vmID) with
        | some row => s.decideSession c (row.workerID = (s.polls c).workerID)
        | none =>
          some { s with polls := Function.update s.polls c { s.polls c with missed := true } }
  | .lookupVM c fails =>
    (s.awaited c).bind fun x =>
      if (s.polls c).missed then
        s.decideSession c (!fails && (s.vms x.vmID).any (·.workerID = (s.polls c).workerID))
      else none

/-- Nothing is stored but legacy VMs. -/
def initial (vms : String → Option VM) : State :=
  ⟨Fleet.State.initial, Proxy.initial, vms, [], fun _ => ⟨"", false⟩⟩

/-- The server with its database, from any table of legacy VMs. -/
def Setup.system (setup : Setup) : System State Event :=
  .ofStep (fun s => ∃ vms, (∀ id vm, vms id = some vm → setup.legacy id = true) ∧ s = initial vms)
    setup.step

/-- A lookup of the poll fails, other than by finding no workstation. -/
def Event.failsLookup (c : ℕ) : Event → Bool
  | .lookupWorkstation d fails | .lookupVM d fails => d = c && fails
  | _ => false

/-- Why a poll decides that a session does not belong to its worker. -/
inductive State.Unplaced (s : State) (c : ℕ) (x : Proxy.ProxySession) : Event → Prop
  | failed {e : Event} : e.failsLookup c = true → Unplaced s c x e
  | moved {e : Event} {row : Workstation} : row ∈ s.fleet.shared.db.workstations →
      row.id = x.vmID → row.workerID ≠ (s.polls c).workerID → Unplaced s c x e
  | missing {e : Event} : (s.polls c).missed = true →
      (∀ vm, s.vms x.vmID = some vm → vm.workerID ≠ (s.polls c).workerID) → Unplaced s c x e

/-- What the steps do. -/
inductive Takes (setup : Setup) (s : State) : Event → State → Prop
  | fleet {tx : ℕ} {action : Action} {fleet : Fleet.State} :
      setup.server.system.next s.fleet (tx, action) fleet →
      (∀ id ∈ fleet.shared.usedIDs, setup.legacy id = false) →
      Takes setup s (.fleet tx action) { s with fleet }
  | setVM {id : String} {vm : Option VM} : setup.legacy id = true →
      Takes setup s (.setVM id vm) { s with vms := Function.update s.vms id vm }
  | findWorkstation {row : Workstation} : row ∈ s.fleet.shared.db.workstations →
      Takes setup s (.findWorkstation row.id) { s with found := (row.id, row.workerID) :: s.found }
  | findVM {id : String} {vm : VM} : s.vms id = some vm →
      Takes setup s (.findVM id) { s with found := (id, vm.workerID) :: s.found }
  | proxy {e : Proxy.Event} {proxy : Proxy.State} : s.admits e = true →
      Proxy.system.next s.proxy e proxy → Takes setup s (.proxy e) { s with proxy }
  | poll {c : ℕ} {workerID : String} {order : List Proxy.SessionID} {proxy : Proxy.State} :
      Proxy.system.next s.proxy (.poll c workerID order) proxy →
      Takes setup s (.poll c workerID order)
        { s with proxy, polls := Function.update s.polls c ⟨workerID, false⟩ }
  | miss {c : ℕ} {x : Proxy.ProxySession} : s.awaited c = some x →
      (∀ row ∈ s.fleet.shared.db.workstations, row.id ≠ x.vmID) →
      Takes setup s (.lookupWorkstation c false)
        { s with polls := Function.update s.polls c { s.polls c with missed := true } }
  | decide {e : Event} {c : ℕ} {x : Proxy.ProxySession} {belongs : Bool} {proxy : Proxy.State} :
      s.awaited c = some x → Proxy.system.next s.proxy (.call c belongs) proxy →
      (belongs = false → s.Unplaced c x e) →
      Takes setup s e
        { s with proxy, polls := Function.update s.polls c { s.polls c with missed := false } }

/-- Every step is one of those listed. -/
theorem Setup.step_takes {setup : Setup} {s t : State} {e : Event} (h : setup.step s e = some t) :
    Takes setup s e t := by
  cases e with
  | fleet tx action =>
    obtain ⟨fleet, hnext, ht⟩ := Option.bind_eq_some_iff.mp h
    obtain ⟨hlegacy, heq⟩ := Option.ite_none_left_eq_some.mp ht
    obtain rfl := Option.some.inj heq
    exact .fleet hnext (by simpa using hlegacy)
  | setVM id vm =>
    obtain ⟨hlegacy, heq⟩ := Option.ite_none_right_eq_some.mp h
    obtain rfl := Option.some.inj heq
    exact .setVM hlegacy
  | findWorkstation id =>
    obtain ⟨row, hrow, heq⟩ := Option.bind_eq_some_iff.mp h
    obtain ⟨_, heq⟩ := Option.ite_none_right_eq_some.mp heq
    obtain rfl := Option.some.inj heq
    obtain rfl : row.id = id := by simpa using List.find?_some hrow
    exact .findWorkstation (List.mem_of_find?_eq_some hrow)
  | findVM id =>
    obtain ⟨vm, hvm, heq⟩ := Option.bind_eq_some_iff.mp h
    obtain ⟨_, heq⟩ := Option.ite_none_right_eq_some.mp heq
    obtain rfl := Option.some.inj heq
    exact .findVM hvm
  | proxy e =>
    obtain ⟨hadmits, heq⟩ := Option.ite_none_right_eq_some.mp h
    obtain ⟨proxy, hnext, rfl⟩ := Option.map_eq_some_iff.mp heq
    exact .proxy hadmits hnext
  | poll c workerID order =>
    obtain ⟨proxy, hnext, rfl⟩ := Option.map_eq_some_iff.mp h
    exact .poll hnext
  | lookupWorkstation c fails =>
    obtain ⟨x, hx, heq⟩ := Option.bind_eq_some_iff.mp h
    obtain ⟨hmissed, heq⟩ := Option.ite_none_left_eq_some.mp heq
    cases fails with
    | true =>
      obtain ⟨proxy, hnext, rfl⟩ := Option.map_eq_some_iff.mp heq
      exact .decide hx hnext fun _ => .failed (by simp [Event.failsLookup])
    | false =>
      cases hrow : s.fleet.shared.db.workstations.find? (·.id = x.vmID) with
      | some row =>
        simp only [hrow, Bool.false_eq_true, if_false] at heq
        obtain ⟨proxy, hnext, rfl⟩ := Option.map_eq_some_iff.mp heq
        refine .decide hx hnext fun hmoved => ?_
        exact .moved (List.mem_of_find?_eq_some hrow) (by simpa using List.find?_some hrow)
          (by simpa using hmoved)
      | none =>
        simp only [hrow, Bool.false_eq_true, if_false] at heq
        obtain rfl := Option.some.inj heq
        exact .miss hx (by simpa using hrow)
  | lookupVM c fails =>
    obtain ⟨x, hx, heq⟩ := Option.bind_eq_some_iff.mp h
    obtain ⟨hmissed, heq⟩ := Option.ite_none_right_eq_some.mp heq
    obtain ⟨proxy, hnext, rfl⟩ := Option.map_eq_some_iff.mp heq
    refine .decide hx hnext fun hbelongs => ?_
    cases fails with
    | true => exact .failed (by simp [Event.failsLookup])
    | false =>
      refine .missing hmissed fun vm hvm => ?_
      simpa [hvm] using hbelongs

/-- The id is not that of a workstation, and never will be. -/
def Setup.Gone (setup : Setup) (sh : Shared) (vmID : String) : Prop :=
  (∀ row ∈ sh.db.workstations, row.id ≠ vmID) ∧ (setup.legacy vmID = true ∨ sh.Known vmID)

/-- The VM is a legacy one, or was a workstation on the worker at some time. -/
def Setup.Placed (setup : Setup) (sh : Shared) (vmID workerID : String) : Prop :=
  setup.legacy vmID = true ∨ Owned sh workerID vmID

/-- What a poll that looks at a session of a VM is about to do. -/
structure State.Awaits (s : State) (c : ℕ) (x : Proxy.ProxySession) : Prop where
  target : x.target = .vm
  phase : ∃ id rest result, s.proxy.calls c = .polling (id :: rest) result ∧
    s.proxy.created id = some x

variable {s : State}

/-- The session that a lookup waits for, as a function and as a relation. -/
theorem State.awaited_eq_some {c : ℕ} {x : Proxy.ProxySession} :
    s.awaited c = some x ↔ s.Awaits c x := by
  unfold State.awaited
  constructor
  · intro h
    split at h
    next id rest result hc =>
      obtain ⟨hx, htarget⟩ := Option.filter_eq_some_iff.mp h
      exact ⟨of_decide_eq_true htarget, id, rest, result, hc, hx⟩
    next => cases h
  · rintro ⟨htarget, id, rest, result, hc, hx⟩
    rw [hc]
    exact Option.filter_eq_some_iff.mpr ⟨hx, decide_eq_true htarget⟩

section Fleet

variable {setup : Setup} {s t : Fleet.State} {e : ℕ × Action} {vmID workerID : String}

/-- What is gone stays so. -/
theorem Setup.Gone.next (h : setup.Gone s.shared vmID) (hreach : setup.server.system.Reachable s)
    (hnext : setup.server.system.next s e t)
    (hlegacy : ∀ id ∈ t.shared.usedIDs, setup.legacy id = false) : setup.Gone t.shared vmID := by
  obtain ⟨tx, action⟩ := e
  have hchange := setup.server.step_change hreach hnext
  have hok := (setup.server.holds_of_reachable (hreach.next hnext)).1
  refine ⟨fun row hrow hid => ?_, h.2.imp_right fun hknown => hknown.change hchange⟩
  rcases h.2 with hold | hknown
  · rw [← hid, hlegacy row.id (hok.used row hrow)] at hold
    cases hold
  · obtain ⟨old, hold, holdID, _⟩ := hknown.successor hchange hrow hid
    exact h.1 old hold holdID

/-- A VM stays where it was found. -/
theorem Setup.Placed.next (h : setup.Placed s.shared vmID workerID)
    (hreach : setup.server.system.Reachable s) (hnext : setup.server.system.next s e t) :
    setup.Placed t.shared vmID workerID := by
  obtain ⟨tx, action⟩ := e
  have hadvances := Advances.of_change (setup.server.holds_of_reachable hreach).1
    (setup.server.step_change hreach hnext)
  exact h.imp_right fun howned => hadvances.owned workerID vmID howned

end Fleet

/-- The tables, the sessions and the polls fit together. -/
structure Inv (setup : Setup) (s : State) : Prop where
  fleet : setup.server.system.Reachable s.fleet
  unused : ∀ id ∈ s.fleet.shared.usedIDs, setup.legacy id = false
  vms : ∀ id vm, s.vms id = some vm → setup.legacy id = true
  found : ∀ vmID workerID, (vmID, workerID) ∈ s.found →
    setup.Placed s.fleet.shared vmID workerID
  sessions : ∀ id x, s.proxy.created id = some x → x.target = .vm → (x.vmID, x.workerID) ∈ s.found
  polls : ∀ c sessions, (s.proxy.calls c).remaining = some sessions →
    ∀ id ∈ sessions, s.proxy.CreatedFor (s.polls c).workerID id
  missed : ∀ c, (s.polls c).missed = true → ∃ x, s.Awaits c x ∧ setup.Gone s.fleet.shared x.vmID

section Invariant

variable {setup : Setup} {s t : State} {e : Event} {x : Proxy.ProxySession} {c : ℕ}

/-- The VM and the worker of a session never change. -/
theorem kept_session {s t : Proxy.State} {e : Proxy.Event} {id : Proxy.SessionID}
    (h : Proxy.Effect s e t) (hx : s.created id = some x) :
    ∃ y, t.created id = some y ∧
      y.target = x.target ∧ y.vmID = x.vmID ∧ y.workerID = x.workerID := by
  refine h.persists hx ⟨rfl, rfl, rfl⟩ (fun role c hkept => ?_) fun hkept => hkept
  simp only [Proxy.ProxySession.setConn]
  split <;> cases role <;> exact hkept

/-- A poll looks at its session until it moves. -/
theorem State.Awaits.step {proxy : Proxy.State} {e : Proxy.Event} (h : s.Awaits c x)
    (heffect : Proxy.Effect s.proxy e proxy) (hcalls : proxy.calls c = s.proxy.calls c)
    {polls : ℕ → Poll} :
    ∃ y, ({ s with proxy, polls } : State).Awaits c y ∧ y.vmID = x.vmID := by
  obtain ⟨htarget, id, rest, result, hc, hx⟩ := h
  obtain ⟨y, hy, hytarget, hyvm, _⟩ := kept_session heffect hx
  exact ⟨y, ⟨hytarget.trans htarget, id, rest, result, hcalls.trans hc, hy⟩, hyvm⟩

namespace Inv

/-- The database takes a step of its own. -/
theorem ofFleet (h : Inv setup s) {fleet : Fleet.State} {e : ℕ × Action}
    (hnext : setup.server.system.next s.fleet e fleet)
    (hlegacy : ∀ id ∈ fleet.shared.usedIDs, setup.legacy id = false) :
    Inv setup { s with fleet } := by
  refine ⟨h.fleet.next hnext, hlegacy, h.vms,
    fun vmID workerID hfound => (h.found vmID workerID hfound).next h.fleet hnext, h.sessions,
    h.polls, fun c hmissed => ?_⟩
  obtain ⟨x, hawaits, hgone⟩ := h.missed c hmissed
  exact ⟨x, ⟨hawaits.target, hawaits.phase⟩, hgone.next h.fleet hnext hlegacy⟩

/-- A request finds a VM. -/
theorem ofFound (h : Inv setup s) {vmID workerID : String}
    (hplaced : setup.Placed s.fleet.shared vmID workerID) :
    Inv setup { s with found := (vmID, workerID) :: s.found } := by
  refine ⟨h.fleet, h.unused, h.vms, fun vmID' workerID' hfound => ?_,
    fun id x hx htarget => List.mem_cons_of_mem _ (h.sessions id x hx htarget), h.polls,
    fun c hmissed => ?_⟩
  · rcases List.mem_cons.mp hfound with heq | hold
    · cases heq
      exact hplaced
    · exact h.found vmID' workerID' hold
  · obtain ⟨x, hawaits, hgone⟩ := h.missed c hmissed
    exact ⟨x, ⟨hawaits.target, hawaits.phase⟩, hgone⟩

/-- A workstation is on its worker. -/
theorem placed_of_mem (h : Inv setup s) {row : Workstation}
    (hrow : row ∈ s.fleet.shared.db.workstations) :
    setup.Placed s.fleet.shared row.id row.workerID := by
  have hok := (setup.server.holds_of_reachable h.fleet).1
  refine .inr ⟨.of_mem hok hrow, fun other hother hid => ?_⟩
  rw [List.inj_on_of_nodup_map hok.ids hother hrow hid]

/-- The session manager takes a step that makes only sessions of VMs that were found. -/
theorem ofProxy (h : Inv setup s) {proxy : Proxy.State} {e : Proxy.Event} {polls : ℕ → Poll}
    (hnext : Proxy.system.next s.proxy e proxy)
    (hcreate : ∀ id vmID workerID port token createdAt,
      e = .create id .vm vmID workerID port token createdAt → (vmID, workerID) ∈ s.found)
    (hpolls : ∀ c sessions, (proxy.calls c).remaining = some sessions →
      (∀ id ∈ sessions, proxy.CreatedFor (polls c).workerID id) ∨
        (s.proxy.calls c).remaining ≠ none ∧ (polls c).workerID = (s.polls c).workerID)
    (hmissed : ∀ c, (polls c).missed = true →
      (s.polls c).missed = true ∧ proxy.calls c = s.proxy.calls c) :
    Inv setup { s with proxy, polls } := by
  have heffect := Proxy.step_effect hnext
  refine ⟨h.fleet, h.unused, h.vms, h.found, fun id x hx htarget => ?_,
    fun c sessions hremaining => ?_, fun c hc => ?_⟩
  · -- A session existed before with the same VM, or has just been made.
    have hold : (∃ y, s.proxy.created id = some y) → (x.vmID, x.workerID) ∈ s.found := by
      rintro ⟨y, hy⟩
      obtain ⟨z, hz, hztarget, hzvm, hzworker⟩ := kept_session heffect hy
      obtain rfl : z = x := Option.some.inj (hz.symm.trans hx)
      rw [hzvm, hzworker]
      exact h.sessions id y hy (hztarget.symm.trans htarget)
    cases Proxy.step_origin hnext with
    | kept hcreated _ => exact hold ⟨x, hcreated ▸ hx⟩
    | create id' target vmID workerID port token createdAt =>
      by_cases hid : id = id'
      · subst hid
        obtain rfl := Option.some.inj (hx.symm.trans (s.proxy.put_self id _))
        cases target with
        | vm => exact hcreate _ _ _ _ _ _ rfl
        | host => cases htarget
      · exact hold ⟨x, (s.proxy.put_of_ne _ hid).symm.trans hx⟩
    | poll | start => exact hold ⟨x, hx⟩
    | call _ _ hcreated => exact hold (hcreated id x hx)
  · rcases hpolls c sessions hremaining with hnew | ⟨hbefore, hworker⟩
    · exact hnew
    · -- What the poll has yet to look at is what it had before, or the rest of it.
      obtain ⟨before, hbefore⟩ := Option.ne_none_iff_exists'.mp hbefore
      obtain ⟨result, hresult⟩ := Proxy.Phase.polled_of_remaining hremaining
      obtain ⟨result', hresult'⟩ := Proxy.Phase.polled_of_remaining hbefore
      have hsub : sessions ⊆ before := by
        cases heffect.polled hresult' with
        | same ht =>
          cases ht.symm.trans hresult
          exact List.Subset.refl _
        | report choice id rest x he heq hx ht =>
          cases ht.symm.trans hresult
          rw [heq]
          exact List.subset_cons_self id _
        | drop choice id rest x he hc heq hx htarget ht =>
          cases ht.symm.trans hresult
          rw [heq]
          exact List.subset_cons_self id _
      intro id hid
      rw [show ({ s with proxy, polls } : State).polls c = polls c from rfl, hworker]
      exact heffect.createdFor (h.polls c before hbefore id (hsub hid))
  · obtain ⟨hmissed, hcalls⟩ := hmissed c hc
    obtain ⟨x, hawaits, hgone⟩ := h.missed c hmissed
    obtain ⟨y, hy, hvm⟩ := hawaits.step heffect hcalls
    exact ⟨y, hy, hvm ▸ hgone⟩

/-- One call takes a step after which no lookup of it is pending; the other polls go on. -/
theorem ofCall (h : Inv setup s) {proxy : Proxy.State} {e : Proxy.Event} {c : ℕ} {poll : Poll}
    (hnext : Proxy.system.next s.proxy e proxy)
    (hcreate : ∀ id vmID workerID port token createdAt,
      e ≠ .create id .vm vmID workerID port token createdAt)
    (hmissed : poll.missed = false) (hother : ∀ d, d ≠ c → proxy.calls d = s.proxy.calls d)
    (hpoll : ∀ sessions, (proxy.calls c).remaining = some sessions →
      (∀ id ∈ sessions, proxy.CreatedFor poll.workerID id) ∨
        (s.proxy.calls c).remaining ≠ none ∧ poll.workerID = (s.polls c).workerID) :
    Inv setup { s with proxy, polls := Function.update s.polls c poll } := by
  refine h.ofProxy hnext (fun _ _ _ _ _ _ he => absurd he (hcreate _ _ _ _ _ _))
    (fun d sessions hsessions => ?_) fun d hd => ?_
  · by_cases hdc : d = c
    · subst hdc
      rw [Function.update_self]
      exact hpoll sessions hsessions
    · rw [hother d hdc] at hsessions
      rw [Function.update_of_ne hdc]
      exact .inr ⟨by simp [hsessions], rfl⟩
  · by_cases hdc : d = c
    · subst hdc
      rw [Function.update_self, hmissed] at hd
      cases hd
    · rw [Function.update_of_ne hdc] at hd
      exact ⟨hd, hother d hdc⟩

end Inv

/-- A poll with a session of a VM in front of it reports it or starts to close it. -/
theorem State.Awaits.decide {belongs : Bool} {proxy : Proxy.State} (h : s.Awaits c x)
    (hnext : Proxy.system.next s.proxy (.call c belongs) proxy) :
    ∃ id rest result, s.proxy.calls c = .polling (id :: rest) result ∧
      s.proxy.created id = some x ∧ proxy = s.proxy.goto c
        (if belongs then .polling rest (result ++ [⟨id, x.target, x.vmID, x.port, x.token⟩])
          else .removing id [] (.poll rest result)) := by
  obtain ⟨htarget, id, rest, result, hc, hx⟩ := h
  refine ⟨id, rest, result, hc, hx, ?_⟩
  change Proxy.callStep s.proxy c belongs (s.proxy.calls c) = some proxy at hnext
  simp only [hc, Proxy.callStep, hx, Option.map_some, htarget, decide_true, Bool.true_and,
    Option.some.injEq] at hnext
  rw [← hnext]
  cases belongs <;> simp [htarget]

/-- The worker of a session that a poll looks at is that of the poll. -/
theorem Inv.awaits_worker (h : Inv setup s) (hx : s.Awaits c x) :
    x.workerID = (s.polls c).workerID := by
  obtain ⟨_, id, rest, result, hc, hcreated⟩ := hx
  obtain ⟨y, hy, hworker⟩ := h.polls c (id :: rest) (by rw [hc]; rfl) id List.mem_cons_self
  obtain rfl : x = y := Option.some.inj (hcreated.symm.trans hy)
  exact hworker

/-- A poll that does not fail gives up a session only when its workstation is gone and
no legacy VM of that id is on the worker. -/
theorem Inv.unplaced (h : Inv setup s) (hx : s.Awaits c x) (hunplaced : s.Unplaced c x e)
    (hfails : e.failsLookup c = false) :
    setup.Gone s.fleet.shared x.vmID ∧ ∀ vm, s.vms x.vmID = some vm → vm.workerID ≠ x.workerID := by
  rw [h.awaits_worker hx]
  cases hunplaced with
  | failed hfailed =>
    rw [hfails] at hfailed
    cases hfailed
  | @moved row hrow hid hmoved =>
    -- The row is on the worker on which the request had found it.
    have ⟨_, id, rest, result, hc, hcreated⟩ := hx
    rcases h.found _ _ (h.sessions id x hcreated hx.target) with hlegacy | howned
    · have hused := (setup.server.holds_of_reachable h.fleet).1.used row hrow
      rw [← hid, h.unused row.id hused] at hlegacy
      cases hlegacy
    · exact absurd ((howned.worker row hrow hid).trans (h.awaits_worker hx)) hmoved
  | missing hmissed hvms =>
    obtain ⟨y, hy, hgone⟩ := h.missed c hmissed
    have heq : x = y :=
      Option.some.inj ((State.awaited_eq_some.mpr hx).symm.trans (State.awaited_eq_some.mpr hy))
    rw [heq]
    exact ⟨hgone, heq ▸ hvms⟩

/-- Every step keeps the invariant. -/
theorem Inv.step (h : Inv setup s) (htakes : Takes setup s e t) : Inv setup t := by
  cases htakes with
  | fleet hnext hlegacy => exact h.ofFleet hnext hlegacy
  | @setVM id vm hlegacy =>
    refine ⟨h.fleet, h.unused, fun id' vm' hvm => ?_, h.found, h.sessions, h.polls, fun c hc => ?_⟩
    · by_cases hid : id' = id
      · rw [hid]
        exact hlegacy
      · exact h.vms id' vm' ((Function.update_of_ne hid vm s.vms).symm.trans hvm)
    · obtain ⟨x, hawaits, hgone⟩ := h.missed c hc
      exact ⟨x, ⟨hawaits.target, hawaits.phase⟩, hgone⟩
  | findWorkstation hrow => exact h.ofFound (h.placed_of_mem hrow)
  | findVM hvm => exact h.ofFound (.inl (h.vms _ _ hvm))
  | @proxy e proxy hadmits hnext =>
    have heffect := Proxy.step_effect hnext
    -- Without a lookup no poll moves that looks at a session of a VM.
    have hcalls : ∀ c x, s.Awaits c x → proxy.calls c = s.proxy.calls c := by
      intro c x hx
      obtain ⟨id, rest, result, hc, _⟩ := hx.phase
      cases Proxy.step_origin hnext with
      | kept _ hcalls => rw [hcalls]
      | create => rfl
      | poll => cases hadmits
      | @start _ d p hd _ =>
        refine Proxy.State.goto_of_ne _ _ ?_
        rintro rfl
        cases hc.symm.trans hd
      | @call d choice _ _ hother _ =>
        refine hother c ?_
        rintro rfl
        simp [State.admits, State.awaited_eq_some.mpr hx] at hadmits
    refine h.ofProxy hnext ?_ (fun c sessions hsessions => .inr ⟨fun hnone => ?_, rfl⟩)
      fun c hc => ?_
    · rintro id vmID workerID port token createdAt rfl
      exact of_decide_eq_true hadmits
    · have hnone' := Proxy.remaining_of_step hnext (fun d w order he => ?_) hnone
      · cases hsessions.symm.trans hnone'
      · rw [he] at hadmits
        cases hadmits
    · obtain ⟨x, hx, _⟩ := h.missed c hc
      exact ⟨hc, hcalls c x hx⟩
  | @poll c workerID order proxy hnext =>
    obtain ⟨hpolls, hphase, _⟩ := Proxy.polls_of_poll hnext
    obtain ⟨_, _, hproxy⟩ := Proxy.start_eq hnext
    refine h.ofCall hnext nofun rfl (fun d hd => ?_) fun sessions hsessions => .inl ?_
    · rw [hproxy, Proxy.State.goto_of_ne _ _ hd]
    · rw [hphase] at hsessions
      cases hsessions
      exact hpolls.sessions
  | @miss c x hx hnone =>
    have hx := State.awaited_eq_some.mp hx
    have hworker : ∀ d, (Function.update s.polls c { s.polls c with missed := true } d).workerID =
        (s.polls d).workerID := by
      intro d
      by_cases hdc : d = c
      · rw [hdc, Function.update_self]
      · rw [Function.update_of_ne hdc]
    refine ⟨h.fleet, h.unused, h.vms, h.found, h.sessions, fun d sessions hsessions id hid => ?_,
      fun d hd => ?_⟩
    · simp only [hworker]
      exact h.polls d sessions hsessions id hid
    · by_cases hdc : d = c
      · subst hdc
        obtain ⟨id, _, _, _, hcreated⟩ := hx.phase
        refine ⟨x, ⟨hx.target, hx.phase⟩, hnone, ?_⟩
        exact (h.found _ _ (h.sessions id x hcreated hx.target)).imp_right Owned.known
      · simp only [Function.update_of_ne hdc] at hd
        obtain ⟨y, hy, hgone⟩ := h.missed d hd
        exact ⟨y, ⟨hy.target, hy.phase⟩, hgone⟩
  | @decide e c x belongs proxy hx hnext _ =>
    have hx := State.awaited_eq_some.mp hx
    obtain ⟨id, rest, result, hc, _, hproxy⟩ := hx.decide hnext
    refine h.ofCall hnext nofun rfl (fun d hd => ?_) fun sessions _ => .inr ⟨?_, rfl⟩
    · rw [hproxy, Proxy.State.goto_of_ne _ _ hd]
    · rw [hc]
      exact nofun

/-- The invariant holds in every reachable state. -/
theorem Setup.inv_of_reachable (setup : Setup) (h : setup.system.Reachable s) : Inv setup s := by
  refine System.ReachableUnder.invariant ?_ (fun s e t _ _ hnext hinv =>
    hinv.step (Setup.step_takes hnext)) h
  rintro s ⟨vms, hvms, rfl⟩
  exact ⟨.init rfl, fun id hid => absurd hid List.not_mem_nil, hvms,
    fun vmID workerID hfound => absurd hfound List.not_mem_nil, nofun, nofun, nofun⟩

/-- The poll has yet to look at the session or has reported it, unless the workstation of
the session is gone. -/
structure State.Tracks (setup : Setup) (s : State) (c : ℕ) (id : Proxy.SessionID)
    (target : Proxy.ProxyTarget) (vmID : String) : Prop where
  session : ∃ x, s.proxy.created id = some x ∧ x.target = target ∧ x.vmID = vmID
  poll : ∃ sessions result, (s.proxy.calls c).polled = some (sessions, result) ∧
    (id ∈ sessions ∨ (∃ p ∈ result, p.sessionID = id) ∨
      target = .vm ∧ setup.Gone s.fleet.shared vmID)

section Tracks

variable {c : ℕ} {id : Proxy.SessionID} {target : Proxy.ProxyTarget} {vmID : String}

/-- A step of the session manager keeps track of the session, if the session is only
dropped once its workstation is gone. -/
theorem State.Tracks.proxy (h : s.Tracks setup c id target vmID) {proxy : Proxy.State}
    {e : Proxy.Event} {polls : ℕ → Poll} (heffect : Proxy.Effect s.proxy e proxy)
    (hdrop : ∀ x rest result choice, e = .call c choice →
      s.proxy.calls c = .polling (id :: rest) result → s.proxy.created id = some x →
      x.target = .vm → (proxy.calls c).polled = some (rest, result) →
      setup.Gone s.fleet.shared x.vmID) :
    ({ s with proxy, polls } : State).Tracks setup c id target vmID := by
  obtain ⟨⟨x, hx, htarget, hvm⟩, sessions, result, hpolled, htracked⟩ := h
  obtain ⟨y, hy, hytarget, hyvm, _⟩ := kept_session heffect hx
  refine ⟨⟨y, hy, hytarget.trans htarget, hyvm.trans hvm⟩, ?_⟩
  cases heffect.polled hpolled with
  | same ht => exact ⟨sessions, result, ht, htracked⟩
  | report choice id' rest x' he heq hx' ht =>
    refine ⟨rest, _, ht, ?_⟩
    rcases htracked with hmem | ⟨p, hp, hid⟩ | hgone
    · rw [heq] at hmem
      rcases List.mem_cons.mp hmem with rfl | hmem
      · exact .inr (.inl ⟨_, List.mem_append_right _ (List.mem_singleton_self _), rfl⟩)
      · exact .inl hmem
    · exact .inr (.inl ⟨p, List.mem_append_left _ hp, hid⟩)
    · exact .inr (.inr hgone)
  | drop choice id' rest x' he hc heq hx' htarget' ht =>
    refine ⟨rest, result, ht, ?_⟩
    rcases htracked with hmem | hrest
    · rw [heq] at hmem
      rcases List.mem_cons.mp hmem with rfl | hmem
      · obtain rfl : x = x' := Option.some.inj (hx.symm.trans hx')
        refine .inr (.inr ⟨htarget.symm.trans htarget', ?_⟩)
        exact hvm ▸ hdrop x rest result choice he hc hx' htarget' ht
      · exact .inl hmem
    · exact .inr hrest

/-- Every step keeps track of the session, as long as no lookup of the poll fails. -/
theorem State.Tracks.step (h : s.Tracks setup c id target vmID) (hinv : Inv setup s)
    (htakes : Takes setup s e t) (hfails : e.failsLookup c = false) :
    t.Tracks setup c id target vmID := by
  cases htakes with
  | fleet hnext hlegacy =>
    obtain ⟨hsession, sessions, result, hpolled, htracked⟩ := h
    refine ⟨hsession, sessions, result, hpolled, htracked.imp_right (.imp_right ?_)⟩
    exact fun ⟨htarget, hgone⟩ => ⟨htarget, hgone.next hinv.fleet hnext hlegacy⟩
  | setVM | findWorkstation | findVM | miss => exact ⟨h.session, h.poll⟩
  | @proxy e proxy hadmits hnext =>
    refine h.proxy (Proxy.step_effect hnext) fun x rest result choice he hc hx htarget _ => ?_
    have hawaits : s.Awaits c x := ⟨htarget, id, rest, result, hc, hx⟩
    rw [he] at hadmits
    simp [State.admits, State.awaited_eq_some.mpr hawaits] at hadmits
  | poll hnext => exact h.proxy (Proxy.step_effect hnext) (by simp)
  | @decide e d x belongs proxy hx hnext hunplaced =>
    refine h.proxy (Proxy.step_effect hnext)
      fun x' rest result choice he hc hx' htarget hpolled => ?_
    cases he
    have hawaits : s.Awaits c x' := ⟨htarget, id, rest, result, hc, hx'⟩
    obtain rfl : x = x' := Option.some.inj (hx.symm.trans (State.awaited_eq_some.mpr hawaits))
    cases belongs with
    | false => exact (hinv.unplaced hawaits (hunplaced rfl) hfails).1
    | true =>
      -- The poll has reported the session and not dropped it.
      obtain ⟨id', rest', result', hc', _, rfl⟩ := hawaits.decide hnext
      cases hc.symm.trans hc'
      rw [Proxy.State.goto_self] at hpolled
      simp [Proxy.Phase.polled] at hpolled

/-- A poll starts with every session that is pending for its worker. -/
theorem tracks_of_poll {workerID : String} {order : List Proxy.SessionID} {x : Proxy.ProxySession}
    (hpoll : setup.system.next s (.poll c workerID order) t) (hx : s.proxy.get id = some x)
    (hpending : x.isPendingOf workerID = true) : t.Tracks setup c id x.target x.vmID := by
  obtain ⟨proxy, hnext, rfl⟩ := Option.map_eq_some_iff.mp hpoll
  obtain ⟨hpolls, hphase, horder⟩ := Proxy.polls_of_poll hnext
  obtain ⟨_, _, rfl⟩ := Proxy.start_eq hnext
  have hmem : id ∈ order := horder.mem_iff.mpr (Proxy.State.mem_select.mpr ⟨x, hx, hpending⟩)
  exact ⟨⟨x, (Option.ite_none_right_eq_some.mp hx).2, rfl, rfl⟩, order, [], hpolls.phase,
    .inl hmem⟩

end Tracks

/-- In a poll whose lookups do not fail, other than by finding no row, every session
that was pending for the worker is returned if it is one of the host or its workstation
still exists at the end, and a session is closed only when no workstation has its id and
no legacy VM of its id is on the worker. -/
theorem Setup.poll_keeps_existing (setup : Setup) (h : setup.system.Reachable s) :
    (∀ e t c id rest result, setup.system.next s e t → e.failsLookup c = false →
      s.proxy.calls c = .polling (id :: rest) result →
      t.proxy.calls c = .removing id [] (.poll rest result) →
      ∃ x, s.proxy.created id = some x ∧ x.target = .vm ∧
        (∀ row ∈ s.fleet.shared.db.workstations, row.id ≠ x.vmID) ∧
        ∀ vm, s.vms x.vmID = some vm → vm.workerID ≠ x.workerID) ∧
    (∀ c workerID order t u result, setup.system.next s (.poll c workerID order) t →
      setup.system.LeadsUnder (fun _ e => e.failsLookup c = false) t u →
      u.proxy.calls c = .returned (.pending result) →
      ∀ id x, s.proxy.get id = some x → x.isPendingOf workerID = true →
        (x.target = .host ∨ ∃ row ∈ u.fleet.shared.db.workstations, row.id = x.vmID) →
        ∃ p ∈ result, p.sessionID = id) := by
  refine ⟨fun e t c id rest result hnext hfails hc ht => ?_, ?_⟩
  · have hinv := setup.inv_of_reachable h
    -- Only a step of the poll itself starts to close the session.
    have hdropped : ∀ {e' proxy}, Proxy.Effect s.proxy e' proxy →
        proxy.calls c = .removing id [] (.poll rest result) →
        ∃ x choice, e' = .call c choice ∧ s.Awaits c x ∧ s.proxy.created id = some x := by
      intro e' proxy heffect hphase
      have hpolled : (s.proxy.calls c).polled = some (id :: rest, result) := by rw [hc]; rfl
      have hpolled' : (proxy.calls c).polled = some (rest, result) := by rw [hphase]; rfl
      cases heffect.polled hpolled with
      | same hsame => simp [hpolled'] at hsame
      | report _ _ _ _ _ _ _ hreport => simp [hpolled'] at hreport
      | drop choice id' rest' x he _ heq hx htarget _ =>
        cases heq
        exact ⟨x, choice, he, ⟨htarget, id, rest, result, hc, hx⟩, hx⟩
    cases Setup.step_takes hnext with
    | fleet | setVM | findWorkstation | findVM | miss => cases hc.symm.trans ht
    | proxy hadmits hproxy =>
      obtain ⟨x, choice, rfl, hx, _⟩ := hdropped (Proxy.step_effect hproxy) ht
      simp [State.admits, State.awaited_eq_some.mpr hx] at hadmits
    | poll hproxy =>
      obtain ⟨x, choice, he, _⟩ := hdropped (Proxy.step_effect hproxy) ht
      cases he
    | @decide e d x belongs proxy hx hproxy hunplaced =>
      obtain ⟨y, choice, he, hy, hcreated⟩ := hdropped (Proxy.step_effect hproxy) ht
      cases he
      obtain rfl : x = y := Option.some.inj (hx.symm.trans (State.awaited_eq_some.mpr hy))
      have hbelongs : belongs = false := by
        obtain ⟨_, _, _, hc', _, rfl⟩ := hy.decide hproxy
        cases hc.symm.trans hc'
        rw [Proxy.State.goto_self] at ht
        by_contra hbelongs
        simp [hbelongs] at ht
      obtain ⟨hgone, hvms⟩ := hinv.unplaced hy (hunplaced hbelongs) hfails
      exact ⟨x, hcreated, hy.target, hgone.1, hvms⟩
  · intro c workerID order t u result hpoll hrun hresult id x hx hpending hexists
    have htracks : u.Tracks setup c id x.target x.vmID :=
      hrun.invariant (P := fun v => v.Tracks setup c id x.target x.vmID)
        (fun v e v' hreach hfails hnext htracks =>
          htracks.step (setup.inv_of_reachable hreach) (Setup.step_takes hnext) hfails)
        (h.next hpoll) (tracks_of_poll hpoll hx hpending)
    obtain ⟨_, sessions, result', hpolled, htracked⟩ := htracks
    rw [hresult] at hpolled
    cases hpolled
    rcases htracked with hmem | hreported | ⟨htarget, hgone⟩
    · cases hmem
    · exact hreported
    · rcases hexists with hhost | ⟨row, hrow, hid⟩
      · rw [hhost] at htarget
        cases htarget
      · exact absurd hid (hgone.1 row hrow)

end Invariant

/-- A deployment without legacy VMs. -/
def plainSetup : Setup := ⟨plainServer, fun _ => false⟩

/-- The empty server is a possible beginning. -/
theorem plainSetup_init : plainSetup.system.init (initial fun _ => none) := by
  refine ⟨fun _ => none, ?_, rfl⟩
  intro id vm hvm
  cases hvm

/-- A member has a session for its running workstation. -/
def sessionMade : List Event :=
  (reportedWorkstation .running).map (fun e => .fleet e.1 e.2) ++
    [.findWorkstation "id-1", .proxy (.create "session" .vm "id-1" "w" 22 "token" 0)]

/-- The worker polls and is told of the session. -/
theorem poll_keeps_existing_session : ∃ s t u, plainSetup.system.Reachable s ∧
    plainSetup.system.next s (.poll 0 "w" ["session"]) t ∧ plainSetup.system.Leads t u ∧
    ∃ result, u.proxy.calls 0 = .returned (.pending result) ∧
      ∃ p ∈ result, p.sessionID = "session" := by
  have hmade : ∃ s, runEvents plainSetup.step (initial fun _ => none) sessionMade = some s ∧
      ∃ x, s.proxy.get "session" = some x ∧ x.isPendingOf "w" = true ∧
      ∃ t, plainSetup.step s (.poll 0 "w" ["session"]) = some t ∧
      ∃ u, runEvents (fun s e => if e.failsLookup 0 = false then plainSetup.step s e else none) t
          [.lookupWorkstation 0 false, .proxy (.call 0 true)] = some u ∧
        (∃ row ∈ u.fleet.shared.db.workstations, row.id = x.vmID) ∧
        ∃ result, u.proxy.calls 0 = .returned (.pending result) :=
    ⟨_, rfl, _, rfl, rfl, _, rfl, _, rfl, ⟨_, List.mem_cons_self, rfl⟩, _, rfl⟩
  obtain ⟨s, hs, x, hx, hpending, t, ht, u, hu, hrow, result, hresult⟩ := hmade
  have hreach : plainSetup.system.Reachable s := reachable_of_runEvents plainSetup_init hs
  have hrun : plainSetup.system.LeadsUnder (fun _ e => e.failsLookup 0 = false) t u :=
    leadsUnder_of_runEvents hu
  have hreported := (plainSetup.poll_keeps_existing hreach).2 0 "w" ["session"] t u result ht hrun
    hresult "session" x hx hpending (.inr hrow)
  exact ⟨s, t, u, hreach, ht, hrun.leads, result, hresult, hreported⟩

/-- The lookup of the workstation fails, and the poll closes the session of a running
workstation. -/
theorem failed_lookup_drops_session : ¬∀ (setup : Setup) (s t u : State) (c : ℕ)
    (workerID : String) (order : List Proxy.SessionID) (result : List Proxy.PendingResp),
    setup.system.Reachable s → setup.system.next s (.poll c workerID order) t →
    setup.system.Leads t u → u.proxy.calls c = .returned (.pending result) →
    ∀ id x, s.proxy.get id = some x → x.isPendingOf workerID = true →
      (x.target = .host ∨ ∃ row ∈ u.fleet.shared.db.workstations, row.id = x.vmID) →
      ∃ p ∈ result, p.sessionID = id := by
  intro hclaim
  have hmade : ∃ s, runEvents plainSetup.step (initial fun _ => none) sessionMade = some s ∧
      ∃ x, s.proxy.get "session" = some x ∧ x.isPendingOf "w" = true ∧
      ∃ t, plainSetup.step s (.poll 0 "w" ["session"]) = some t ∧
      ∃ u, runEvents plainSetup.step t [.lookupWorkstation 0 true, .proxy (.call 0 true),
          .proxy (.call 0 true), .proxy (.call 0 true)] = some u ∧
        (∃ row ∈ u.fleet.shared.db.workstations, row.id = x.vmID) ∧
        u.proxy.calls 0 = .returned (.pending []) :=
    ⟨_, rfl, _, rfl, rfl, _, rfl, _, rfl, ⟨_, List.mem_cons_self, rfl⟩, rfl⟩
  obtain ⟨s, hs, x, hx, hpending, t, ht, u, hu, hrow, hresult⟩ := hmade
  have hreach : plainSetup.system.Reachable s := reachable_of_runEvents plainSetup_init hs
  obtain ⟨p, hp, _⟩ := hclaim plainSetup s t u 0 "w" ["session"] [] hreach ht
    (leads_of_runEvents hu) hresult "session" x hx hpending (.inr hrow)
  cases hp

end MiniControl.Rest.Polling
