import MiniControl.Fleet.Allocation
import MiniControl.Fleet.Deletion
import MiniControl.Heartbeat.Safety

/-!
# VMs without a workstation

The server removes a row when the worker reports its VM as deleted, and the
worker reports what `tart get` says. As long as `tart get` does not fail on a VM
that a deletion looks for, a report of a deletion is true, and it stays true: the
worker never clones the VM again. Every VM on the host then has a row, and there
are never more VMs than the pool has slots. A single failure of `tart get` is
enough to leave a VM behind.
-/

namespace MiniControl.Heartbeat

open Transition Fleet WorkerCore

/-- `tart get` does not fail on a VM that exists while a deletion is under way. -/
def HonestGets (s : State) : Event → Prop
  | .tart reply _ =>
    match s.process.position with
    | .reconciling _ (some (r, .call (.get name) _)) =>
      r.desiredPowerState = .value .deleted → name ∈ s.host.names → reply.Ok
    | _ => True
  | _ => True

instance (s : State) (e : Event) : Decidable (HonestGets s e) := by
  cases e
  case tart =>
    dsimp only [HonestGets]
    split <;> infer_instance
  all_goals exact instDecidableTrue

/-- The entry reports that the VM of a workstation is deleted. -/
def Deletes (status : StatusReport) (id : String) : Prop :=
  status.workstationID = id ∧ status.powerState = .value .deleted

/-- The entries that a request still has to report. -/
def Handler.statuses : Handler → List StatusReport
  | .sent statuses => statuses
  | .reporting statuses _ => statuses
  | _ => []

/-- The entries of the next heartbeat. -/
def Position.statuses : Position → List StatusReport
  | .reconciled statuses => statuses
  | _ => []

/-- Some part of the system holds the VM of the workstation for deleted. -/
inductive Reported (workerID : String) (s : State) (id : String) : Prop
  | runtime {r : Runtime} : r ∈ s.process.manager.runtimes → r.workstationID = id →
      r.state = .deleted → Reported workerID s id
  | position {status : StatusReport} : status ∈ s.process.position.statuses →
      Deletes status id → Reported workerID s id
  | handler {q : ℕ} {status : StatusReport} : status ∈ (s.handlers q).statuses →
      Deletes status id → Reported workerID s id
  | transaction {tx : ℕ} {status : StatusReport} {phase : RowPhase} :
      s.server.locals tx = .row (.reportStatus workerID status) phase → Deletes status id →
      Reported workerID s id

/-- The workstation has no VM and will never have one. -/
structure Cleared (s : State) (id : String) : Prop where
  dead : s.server.shared.Dead id
  absent : generateWorkstationVMName id ∉ s.host.names
  runtimes : ∀ r ∈ s.process.manager.runtimes, r.workstationID = id →
    r.desiredPowerState = .value .deleted
  current : ∀ todo r p, s.process.position = .reconciling todo (some (r, p)) →
    r.workstationID = id → r.desiredPowerState = .value .deleted
  awaited : ∀ q desired, s.process.position = .awaiting q → s.handlers q = .responding desired →
    ∀ d ∈ desired, d.id = id → d.desiredPowerState = .deleted

/-- The workstation has a row. -/
def Rooted (sh : Shared) (id : String) : Prop := ∃ w ∈ sh.db.workstations, w.id = id

/-- The invariant on a host that is honest towards deletions. -/
structure Tidy (setup : Setup) (start : Host) (s : State) : Prop where
  nodup : start.names.Nodup → s.host.names.Nodup
  hosted : ∀ name ∈ s.host.names, name ∉ start.names → ∃ w ∈ s.server.shared.db.workstations,
    w.vmName = name ∧ w.workerID = setup.workerID
  reported : ∀ id, Reported setup.workerID s id → Cleared s id
  rooted : ∀ r ∈ s.process.manager.runtimes, r.desiredPowerState ≠ .value .deleted →
    Rooted s.server.shared r.workstationID
  current : ∀ todo r p, s.process.position = .reconciling todo (some (r, p)) →
    (r.desiredPowerState ≠ .value .deleted → Rooted s.server.shared r.workstationID) ∧
    (r.desiredPowerState = .value .deleted → p.wp HonestStep (fun _ _ => True)
      (fun new names => new.state = .deleted → r.vmName ∉ names) s.host.names)
  awaited : ∀ q desired, s.process.position = .awaiting q → s.handlers q = .responding desired →
    ∀ d ∈ desired, d.desiredPowerState ≠ .deleted → Rooted s.server.shared d.id

/-- A step that changes neither the runtimes nor the server reports nothing new. -/
theorem Reported.before {workerID id : String} {s t : State} (h : Reported workerID t id)
    (hmanager : t.process.manager = s.process.manager)
    (hstatuses : t.process.position.statuses ⊆ s.process.position.statuses)
    (hhandlers : t.handlers = s.handlers) (hserver : t.server = s.server) :
    Reported workerID s id := by
  cases h with
  | runtime hr hid hstate => exact .runtime (hmanager ▸ hr) hid hstate
  | position hstatus hdeletes => exact .position (hstatuses hstatus) hdeletes
  | handler hstatus hdeletes => exact .handler (hhandlers ▸ hstatus) hdeletes
  | transaction htx hdeletes => exact .transaction (hserver ▸ htx) hdeletes

namespace Cleared

variable {s : State} {id : String}

/-- The database takes a step of its own. -/
theorem server (h : Cleared s id) {server : Fleet.State}
    (hadv : Advances s.server.shared server.shared) : Cleared { s with server } id :=
  ⟨hadv.dead id h.dead, h.absent, h.runtimes, h.current, h.awaited⟩

/-- The process moves on, without a pass under way and without waiting. -/
theorem process (h : Cleared s id) {process : Process} (hquiet : process.position.Quiet)
    (hruntimes : ∀ r ∈ process.manager.runtimes, r.workstationID = id →
      r.desiredPowerState = .value .deleted) : Cleared { s with process } id := by
  refine ⟨h.dead, h.absent, hruntimes, fun todo r p hposition => ?_, fun q _ hposition => ?_⟩
  · rw [hposition] at hquiet
    exact hquiet.elim
  · rw [hposition] at hquiet
    exact hquiet.elim

end Cleared

namespace Tidy

variable {setup : Setup} {start : Host} {s : State} {e : ℕ × Action} {w : Workstation} {q : ℕ}
  {handler : Handler} {todo : List String} {r : Runtime}

/-- A row of the worker leaves the table only when its VM is gone for ever. -/
theorem cleared_of_removed (h : Tidy setup start s)
    (hreach : setup.server.system.Reachable s.server) {server : Fleet.State}
    (hnext : setup.server.system.next s.server e server) (hw : w ∈ s.server.shared.db.workstations)
    (hworker : w.workerID = setup.workerID)
    (hgone : ∀ w' ∈ server.shared.db.workstations, w'.id ≠ w.id) : Cleared s w.id := by
  obtain ⟨hok, _⟩ := setup.server.holds_of_reachable hreach
  obtain ⟨_, report, reply, ht, hid, hstate⟩ :=
    (setup.server.step_change hreach hnext).removed hok hw hgone
  rw [hworker] at ht
  exact h.reported _ (.transaction ht ⟨hid, hstate⟩)

/-- The other rows of the worker stay. -/
theorem persists (h : Tidy setup start s) (hreach : setup.server.system.Reachable s.server)
    {server : Fleet.State} (hnext : setup.server.system.next s.server e server)
    (hw : w ∈ s.server.shared.db.workstations) (hworker : w.workerID = setup.workerID)
    (hlive : ¬Cleared s w.id) : ∃ new ∈ server.shared.db.workstations, Successor w new := by
  obtain ⟨hok, _⟩ := setup.server.holds_of_reachable hreach
  rcases (setup.server.step_change hreach hnext).rows.persists hok.ids hw with hnew | hgone
  · exact hnew
  · exact absurd (h.cleared_of_removed hreach hnext hw hworker hgone) hlive

/-- The database takes a step of its own that begins no report of its own. -/
theorem server (h : Tidy setup start s) (hinv : Inv setup s)
    (hreach : setup.server.system.Reachable s.server) {server : Fleet.State}
    (hnext : setup.server.system.next s.server e server) (hreports : ∀ tx status phase id,
      server.locals tx = .row (.reportStatus setup.workerID status) phase → Deletes status id →
        Reported setup.workerID s id) : Tidy setup start { s with server } := by
  obtain ⟨hok, _⟩ := setup.server.holds_of_reachable hreach
  have hadv : Advances s.server.shared server.shared :=
    .of_change hok (setup.server.step_change hreach hnext)
  have hrooted : ∀ id, Owned s.server.shared setup.workerID id → ¬Cleared s id →
      Rooted s.server.shared id → Rooted server.shared id := by
    rintro _ howned hlive ⟨w, hw, rfl⟩
    obtain ⟨new, hmem, hnew⟩ := h.persists hreach hnext hw (howned.worker w hw rfl) hlive
    exact ⟨new, hmem, hnew.id⟩
  refine ⟨h.nodup, ?_, ?_, ?_, ?_, ?_⟩
  · intro name hname hcloned
    obtain ⟨w, hw, hvm, hworker⟩ := h.hosted name hname hcloned
    have hlive : ¬Cleared s w.id := by
      intro hcleared
      refine hcleared.absent ?_
      rwa [← hok.vmNames w hw, hvm]
    obtain ⟨new, hmem, hnew⟩ := h.persists hreach hnext hw hworker hlive
    exact ⟨new, hmem, hnew.vmName.trans hvm, hnew.workerID.trans hworker⟩
  · intro id hreported
    refine (h.reported id ?_).server hadv
    cases hreported with
    | runtime hr hid hstate => exact .runtime hr hid hstate
    | position hstatus hdeletes => exact .position hstatus hdeletes
    | handler hstatus hdeletes => exact .handler hstatus hdeletes
    | transaction htx hdeletes => exact hreports _ _ _ _ htx hdeletes
  · intro r hr hdesired
    exact hrooted _ (hinv.runtimes r hr).owned
      (fun hcleared => hdesired (hcleared.runtimes r hr rfl)) (h.rooted r hr hdesired)
  · intro todo r p hposition
    obtain ⟨hroot, hwp⟩ := h.current todo r p hposition
    refine ⟨fun hdesired => ?_, hwp⟩
    exact hrooted _ (hinv.current todo r p hposition).1.owned
      (fun hcleared => hdesired (hcleared.current todo r p hposition rfl)) (hroot hdesired)
  · intro q desired hposition hq d hd hdesired
    exact hrooted _ ((hinv.awaited q desired hposition hq).entries d hd).owned
      (fun hcleared => hdesired (hcleared.awaited q desired hposition hq d hd rfl))
      (h.awaited q desired hposition hq d hd hdesired)

/-- The server's side of a request changes: its entries were reported before, and
an answer lists the rows. -/
theorem setHandler (h : Tidy setup start s)
    (hstatuses : ∀ status ∈ handler.statuses, ∀ id, Deletes status id →
      Reported setup.workerID s id)
    (hdesired : ∀ desired, handler = .responding desired → ∀ d ∈ desired,
      (d.desiredPowerState ≠ .deleted → Rooted s.server.shared d.id) ∧
      (s.server.shared.Dead d.id → d.desiredPowerState = .deleted)) :
    Tidy setup start (s.setHandler q handler) := by
  refine ⟨h.nodup, h.hosted, fun id hreported => ?_, h.rooted, h.current, ?_⟩
  · have hcleared : Cleared s id := by
      refine h.reported id ?_
      cases hreported with
      | runtime hr hid hstate => exact .runtime hr hid hstate
      | position hstatus hdeletes => exact .position hstatus hdeletes
      | @handler q' status hstatus hdeletes =>
        by_cases hq : q' = q
        · rw [hq, State.setHandler_self] at hstatus
          exact hstatuses status hstatus id hdeletes
        · rw [State.setHandler_of_ne s hq] at hstatus
          exact .handler hstatus hdeletes
      | transaction htx hdeletes => exact .transaction htx hdeletes
    refine ⟨hcleared.dead, hcleared.absent, hcleared.runtimes, hcleared.current, ?_⟩
    intro q' desired hposition hq' d hd hid
    by_cases hq : q' = q
    · rw [hq, State.setHandler_self] at hq'
      exact (hdesired desired hq' d hd).2 (hid ▸ hcleared.dead)
    · rw [State.setHandler_of_ne s hq] at hq'
      exact hcleared.awaited q' desired hposition hq' d hd hid
  · intro q' desired hposition hq' d hd
    by_cases hq : q' = q
    · rw [hq, State.setHandler_self] at hq'
      exact (hdesired desired hq' d hd).1
    · rw [State.setHandler_of_ne s hq] at hq'
      exact h.awaited q' desired hposition hq' d hd

/-- The server's side of a request changes, without an answer. -/
theorem unanswered (h : Tidy setup start s) (hhandler : ¬handler.Answered)
    (hstatuses : ∀ status ∈ handler.statuses, ∀ id, Deletes status id →
      Reported setup.workerID s id) : Tidy setup start (s.setHandler q handler) := by
  refine h.setHandler hstatuses fun desired heq => absurd ?_ hhandler
  rw [heq]
  trivial

/-- A request moves on with the same entries or fewer. -/
theorem proceed (h : Tidy setup start s) (hhandler : ¬handler.Answered)
    (hstatuses : ∀ status ∈ handler.statuses, status ∈ (s.handlers q).statuses) :
    Tidy setup start (s.setHandler q handler) :=
  h.unanswered hhandler fun status hstatus _ => .handler (hstatuses status hstatus)

/-- The process moves on, without a pass under way and without waiting. -/
theorem process (h : Tidy setup start s) {process : Process} (hquiet : process.position.Quiet)
    (hstates : ∀ r ∈ process.manager.runtimes, r.state = .deleted →
      Cleared { s with process } r.workstationID)
    (hstatuses : ∀ status ∈ process.position.statuses, ∀ id, Deletes status id →
      Cleared { s with process } id)
    (hcleared : ∀ id, Cleared s id → ∀ r ∈ process.manager.runtimes, r.workstationID = id →
      r.desiredPowerState = .value .deleted)
    (hrooted : ∀ r ∈ process.manager.runtimes, r.desiredPowerState ≠ .value .deleted →
      Rooted s.server.shared r.workstationID) : Tidy setup start { s with process } := by
  refine ⟨h.nodup, h.hosted, fun id hreported => ?_, hrooted, ?_, ?_⟩
  · cases hreported with
    | runtime hr hid hstate => exact hid ▸ hstates _ hr hstate
    | position hstatus hdeletes => exact hstatuses _ hstatus id hdeletes
    | handler hstatus hdeletes =>
      have hbefore := h.reported id (.handler hstatus hdeletes)
      exact hbefore.process hquiet (hcleared id hbefore)
    | transaction htx hdeletes =>
      have hbefore := h.reported id (.transaction htx hdeletes)
      exact hbefore.process hquiet (hcleared id hbefore)
  · intro todo r p hposition
    rw [hposition] at hquiet
    exact hquiet.elim
  · intro q desired hposition
    rw [hposition] at hquiet
    exact hquiet.elim

/-- The process moves on with the same runtimes or fewer. -/
theorem forget (h : Tidy setup start s) {process : Process} (hquiet : process.position.Quiet)
    (hruntimes : ∀ r ∈ process.manager.runtimes, r ∈ s.process.manager.runtimes)
    (hstatuses : ∀ status ∈ process.position.statuses, ∀ id, Deletes status id →
      Reported setup.workerID s id) : Tidy setup start { s with process } := by
  have hcleared : ∀ id, Cleared s id → ∀ r ∈ process.manager.runtimes, r.workstationID = id →
      r.desiredPowerState = .value .deleted := fun id hid r hr => hid.runtimes r (hruntimes r hr)
  refine h.process hquiet (fun r hr hstate => ?_) (fun status hstatus id hdeletes => ?_) hcleared
    fun r hr => h.rooted r (hruntimes r hr)
  · have hbefore := h.reported _ (.runtime (hruntimes r hr) rfl hstate)
    exact hbefore.process hquiet (hcleared _ hbefore)
  · have hbefore := h.reported id (hstatuses status hstatus id hdeletes)
    exact hbefore.process hquiet (hcleared id hbefore)

/-- The position changes to one that says nothing. -/
theorem goto (h : Tidy setup start s) {position : Position} (hquiet : position.Quiet)
    (hstatuses : position.statuses = []) : Tidy setup start (s.goto position) := by
  refine h.forget hquiet (fun r hr => hr) fun status hstatus => ?_
  exact absurd (hstatuses ▸ hstatus : status ∈ []) List.not_mem_nil

/-- The worker is in a pass, possibly after a command. -/
theorem pass (h : Tidy setup start s) {host : Host} {p : Prog Command Reply Runtime}
    (hnodup : s.host.names.Nodup → host.names.Nodup)
    (hnames : ∀ name ∈ host.names, name ∈ s.host.names ∨
      r.desiredPowerState = .value .running ∧ name = r.vmName)
    (hr : RuntimeOk s.server.shared setup.workerID r) (hok : s.server.shared.Ok)
    (hrooted : r.desiredPowerState ≠ .value .deleted → Rooted s.server.shared r.workstationID)
    (hcleared : ∀ id, Cleared s id → r.workstationID = id →
      r.desiredPowerState = .value .deleted)
    (hp : r.desiredPowerState = .value .deleted → p.wp HonestStep (fun _ _ => True)
      (fun new names => new.state = .deleted → r.vmName ∉ names) host.names) :
    Tidy setup start ({ s with host }.goto (.reconciling todo (some (r, p)))) := by
  have hrunning : r.desiredPowerState = .value .running →
      r.desiredPowerState ≠ .value .deleted := by
    intro hrun hdeleted
    cases hrun.symm.trans hdeleted
  refine ⟨fun hstart => hnodup (h.nodup hstart), fun name hname hcloned => ?_,
    fun id hreported => ?_, h.rooted, fun todo' r' p' hposition => ?_,
    fun q desired hposition => ?_⟩
  · rcases hnames name hname with hold | ⟨hrun, rfl⟩
    · exact h.hosted name hold hcloned
    · obtain ⟨w, hw, hid⟩ := hrooted (hrunning hrun)
      refine ⟨w, hw, ?_, hr.owned.worker w hw hid⟩
      rw [hok.vmNames w hw, hr.vmName, hid]
  · have hbefore := h.reported id (hreported.before rfl (List.nil_subset _) rfl rfl)
    refine ⟨hbefore.dead, fun hname => ?_, hbefore.runtimes, fun todo' r' p' hposition => ?_,
      fun q desired hposition => ?_⟩
    · rcases hnames _ hname with hold | ⟨hrun, hvm⟩
      · exact hbefore.absent hold
      · -- the cloned VM would be that of the cleared workstation
        rw [hr.vmName] at hvm
        have hid := List.inj_on_of_nodup_map hok.usedNames
          ((Shared.dead_iff hok).mp hbefore.dead).1.used hr.owned.known.used hvm
        exact hrunning hrun (hcleared id hbefore hid.symm)
    · cases hposition
      exact hcleared id hbefore
    · cases hposition
  · cases hposition
    exact ⟨hrooted, hp⟩
  · cases hposition

/-- The worker waits for an answer that is not there yet. -/
theorem await (h : Tidy setup start s) (hq : ¬(s.handlers q).Answered) :
    Tidy setup start (s.goto (.awaiting q)) := by
  have hnone : ∀ {q' desired}, Position.awaiting q = .awaiting q' →
      s.handlers q' ≠ .responding desired := by
    rintro _ desired ⟨⟩ heq
    rw [heq] at hq
    exact hq trivial
  refine ⟨h.nodup, h.hosted, fun id hreported => ?_, h.rooted, fun _ _ _ hposition => ?_,
    fun q' desired hposition hq' => absurd hq' (hnone hposition)⟩
  · have hbefore := h.reported id (hreported.before rfl (List.nil_subset _) rfl rfl)
    refine ⟨hbefore.dead, hbefore.absent, hbefore.runtimes, fun _ _ _ hposition => ?_,
      fun q' desired hposition hq' => absurd hq' (hnone hposition)⟩
    cases hposition
  · cases hposition

/-- The host changes, but not the names of its VMs. -/
theorem host (h : Tidy setup start s) {host : Host} (hnames : host.names = s.host.names) :
    Tidy setup start { s with host } := by
  refine ⟨?_, ?_, fun id hreported => ?_, h.rooted, ?_, h.awaited⟩
  · rw [hnames]
    exact h.nodup
  · rw [hnames]
    exact h.hosted
  · have hbefore := h.reported id (hreported.before rfl (List.Subset.refl _) rfl rfl)
    exact ⟨hbefore.dead, hnames ▸ hbefore.absent, hbefore.runtimes, hbefore.current,
      hbefore.awaited⟩
  · rw [hnames]
    exact h.current

/-- A pass ends. -/
theorem finishRuntime (h : Tidy setup start s) (hinv : Inv setup s) {r new : Runtime}
    (hposition : s.process.position = .reconciling todo (some (r, .done new))) :
    Tidy setup start { s with process := ⟨s.process.manager.put new, .reconciling todo none⟩ } := by
  obtain ⟨hr, hfollows⟩ := hinv.current _ _ _ hposition
  obtain ⟨hrooted, hwp⟩ := h.current _ _ _ hposition
  have hdesired : ∀ id, Cleared s id → ∀ r' ∈ (s.process.manager.put new).runtimes,
      r'.workstationID = id → r'.desiredPowerState = .value .deleted := by
    intro id hcleared
    refine Manager.forall_put (fun hid => ?_) hcleared.runtimes
    rw [hfollows.desired]
    exact hcleared.current _ _ _ hposition (hfollows.workstationID.symm.trans hid)
  refine h.process trivial ?_ (fun status hstatus => absurd hstatus List.not_mem_nil) hdesired ?_
  · -- a runtime that is deleted now is the result of the pass, or was deleted before
    intro r' hr' hstate
    obtain ⟨old, hold, rfl⟩ := Tables.mem_update.mp hr'
    split_ifs at hstate ⊢ with hkey
    · have hdelete := hfollows.deleted hstate
      refine ⟨?_, ?_, fun r'' hr'' hid => ?_, fun _ _ _ hposition => ?_, fun _ _ hposition => ?_⟩
      · rw [hfollows.workstationID]
        exact hr.dead hdelete
      · rw [hfollows.workstationID, ← hr.vmName]
        exact hwp hdelete hstate
      · obtain ⟨other, _, rfl⟩ := Tables.mem_update.mp hr''
        split_ifs at hid ⊢ with hother
        · exact hfollows.desired.trans hdelete
        · exact absurd hid hother
      · cases hposition
      · cases hposition
    · have hbefore := h.reported _ (.runtime hold rfl hstate)
      exact hbefore.process trivial (hdesired _ hbefore)
  · refine Manager.forall_put (fun hlive => ?_) h.rooted
    rw [hfollows.workstationID]
    exact hrooted fun hdelete => hlive (hfollows.desired.trans hdelete)

/-- The worker applies an answer. -/
theorem receive (h : Tidy setup start s) {desired : List Fleet.DesiredWorkstation}
    (hposition : s.process.position = .awaiting q) (hq : s.handlers q = .responding desired) :
    Tidy setup start { s with
      process := ⟨s.process.manager.applyDesiredWorkstations (desired.map decodeDesired) true,
        .ready⟩ } := by
  have hdesired : ∀ id, Cleared s id →
      ∀ r ∈ (s.process.manager.applyDesiredWorkstations (desired.map decodeDesired) true).runtimes,
        r.workstationID = id → r.desiredPowerState = .value .deleted := by
    intro id hcleared
    have hentry : ∀ d ∈ desired, d.id = id → (decodeDesired d).desiredPowerState =
        .value .deleted := fun d hd hid =>
      congrArg Input.value (hcleared.awaited q desired hposition hq d hd hid)
    refine Manager.forall_applyDesiredWorkstations ?_ ?_ (fun _ _ _ _ => rfl) hcleared.runtimes
    · intro d hd r hkey _ hid
      obtain ⟨entry, hmem, rfl⟩ := List.mem_map.mp hd
      exact hentry entry hmem (hkey.symm.trans hid)
    · intro d hd hid
      obtain ⟨entry, hmem, rfl⟩ := List.mem_map.mp hd
      exact hentry entry hmem hid
  refine h.process trivial ?_ (fun status hstatus => absurd hstatus List.not_mem_nil) hdesired ?_
  · suffices hbefore : ∀ r ∈ (s.process.manager.applyDesiredWorkstations
        (desired.map decodeDesired) true).runtimes,
        r.state = .deleted → Cleared s r.workstationID by
      intro r hr hstate
      exact (hbefore r hr hstate).process trivial (hdesired _ (hbefore r hr hstate))
    refine Manager.forall_applyDesiredWorkstations (fun _ _ _ _ hr => hr) (fun _ _ hstate => ?_)
      (fun _ _ hr => hr) fun r hr hstate => h.reported _ (.runtime hr rfl hstate)
    cases hstate
  · have hentry : ∀ d ∈ desired, (decodeDesired d).desiredPowerState ≠ .value .deleted →
        Rooted s.server.shared d.id := fun d hd hlive =>
      h.awaited q desired hposition hq d hd fun heq => hlive (congrArg Input.value heq)
    refine Manager.forall_applyDesiredWorkstations ?_ ?_ (fun _ _ _ hlive => absurd rfl hlive)
      h.rooted
    · intro d hd r hkey _ hlive
      obtain ⟨entry, hmem, rfl⟩ := List.mem_map.mp hd
      rw [show (r.apply (decodeDesired entry)).workstationID = entry.id from hkey]
      exact hentry entry hmem hlive
    · intro d hd hlive
      obtain ⟨entry, hmem, rfl⟩ := List.mem_map.mp hd
      exact hentry entry hmem hlive

/-- A step that the host takes honestly keeps the invariant. -/
theorem step (h : Tidy setup start s) (hinv : Inv setup s)
    (hreach : setup.server.system.Reachable s.server) {t : State} {e : Event}
    (heffect : Effect setup s e t) (hhonest : HonestGets s e) : Tidy setup start t := by
  obtain ⟨hok, _⟩ := setup.server.holds_of_reachable hreach
  -- a statement that begins no report leaves the reports that are under way
  have hquiet : ∀ {tx action server}, setup.server.system.next s.server (tx, action) server →
      (∀ status, action ≠ .beginRow (.reportStatus setup.workerID status)) →
      ∀ tx' status phase id,
        server.locals tx' = .row (.reportStatus setup.workerID status) phase →
        Deletes status id → Reported setup.workerID s id := by
    intro tx action server hnext hnone tx' status phase id hlocal hdeletes
    rcases setup.server.step_row hnext hlocal with ⟨phase', hold⟩ | hbegin
    · exact .transaction hold hdeletes
    · exact absurd hbegin (hnone status)
  cases heffect with
  | server hreports hnext =>
    refine h.server hinv hreach hnext (hquiet hnext fun status heq => hreports ?_)
    rw [heq]
    exact decide_eq_true rfl
  | arrive hq =>
    refine h.proceed id fun status hstatus => ?_
    rw [hq]
    exact hstatus
  | record hq hnext =>
    have hserver := h.server hinv hreach hnext (hquiet hnext fun _ => nofun)
    refine hserver.proceed id fun status hstatus => ?_
    rw [hq]
    exact hstatus
  | @report q tx status statuses server hq hnext =>
    have hstatus : ∀ status' ∈ status :: statuses, status' ∈ (s.handlers q).statuses := by
      rw [hq]
      exact fun _ => id
    have hserver : Tidy setup start { s with server } := by
      refine h.server hinv hreach hnext fun tx' status' phase id hlocal hdeletes => ?_
      rcases setup.server.step_row hnext hlocal with ⟨phase', hold⟩ | hbegin
      · exact .transaction hold hdeletes
      · cases hbegin
        exact .handler (hstatus status List.mem_cons_self) hdeletes
    exact hserver.proceed id fun status' hmem => hstatus status' (List.mem_cons_of_mem _ hmem)
  | reported hq _ =>
    refine h.proceed id fun status hstatus => ?_
    rw [hq]
    exact hstatus
  | list _ =>
    refine h.setHandler (fun status hstatus => absurd hstatus List.not_mem_nil)
      fun desired heq d hd => ?_
    cases heq
    obtain ⟨w, hw, hworker, rfl⟩ := mem_listDesiredWorkstations.mp hd
    exact ⟨fun _ => ⟨w, hw, rfl⟩, fun hdead => ((Shared.dead_iff hok).mp hdead).2 w hw rfl⟩
  | drop => exact h.proceed id fun status hstatus => absurd hstatus List.not_mem_nil
  | startPass _ _ => exact h.goto trivial rfl
  | startRuntime _ hr =>
    exact h.pass id (fun _ => .inl) (hinv.runtimes _ hr) hok (h.rooted _ hr)
      (fun id hcleared => hcleared.runtimes _ hr) (Runtime.reconcile_honest _ _ _)
  | skipRuntime _ => exact h.goto trivial rfl
  | tart hposition hexec =>
    obtain ⟨hr, hissues⟩ := hinv.current _ _ _ hposition
    obtain ⟨hrooted, hwp⟩ := h.current _ _ _ hposition
    have hrenames := Host.exec_names hexec
    refine h.pass hrenames.nodup (fun name hname => ?_) hr hok hrooted
      (fun id hcleared => hcleared.current _ _ _ hposition) fun hdelete => ?_
    · rcases hrenames.mem hname with hold | ⟨source, rfl⟩
      · exact .inl hold
      · exact .inr ⟨hissues.1.2, hissues.1.1⟩
    · refine (hwp hdelete).2 _ _ ⟨hrenames, ?_⟩
      rintro name rfl
      rw [HonestGets, hposition] at hhonest
      exact hhonest hdelete
  | finishRuntime hposition => exact h.finishRuntime hinv hposition
  | finishPass _ =>
    refine h.forget trivial (fun r hr => List.mem_of_mem_filter hr)
      fun status hstatus id hdeletes => ?_
    obtain ⟨info, hinfo, rfl⟩ := List.mem_map.mp hstatus
    obtain ⟨r, hr, rfl⟩ := List.mem_map.mp hinfo
    exact .runtime (List.mem_of_mem_filter ((List.mem_insertionSort _).mp hr)) hdeletes.1
      (Input.value.inj hdeletes.2)
  | skipHeartbeat _ => exact h.goto trivial rfl
  | sendHeartbeat hposition _ =>
    refine (h.unanswered id fun status hstatus _ hdeletes => .position ?_ hdeletes).await ?_
    · rw [hposition]
      exact hstatus
    · rw [State.setHandler_self]
      exact id
  | receive hposition hq =>
    exact (h.receive hposition hq).proceed id
      fun status hstatus => absurd hstatus List.not_mem_nil
  | giveUp _ => exact h.goto trivial rfl
  | restart =>
    exact h.forget trivial (fun r hr => absurd hr List.not_mem_nil)
      fun status hstatus => absurd hstatus List.not_mem_nil
  | powerOff => exact h.host (Host.names_setAddress _ _ _)

end Tidy

variable {start : Host} {s : State}

/-- On a host that is honest towards deletions every reachable state is tidy. -/
theorem Setup.tidy_of_reachable (setup : Setup)
    (h : (setup.system start).ReachableUnder HonestGets s) : Tidy setup start s := by
  refine System.ReachableUnder.invariant ?_ ?_ h
  · rintro s rfl
    refine ⟨id, fun name hname hcloned => absurd hname hcloned, fun id hreported => ?_,
      fun r hr => absurd hr List.not_mem_nil, fun _ _ _ hposition => ?_,
      fun _ _ hposition => ?_⟩
    · cases hreported with
      | runtime hr => exact absurd hr List.not_mem_nil
      | position hstatus => exact absurd hstatus List.not_mem_nil
      | handler hstatus => exact absurd hstatus List.not_mem_nil
      | transaction htx => cases htx
    · cases hposition
    · cases hposition
  · intro s e t hs hhonest hnext htidy
    exact htidy.step (setup.inv_of_reachable hs.reachable) (setup.server_reachable hs.reachable)
      (Setup.step_effect hnext) hhonest

/-- The VMs that were cloned onto a tidy host are at most as many as the slots of
the worker. -/
theorem Tidy.length_cloned_le {setup : Setup} (h : Tidy setup start s) (hok : s.server.shared.Ok)
    (hstart : start.names.Nodup) {worker : Fleet.Worker}
    (hworker : worker ∈ s.server.shared.db.workers) (hid : worker.id = setup.workerID) :
    ((s.host.names.filter (· ∉ start.names)).length : ℤ) ≤ max 0 worker.poolSize := by
  have hsub : s.host.names.filter (· ∉ start.names) ⊆
      (s.server.shared.heldBy worker.id).map Workstation.vmName := by
    intro name hname
    obtain ⟨hmem, hcloned⟩ := List.mem_filter.mp hname
    obtain ⟨w, hw, hvm, howner⟩ := h.hosted name hmem (of_decide_eq_true hcloned)
    have hheld : w ∈ s.server.shared.heldBy worker.id :=
      List.mem_filter.mpr ⟨hw, decide_eq_true (howner.trans hid.symm)⟩
    exact List.mem_map.mpr ⟨w, hheld, hvm⟩
  have hlength := (((h.nodup hstart).filter _).subperm hsub).length_le
  rw [List.length_map] at hlength
  calc ((s.host.names.filter (· ∉ start.names)).length : ℤ)
      ≤ (s.server.shared.heldBy worker.id).length := Int.ofNat_le.mpr hlength
    _ ≤ max 0 worker.poolSize := hok.length_heldBy hworker

/-- When a row of the worker leaves the table, its VM is gone; every VM cloned
onto the host has a row; and the host never carries more of them than the pool
has slots, as long as `tart get` does not fail in a deletion. -/
theorem Setup.no_orphans (setup : Setup) (start : Host) {s : State}
    (h : (setup.system start).ReachableUnder HonestGets s) :
    (∀ e t, (setup.system start).next s e t → ∀ w ∈ s.server.shared.db.workstations,
      w.workerID = setup.workerID → (∀ w' ∈ t.server.shared.db.workstations, w'.id ≠ w.id) →
        w.vmName ∉ t.host.names) ∧
    (∀ name ∈ s.host.names, name ∉ start.names →
      ∃ w ∈ s.server.shared.db.workstations, w.vmName = name ∧ w.workerID = setup.workerID) ∧
    (start.names.Nodup → ∀ worker ∈ s.server.shared.db.workers, worker.id = setup.workerID →
      0 < worker.poolSize →
        ((s.host.names.filter (· ∉ start.names)).length : ℤ) ≤ worker.poolSize) := by
  have htidy := setup.tidy_of_reachable h
  have hreach := setup.server_reachable h.reachable
  obtain ⟨hok, _⟩ := setup.server.holds_of_reachable hreach
  refine ⟨fun e t hnext w hw hworker hgone => ?_, htidy.hosted,
    fun hstart worker hmem hid hpool => ?_⟩
  · rcases (Setup.step_effect hnext).server_next with heq | ⟨⟨e', hnext'⟩, hhost⟩
    · rw [heq] at hgone
      exact absurd rfl (hgone w hw)
    · rw [hhost, hok.vmNames w hw]
      exact (htidy.cleared_of_removed hreach hnext' hw hworker hgone).absent
  · have hlength := htidy.length_cloned_le hok hstart hmem hid
    rwa [max_eq_right hpool.le] at hlength

/-- A member claims a workstation, the worker clones its VM but fails to configure
it, the member releases the workstation, and the worker hears of that. -/
def clonedThenReleased : List Event :=
  [.server 0 (.register 100 ⟨"w", "mac-1", "uuid", 8, 16, "2", "1", 1, "base"⟩),
   .server 0 (.updateWorker 110 "w" .heartbeat), .server 1 (.beginClaim "alice" ""),
   .server 1 (.claim .lock), .server 1 (.claim (.listWorkers 120)), .server 1 (.claim .listSlots),
   .server 1 (.claim (.insert 120 "id-1")), .server 1 (.claim .commit),
   .startPass [], .finishPass, .sendHeartbeat 0, .arrive 0 (some (3, 140)), .list 0, .receive,
   .startPass ["id-1"], .startRuntime, .tart (.exited 1 "" "no such VM") false,
   .tart (.exited 0 "" "") true, .tart (.exited 1 "" "no such file") false,
   .tart (.exited 1 "" "timed out") false, .finishRuntime, .finishPass,
   .server 2 (.beginRow (.setDesired "alice" "id-1" (.value .deleted))),
   .server 2 (.row (.selectForUpdate 150)), .server 2 (.row .write), .server 2 (.row .commit),
   .sendHeartbeat 1, .arrive 1 none, .report 1 4, .server 4 (.row (.selectForUpdate 160)),
   .server 4 (.row .write), .server 4 (.row .commit), .reported 1, .list 1, .receive,
   .startPass ["id-1"], .startRuntime]

/-- The worker reports what its pass found, up to the commit of the server. -/
def reportDeletion : List Event :=
  [.finishRuntime, .finishPass, .sendHeartbeat 2, .arrive 2 none, .report 2 5,
   .server 5 (.row (.selectForUpdate 170)), .server 5 (.row .write)]

/-- The deletion of the VM succeeds. -/
def honestDeletion : List Event :=
  [.tart (.exited 0 "" "") false, .tart (.exited 1 "" "VM is not running") false,
   .tart (.exited 0 "" "") false, .tart (.exited 0 "" "") false]

/-- The row is about to leave the table, and only the base image is on the host. -/
theorem no_orphans_honestDeletion : ∃ s t : State,
    (plainSetup.system [⟨"base", none⟩]).ReachableUnder HonestGets s ∧
    s.server.shared.db.workstations.map (·.vmName) = ["ws-id1"] ∧
    (plainSetup.system [⟨"base", none⟩]).next s (.server 5 (.row .commit)) t ∧
    t.server.shared.db.workstations = [] ∧
    ∀ w ∈ s.server.shared.db.workstations, w.workerID = "w" → w.vmName ∉ t.host.names := by
  have hrun : ∃ s, runEvents (fun s e => if HonestGets s e then plainSetup.step s e else none)
      (initial [⟨"base", none⟩]) (clonedThenReleased ++ honestDeletion ++ reportDeletion) = some s ∧
      s.server.shared.db.workstations.map (·.vmName) = ["ws-id1"] ∧
      ∃ t, plainSetup.step s (.server 5 (.row .commit)) = some t ∧
        t.server.shared.db.workstations = [] := by
    refine ⟨_, rfl, ?_, _, rfl, ?_⟩
    · decide
    · rfl
  obtain ⟨s, hs, hrows, t, hnext, hempty⟩ := hrun
  have hreach : (plainSetup.system [⟨"base", none⟩]).ReachableUnder HonestGets s :=
    reachableUnder_of_runEvents rfl hs
  refine ⟨s, t, hreach, hrows, hnext, hempty, fun w hw hworker => ?_⟩
  refine (plainSetup.no_orphans _ hreach).1 _ t hnext w hw hworker ?_
  rw [hempty]
  exact fun w' hw' => absurd hw' List.not_mem_nil

/-- A single failure of `tart get` in a deletion makes the worker report a VM as
deleted that exists, and the server removes its row. -/
theorem failed_get_orphans : ∃ s t : State,
    (plainSetup.system [⟨"base", none⟩]).Reachable s ∧
    s.server.shared.db.workstations.map (fun w => (w.workerID, w.vmName)) = [("w", "ws-id1")] ∧
    (plainSetup.system [⟨"base", none⟩]).next s (.server 5 (.row .commit)) t ∧
    t.server.shared.db.workstations = [] ∧ t.host.names = ["base", "ws-id1"] := by
  have hrun : ∃ s, runEvents plainSetup.step (initial [⟨"base", none⟩])
      (clonedThenReleased ++ [.tart (.exited 1 "" "timed out") false] ++ reportDeletion) = some s ∧
      s.server.shared.db.workstations.map (fun w => (w.workerID, w.vmName)) = [("w", "ws-id1")] ∧
      ∃ t, plainSetup.step s (.server 5 (.row .commit)) = some t ∧
        t.server.shared.db.workstations = [] ∧ t.host.names = ["base", "ws-id1"] := by
    refine ⟨_, rfl, ?_, _, rfl, ?_, ?_⟩
    · decide
    · rfl
    · rfl
  obtain ⟨s, hs, hrows, t, hnext, hempty, hhost⟩ := hrun
  exact ⟨s, t, reachable_of_runEvents rfl hs, hrows, hnext, hempty, hhost⟩

end MiniControl.Heartbeat
