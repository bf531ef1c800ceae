import MiniControl.Heartbeat.Effects

/-!
# A live workstation keeps its VM

The worker learns from the desired lists which workstations are to be deleted: an
entry says so, or the entry of a workstation that it knows is missing. Both are
true for ever once they are true, so that the worker may act on them however late
it does. Lists that the worker does not wait for are never applied.
-/

namespace MiniControl.Heartbeat

open Transition Fleet WorkerCore

/-- The id was committed at some time, and its row belongs to the worker. -/
structure Owned (sh : Shared) (workerID id : String) : Prop where
  known : sh.Known id
  worker : ∀ w ∈ sh.db.workstations, w.id = id → w.workerID = workerID

/-- What is true of workstations for ever once it is true. -/
structure Advances (sh sh' : Shared) : Prop where
  owned : ∀ workerID id, Owned sh workerID id → Owned sh' workerID id
  dead : ∀ id, sh.Dead id → sh'.Dead id

variable {sh sh' : Shared} {workerID : String} {r : Runtime} {runtimes : List Runtime}
  {desired : List Fleet.DesiredWorkstation}

/-- A change of the database keeps what is true for ever. -/
theorem Advances.of_change {tx : ℕ} {t : Transaction} (hok : sh.Ok) (h : Change tx t sh sh') :
    Advances sh sh' where
  owned workerID id howned := by
    refine ⟨howned.known.change h, fun w hw hid => ?_⟩
    obtain ⟨old, hold, holdID, hnew⟩ := howned.known.successor h hw hid
    exact hnew.workerID.trans (howned.worker old hold holdID)
  dead id hdead := hdead.trans (Shared.stage_mono hok h id)

/-- What the worker knows about a workstation that it runs. -/
structure RuntimeOk (sh : Shared) (workerID : String) (r : Runtime) : Prop where
  owned : Owned sh workerID r.workstationID
  vmName : r.vmName = generateWorkstationVMName r.workstationID
  dead : r.desiredPowerState = .value .deleted → sh.Dead r.workstationID

/-- What an entry of a desired list says about its workstation. -/
structure EntryOk (sh : Shared) (workerID : String) (d : Fleet.DesiredWorkstation) : Prop where
  owned : Owned sh workerID d.id
  vmName : d.vmName = generateWorkstationVMName d.id
  dead : d.desiredPowerState = .deleted → sh.Dead d.id

/-- A runtime stays right. -/
theorem RuntimeOk.advance (h : RuntimeOk sh workerID r) (hadv : Advances sh sh') :
    RuntimeOk sh' workerID r :=
  ⟨hadv.owned _ _ h.owned, h.vmName, fun hdeleted => hadv.dead _ (h.dead hdeleted)⟩

/-- An entry stays right. -/
theorem EntryOk.advance {d : Fleet.DesiredWorkstation} (h : EntryOk sh workerID d)
    (hadv : Advances sh sh') : EntryOk sh' workerID d :=
  ⟨hadv.owned _ _ h.owned, h.vmName, fun hdeleted => hadv.dead _ (h.dead hdeleted)⟩

/-- The result of a pass is as right as its runtime. -/
theorem RuntimeOk.follows {r new : Runtime} (h : RuntimeOk sh workerID r) (hnew : r.Follows new) :
    RuntimeOk sh workerID new := by
  refine ⟨?_, ?_, fun hdeleted => ?_⟩
  · rw [hnew.workstationID]
    exact h.owned
  · rw [hnew.vmName, hnew.workstationID]
    exact h.vmName
  · rw [hnew.workstationID]
    exact h.dead (hnew.desired.symm.trans hdeleted)

/-- What the list that the worker waits for says about the runtimes. -/
structure ListOk (sh : Shared) (workerID : String) (runtimes : List Runtime)
    (desired : List Fleet.DesiredWorkstation) : Prop where
  entries : ∀ d ∈ desired, EntryOk sh workerID d
  missing : ∀ r ∈ runtimes, r.workstationID ∉ desired.map (·.id) → sh.Dead r.workstationID

/-- A list stays right. -/
theorem ListOk.advance (h : ListOk sh workerID runtimes desired) (hadv : Advances sh sh') :
    ListOk sh' workerID runtimes desired :=
  ⟨fun d hd => (h.entries d hd).advance hadv, fun r hr hid => hadv.dead _ (h.missing r hr hid)⟩

/-- A list that the server reads is right. -/
theorem ListOk.of_list (hok : sh.Ok) (h : ∀ r ∈ runtimes, RuntimeOk sh workerID r) :
    ListOk sh workerID runtimes (listDesiredWorkstations workerID sh.db.workstations) := by
  refine ⟨fun d hd => ?_, fun r hr hmissing => ?_⟩
  · obtain ⟨w, hw, hworker, rfl⟩ := mem_listDesiredWorkstations.mp hd
    have hsame : ∀ v ∈ sh.db.workstations, v.id = w.id → v = w := fun v hv hid =>
      List.inj_on_of_nodup_map hok.ids hv hw hid
    refine ⟨⟨.of_mem hok hw, fun v hv hid => ?_⟩, hok.vmNames w hw, fun hdeleted => ?_⟩
    · rw [hsame v hv hid]
      exact hworker
    · refine (Shared.dead_iff hok).mpr ⟨.of_mem hok hw, fun v hv hid => ?_⟩
      rw [hsame v hv hid]
      exact hdeleted
  · -- a row of the runtime would belong to the worker, and so be listed
    have howned := (h r hr).owned
    refine (Shared.dead_iff hok).mpr ⟨howned.known, fun w hw hid => absurd ?_ hmissing⟩
    rw [← hid]
    exact List.mem_map.mpr ⟨_, mem_listDesiredWorkstations.mpr ⟨w, hw, howned.worker w hw hid, rfl⟩,
      rfl⟩

/-- Applying a right list keeps the runtimes right. -/
theorem ListOk.apply {m : Manager} (h : ListOk sh workerID m.runtimes desired)
    (hruntimes : ∀ r ∈ m.runtimes, RuntimeOk sh workerID r) :
    ∀ r ∈ (m.applyDesiredWorkstations (desired.map decodeDesired) true).runtimes,
      RuntimeOk sh workerID r := by
  have hids : (desired.map decodeDesired).map (·.id) = desired.map (·.id) := by
    rw [List.map_map]
    rfl
  suffices hboth : ∀ r ∈ (m.applyDesiredWorkstations (desired.map decodeDesired) true).runtimes,
      RuntimeOk sh workerID r ∧
        (r.workstationID ∉ desired.map (·.id) → sh.Dead r.workstationID) from
    fun r hr => (hboth r hr).1
  refine Manager.forall_applyDesiredWorkstations ?_ ?_ ?_
    fun r hr => ⟨hruntimes r hr, h.missing r hr⟩
  · rintro d hd r hid ⟨hr, hmissing⟩
    obtain ⟨entry, hentry, rfl⟩ := List.mem_map.mp hd
    refine ⟨⟨hr.owned, hr.vmName, fun hdeleted => ?_⟩, hmissing⟩
    have hdead := (h.entries entry hentry).dead (Input.value.inj hdeleted)
    rwa [← show r.workstationID = entry.id from hid] at hdead
  · intro d hd
    obtain ⟨entry, hentry, rfl⟩ := List.mem_map.mp hd
    obtain ⟨howned, hname, hdead⟩ := h.entries entry hentry
    refine ⟨⟨howned, hname, fun hdeleted => hdead (Input.value.inj hdeleted)⟩, fun hid => ?_⟩
    exact absurd (List.mem_map_of_mem hentry) hid
  · rintro r hid ⟨hr, hmissing⟩
    rw [hids] at hid
    exact ⟨⟨hr.owned, hr.vmName, fun _ => hmissing hid⟩, fun _ => hmissing hid⟩

/-- The invariant of the system, whatever the host does. -/
structure Inv (setup : Setup) (s : State) : Prop where
  runtimes : ∀ r ∈ s.process.manager.runtimes, RuntimeOk s.server.shared setup.workerID r
  current : ∀ todo r p, s.process.position = .reconciling todo (some (r, p)) →
    RuntimeOk s.server.shared setup.workerID r ∧ p.Issues r.Allows r.Follows
  awaited : ∀ q desired, s.process.position = .awaiting q → s.handlers q = .responding desired →
    ListOk s.server.shared setup.workerID s.process.manager.runtimes desired

/-- The request has an answer on its way. -/
def Handler.Answered : Handler → Prop
  | .responding _ => True
  | _ => False

/-- No pass is under way, and no answer is awaited. -/
def Position.Quiet : Position → Prop
  | .reconciling _ (some _) => False
  | .awaiting _ => False
  | _ => True

namespace Inv

variable {setup : Setup} {s : State} {q : ℕ} {handler : Handler}

/-- The database takes a step of its own. -/
theorem server (h : Inv setup s) (hreach : setup.server.system.Reachable s.server)
    {e : ℕ × Action} {server : Fleet.State}
    (hnext : setup.server.system.next s.server e server) : Inv setup { s with server } := by
  have hadv : Advances s.server.shared server.shared :=
    .of_change (setup.server.holds_of_reachable hreach).1
      (setup.server.step_change hreach hnext)
  refine ⟨fun r hr => (h.runtimes r hr).advance hadv, ?_, ?_⟩
  · intro todo r p hposition
    obtain ⟨hr, hp⟩ := h.current todo r p hposition
    exact ⟨hr.advance hadv, hp⟩
  · exact fun q desired hposition hq => (h.awaited q desired hposition hq).advance hadv

/-- The server's side of a request changes; an answer must be right. -/
theorem setHandler (h : Inv setup s) (hhandler : ∀ desired, handler = .responding desired →
      ListOk s.server.shared setup.workerID s.process.manager.runtimes desired) :
    Inv setup (s.setHandler q handler) := by
  refine ⟨h.runtimes, h.current, fun q' desired hposition hq' => ?_⟩
  by_cases hq : q' = q
  · rw [hq, State.setHandler_self] at hq'
    exact hhandler desired hq'
  · rw [State.setHandler_of_ne s hq] at hq'
    exact h.awaited q' desired hposition hq'

/-- A request that is not answered changes nothing for the worker. -/
theorem unanswered (h : Inv setup s) (hhandler : ¬handler.Answered) :
    Inv setup (s.setHandler q handler) := by
  refine h.setHandler fun desired heq => absurd ?_ hhandler
  rw [heq]
  trivial

/-- The process moves on with right runtimes, without a pass under way and without
waiting. -/
theorem process (s : State) {process : Process}
    (hruntimes : ∀ r ∈ process.manager.runtimes, RuntimeOk s.server.shared setup.workerID r)
    (hquiet : process.position.Quiet) : Inv setup { s with process } := by
  refine ⟨hruntimes, fun todo r p hposition => ?_, fun q _ hposition => ?_⟩
  · rw [hposition] at hquiet
    exact hquiet.elim
  · rw [hposition] at hquiet
    exact hquiet.elim

/-- The worker is in a pass. -/
theorem pass (h : Inv setup s) {todo : List String} {r : Runtime}
    {p : Prog Command Reply Runtime} (hr : RuntimeOk s.server.shared setup.workerID r)
    (hp : p.Issues r.Allows r.Follows) : Inv setup (s.goto (.reconciling todo (some (r, p)))) := by
  refine ⟨h.runtimes, fun todo' r' p' hposition => ?_, fun q _ hposition => ?_⟩
  · cases hposition
    exact ⟨hr, hp⟩
  · cases hposition

/-- The host changes. -/
theorem host (h : Inv setup s) (host : Host) : Inv setup { s with host } :=
  ⟨h.runtimes, h.current, h.awaited⟩

/-- Every step keeps the invariant. -/
theorem step (h : Inv setup s) (hreach : setup.server.system.Reachable s.server) {t : State}
    {e : Event} (heffect : Effect setup s e t) : Inv setup t := by
  cases heffect with
  | server _ hnext => exact h.server hreach hnext
  | arrive _ => exact h.unanswered id
  | record _ hnext => exact (h.server hreach hnext).unanswered id
  | report _ hnext => exact (h.server hreach hnext).unanswered id
  | reported _ _ => exact h.unanswered id
  | list _ =>
    refine h.setHandler fun desired heq => ?_
    cases heq
    exact .of_list (setup.server.holds_of_reachable hreach).1 h.runtimes
  | drop => exact h.unanswered id
  | startPass _ _ => exact .process s h.runtimes trivial
  | startRuntime _ hr => exact h.pass (h.runtimes _ hr) (Runtime.reconcile_issues _ _)
  | skipRuntime _ => exact .process s h.runtimes trivial
  | tart hposition _ =>
    obtain ⟨hr, hissues⟩ := h.current _ _ _ hposition
    exact (h.host _).pass hr (hissues.next _)
  | finishRuntime hposition =>
    obtain ⟨hr, hfollows⟩ := h.current _ _ _ hposition
    exact .process s (Manager.forall_put (hr.follows hfollows) h.runtimes) trivial
  | finishPass _ => exact .process s (fun r hr => h.runtimes r (List.mem_of_mem_filter hr)) trivial
  | skipHeartbeat _ => exact .process s h.runtimes trivial
  | sendHeartbeat _ _ =>
    refine ⟨h.runtimes, fun _ _ _ hposition => ?_, fun q desired hposition hq => ?_⟩
    · cases hposition
    · cases hposition
      cases (State.setHandler_self s _ _).symm.trans hq
  | receive hposition hq =>
    have happlied : Inv setup { s with process := ⟨_, .ready⟩ } :=
      .process s ((h.awaited _ _ hposition hq).apply h.runtimes) trivial
    exact happlied.unanswered id
  | giveUp _ => exact .process s h.runtimes trivial
  | restart => exact .process s (fun r hr => absurd hr List.not_mem_nil) trivial
  | powerOff => exact h.host _

end Inv

/-- The invariant holds in every reachable state. -/
theorem Setup.inv_of_reachable (setup : Setup) {host : Host} {s : State}
    (h : (setup.system host).Reachable s) : Inv setup s := by
  refine System.ReachableUnder.invariant ?_ ?_ h
  · rintro s rfl
    refine ⟨fun r hr => absurd hr List.not_mem_nil, fun _ _ _ hposition => ?_,
      fun _ _ hposition => ?_⟩
    · cases hposition
    · cases hposition
  · intro s e t hreach _ hnext hinv
    exact hinv.step (setup.server_reachable hreach) (Setup.step_effect hnext)

/-- Whenever the worker executes `tart delete` on the VM of a workstation, the row
of the workstation is marked for deletion or no longer exists. -/
theorem Setup.dead_of_delete (setup : Setup) (host : Host) {s : State}
    (h : (setup.system host).Reachable s) {name : String}
    (hcommand : s.command = some (.delete name)) :
    ∀ w ∈ s.server.shared.db.workstations, w.vmName = name → w.desiredPowerState = .deleted := by
  obtain ⟨_, hcurrent, _⟩ := setup.inv_of_reachable h
  obtain ⟨hok, _⟩ := setup.server.holds_of_reachable (setup.server_reachable h)
  intro w hw hname
  unfold State.command at hcommand
  split at hcommand
  next todo r c next hposition =>
    cases hcommand
    obtain ⟨hr, hissues⟩ := hcurrent _ _ _ hposition
    obtain ⟨hrname, hdesired⟩ := hissues.1
    obtain ⟨hknown, hdeleted⟩ := (Shared.dead_iff hok).mp (hr.dead hdesired)
    -- vm names determine the ids, since names of new ids are fresh
    have hid : w.id = r.workstationID := by
      refine List.inj_on_of_nodup_map hok.usedNames (hok.used w hw) hknown.used ?_
      rw [← hok.vmNames w hw, hname, hrname, hr.vmName]
    exact hdeleted w hw hid
  next => cases hcommand

/-- A worker with one slot, on a server whose worker ids are the hardware UUIDs. -/
def plainSetup : Setup where
  server := plainServer
  config := ⟨"base", 1, 8, 256⟩
  workerID := "w"

/-- A member claims a workstation and releases it before the worker hears of it;
the worker finds a VM of that name and is about to delete it. -/
def releasedEarly : List Event :=
  [.server 0 (.register 100 ⟨"w", "mac-1", "uuid", 8, 16, "2", "1", 1, "base"⟩),
   .server 0 (.updateWorker 110 "w" .heartbeat), .server 1 (.beginClaim "alice" ""),
   .server 1 (.claim .lock), .server 1 (.claim (.listWorkers 120)), .server 1 (.claim .listSlots),
   .server 1 (.claim (.insert 120 "id-1")), .server 1 (.claim .commit),
   .server 2 (.beginRow (.setDesired "alice" "id-1" (.value .deleted))),
   .server 2 (.row (.selectForUpdate 130)), .server 2 (.row .write), .server 2 (.row .commit),
   .startPass [], .finishPass, .sendHeartbeat 0, .arrive 0 (some (3, 140)), .list 0, .receive,
   .startPass ["id-1"], .startRuntime, .tart (.exited 0 "" "") false,
   .tart (.exited 1 "" "VM is not running") false, .tart (.exited 0 "" "") false]

/-- The worker deletes the VM of a released workstation. -/
theorem dead_of_delete_releasedEarly : ∃ s : State,
    (plainSetup.system [⟨"ws-id1", none⟩]).Reachable s ∧ s.command = some (.delete "ws-id1") ∧
    s.server.shared.db.workstations.map (·.vmName) = ["ws-id1"] ∧
    ∀ w ∈ s.server.shared.db.workstations, w.vmName = "ws-id1" →
      w.desiredPowerState = .deleted := by
  have hrun : ∃ s, runEvents plainSetup.step (initial [⟨"ws-id1", none⟩]) releasedEarly = some s ∧
      s.command = some (.delete "ws-id1") ∧
      s.server.shared.db.workstations.map (·.vmName) = ["ws-id1"] := by
    refine ⟨_, rfl, ?_, ?_⟩
    · rfl
    · decide
  obtain ⟨s, hs, hcommand, hrows⟩ := hrun
  have hreach : (plainSetup.system [⟨"ws-id1", none⟩]).Reachable s := reachable_of_runEvents rfl hs
  exact ⟨s, hreach, hcommand, hrows, plainSetup.dead_of_delete _ hreach hcommand⟩

end MiniControl.Heartbeat
