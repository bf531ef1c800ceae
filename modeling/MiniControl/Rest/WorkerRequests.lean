import MiniControl.Fleet.Deletion
import MiniControl.Fleet.Frames
import MiniControl.Heartbeat.System
import MiniControl.Proxy.Disclosure

/-!
# Requests of an authenticated worker

A heartbeat reports any list of statuses, each in a transaction of its own, and is
answered with the rows of the worker; a VM state report is one such transaction after
a lookup; a poll reads the session manager. Every transaction may fail. Whatever a
worker sends, it reaches its own rows and sessions only.
-/

namespace MiniControl.Rest

open Transition Fleet Tables

/-- A reported status with the time at which its transaction ran, or `none` when the
transaction failed and was rolled back. -/
abbrev TimedReport := StatusReport × Option Time

/-- One call of `UpdateWorkstationStatus`. -/
def reportStatus (workerID : String) (db : Database) (entry : TimedReport) : Database :=
  match entry.2 with
  | some now => ((RowOp.reportStatus workerID entry.1).perform now db).1
  | none => db

/-- The loop of a heartbeat over its statuses. -/
def reportStatuses (workerID : String) (entries : List TimedReport) (db : Database) : Database :=
  entries.foldl (reportStatus workerID) db

/-- A heartbeat with what happens to its statements. -/
structure HeartbeatRequest where
  pathWorkerID : String
  /-- The time of `UpdateHeartbeat`, unless it fails. -/
  heartbeat : Option Time
  /-- The statuses of the body, unless it does not decode. -/
  statuses : Option (List TimedReport)
  listFails : Bool

/-- The answer to a heartbeat. -/
inductive HeartbeatReply
  | error (error : Proxy.ApiError)
  | ok (desired : List DesiredWorkstation)
  deriving DecidableEq

/-- `UpdateHeartbeat`. -/
def updateHeartbeat (workerID : String) (heartbeat : Option Time) (db : Database) : Database :=
  match heartbeat with
  | some now =>
    let workers := Tables.update Worker.id workerID (WorkerUpdate.heartbeat.apply now) db.workers
    { db with workers }
  | none => db

/-- `handleWorkerHeartbeat`, authenticated as the worker. -/
def handleWorkerHeartbeat (workerID : String) (r : HeartbeatRequest) (db : Database) :
    Database × HeartbeatReply :=
  if r.pathWorkerID ≠ workerID then (db, .error ⟨403, "worker_id mismatch"⟩)
  else
    let touched := updateHeartbeat workerID r.heartbeat db
    match r.statuses with
    | none => (touched, .error ⟨400, "invalid json"⟩)
    | some entries =>
      let reported := reportStatuses workerID entries touched
      if r.listFails then (reported, .error ⟨500, "failed to list desired workstations"⟩)
      else (reported, .ok (Heartbeat.listDesiredWorkstations workerID reported.workstations))

/-- The body of a VM state report. -/
structure VMStateBody where
  workerID : String
  state : Input PowerState
  ipAddress : String
  errorMessage : String
  deriving DecidableEq

/-- A VM state report with what happens to its statements. -/
structure VMStateRequest where
  vmID : String
  /-- The body, unless it does not decode. -/
  body : Option VMStateBody
  lookupFails : Bool
  /-- The time of the update, unless it fails. -/
  update : Option Time

/-- `handleVMState`, authenticated as the worker; `none` is the answer 200. -/
def handleVMState (workerID : String) (r : VMStateRequest) (db : Database) :
    Database × Option Proxy.ApiError :=
  match r.body with
  | none => (db, some ⟨400, "invalid json"⟩)
  | some body =>
    if body.workerID ≠ "" ∧ body.workerID ≠ workerID then (db, some ⟨403, "worker_id mismatch"⟩)
    else if r.lookupFails then (db, some ⟨500, "failed"⟩)
    else if (db.workstations.find? (·.id = r.vmID)).any (·.workerID ≠ workerID) then
      (db, some ⟨403, "workstation does not belong to worker"⟩)
    else
      match r.update with
      | none => (db, some ⟨500, "failed"⟩)
      | some now =>
        let report := ⟨r.vmID, body.state, body.ipAddress, body.errorMessage⟩
        let (after, reply) := (RowOp.reportStatus workerID report).perform now db
        (after, if reply = .done then none else some ⟨500, "failed"⟩)

/-- The worker whose sessions `handlePendingProxySessions` asks for. -/
def pendingWorker (workerID requestedWorkerID : String) : Except Proxy.ApiError String :=
  if requestedWorkerID ≠ "" ∧ requestedWorkerID ≠ workerID then
    .error ⟨403, "worker_id mismatch"⟩
  else .ok workerID

/-- The entry is rejected: no row has its id, the row belongs to another worker, or
the power state is invalid and the row is not marked for deletion. -/
def Rejected (workerID : String) (db : Database) (report : StatusReport) : Prop :=
  ∀ row ∈ db.workstations, row.id = report.workstationID → row.workerID ≠ workerID ∨
    (row.desiredPowerState ≠ .deleted ∧ ∃ text, report.powerState = .invalid text)

section

variable {workerID : String} {report : StatusReport} {db : Database} {now : Time}
  {entry : TimedReport} {r : HeartbeatRequest} {result : Database × HeartbeatReply}

/-- A report that runs alone leaves the rows of other workers, and distinct ids. -/
theorem perform_reportStatus (workerID : String) (report : StatusReport) (now : Time)
    (hids : (db.workstations.map Workstation.id).Nodup) :
    AgreeOn (·.workerID ≠ workerID) db.workstations
        ((RowOp.reportStatus workerID report).perform now db).1.workstations ∧
      (((RowOp.reportStatus workerID report).perform now db).1.workstations.map
        Workstation.id).Nodup :=
  ⟨(RowOp.confinedTo_worker workerID report).perform now hids,
    RowOp.nodup_perform _ now hids (fun _ _ hplace => hplace.id) hids⟩

/-- A rejected report changes nothing. -/
theorem perform_of_rejected (hids : (db.workstations.map Workstation.id).Nodup)
    (h : Rejected workerID db report) (now : Time) :
    ((RowOp.reportStatus workerID report).perform now db).1 = db := by
  rcases RowOp.perform_cases (.reportStatus workerID report) now hids with
    ⟨hperform, _⟩ | ⟨row, hrow, hselects, hperform⟩
  · rw [hperform]
  · have hanswer : ∃ reply, updateWorkstationStatus now workerID report row = .answer reply := by
      unfold updateWorkstationStatus
      by_cases hforeign : row.workerID ≠ workerID
      · exact ⟨_, if_pos hforeign⟩
      · have hid := RowOp.id_of_selects hselects
        obtain ⟨hdesired, text, htext⟩ := (h row hrow hid).resolve_left hforeign
        simp [hforeign, hdesired, htext]
    obtain ⟨reply, hreply⟩ := hanswer
    rw [hperform, RowOp.decision, hreply]
    rfl

/-- A run of reports leaves the rows of other workers, and distinct ids. -/
theorem reportStatuses_foreign (entries : List TimedReport)
    (hids : (db.workstations.map Workstation.id).Nodup) :
    AgreeOn (·.workerID ≠ workerID) db.workstations
        (reportStatuses workerID entries db).workstations ∧
      ((reportStatuses workerID entries db).workstations.map Workstation.id).Nodup := by
  induction entries generalizing db with
  | nil => exact ⟨.refl _ _, hids⟩
  | cons entry entries ih =>
    have hstep : AgreeOn (·.workerID ≠ workerID) db.workstations
          (reportStatus workerID db entry).workstations ∧
        ((reportStatus workerID db entry).workstations.map Workstation.id).Nodup := by
      unfold reportStatus
      split
      · exact perform_reportStatus workerID entry.1 _ hids
      · exact ⟨.refl _ _, hids⟩
    obtain ⟨hforeign, hnodup⟩ := ih hstep.2
    exact ⟨hstep.1.trans hforeign, hnodup⟩

/-- A rejected entry does not count: the entries before it and after it are applied as
if it had not been sent. -/
theorem reportStatuses_of_rejected (hids : (db.workstations.map Workstation.id).Nodup)
    (before after : List TimedReport)
    (h : Rejected workerID (reportStatuses workerID before db) entry.1) :
    reportStatuses workerID (before ++ entry :: after) db =
      reportStatuses workerID (before ++ after) db := by
  have hsame : reportStatus workerID (reportStatuses workerID before db) entry =
      reportStatuses workerID before db := by
    unfold reportStatus
    split
    · exact perform_of_rejected (reportStatuses_foreign before hids).2 h _
    · rfl
  rw [reportStatuses, reportStatuses, List.foldl_append, List.foldl_append, List.foldl_cons]
  exact congrArg (List.foldl (reportStatus workerID) · after) hsame

/-- A heartbeat only touches the workers table by itself. -/
@[simp]
theorem updateHeartbeat_workstations (workerID : String) (heartbeat : Option Time)
    (db : Database) : (updateHeartbeat workerID heartbeat db).workstations = db.workstations := by
  cases heartbeat <;> rfl

/-- What a heartbeat leaves, and what it is answered. -/
inductive Heartbeats (workerID : String) (r : HeartbeatRequest) (db : Database) :
    Database × HeartbeatReply → Prop
  | refused (error : Proxy.ApiError) : Heartbeats workerID r db (db, .error error)
  | undecoded (error : Proxy.ApiError) :
      Heartbeats workerID r db (updateHeartbeat workerID r.heartbeat db, .error error)
  | reported (entries : List TimedReport) {after : Database} {reply : HeartbeatReply} :
      after = reportStatuses workerID entries (updateHeartbeat workerID r.heartbeat db) →
      (∀ desired, reply = .ok desired →
        desired = Heartbeat.listDesiredWorkstations workerID after.workstations) →
      Heartbeats workerID r db (after, reply)

/-- A heartbeat does what `Heartbeats` says. -/
theorem heartbeats (workerID : String) (r : HeartbeatRequest) (db : Database) :
    Heartbeats workerID r db (handleWorkerHeartbeat workerID r db) := by
  unfold handleWorkerHeartbeat
  by_cases hpath : r.pathWorkerID ≠ workerID
  · rw [if_pos hpath]
    exact .refused _
  · rw [if_neg hpath]
    cases r.statuses with
    | none => exact .undecoded _
    | some entries =>
      dsimp only
      split_ifs
      · exact .reported entries rfl nofun
      · exact .reported entries rfl fun desired h => (HeartbeatReply.ok.inj h).symm

/-- A heartbeat leaves the rows of other workers, and distinct ids. -/
theorem Heartbeats.foreign (h : Heartbeats workerID r db result)
    (hids : (db.workstations.map Workstation.id).Nodup) :
    AgreeOn (·.workerID ≠ workerID) db.workstations result.1.workstations ∧
      (result.1.workstations.map Workstation.id).Nodup := by
  rw [← updateHeartbeat_workstations workerID r.heartbeat] at hids ⊢
  cases h with
  | refused =>
    rw [updateHeartbeat_workstations] at hids ⊢
    exact ⟨.refl _ _, hids⟩
  | undecoded => exact ⟨.refl _ _, hids⟩
  | reported entries hafter =>
    rw [hafter]
    exact reportStatuses_foreign entries hids

/-- The answer to a heartbeat lists the rows of the worker after the reports. -/
theorem Heartbeats.listed (h : Heartbeats workerID r db result) {desired : List DesiredWorkstation}
    (hreply : result.2 = .ok desired) :
    desired = Heartbeat.listDesiredWorkstations workerID result.1.workstations := by
  cases h with
  | refused | undecoded => cases hreply
  | reported _ _ hlisted => exact hlisted desired hreply

/-- A heartbeat is answered and carried out as if a rejected entry had not been sent. -/
theorem handleWorkerHeartbeat_of_rejected (hids : (db.workstations.map Workstation.id).Nodup)
    {before later : List TimedReport} (hentries : r.statuses = some (before ++ entry :: later))
    (h : Rejected workerID
      (reportStatuses workerID before (updateHeartbeat workerID r.heartbeat db)) entry.1) :
    handleWorkerHeartbeat workerID r db =
      handleWorkerHeartbeat workerID { r with statuses := some (before ++ later) } db := by
  rw [← updateHeartbeat_workstations workerID r.heartbeat] at hids
  unfold handleWorkerHeartbeat
  rw [hentries]
  dsimp only
  rw [reportStatuses_of_rejected hids before later h]

/-- A VM state report carries out one report, or nothing. -/
theorem handleVMState_rows (workerID : String) (r : VMStateRequest) (db : Database) :
    (handleVMState workerID r db).1 = db ∨ ∃ body now, r.body = some body ∧
      (handleVMState workerID r db).1 = ((RowOp.reportStatus workerID
        ⟨r.vmID, body.state, body.ipAddress, body.errorMessage⟩).perform now db).1 := by
  unfold handleVMState
  cases hbody : r.body with
  | none => exact .inl rfl
  | some body =>
    dsimp only
    split_ifs
    · exact .inl rfl
    · exact .inl rfl
    · exact .inl rfl
    · cases r.update with
      | none => exact .inl rfl
      | some now => exact .inr ⟨body, now, rfl, rfl⟩

end

/-- The requests of an authenticated worker leave the rows of other workers, alone and
in every interleaving. A rejected entry counts as if it had not been sent, a heartbeat is
answered with the rows of the worker after its reports, and a poll with the tokens of
sessions that were created for the worker. -/
theorem worker_confined (server : Server) {s : State} (h : server.system.Reachable s)
    (workerID : String) :
    (∀ r : HeartbeatRequest,
      let result := handleWorkerHeartbeat workerID r s.shared.db
      AgreeOn (·.workerID ≠ workerID) s.shared.db.workstations result.1.workstations ∧
      (∀ before entry later, r.statuses = some (before ++ entry :: later) →
        Rejected workerID (reportStatuses workerID before
          (updateHeartbeat workerID r.heartbeat s.shared.db)) entry.1 →
        result = handleWorkerHeartbeat workerID
          { r with statuses := some (before ++ later) } s.shared.db) ∧
      ∀ desired, result.2 = .ok desired → (desired.map (·.id)).Nodup ∧
        ∀ d, d ∈ desired ↔ ∃ row ∈ result.1.workstations, row.workerID = workerID ∧
          d = ⟨row.id, row.vmName, row.slot, row.desiredPowerState⟩) ∧
    (∀ r : VMStateRequest,
      let after := (handleVMState workerID r s.shared.db).1
      AgreeOn (·.workerID ≠ workerID) s.shared.db.workstations after.workstations ∧
      ∀ body, r.body = some body → Rejected workerID s.shared.db
        ⟨r.vmID, body.state, body.ipAddress, body.errorMessage⟩ → after = s.shared.db) ∧
    (∀ tx report phase action t, s.locals tx = .row (.reportStatus workerID report) phase →
      server.system.next s (tx, action) t →
      AgreeOn (·.workerID ≠ workerID) s.shared.db.workstations t.shared.db.workstations) ∧
    ∀ requested asked, pendingWorker workerID requested = .ok asked →
      ∀ (x y z : Proxy.State) c order result, Proxy.system.next x (.poll c asked order) y →
        Proxy.system.Leads y z → z.calls c = .returned (.pending result) →
        ∀ p ∈ result, z.Entitled workerID p := by
  obtain ⟨hok, _⟩ := server.holds_of_reachable h
  refine ⟨fun r => ?_, fun r => ?_,
    fun tx report phase action t => (RowOp.confinedTo_worker workerID report).step h,
    fun requested asked hasked => ?_⟩
  · have hresult := heartbeats workerID r s.shared.db
    obtain ⟨hforeign, hids⟩ := hresult.foreign hok.ids
    refine ⟨hforeign, fun before entry later => handleWorkerHeartbeat_of_rejected hok.ids,
      fun desired hdesired => ?_⟩
    rw [hresult.listed hdesired]
    exact ⟨Heartbeat.nodup_listDesiredWorkstations hids,
      fun d => Heartbeat.mem_listDesiredWorkstations⟩
  · rcases handleVMState_rows workerID r s.shared.db with hsame | ⟨body, now, hbody, hperform⟩
    · rw [hsame]
      exact ⟨.refl _ _, fun _ _ _ => rfl⟩
    · rw [hperform]
      refine ⟨(perform_reportStatus workerID _ now hok.ids).1, fun body' hbody' hrejected => ?_⟩
      obtain rfl := Option.some.inj (hbody.symm.trans hbody')
      exact perform_of_rejected hok.ids hrejected now
  · obtain rfl : workerID = asked := by
      unfold pendingWorker at hasked
      split_ifs at hasked
      exact Except.ok.inj hasked
    exact fun x y z c order result => Proxy.entitled_of_poll

/-- A heartbeat with two reports. -/
def heartbeatWith (first second : StatusReport) : HeartbeatRequest where
  pathWorkerID := "w"
  heartbeat := some 140
  statuses := some [(first, some 141), (second, some 142)]
  listFails := false

/-- A report about an unknown workstation does not keep the next one from deleting the
released workstation. -/
theorem worker_confined_released : ∃ s : State, plainServer.system.Reachable s ∧
    s.shared.db.workstations.map (·.id) = ["id-1"] ∧
    let r := heartbeatWith ⟨"id-9", .value .running, "", ""⟩ ⟨"id-1", .value .deleted, "", ""⟩
    let result := handleWorkerHeartbeat "w" r s.shared.db
    result = handleWorkerHeartbeat "w"
      { r with statuses := some [(⟨"id-1", .value .deleted, "", ""⟩, some 142)] } s.shared.db ∧
    result.1.workstations = [] ∧ result.2 = .ok [] := by
  have hrun : ∃ s, runEvents plainServer.program.step State.initial releasedWorkstation = some s ∧
      s.shared.db.workstations.map (·.id) = ["id-1"] ∧
      (∀ row ∈ s.shared.db.workstations, row.id ≠ "id-9") ∧
      let r := heartbeatWith ⟨"id-9", .value .running, "", ""⟩ ⟨"id-1", .value .deleted, "", ""⟩
      (handleWorkerHeartbeat "w" r s.shared.db).1.workstations = [] ∧
      (handleWorkerHeartbeat "w" r s.shared.db).2 = .ok [] := ⟨_, rfl, rfl, by decide, rfl, rfl⟩
  obtain ⟨s, hs, hids, hunknown, hrows, hreply⟩ := hrun
  have hreach : plainServer.system.Reachable s := reachable_of_runEvents rfl hs
  refine ⟨s, hreach, hids, ?_, hrows, hreply⟩
  have hheartbeat := (worker_confined plainServer hreach "w").1
    (heartbeatWith ⟨"id-9", .value .running, "", ""⟩ ⟨"id-1", .value .deleted, "", ""⟩)
  exact hheartbeat.2.1 [] _ _ rfl fun row hrow hid => absurd hid (hunknown row hrow)

/-- A report with an invalid power state changes the error text of a released
workstation. -/
theorem invalid_report_written : ¬∀ s : State, plainServer.system.Reachable s →
    ∀ (first second : StatusReport) (text : String), first.powerState = .invalid text →
      handleWorkerHeartbeat "w" (heartbeatWith first second) s.shared.db =
        handleWorkerHeartbeat "w"
          { heartbeatWith first second with statuses := some [(second, some 142)] }
          s.shared.db := by
  have hrun : ∃ s, runEvents plainServer.program.step State.initial releasedWorkstation = some s ∧
      let r := heartbeatWith ⟨"id-1", .invalid "asleep", "", "lost"⟩
        ⟨"id-9", .value .running, "", ""⟩
      (handleWorkerHeartbeat "w" r s.shared.db).1.workstations.map (·.lastError) = ["lost"] ∧
      (handleWorkerHeartbeat "w"
        { r with statuses := some [(⟨"id-9", .value .running, "", ""⟩, some 142)] }
        s.shared.db).1.workstations.map (·.lastError) = [""] := ⟨_, rfl, rfl, rfl⟩
  obtain ⟨s, hs, hwritten, hskipped⟩ := hrun
  intro hclaim
  have hsame := hclaim s (reachable_of_runEvents rfl hs) ⟨"id-1", .invalid "asleep", "", "lost"⟩
    ⟨"id-9", .value .running, "", ""⟩ "asleep" rfl
  rw [hsame, hskipped] at hwritten
  simp at hwritten

end MiniControl.Rest
