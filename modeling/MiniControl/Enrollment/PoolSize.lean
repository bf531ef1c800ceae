import MiniControl.Enrollment.Hostnames

/-!
# The pool size that is announced and the one that is stored

A registration answers with the pool size and the base image of the configuration.
The row of the worker keeps those with which it was inserted: a hostname assignment
inserts constants of its own, and the upsert of a registration updates neither
column. A server may be restarted with another configuration, which rolls back what
was not committed. The answer agrees with the row exactly when the upsert found no
row of the worker, or one with the configured columns.
-/

namespace MiniControl.Enrollment

open Transition Fleet

/-- `default_pool_size` and `default_base_image`. -/
structure Settings where
  poolSize : ℤ
  baseImage : String
  deriving DecidableEq

/-- The registrar of a server process with the given settings. -/
def Registrar.configured (e : Registrar) (settings : Settings) : Registrar :=
  { e with poolSize := settings.poolSize, baseImage := settings.baseImage }

/-- A server process with its database. -/
structure Deployment where
  settings : Settings
  state : State

/-- The committed rows of the workers table. -/
def Deployment.workers (d : Deployment) : List Worker := d.state.shared.workers

/-- A step of a client, or a restart of the server with other settings. -/
inductive DeploymentEvent
  | act (i : ℕ) (a : Action)
  | restart (settings : Settings)
  deriving DecidableEq

/-- What the database keeps when all its clients are gone. -/
def rolledBack (sh : Fleet.Shared) : Fleet.Shared :=
  { sh with
    allocationLock := none
    hostnameLock := none
    rowLocks := fun _ => none
    uncommitted := []
    stagedWorker := none }

namespace Registrar

variable (e : Registrar)

/-- One step of a deployment. -/
def deploymentStep (d : Deployment) : DeploymentEvent → Option Deployment
  | .act i a =>
    ((e.configured d.settings).program.step d.state (i, a)).map fun state => { d with state }
  | .restart settings =>
    let shared := { d.state.shared with fleet := rolledBack d.state.shared.fleet }
    some ⟨settings, shared, fun _ => .client .idle⟩

/-- All runs of a deployment, from a fresh installation with any settings. -/
def deployments : System Deployment DeploymentEvent :=
  .ofStep (·.state = State.initial) e.deploymentStep

end Registrar

/-- The columns of a worker that no statement changes. -/
structure Columns where
  id : String
  poolSize : ℤ
  baseImage : String
  deriving DecidableEq

/-- The columns of a row. -/
def columns (w : Worker) : Columns := ⟨w.id, w.poolSize, w.baseImage⟩

/-- A row version that is about to be committed has the columns of the row it replaces. -/
def Staged (workers : List Worker) : Call → Prop
  | .client (.hostname _ (.inserted row)) => ∀ w ∈ workers, w.id = row.id → columns w = columns row
  | _ => True

section Statements

variable {workers new : List Worker} {now : Time} {id : String} {row : Worker}

/-- A statement on one row leaves the columns. -/
theorem columns_update {f : Worker → Worker}
    (h : ∀ w ∈ workers, w.id = id → columns (f w) = columns w) :
    (Tables.update Worker.id id f workers).map columns = workers.map columns :=
  Tables.map_update h

/-- A registration leaves the columns of its worker, or inserts the configured ones. -/
theorem columns_upsertWorker {r : Registration} (h : upsertWorker now r workers = some new) :
    ((∃ w ∈ workers, w.id = r.id) ∧ new.map columns = workers.map columns) ∨
      ((∀ w ∈ workers, w.id ≠ r.id) ∧
        new.map columns = workers.map columns ++ [⟨r.id, r.poolSize, r.baseImage⟩]) := by
  unfold upsertWorker at h
  split_ifs at h with hid huuid
  · cases h
    refine .inl ⟨by simpa using hid, columns_update fun w _ _ => rfl⟩
  · cases h
    refine .inr ⟨by simpa using hid, ?_⟩
    rw [List.map_append]
    rfl

/-- Committing a row version leaves the columns of the other rows and its own. -/
theorem columns_putWorker (h : ∀ w ∈ workers, w.id = row.id → columns w = columns row) :
    workers.map columns <+: (putWorker row workers).map columns := by
  unfold putWorker
  split_ifs
  · rw [columns_update fun w hw hid => (h w hw hid).symm]
  · rw [List.map_append]
    exact List.prefix_append _ _

/-- The row version of an assignment has the columns of the row it replaces. -/
theorem columns_upsertHostname {id hostname hardwareUUID : String}
    (hids : (workers.map Worker.id).Nodup)
    (h : upsertHostname now id hostname hardwareUUID workers = some row) :
    ∀ w ∈ workers, w.id = row.id → columns w = columns row := by
  intro w hw hid
  unfold upsertHostname at h
  split at h
  next old hold =>
    cases h
    rw [List.inj_on_of_nodup_map hids hw (List.mem_of_find?_eq_some hold) hid]
    rfl
  next hnone =>
    split_ifs at h
    cases h
    have hne : w.id ≠ id := by simpa using List.find?_eq_none.mp hnone w hw
    exact absurd hid hne

end Statements

section Steps

variable {e : Registrar} {sh sh' : Shared} {i : ℕ} {call call' : Call} {a : Action}

/-- A step only adds rows to the columns. -/
theorem Steps.columns_initial (h : Steps e sh i call a sh' call')
    (hstaged : Staged sh.workers call) :
    sh.workers.map columns <+: sh'.workers.map columns := by
  have same {new : List Worker} (hnew : new.map columns = sh.workers.map columns) :
      sh.workers.map columns <+: new.map columns := by rw [hnew]
  cases h with
  | client hreserved hact =>
    cases workersStep_of_act hreserved hact with
    | begin => exact same rfl
    | same hworkers => exact same (congrArg _ hworkers)
    | @update now id update =>
      exact same (columns_update fun w _ _ => by cases update <;> rfl)
    | assign hassigns =>
      cases hassigns with
      | commit => exact columns_putWorker hstaged
      | _ => exact same rfl
  | malformed | receive => exact same rfl
  | register hregisters =>
    cases hregisters with
    | refuse | check | respond | fail => exact same rfl
    | issue => exact same (columns_update fun _ _ _ => rfl)
    | upsert _ hworkers =>
      rcases columns_upsertWorker hworkers with ⟨_, hsame⟩ | ⟨_, hadded⟩
      · exact same hsame
      · exact ⟨_, hadded.symm⟩

/-- A step of a client stages a row version with the columns of the row it replaces. -/
theorem Steps.staged (h : Steps e sh i call a sh' call')
    (hids : (sh.workers.map Worker.id).Nodup) : Staged sh'.workers call' := by
  cases h with
  | @client _ t' _ _ hreserved hact =>
    cases workersStep_of_act hreserved hact with
    | begin | update => trivial
    | same _ _ hnot =>
      cases t' with
      | hostname hardwareUUID phase => exact absurd rfl (hnot hardwareUUID phase)
      | idle | claim | row => trivial
    | assign hassigns =>
      cases hassigns with
      | insert hrow => exact columns_upsertHostname hids hrow
      | _ => trivial
  | malformed | receive | register => trivial

/-- Columns that are in the table stay there. -/
theorem exists_row_of_initial {workers new : List Worker}
    (h : workers.map columns <+: new.map columns) {w : Worker} (hw : w ∈ workers) :
    ∃ w' ∈ new, columns w' = columns w :=
  List.mem_map.mp (h.subset (List.mem_map_of_mem hw))

/-- The columns of a row that exists are in the table exactly when they were. -/
theorem mem_columns_iff {workers new : List Worker}
    (h : workers.map columns <+: new.map columns) (hids : (new.map Worker.id).Nodup) {c : Columns}
    (hrow : ∃ w ∈ workers, w.id = c.id) : c ∈ new.map columns ↔ c ∈ workers.map columns := by
  refine ⟨fun hc => ?_, fun hc => h.subset hc⟩
  obtain ⟨w, hw, hid⟩ := hrow
  obtain ⟨w', hw', hsame⟩ := exists_row_of_initial h hw
  obtain ⟨w'', hw'', rfl⟩ := List.mem_map.mp hc
  have hid' : w'.id = w.id := congrArg Columns.id hsame
  have heq : w'' = w' := List.inj_on_of_nodup_map hids hw'' hw' (hid.symm.trans hid'.symm)
  rw [heq, hsame]
  exact List.mem_map_of_mem hw

/-- After an upsert the row of the worker has the configured columns exactly when there
was none before, or one with these columns. -/
theorem columns_mem_upsertWorker_iff {workers new : List Worker} {now : Time} {r : Registration}
    (h : upsertWorker now r workers = some new) (hids : (workers.map Worker.id).Nodup) :
    (∃ w ∈ new, w.id = r.id) ∧
      ((⟨r.id, r.poolSize, r.baseImage⟩ : Columns) ∈ new.map columns ↔
        ∀ row ∈ workers, row.id = r.id →
          row.poolSize = r.poolSize ∧ row.baseImage = r.baseImage) := by
  rcases columns_upsertWorker h with ⟨⟨w, hw, hid⟩, hsame⟩ | ⟨hnone, hadded⟩
  · obtain ⟨w', hw', hcolumns⟩ := exists_row_of_initial (by rw [hsame]) hw
    refine ⟨⟨w', hw', (congrArg Columns.id hcolumns).trans hid⟩, ?_⟩
    rw [hsame]
    constructor
    · intro hmem row hrow hrowID
      obtain ⟨row', hrow', heq⟩ := List.mem_map.mp hmem
      have hsameID : row'.id = row.id := (congrArg Columns.id heq).trans hrowID.symm
      rw [← List.inj_on_of_nodup_map hids hrow' hrow hsameID]
      exact ⟨congrArg Columns.poolSize heq, congrArg Columns.baseImage heq⟩
    · intro hmatches
      obtain ⟨hpool, himage⟩ := hmatches w hw hid
      exact List.mem_map.mpr ⟨w, hw, by rw [columns, hid, hpool, himage]⟩
  · have hmem : (⟨r.id, r.poolSize, r.baseImage⟩ : Columns) ∈ new.map columns := by
      rw [hadded]
      exact List.mem_append_right _ (List.mem_singleton_self _)
    obtain ⟨w, hw, heq⟩ := List.mem_map.mp hmem
    refine ⟨⟨w, hw, congrArg Columns.id heq⟩, ?_⟩
    exact iff_of_true hmem fun row hrow hid => absurd hid (hnone row hrow)

/-- A staged row version keeps the columns of the row it replaces while others run. -/
theorem Staged.frame {other : ℕ} {otherCall : Call} (h : Staged sh.workers otherCall)
    (hholds : otherCall.transaction.Holds sh.fleet other) (hne : other ≠ i) {t : Transaction}
    (hchange : Change i t sh.fleet sh'.fleet)
    (hids : (sh'.workers.map Worker.id).Nodup)
    (hcolumns : sh.workers.map columns <+: sh'.workers.map columns) :
    Staged sh'.workers otherCall := by
  match otherCall, h, hholds with
  | .client (.hostname _ (.inserted row)), h, ⟨hlock, hstaged, _⟩ =>
    intro w hw hid
    -- the row with this id is the one that existed before, since ids are distinct
    obtain ⟨_, _, hrows⟩ := hchange.hostname_frame hne hlock
    obtain ⟨old, hold, holdID⟩ := hrows row hstaged w hw hid
    obtain ⟨new, hnew, hsame⟩ := exists_row_of_initial hcolumns hold
    have hnewID : new.id = old.id := congrArg Columns.id hsame
    have heq : new = w :=
      List.inj_on_of_nodup_map hids hnew hw (hnewID.trans (holdID.trans hid.symm))
    rw [← heq, hsame]
    exact h old hold holdID
  | .client (.hostname _ .waiting), _, _ | .client (.hostname _ .locked), _, _ => trivial
  | .client (.hostname _ .unknown), _, _ | .client (.hostname _ (.numbered _)), _, _ => trivial
  | .client (.hostname _ (.finished _)), _, _ => trivial
  | .client .idle, _, _ | .client (.claim _ _ _), _, _ | .client (.row _ _), _, _ => trivial
  | .register _ _, _, _ => trivial

end Steps

/-- What holds of every deployment. -/
structure Deployment.Sound (d : Deployment) : Prop where
  ok : d.state.shared.fleet.Ok
  holds : ∀ i, (d.state.locals i).transaction.Holds d.state.shared.fleet i
  staged : ∀ i, Staged d.workers (d.state.locals i)

section Runs

variable {e : Registrar} {d t u : Deployment} {i : ℕ} {request : RegisterRequest}
  {phase : RegisterPhase}

/-- A restart leaves the tables in order. -/
theorem ok_rolledBack {sh : Fleet.Shared} (h : sh.Ok) : (rolledBack sh).Ok where
  workerIDs := h.workerIDs
  ids := h.ids
  used := h.used
  vmNames := h.vmNames
  usedNames := h.usedNames
  pool := h.pool
  places := h.places
  marked := h.marked
  uncommitted := nofun
  unlocked _ := rfl
  unstaged _ := rfl

/-- Every step of a deployment keeps it sound and only adds rows to the columns. -/
theorem Deployment.Sound.step {event : DeploymentEvent} (h : d.Sound)
    (hnext : e.deploymentStep d event = some t) :
    t.Sound ∧ d.workers.map columns <+: t.workers.map columns := by
  cases event with
  | restart settings =>
    cases hnext
    exact ⟨⟨ok_rolledBack h.ok, fun _ => trivial, fun _ => trivial⟩, List.prefix_refl _⟩
  | act i a =>
    obtain ⟨state, hstep, rfl⟩ := Option.map_eq_some_iff.mp hnext
    obtain ⟨sh, call, hact, rfl⟩ := Program.step_eq_some.mp hstep
    have hsteps := Registrar.steps_of_act hact
    have hcolumns := hsteps.columns_initial (h.staged i)
    have hchange : Change i (d.state.locals i).transaction d.state.shared.fleet sh.fleet ∧
        call.transaction.Holds sh.fleet i := by
      rcases hsteps.fleet with ⟨hfleet, hcall⟩ | ⟨action, haction⟩
      · rw [hfleet, hcall]
        exact ⟨.same, h.holds i⟩
      · exact Server.act_change h.ok (h.holds i) haction
    have hok := h.ok.change hchange.1
    refine ⟨⟨hok, fun j => ?_, fun j => ?_⟩, hcolumns⟩
    · by_cases hj : j = i
      · subst hj
        simpa using hchange.2
      · simpa [Function.update_of_ne hj] using (h.holds j).frame h.ok hj hchange.1
    · by_cases hj : j = i
      · subst hj
        simpa [Deployment.workers] using hsteps.staged h.ok.workerIDs
      · have hother := (h.staged j).frame (h.holds j) hj hchange.1 hok.workerIDs hcolumns
        simpa [Deployment.workers, Function.update_of_ne hj] using hother

/-- Every reachable deployment is sound. -/
theorem sound_of_deployed (h : e.deployments.Reachable d) : d.Sound := by
  refine System.ReachableUnder.invariant ?_ ?_ h
  · rintro ⟨settings, state⟩ rfl
    exact ⟨.empty, fun _ => trivial, fun _ => trivial⟩
  · intro d event t _ _ hnext hd
    exact (hd.step hnext).1

/-- A run only adds rows to the columns. -/
theorem columns_of_leads (h : e.deployments.Reachable d) (hrun : e.deployments.Leads d t) :
    d.workers.map columns <+: t.workers.map columns := by
  refine System.Leads.invariant (P := fun t => d.workers.map columns <+: t.workers.map columns)
    ?_ hrun h (List.prefix_refl _)
  intro u event v hreach hnext hu
  exact hu.trans ((sound_of_deployed hreach).step hnext).2

/-- The server is not restarted. -/
def Running (_ : Deployment) : DeploymentEvent → Prop
  | .act _ _ => True
  | .restart _ => False

/-- What a registration answers after its upsert. -/
def RegisterPhase.Answers (e : Registrar) (request : RegisterRequest) : RegisterPhase → Prop
  | .received | .checked _ => False
  | .upserted _ | .returned (.error _) => True
  | .returned (.registered workerID poolSize baseImage _) =>
    workerID = e.server.generateWorkerID request.hardwareUUID ∧ poolSize = e.poolSize ∧
      baseImage = e.baseImage

/-- A registration that has upserted answers with the settings of its server. -/
theorem Registers.answers {sh sh' : Shared} {phase phase' : RegisterPhase} {a : Action}
    (h : Registers e sh i request phase a sh' phase') (hphase : phase.Answers e request) :
    phase'.Answers e request := by
  cases h with
  | refuse | check | upsert => exact hphase.elim
  | respond | issue => exact ⟨rfl, rfl, rfl⟩
  | fail => trivial

/-- The same along a run without a restart. -/
theorem answers_of_running (h : e.deployments.Reachable t)
    (hphase : t.state.locals i = .register request phase)
    (hanswers : phase.Answers (e.configured t.settings) request)
    (hrun : e.deployments.LeadsUnder Running t u) :
    u.settings = t.settings ∧ ∃ phase', u.state.locals i = .register request phase' ∧
      phase'.Answers (e.configured t.settings) request := by
  refine System.LeadsUnder.invariant (P := fun u => u.settings = t.settings ∧
    ∃ phase', u.state.locals i = .register request phase' ∧
      phase'.Answers (e.configured t.settings) request) ?_ hrun h ⟨rfl, phase, hphase, hanswers⟩
  rintro u event v _ hok hnext ⟨hsettings, phase, hphase, hanswers⟩
  cases event with
  | restart => exact hok.elim
  | act j a =>
    obtain ⟨state, hstep, rfl⟩ := Option.map_eq_some_iff.mp hnext
    obtain ⟨sh, call, hact, rfl⟩ := Program.step_eq_some.mp hstep
    refine ⟨hsettings, ?_⟩
    by_cases hij : i = j
    · subst hij
      have hsteps := Registrar.steps_of_act hact
      rw [hphase, hsettings] at hsteps
      cases hsteps with
      | @register _ _ phase' _ _ hregisters =>
        exact ⟨phase', Function.update_self .., hregisters.answers hanswers⟩
    · exact ⟨phase, (Function.update_of_ne hij ..).trans hphase, hanswers⟩

end Runs

/-- The upsert of a registration that succeeds later: what it answers agrees with the
row of its worker from then on, exactly when the table had no row of the worker, or
one with the configured pool size and base image. -/
theorem register_announces_row_iff (e : Registrar) {d t u : Deployment} {i : ℕ}
    {request : RegisterRequest} {issue : Bool} {now : Time} {workerID baseImage : String}
    {poolSize : ℤ} {token : Option String} (hreach : e.deployments.Reachable d)
    (hcall : d.state.locals i = .register request (.checked issue))
    (hupsert : e.deployments.next d (.act i (.upsert now)) t)
    (hrun : e.deployments.LeadsUnder Running t u)
    (hreturned : u.state.locals i =
      .register request (.returned (.registered workerID poolSize baseImage token))) :
    (∀ v, e.deployments.Leads u v → ∃ row ∈ v.workers,
      row.id = workerID ∧ row.poolSize = poolSize ∧ row.baseImage = baseImage) ↔
    ∀ row ∈ d.workers, row.id = e.server.generateWorkerID request.hardwareUUID →
      row.poolSize = d.settings.poolSize ∧ row.baseImage = d.settings.baseImage := by
  have ht := hreach.next hupsert
  have hu := hrun.leads.reachable ht
  have hgrows := columns_of_leads ht hrun.leads
  obtain ⟨state, hstep, rfl⟩ := Option.map_eq_some_iff.mp hupsert
  obtain ⟨sh, call, hact, rfl⟩ := Program.step_eq_some.mp hstep
  have hsteps := Registrar.steps_of_act hact
  rw [hcall] at hsteps
  cases hsteps with
  | register hregisters =>
    cases hregisters with
    | upsert _ hworkers =>
      obtain ⟨_, phase, hphase, hanswers⟩ :=
        answers_of_running ht (Function.update_self ..) trivial hrun
      cases hphase.symm.trans hreturned
      obtain ⟨rfl, rfl, rfl⟩ := hanswers
      obtain ⟨hrow, hconfigured⟩ :=
        columns_mem_upsertWorker_iff hworkers (sound_of_deployed hreach).ok.workerIDs
      refine Iff.trans ?_ hconfigured
      refine Iff.trans ?_ (mem_columns_iff hgrows (sound_of_deployed hu).ok.workerIDs hrow)
      constructor
      · intro hagrees
        obtain ⟨row, hmem, hid, hpool, himage⟩ := hagrees u (.refl u)
        exact List.mem_map.mpr ⟨row, hmem, by rw [columns, hid, hpool, himage]; rfl⟩
      · intro hmem v hv
        obtain ⟨row, hrow, heq⟩ := List.mem_map.mp ((columns_of_leads hu hv).subset hmem)
        exact ⟨row, hrow, congrArg Columns.id heq, congrArg Columns.poolSize heq,
          congrArg Columns.baseImage heq⟩

section Samples

/-- A server with settings of its own. -/
def fiveSlots : Deployment := ⟨⟨5, "img"⟩, State.initial⟩

/-- A worker registers that no hostname was assigned to: the answer is the row. -/
theorem register_announces_row_new : ∃ u : Deployment, plainRegistrar.deployments.Reachable u ∧
    u.state.locals 1 = .register (macRequest "mac-1" "enroll")
      (.returned (.registered "uuid" 5 "img" (some "wkt_1"))) ∧
    ∃ row ∈ u.workers, row.id = "uuid" ∧ row.poolSize = 5 ∧ row.baseImage = "img" := by
  have hrun : ∃ d t u, runEvents plainRegistrar.deploymentStep fiveSlots
        [.act 1 (.receive (some (macRequest "mac-1" "enroll"))), .act 1 .check] = some d ∧
      d.state.locals 1 = .register (macRequest "mac-1" "enroll") (.checked true) ∧
      d.workers = [] ∧ plainRegistrar.deploymentStep d (.act 1 (.upsert 100)) = some t ∧
      plainRegistrar.deploymentStep t (.act 1 (.issue 110 "wkt_1")) = some u ∧
      u.state.locals 1 = .register (macRequest "mac-1" "enroll")
        (.returned (.registered "uuid" 5 "img" (some "wkt_1"))) :=
    ⟨_, _, _, rfl, rfl, rfl, rfl, rfl, rfl⟩
  obtain ⟨d, t, u, hd, hcall, hempty, ht, hu, hreturned⟩ := hrun
  have hreach : plainRegistrar.deployments.Reachable d := reachable_of_runEvents rfl hd
  have hupserted := hreach.take (.act 1 (.upsert 100)) trivial ht
  refine ⟨u, hupserted.take (.act 1 (.issue 110 "wkt_1")) trivial hu, hreturned, ?_⟩
  have hrunning : plainRegistrar.deployments.LeadsUnder Running t u :=
    .tail (e := .act 1 (.issue 110 "wkt_1")) (.refl t) trivial hu
  have hiff := register_announces_row_iff plainRegistrar hreach hcall ht hrunning hreturned
  refine hiff.mpr (fun row hrow => ?_) u (.refl u)
  rw [hempty] at hrow
  cases hrow

/-- A hostname is assigned to a worker, and then it registers. -/
def assignedFirst : List (ℕ × Action) :=
  assignCall 0 "uuid" 100 ++ registerSteps 1 "mac-1" ++ [(1, .issue 120 "wkt_1")]

/-- A hostname is assigned to a worker, and then it registers with a server of five
slots: the answer says five, and the row has two. -/
theorem register_announces_other_row : ∃ u : Deployment, plainRegistrar.deployments.Reachable u ∧
    u.state.locals 1 = .register (macRequest "mac-1" "enroll")
      (.returned (.registered "uuid" 5 "img" (some "wkt_1"))) ∧
    u.workers.map columns = [⟨"uuid", 2, "minictl-tahoe-base"⟩] := by
  have hrun : ∃ u, runEvents plainRegistrar.deploymentStep fiveSlots
      (assignedFirst.map fun x => .act x.1 x.2) = some u ∧
      u.state.locals 1 = .register (macRequest "mac-1" "enroll")
        (.returned (.registered "uuid" 5 "img" (some "wkt_1"))) ∧
      u.workers.map columns = [⟨"uuid", 2, "minictl-tahoe-base"⟩] := ⟨_, rfl, rfl, rfl⟩
  obtain ⟨u, hu, hreturned, hcolumns⟩ := hrun
  exact ⟨u, reachable_of_runEvents rfl hu, hreturned, hcolumns⟩

end Samples

end MiniControl.Enrollment
