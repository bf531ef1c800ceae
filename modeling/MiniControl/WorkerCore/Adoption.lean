import MiniControl.Transition.System
import MiniControl.WorkerCore.Manager

/-!
# Adopting the server's list

The manager over whole runs of desired lists and reconcile passes. Its runtimes
always carry the desired states of the last authoritative list, with `deleted`
for every other runtime, and a runtime is forgotten only when a pass has deleted
its VM and that list does not name it. On a host where Tart behaves normally one
pass is enough to be left with exactly the listed workstations.
-/

namespace MiniControl.WorkerCore

open Transition Fleet

/-- The loop of `reconcile` over the runtimes, in the order in which the
dictionary lists their ids. -/
def Manager.passes (config : Config) : List String → Manager → Prog Command Reply Manager
  | [], m => pure m
  | id :: rest, m =>
    match m.runtimes.find? (·.workstationID = id) with
    | none => Manager.passes config rest m
    | some r => do
      let new ← r.reconcile config
      Manager.passes config rest (m.put new)

/-- `reconcile`. -/
def Manager.reconcile (config : Config) (order : List String) (m : Manager) :
    Prog Command Reply Manager := do
  let m ← Manager.passes config order m
  pure m.forgetDeleted

/-- The workstations of the manager with their desired states. -/
def Manager.assignments (m : Manager) : List (String × Input DesiredPowerState) :=
  m.runtimes.map fun r => (r.workstationID, r.desiredPowerState)

/-- The ids of the manager. -/
def Manager.ids (m : Manager) : List String := m.runtimes.map Runtime.workstationID

/-- The ids are those of the assignments. -/
theorem Manager.ids_eq (m : Manager) : m.ids = m.assignments.map Prod.fst := by
  simp [ids, assignments]

/-- What the adoption of a list makes of the runtimes. -/
structure Adopted (desired : List DesiredWorkstation) (before after : List Runtime) : Prop where
  nodup : (after.map Runtime.workstationID).Nodup
  applied : ∀ r ∈ after, ∀ d ∈ desired, d.id = r.workstationID →
    r.desiredPowerState = d.desiredPowerState
  listed : ∀ d ∈ desired, ∃ r ∈ after, r.workstationID = d.id
  kept : ∀ r ∈ before, ∃ r' ∈ after, r'.workstationID = r.workstationID

variable {runtimes : List Runtime} {r : Runtime} {desired : List DesiredWorkstation} {m : Manager}
  {config : Config} {s : Tracking} {name : String} {Env : Type} {host : Env → Host}
  {answer : Env → Command → Reply × Env}

/-- Adopting one entry changes the runtime of that entry only. -/
theorem mem_adopt {d : DesiredWorkstation} (h : r ∈ adopt runtimes d) :
    (r.workstationID = d.id ∧ r.desiredPowerState = d.desiredPowerState) ∨
      (r ∈ runtimes ∧ r.workstationID ≠ d.id) := by
  unfold adopt at h
  split_ifs at h with hknown
  · obtain ⟨old, hold, rfl⟩ := Tables.mem_update.mp h
    split_ifs with hid
    · exact .inl ⟨hid, rfl⟩
    · exact .inr ⟨hold, hid⟩
  · rcases List.mem_append.mp h with hold | hnew
    · refine .inr ⟨hold, fun hid => hknown ?_⟩
      exact List.any_eq_true.mpr ⟨r, hold, by simpa using hid⟩
    · rw [List.mem_singleton.mp hnew]
      exact .inl ⟨rfl, rfl⟩

/-- Adopting one entry is adopting the list of that entry. -/
theorem adopt_adopted (d : DesiredWorkstation)
    (hnodup : (runtimes.map Runtime.workstationID).Nodup) :
    Adopted [d] runtimes (adopt runtimes d) where
  nodup := by
    unfold adopt
    split_ifs with hknown
    · have hids : (Tables.update Runtime.workstationID d.id (·.apply d) runtimes).map
          Runtime.workstationID = runtimes.map Runtime.workstationID :=
        Tables.map_update fun _ _ _ => rfl
      rwa [hids]
    · refine Tables.nodup_map_append hnodup fun old hold heq => hknown ?_
      exact List.any_eq_true.mpr ⟨old, hold, by simpa [Runtime.new] using heq⟩
  applied r hr d' hd' hid := by
    rw [List.mem_singleton.mp hd'] at hid ⊢
    rcases mem_adopt hr with ⟨_, hdesired⟩ | ⟨_, hne⟩
    · exact hdesired
    · exact absurd hid.symm hne
  listed d' hd' := by
    rw [List.mem_singleton.mp hd']
    unfold adopt
    split_ifs with hknown
    · obtain ⟨old, hold, hid⟩ := List.any_eq_true.mp hknown
      have hid : old.workstationID = d.id := by simpa using hid
      exact ⟨_, Tables.mem_update_of_mem hold hid, hid⟩
    · exact ⟨_, List.mem_append_right _ (List.mem_singleton_self _), rfl⟩
  kept r hr := by
    unfold adopt
    split_ifs with hknown
    · by_cases hid : r.workstationID = d.id
      · exact ⟨_, Tables.mem_update_of_mem hr hid, rfl⟩
      · exact ⟨r, Tables.mem_update_of_ne hr hid, rfl⟩
    · exact ⟨r, List.mem_append_left _ hr, rfl⟩

/-- A list with distinct ids is adopted entry by entry. -/
theorem foldl_adopt_adopted (hdistinct : (desired.map (·.id)).Nodup)
    (hnodup : (runtimes.map Runtime.workstationID).Nodup) :
    Adopted desired runtimes (desired.foldl adopt runtimes) ∧
      ∀ r ∈ desired.foldl adopt runtimes, r.workstationID ∉ desired.map (·.id) → r ∈ runtimes := by
  induction desired generalizing runtimes with
  | nil =>
    refine ⟨⟨hnodup, ?_, ?_, fun r hr => ⟨r, hr, rfl⟩⟩, fun r hr _ => hr⟩
    · exact fun _ _ _ hd => absurd hd List.not_mem_nil
    · exact fun _ hd => absurd hd List.not_mem_nil
  | cons d desired ih =>
    rw [List.map_cons, List.nodup_cons] at hdistinct
    have hone := adopt_adopted d hnodup
    obtain ⟨hrest, hfrom⟩ := ih hdistinct.2 hone.nodup
    rw [List.foldl_cons]
    refine ⟨⟨hrest.nodup, fun r hr d' hd' hid => ?_, fun d' hd' => ?_, fun r hr => ?_⟩,
      fun r hr hnot => ?_⟩
    · rcases List.mem_cons.mp hd' with rfl | hd'
      · -- no later entry has this id, so the runtime is as this entry left it
        have hmem := hfrom r hr (hid ▸ hdistinct.1)
        exact hone.applied r hmem d' (List.mem_singleton_self _) hid
      · exact hrest.applied r hr d' hd' hid
    · rcases List.mem_cons.mp hd' with rfl | hd'
      · obtain ⟨r, hr, hid⟩ := hone.listed d' (List.mem_singleton_self _)
        obtain ⟨r', hr', hid'⟩ := hrest.kept r hr
        exact ⟨r', hr', hid'.trans hid⟩
      · exact hrest.listed d' hd'
    · obtain ⟨r', hr', hid⟩ := hone.kept r hr
      obtain ⟨r'', hr'', hid'⟩ := hrest.kept r' hr'
      exact ⟨r'', hr'', hid'.trans hid⟩
    · rw [List.map_cons, List.mem_cons, not_or] at hnot
      rcases mem_adopt (hfrom r hr hnot.2) with ⟨hid, _⟩ | ⟨hold, _⟩
      · exact absurd hid hnot.1
      · exact hold

/-- The manager carries the desired states of a list: those of the list for its
workstations, and `deleted` for all others. -/
structure Manager.Carries (m : Manager) (desired : List DesiredWorkstation) : Prop where
  distinct : (desired.map (·.id)).Nodup
  nodup : m.ids.Nodup
  desiredIDs : m.desiredIDs = desired.map (·.id)
  applied : ∀ a ∈ m.assignments, ∀ d ∈ desired, d.id = a.1 → a.2 = d.desiredPowerState
  marked : ∀ a ∈ m.assignments, a.1 ∉ desired.map (·.id) → a.2 = .value .deleted
  listed : ∀ d ∈ desired, d.id ∈ m.ids

/-- After an authoritative answer the manager carries its list, and it has not
forgotten any runtime. -/
theorem Manager.carries_applyDesiredWorkstations (hnodup : m.ids.Nodup)
    (hdistinct : (desired.map (·.id)).Nodup) :
    (m.applyDesiredWorkstations desired true).Carries desired ∧
      m.ids ⊆ (m.applyDesiredWorkstations desired true).ids := by
  obtain ⟨hadopted, _⟩ := foldl_adopt_adopted hdistinct hnodup
  -- marking changes neither the ids nor the runtimes of the list
  have hids : (m.applyDesiredWorkstations desired true).ids =
      (desired.foldl adopt m.runtimes).map Runtime.workstationID := by
    refine (List.map_map ..).trans (List.map_congr_left fun r _ => ?_)
    rw [Function.comp_apply]
    split_ifs <;> rfl
  have hassigned : ∀ a ∈ (m.applyDesiredWorkstations desired true).assignments,
      ∃ r ∈ desired.foldl adopt m.runtimes, a.1 = r.workstationID ∧
        a.2 = if r.workstationID ∈ desired.map (·.id) then r.desiredPowerState
          else .value .deleted := by
    intro a ha
    obtain ⟨r', hr', rfl⟩ := List.mem_map.mp ha
    obtain ⟨r, hr, rfl⟩ := List.mem_map.mp hr'
    refine ⟨r, hr, ?_⟩
    split_ifs <;> exact ⟨rfl, rfl⟩
  refine ⟨⟨hdistinct, hids ▸ hadopted.nodup, rfl, fun a ha d hd hid => ?_, fun a ha hnot => ?_,
    fun d hd => ?_⟩, fun id hid => ?_⟩
  · obtain ⟨r, hr, hkey, hvalue⟩ := hassigned a ha
    have hlisted : r.workstationID ∈ desired.map (·.id) :=
      List.mem_map.mpr ⟨d, hd, hid.trans hkey⟩
    rw [hvalue, if_pos hlisted]
    exact hadopted.applied r hr d hd (hid.trans hkey)
  · obtain ⟨r, hr, hkey, hvalue⟩ := hassigned a ha
    rw [hvalue, if_neg (hkey ▸ hnot)]
  · obtain ⟨r, hr, hid⟩ := hadopted.listed d hd
    rw [hids, ← hid]
    exact List.mem_map_of_mem hr
  · obtain ⟨r, hr, rfl⟩ := List.mem_map.mp hid
    obtain ⟨r', hr', hid'⟩ := hadopted.kept r hr
    rw [hids, ← hid']
    exact List.mem_map_of_mem hr'

section Passes

variable (config : Config) {Env : Type} (answer : Env → Command → Reply × Env) {m : Manager}

/-- The result of one pass takes the place of its runtime without changing an id
or a desired state. -/
theorem Manager.assignments_put {r new : Runtime} (hnodup : m.ids.Nodup) (hr : r ∈ m.runtimes)
    (hnew : r.Follows new) : (m.put new).assignments = m.assignments := by
  refine Tables.map_update fun r' hr' hid => ?_
  have heq : r' = r := List.inj_on_of_nodup_map hnodup hr' hr (hid.trans hnew.workstationID)
  rw [heq, hnew.workstationID, hnew.desired]

/-- Whatever the host answers, the passes change no id and no desired state. -/
theorem Manager.assignments_passes (order : List String) (hnodup : m.ids.Nodup) (env : Env) :
    ((Manager.passes config order m).run answer env).1.assignments = m.assignments ∧
      ((Manager.passes config order m).run answer env).1.desiredIDs = m.desiredIDs := by
  induction order generalizing m env with
  | nil => exact ⟨rfl, rfl⟩
  | cons id rest ih =>
    unfold Manager.passes
    cases hfind : m.runtimes.find? (·.workstationID = id) with
    | none => exact ih hnodup env
    | some r =>
      have hfollows := (r.reconcile_issues config).run answer env
      have hput := assignments_put hnodup (List.mem_of_find?_eq_some hfind) hfollows
      have hnodup' : (m.put ((r.reconcile config).run answer env).1).ids.Nodup := by
        rwa [ids_eq, hput, ← ids_eq]
      simp only [Prog.run_bind]
      rw [(ih hnodup' _).1, (ih hnodup' _).2, hput]
      exact ⟨rfl, rfl⟩

/-- The manager carries its list through the passes. -/
theorem Manager.Carries.passes {desired : List DesiredWorkstation} (h : m.Carries desired)
    (order : List String) (env : Env) :
    ((Manager.passes config order m).run answer env).1.Carries desired := by
  obtain ⟨hassignments, hdesired⟩ :=
    assignments_passes config answer order h.nodup env
  have hids := congrArg (List.map Prod.fst) hassignments
  rw [← ids_eq, ← ids_eq] at hids
  exact ⟨h.distinct, hids ▸ h.nodup, hdesired.trans h.desiredIDs, hassignments ▸ h.applied,
    hassignments ▸ h.marked, hids ▸ h.listed⟩

end Passes

/-- Forgetting deleted runtimes loses none that the list names. -/
theorem Manager.Carries.forgetDeleted (h : m.Carries desired) :
    m.forgetDeleted.Carries desired := by
  have hsub : m.forgetDeleted.assignments ⊆ m.assignments :=
    List.map_subset _ (List.filter_subset_self _)
  refine ⟨h.distinct, h.nodup.sublist (List.filter_sublist.map _), h.desiredIDs,
    fun a ha => h.applied a (hsub ha), fun a ha => h.marked a (hsub ha), fun d hd => ?_⟩
  obtain ⟨r, hr, hid⟩ := List.mem_map.mp (h.listed d hd)
  refine List.mem_map.mpr ⟨r, List.mem_filter.mpr ⟨hr, ?_⟩, hid⟩
  have hdesired : r.workstationID ∈ m.desiredIDs := by
    rw [h.desiredIDs, hid]
    exact List.mem_map_of_mem hd
  simp [hdesired]

/-- The manager with the last authoritative list that it was given. -/
structure Tracking where
  manager : Manager
  adopted : List DesiredWorkstation

/-- A worker that has just started. -/
def Tracking.initial : Tracking := ⟨.empty, []⟩

/-- The answers of a host that are known beforehand. -/
def replayed (replies : List Reply) (_ : Command) : Reply × List Reply :=
  (replies.headD (.notLaunched "no reply"), replies.tail)

/-- The calls to the manager. -/
inductive Call
  | applyDesired (desired : List DesiredWorkstation) (authoritative : Bool)
  /-- A pass over the runtimes in the given order, with the given answers of the host. -/
  | reconcile (order : List String) (replies : List Reply)

/-- One call. The entries of a list have distinct ids, and a pass meets every
runtime once. -/
def Tracking.step (config : Config) (s : Tracking) : Call → Option Tracking
  | .applyDesired desired authoritative =>
    if (desired.map (·.id)).Nodup then
      some ⟨s.manager.applyDesiredWorkstations desired authoritative,
        if authoritative then desired else s.adopted⟩
    else none
  | .reconcile order replies =>
    if order.Perm s.manager.ids then
      some ⟨((Manager.reconcile config order s.manager).run replayed replies).1, s.adopted⟩
    else none

/-- All sequences of calls. -/
def trackingSystem (config : Config) : System Tracking Call :=
  .ofStep (· = .initial) (Tracking.step config)

/-- In every reachable state the manager carries the last authoritative list. -/
theorem carries_of_reachable (h : (trackingSystem config).Reachable s) :
    s.manager.Carries s.adopted := by
  refine System.ReachableUnder.invariant (P := fun s => s.manager.Carries s.adopted) ?_ ?_ h
  · rintro s rfl
    exact ⟨.nil, .nil, rfl, nofun, nofun, nofun⟩
  · intro s call t _ _ hnext hcarries
    cases call with
    | applyDesired desired authoritative =>
      obtain ⟨hdistinct, heq⟩ := Option.ite_none_right_eq_some.mp hnext
      cases heq
      cases authoritative with
      | false => exact hcarries
      | true => exact (Manager.carries_applyDesiredWorkstations hcarries.nodup hdistinct).1
    | reconcile order replies =>
      obtain ⟨_, heq⟩ := Option.ite_none_right_eq_some.mp hnext
      cases heq
      rw [Manager.reconcile, Prog.run_bind, Prog.run_pure]
      exact (hcarries.passes config replayed order replies).forgetDeleted

/-- A runtime that a call makes the manager forget was deleted by the pass of
that call, and the last authoritative list does not name it. -/
theorem forgotten_of_step {s t : Tracking} {call : Call} (h : (trackingSystem config).Reachable s)
    (hnext : (trackingSystem config).next s call t) {id : String} (hid : id ∈ s.manager.ids)
    (hgone : id ∉ t.manager.ids) :
    ∃ order replies, call = .reconcile order replies ∧ id ∉ s.adopted.map (·.id) ∧
      ∃ r ∈ ((Manager.passes config order s.manager).run replayed replies).1.runtimes,
        r.workstationID = id ∧ r.state = .deleted := by
  have hcarries := carries_of_reachable h
  cases call with
  | applyDesired desired authoritative =>
    obtain ⟨hdistinct, heq⟩ := Option.ite_none_right_eq_some.mp hnext
    cases heq
    cases authoritative with
    | false => exact absurd hid hgone
    | true =>
      exact absurd ((Manager.carries_applyDesiredWorkstations hcarries.nodup hdistinct).2 hid) hgone
  | reconcile order replies =>
    obtain ⟨_, heq⟩ := Option.ite_none_right_eq_some.mp hnext
    cases heq
    rw [Manager.reconcile, Prog.run_bind, Prog.run_pure] at hgone
    obtain ⟨hassignments, hdesired⟩ :=
      Manager.assignments_passes config replayed order hcarries.nodup replies
    rw [Manager.ids_eq, ← hassignments, ← Manager.ids_eq] at hid
    obtain ⟨r, hr, rfl⟩ := List.mem_map.mp hid
    have hdropped : ¬(r.workstationID ∈ s.manager.desiredIDs ∨ r.state ≠ .deleted) := by
      intro hkeep
      refine hgone (List.mem_map.mpr ⟨r, List.mem_filter.mpr ⟨hr, ?_⟩, rfl⟩)
      rw [hdesired]
      simpa using hkeep
    push Not at hdropped
    refine ⟨order, replies, rfl, ?_, r, hr, rfl, hdropped.2⟩
    rw [← hcarries.desiredIDs]
    exact hdropped.1

/-- The VM is running. -/
def Host.running (host : Host) (name : String) : Bool :=
  host.any fun vm => vm.name = name && vm.address.isSome

/-- The process failed and said so in words that contain the given text. -/
def Reply.FailsWith (reply : Reply) (text : String) : Prop :=
  match reply with
  | .exited status _ stderr =>
    status ≠ 0 ∧ text.toList.map Char.toLower <:+: stderr.toList.map Char.toLower
  | .notLaunched _ => False

/-- The answers of Tart when it behaves normally. Waiting and the local
configuration of a VM are not commands of Tart, and may fail. -/
def Command.Normal (c : Command) (host : Host) (reply : Reply) : Prop :=
  match c with
  | .get name => reply.Ok ↔ name ∈ host.names
  | .stop name => if host.running name then reply.Ok else reply.FailsWith "not running"
  | .clone _ _ | .list | .set _ _ _ | .start _ | .ip _ | .delete _ => reply.Ok
  | .readDiskSize _ | .updateLocalConfig _ _ | .beforeDeadline | .sleep => True

/-- A command on a host whose Tart behaves normally, whatever happens to the host. -/
def NormalStep (before : Host) (c : Command) (reply : Reply) (_ : Host) : Prop :=
  c.Normal before reply

/-- An environment in which Tart behaves normally. -/
def NormalTart {Env : Type} (host : Env → Host) (answer : Env → Command → Reply × Env) : Prop :=
  ∀ env c, NormalStep (host env) c (answer env c).1 (host (answer env c).2)

/-- A test for existence ends with either answer. -/
theorem existsVM_normal {host : Host} {post : Bool → Host → Prop}
    (h : ∀ found host, post found host) :
    (existsVM name).wp NormalStep (fun _ _ => True) post host := by
  refine Prog.wp_bind.mpr (exec_wp trivial fun reply after _ => ?_)
  cases reply.result (.get name) with
  | ok output => exact h true after
  | error error => exact h false after

/-- A stop is no error if it succeeds or finds that the VM is not running. -/
theorem stopIfRunning_wp {State : Type} {step : State → Command → Reply → State → Prop}
    {post : Except TartError Unit → State → Prop} {s : State}
    (h : ∀ reply t, step s (.stop name) reply t →
      (reply.Ok ∨ reply.FailsWith "not running") ∧ post (.ok ()) t) :
    (stopIfRunning name).run.wp step (fun _ _ => True) post s := by
  refine Prog.wp_bind.mpr (exec_wp trivial fun reply after hstep => ?_)
  obtain ⟨hreply, hpost⟩ := h reply after hstep
  cases hresult : reply.result (.stop name) with
  | ok output => exact hpost
  | error error =>
    have hfails := hreply.resolve_left (Reply.result_error hresult)
    have houtput : error.outputContains "not running" = true := by
      cases reply with
      | notLaunched text => exact hfails.elim
      | exited status stdout stderr =>
        rw [Reply.result, if_neg hfails.1] at hresult
        cases hresult
        exact decide_eq_true hfails.2
    simp only [houtput, Bool.or_true, if_true]
    exact hpost

/-- A stop is no error when Tart behaves normally. -/
theorem stopIfRunning_normal {host : Host} {post : Except TartError Unit → Host → Prop}
    (h : ∀ host, post (.ok ()) host) :
    (stopIfRunning name).run.wp NormalStep (fun _ _ => True) post host := by
  refine stopIfRunning_wp fun reply after hstep => ⟨?_, h after⟩
  simp only [NormalStep, Command.Normal] at hstep
  split_ifs at hstep
  · exact .inl hstep
  · exact .inr hstep

/-- A deletion does not throw when Tart behaves normally. -/
theorem Runtime.deleteVM_normal (r : Runtime) (host : Host) :
    r.deleteVM.run.wp NormalStep (fun _ _ => True) (fun result _ => result = .ok ()) host := by
  refine bind_wp (lift_wp (existsVM_normal fun found host => ?_))
  cases found with
  | false => exact rfl
  | true =>
    refine bind_wp (stopIfRunning_normal fun host => ?_)
    refine bind_wp (lift_wp (existsVM_normal fun found host => ?_))
    cases found with
    | false => exact rfl
    | true =>
      refine bind_wp (exec_wp trivial fun reply after hstep => ?_)
      cases hresult : reply.result (.delete r.vmName) with
      | ok output => exact rfl
      | error error => exact absurd hstep (Reply.result_error hresult)

/-- A runtime that is to be deleted is deleted in one pass when Tart behaves normally. -/
theorem Runtime.reconcile_normal (hnormal : NormalTart host answer)
    (hdelete : r.desiredPowerState = .value .deleted) (env : Env) :
    ((r.reconcile config).run answer env).1.state = .deleted := by
  have hwp : (r.reconcile config).wp NormalStep (fun _ _ => True)
      (fun new _ => new.state = .deleted) (host env) := by
    rw [reconcile, hdelete]
    refine Prog.wp_bind.mpr (Prog.wp_mono (deleteVM_normal (r.setState .deleting none) _) ?_)
    rintro _ _ rfl
    rfl
  exact Prog.post_run host hnormal hwp

/-- When Tart behaves normally, passes delete every runtime of the order that is
to be deleted. -/
theorem Manager.deleted_of_passes (config : Config) (order : List String)
    (hnormal : NormalTart host answer)
    (h : ∀ r ∈ m.runtimes, r.desiredPowerState = .value .deleted →
      r.state = .deleted ∨ r.workstationID ∈ order) (env : Env) :
    ∀ r ∈ ((Manager.passes config order m).run answer env).1.runtimes,
      r.desiredPowerState = .value .deleted → r.state = .deleted := by
  induction order generalizing m env with
  | nil =>
    intro r hr hdelete
    exact (h r hr hdelete).resolve_right List.not_mem_nil
  | cons id rest ih =>
    unfold Manager.passes
    cases hfind : m.runtimes.find? (·.workstationID = id) with
    | none =>
      refine ih (fun r hr hdelete => ?_) env
      have hid : r.workstationID ≠ id := by simpa using List.find?_eq_none.mp hfind r hr
      simpa [hid] using h r hr hdelete
    | some r =>
      have hid : r.workstationID = id := by simpa using List.find?_some hfind
      have hfollows := (r.reconcile_issues config).run answer env
      simp only [Prog.run_bind]
      refine ih (fun r' hr' hdelete => ?_) _
      obtain ⟨old, hold, rfl⟩ := Tables.mem_update.mp hr'
      split_ifs with hkey
      · rw [if_pos hkey, hfollows.desired] at hdelete
        exact .inl (r.reconcile_normal hnormal hdelete env)
      · rw [if_neg hkey] at hdelete
        have hne : old.workstationID ≠ id := fun heq =>
          hkey (heq.trans (hid.symm.trans hfollows.workstationID.symm))
        simpa [hne] using h old hold hdelete

/-- A reconcile in which Tart behaves normally leaves exactly the workstations of
the list that the manager carries. -/
theorem Manager.Carries.reconcile_normal (hnormal : NormalTart host answer) (h : m.Carries desired)
    {order : List String} (horder : order.Perm m.ids) (env : Env) :
    ((Manager.reconcile config order m).run answer env).1.ids.Perm (desired.map (·.id)) := by
  have hpassed := h.passes config answer order env
  have hdeleted := deleted_of_passes config order (m := m) hnormal
    (fun r hr _ => .inr (horder.mem_iff.mpr (List.mem_map_of_mem hr))) env
  have hfinal := hpassed.forgetDeleted
  rw [Manager.reconcile, Prog.run_bind, Prog.run_pure]
  refine (List.perm_ext_iff_of_nodup hfinal.nodup h.distinct).mpr fun id => ⟨fun hid => ?_, ?_⟩
  · obtain ⟨r, hr, rfl⟩ := List.mem_map.mp hid
    obtain ⟨hmem, hkept⟩ := List.mem_filter.mp hr
    by_contra hnot
    -- a runtime that the list does not name is marked, and so was deleted
    have hmarked := hpassed.marked _ (List.mem_map_of_mem hmem) hnot
    rw [hpassed.desiredIDs] at hkept
    simp [hnot, hdeleted r hmem hmarked] at hkept
  · intro hid
    obtain ⟨d, hd, rfl⟩ := List.mem_map.mp hid
    exact hfinal.listed d hd

/-- In every reachable state a list that is not authoritative changes nothing; an
authoritative one gives its workstations their desired states and marks every
other runtime; a call forgets a runtime only when it is a reconcile whose pass
deleted the runtime and the last authoritative list does not name it; and one
reconcile after an authoritative list leaves exactly the ids of the list when
Tart behaves normally. -/
theorem Manager.adopts_exactly (config : Config) {s : Tracking}
    (h : (trackingSystem config).Reachable s) :
    (∀ desired, s.manager.applyDesiredWorkstations desired false = s.manager) ∧
    (∀ desired : List DesiredWorkstation, (desired.map (·.id)).Nodup →
      let m := s.manager.applyDesiredWorkstations desired true
      (∀ d ∈ desired, d.id ∈ m.ids) ∧
      ∀ r ∈ m.runtimes,
        (∀ d ∈ desired, d.id = r.workstationID → r.desiredPowerState = d.desiredPowerState) ∧
        (r.workstationID ∉ desired.map (·.id) → r.desiredPowerState = .value .deleted)) ∧
    (∀ call t, (trackingSystem config).next s call t → ∀ id ∈ s.manager.ids,
      id ∉ t.manager.ids → ∃ order replies, call = .reconcile order replies ∧
        id ∉ s.adopted.map (·.id) ∧
        ∃ r ∈ ((Manager.passes config order s.manager).run replayed replies).1.runtimes,
          r.workstationID = id ∧ r.state = .deleted) ∧
    (∀ desired : List DesiredWorkstation, (desired.map (·.id)).Nodup →
      ∀ (Env : Type) (host : Env → Host) (answer : Env → Command → Reply × Env) (env : Env),
        NormalTart host answer → ∀ order : List String,
        order.Perm (s.manager.applyDesiredWorkstations desired true).ids →
          (((Manager.reconcile config order
            (s.manager.applyDesiredWorkstations desired true)).run answer env).1.ids.Perm
              (desired.map (·.id)))) := by
  have hcarries := carries_of_reachable h
  refine ⟨fun _ => rfl, fun desired hdistinct => ?_, fun call t hnext id hid hgone => ?_, ?_⟩
  · have happlied := (carries_applyDesiredWorkstations hcarries.nodup hdistinct).1
    refine ⟨happlied.listed, fun r hr => ⟨?_, ?_⟩⟩
    · exact happlied.applied _ (List.mem_map_of_mem hr)
    · exact happlied.marked _ (List.mem_map_of_mem hr)
  · exact forgotten_of_step h hnext hid hgone
  · intro desired hdistinct Env host answer env hnormal order horder
    have happlied := (carries_applyDesiredWorkstations hcarries.nodup hdistinct).1
    exact happlied.reconcile_normal hnormal horder env

/-- A host that does what it is asked to do. -/
def obedientTart (host : Host) : Command → Reply × Host
  | .get name => (if name ∈ host.names then .exited 0 "" "" else .exited 1 "" "no such VM", host)
  | .clone _ name => (.exited 0 "" "", host ++ [⟨name, none⟩])
  | .start name => (.exited 0 "" "", host.setAddress name (some "10.0.0.2"))
  | .ip _ => (.exited 0 "10.0.0.2" "", host)
  | .stop name =>
    if host.running name then (.exited 0 "" "", host.setAddress name none)
    else (.exited 2 "" "VM is not running", host)
  | .delete name => (.exited 0 "" "", Tables.delete VM.name name host)
  | .readDiskSize _ | .list | .set _ _ _ | .updateLocalConfig _ _ | .beforeDeadline | .sleep =>
    (.exited 0 "" "", host)

/-- Such a host behaves normally. -/
theorem obedientTart_normal : NormalTart id obedientTart := by
  intro host c
  cases c with
  | get name =>
    simp only [NormalStep, Command.Normal, obedientTart, id]
    split_ifs with hname <;> simp [Reply.Ok, hname]
  | stop name =>
    simp only [NormalStep, Command.Normal, obedientTart, id]
    split_ifs with hrunning
    · exact rfl
    · exact ⟨by decide, by decide⟩
  | clone | list | set | start | ip | delete => exact rfl
  | readDiskSize | updateLocalConfig | beforeDeadline | sleep => trivial

/-- A workstation whose first pass failed is replaced by another one. -/
theorem adopts_exactly_replaced : ∃ (config : Config) (s : Tracking),
    (trackingSystem config).Reachable s ∧ s.manager.ids = ["id-1"] ∧
    ∀ order : List String,
      order.Perm (s.manager.applyDesiredWorkstations
        [⟨"id-2", "ws-2", 1, .value .running⟩] true).ids →
      ((Manager.reconcile config order (s.manager.applyDesiredWorkstations
        [⟨"id-2", "ws-2", 1, .value .running⟩] true)).run obedientTart
          [⟨"ws-1", none⟩]).1.ids.Perm ["id-2"] := by
  have hrun : ∃ s, runEvents (Tracking.step ⟨"base", 2, 8, 512⟩) .initial
      [.applyDesired [⟨"id-1", "ws-1", 0, .value .running⟩] true, .reconcile ["id-1"] []] =
        some s ∧ s.manager.ids = ["id-1"] := ⟨_, rfl, rfl⟩
  obtain ⟨s, hs, hids⟩ := hrun
  have hreach : (trackingSystem ⟨"base", 2, 8, 512⟩).Reachable s := reachable_of_runEvents rfl hs
  refine ⟨_, s, hreach, hids, fun order horder => ?_⟩
  exact (Manager.adopts_exactly _ hreach).2.2.2 [⟨"id-2", "ws-2", 1, .value .running⟩] (by simp)
    Host id obedientTart _ obedientTart_normal order horder

end MiniControl.WorkerCore
