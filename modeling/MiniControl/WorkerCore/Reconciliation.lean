import MiniControl.WorkerCore.Adoption

/-!
# One pass on a normal host

The VM of a runtime is absent, off or on, and a pass in which Tart behaves
normally moves it from one of these to another. Such a pass brings the VM to the
desired state and reports it, with one exception: a runtime that is to run, and
that still holds the process of an earlier start while its VM is not running,
takes the VM for one that is booting and leaves it off.
-/

namespace MiniControl.WorkerCore

open Transition Fleet

/-- What is on the host under the name of a VM. -/
inductive Machine
  | absent
  | off
  | on (address : String)
  deriving DecidableEq

namespace Machine

/-- The address of a running VM. -/
def address : Machine → Option String
  | absent | off => none
  | on address => some address

/-- The VM runs. -/
def Running (m : Machine) : Prop := m.address.isSome

instance (m : Machine) : Decidable m.Running :=
  inferInstanceAs (Decidable (m.address.isSome = true))

/-- The VM after a clone, where there was none. -/
def cloned : Machine → Machine
  | absent => off
  | m => m

/-- The VM after a stop. -/
def stopped : Machine → Machine
  | on _ => off
  | m => m

end Machine

/-- The VM of a name on the host. -/
def Host.machine (host : Host) (name : String) : Machine :=
  match host.find? (·.name = name) with
  | none => .absent
  | some ⟨_, none⟩ => .off
  | some ⟨_, some address⟩ => .on address

/-- The command is about the VM of this name, or about no VM at all. -/
def Command.concerns (name : String) : Command → Bool
  | .get n | .clone _ n | .readDiskSize n | .set n _ _ | .updateLocalConfig n _ | .start n | .ip n
  | .stop n | .delete n => n = name
  | .list | .beforeDeadline | .sleep => true

/-- What a command answers and does when Tart behaves normally. Reading the local
configuration and sleeping are not commands of Tart, and may fail; a wait does
not end before a VM that runs was asked for its address. -/
def Command.Settles (before : Machine) (c : Command) (reply : Reply) (after : Machine) : Prop :=
  match c with
  | .get _ => (reply.Ok ↔ before ≠ .absent) ∧ after = before
  | .clone _ _ => reply.Ok ∧ after = before.cloned
  | .list | .set _ _ _ | .updateLocalConfig _ _ => reply.Ok ∧ after = before
  | .start _ => reply.Ok ∧ (before = .off → after.Running)
  | .ip _ => foundAddress (reply.result c) = before.address ∧ after = before
  | .stop _ =>
    (if before.Running then reply.Ok else reply.FailsWith "not running") ∧ after = before.stopped
  | .delete _ => reply.Ok ∧ after = .absent
  | .beforeDeadline => (before.Running → reply.Ok) ∧ after = before
  | .readDiskSize _ | .sleep => after = before

/-- A command on a host whose Tart behaves normally, seen from one VM. -/
def SettledStep (name : String) (before : Machine) (c : Command) (reply : Reply)
    (after : Machine) : Prop :=
  if c.concerns name then c.Settles before reply after else after = before

/-- An environment in which Tart behaves normally towards one VM. -/
def SettledTart {Env : Type} (name : String) (host : Env → Host)
    (answer : Env → Command → Reply × Env) : Prop :=
  ∀ env c, SettledStep name ((host env).machine name) c (answer env c).1
    ((host (answer env c).2).machine name)

/-- The VM is in the desired state, and the runtime reports it so. -/
def Reached (desired : DesiredPowerState) (machine : Machine) (info : VMInfo) : Prop :=
  match desired with
  | .running => info.state = .running ∧ info.ipAddress.isSome ∧ info.ipAddress = machine.address
  | .stopped => info.state = .stopped ∧ info.ipAddress = none ∧ ¬machine.Running
  | .deleted => info.state = .deleted ∧ machine = .absent

/-- The runtime takes a VM that is not running for one that it has just started. -/
def Runtime.Misled (r : Runtime) (machine : Machine) : Prop :=
  r.desiredPowerState = .value .running ∧ r.vmProcess = true ∧ ¬machine.Running

section Commands

variable {name : String} {m : Machine} {c : Command} {post : Except TartError Unit → Machine → Prop}

/-- A command about the VM. -/
theorem SettledStep.settles {reply : Reply} {after : Machine} (h : SettledStep name m c reply after)
    (hc : c.concerns name = true) :
    c.Settles m reply after := by
  rwa [SettledStep, if_pos hc] at h

/-- A command that succeeds. -/
theorem exec_settled {post : Except TartError String → Machine → Prop} {Q : Machine → Prop}
    (hc : ∀ reply after, SettledStep name m c reply after → reply.Ok ∧ Q after)
    (h : ∀ output after, Q after → post (.ok output) after) :
    (exec c).run.wp (SettledStep name) (fun _ _ => True) post m := by
  refine exec_wp trivial fun reply after hstep => ?_
  obtain ⟨hok, hafter⟩ := hc reply after hstep
  cases hresult : reply.result c with
  | ok output => exact h output after hafter
  | error error => exact absurd hok (Reply.result_error hresult)

/-- A test for existence tells whether there is a VM. -/
theorem existsVM_settled {post : Bool → Machine → Prop} (h : post (decide (m ≠ .absent)) m) :
    (existsVM name).wp (SettledStep name) (fun _ _ => True) post m := by
  refine Prog.wp_bind.mpr (exec_wp trivial fun reply after hstep => ?_)
  obtain ⟨hiff, rfl⟩ := hstep.settles (by simp [Command.concerns])
  cases hresult : reply.result (.get name) with
  | ok output => rwa [decide_eq_true (hiff.mp (Reply.result_ok hresult))] at h
  | error error => rwa [decide_eq_false (mt hiff.mpr (Reply.result_error hresult))] at h

/-- The size of a disk is found in the local configuration or in the list. -/
theorem currentDiskSizeGiB_settled {post : Except TartError (Option ℤ) → Machine → Prop}
    (h : ∀ size, post (.ok size) m) :
    (currentDiskSizeGiB name).run.wp (SettledStep name) (fun _ _ => True) post m := by
  refine bind_wp (attempt_wp (exec_wp trivial fun reply after hstep => ?_))
  obtain rfl : after = m := hstep.settles (by simp [Command.concerns])
  dsimp only
  cases (reply.result (.readDiskSize name)).toOption.bind parseInt with
  | some size => exact h (some size)
  | none =>
    have hlist : ∀ reply t, SettledStep name after .list reply t → reply.Ok ∧ t = after :=
      fun _ _ hstep => hstep.settles rfl
    refine bind_wp (exec_settled hlist ?_)
    rintro output _ rfl
    exact h _

/-- `configure` succeeds and leaves the VM as it is. -/
theorem configure_settled {config : Config} (h : post (.ok ()) m) :
    (configure config name).run.wp (SettledStep name) (fun _ _ => True) post m := by
  refine bind_wp (currentDiskSizeGiB_settled fun size => ?_)
  have hset : ∀ cpu disk reply t, SettledStep name m (.set name cpu disk) reply t →
      reply.Ok ∧ t = m := fun _ _ _ _ hstep => hstep.settles (by simp [Command.concerns])
  have hupdate : ∀ cpu reply t, SettledStep name m (.updateLocalConfig name cpu) reply t →
      reply.Ok ∧ t = m := fun _ _ _ hstep => hstep.settles (by simp [Command.concerns])
  refine bind_wp (exec_settled (hset _ _) ?_)
  rintro _ _ rfl
  refine bind_wp (exec_settled (hupdate _) ?_)
  rintro _ _ rfl
  exact h

/-- The wait for an address finds the address of a running VM at once, and ends
with an error otherwise. -/
theorem ipLoop_settled {post : Except TartError String → Machine → Prop}
    (h : ∀ result : Except TartError String, result.toOption = m.address →
      foundAddress result = m.address → post result m) :
    ∀ rounds, (m.Running → 0 < rounds) →
      (ipLoop name rounds).run.wp (SettledStep name) (fun _ _ => True) post m := by
  have hidle : ∀ error, ¬m.Running → post (.error error) m := by
    intro error hidle
    have hnone : m.address = none := by simpa [Machine.Running] using hidle
    exact h _ hnone.symm hnone.symm
  intro rounds
  induction rounds with
  | zero => exact fun hrounds => hidle _ fun hrunning => absurd (hrounds hrunning) (by omega)
  | succ rounds ih =>
    intro _
    refine bind_wp (attempt_wp (exec_wp trivial fun reply after hstep => ?_))
    obtain ⟨hdeadline, rfl⟩ := hstep.settles rfl
    dsimp only
    cases hresult : reply.result .beforeDeadline with
    | error error => exact hidle _ fun hrunning => Reply.result_error hresult (hdeadline hrunning)
    | ok output =>
      refine bind_wp (attempt_wp (exec_wp trivial fun reply t hstep => ?_))
      obtain ⟨hfound, rfl⟩ := hstep.settles (by simp [Command.concerns])
      dsimp only
      cases hresult : foundAddress (reply.result (.ip name)) with
      | some address =>
        rw [hresult] at hfound
        exact h (.ok address) hfound (by rw [← hfound]; exact foundAddress_ok hresult)
      | none =>
        have hnot : ¬t.Running := by simp [Machine.Running, ← hfound, hresult]
        refine bind_wp (exec_wp trivial fun reply u hstep => ?_)
        obtain rfl : u = t := hstep.settles rfl
        cases reply.result .sleep with
        | error error => exact hidle _ hnot
        | ok output => exact ih fun hrunning => absurd hrunning hnot

/-- A VM that is off runs after its start. -/
theorem start_settled (h : ∀ after : Machine, after.Running → post (.ok ()) after) :
    (start name).run.wp (SettledStep name) (fun _ _ => True) post .off := by
  refine Prog.wp_bind.mpr ⟨trivial, fun reply after hstep => ?_⟩
  obtain ⟨hok, hrunning⟩ := hstep.settles (by simp [Command.concerns])
  cases reply with
  | exited status stdout stderr => exact h after (hrunning rfl)
  | notLaunched text => exact hok.elim

/-- A VM does not run after a stop. -/
theorem stopIfRunning_settled (h : post (.ok ()) m.stopped) :
    (stopIfRunning name).run.wp (SettledStep name) (fun _ _ => True) post m := by
  refine stopIfRunning_wp fun reply after hstep => ?_
  obtain ⟨hreply, rfl⟩ := hstep.settles (by simp [Command.concerns])
  split_ifs at hreply
  · exact ⟨.inl hreply, h⟩
  · exact ⟨.inr hreply, h⟩

end Commands

namespace Runtime

variable {config : Config} {r : Runtime} {m : Machine}
  {post : Except TartError Unit → Machine → Prop}

/-- A VM that is missing is cloned. -/
theorem cloneIfMissing_settled (h : post (.ok ()) m.cloned) :
    (r.cloneIfMissing config).run.wp (SettledStep r.vmName) (fun _ _ => True) post m := by
  refine bind_wp (lift_wp (existsVM_settled ?_))
  cases m with
  | absent =>
    have hclone : ∀ reply after,
        SettledStep r.vmName .absent (.clone config.baseImage r.vmName) reply after →
          reply.Ok ∧ after = .off := fun _ _ hstep => hstep.settles (by simp [Command.concerns])
    refine bind_wp (exec_settled hclone ?_)
    rintro _ _ rfl
    exact configure_settled h
  | off => exact h
  | on address => exact h

/-- The current address of a VM. -/
theorem currentIPAddress_settled {post : Except TartError (Option String) → Machine → Prop}
    (h : post (.ok m.address) m) :
    (r.currentIPAddress 5).run.wp (SettledStep r.vmName) (fun _ _ => True) post m := by
  refine bind_wp (lift_wp (existsVM_settled ?_))
  have hask : (do return foundAddress (← attempt (ip r.vmName 5)) :
      TartM (Option String)).run.wp (SettledStep r.vmName) (fun _ _ => True) post m := by
    refine bind_wp (attempt_wp (ipLoop_settled (fun result _ hfound => ?_) _ fun _ => by decide))
    rw [← hfound] at h
    exact h
  cases m with
  | absent => exact h
  | off => exact hask
  | on address => exact hask

/-- A VM that is off is launched and found running. -/
theorem launch_settled {post : Except TartError Runtime → Machine → Prop}
    (h : ∀ address, post (.ok ({ r with vmProcess := true, ipAddress := some address }.setState
      .running none)) (.on address)) :
    (r.launch config).run.wp (SettledStep r.vmName) (fun _ _ => True) post .off := by
  refine bind_wp (configure_settled (bind_wp (start_settled fun after hrunning => ?_)))
  refine bind_wp (attempt_wp (ipLoop_settled (fun result hresult _ => ?_) _ fun _ => by decide))
  cases after with
  | absent => cases hrunning
  | off => cases hrunning
  | on address =>
    cases result with
    | error error => cases hresult
    | ok output =>
      cases hresult
      exact h address

/-- The start of a VM that runs, of one whose process is held, and of any other. -/
theorem startVM_settled {post : Except TartError Runtime → Machine → Prop}
    (hrunning : ∀ address, m = .on address →
      post (.ok ({ r with ipAddress := some address }.setState .running none)) (.on address))
    (hheld : r.vmProcess = true → ¬m.Running → post (.ok r) .off)
    (hlaunched : r.vmProcess = false → ¬m.Running → ∀ address,
      post (.ok ({ r with vmProcess := true, ipAddress := some address }.setState .running none))
        (.on address)) :
    (r.startVM config).run.wp (SettledStep r.vmName) (fun _ _ => True) post m := by
  refine bind_wp (cloneIfMissing_settled (bind_wp (currentIPAddress_settled ?_)))
  have hoff : ¬m.Running → (if r.vmProcess then return r else r.launch config :
      TartM Runtime).run.wp (SettledStep r.vmName) (fun _ _ => True) post .off := by
    intro hidle
    cases hprocess : r.vmProcess with
    | true => exact hheld hprocess hidle
    | false => exact launch_settled (hlaunched hprocess hidle)
  cases m with
  | absent => exact hoff nofun
  | off => exact hoff nofun
  | on address => exact hrunning address rfl

/-- The VM does not run after `stopVM`. -/
theorem stopVM_settled (h : post (.ok ()) m.stopped) :
    r.stopVM.run.wp (SettledStep r.vmName) (fun _ _ => True) post m := by
  refine bind_wp (lift_wp (existsVM_settled ?_))
  cases m with
  | absent => exact h
  | off => exact stopIfRunning_settled h
  | on address => exact stopIfRunning_settled h

/-- The VM is gone after `deleteVM`. -/
theorem deleteVM_settled (h : post (.ok ()) .absent) :
    r.deleteVM.run.wp (SettledStep r.vmName) (fun _ _ => True) post m := by
  refine bind_wp (lift_wp (existsVM_settled ?_))
  have hdelete : ∀ m reply after, SettledStep r.vmName m (.delete r.vmName) reply after →
      reply.Ok ∧ after = .absent := fun _ _ _ hstep => hstep.settles (by simp [Command.concerns])
  have hfound : m.stopped = .off → (do
      stopIfRunning r.vmName
      deleteIfExists r.vmName : TartM Unit).run.wp (SettledStep r.vmName) (fun _ _ => True)
        post m := by
    intro hstopped
    refine bind_wp (stopIfRunning_settled (bind_wp (lift_wp (existsVM_settled ?_))))
    rw [hstopped]
    refine bind_wp (exec_settled (hdelete _) ?_)
    rintro _ _ rfl
    exact h
  cases m with
  | absent => exact h
  | off => exact hfound rfl
  | on address => exact hfound rfl

/-- A pass in which Tart behaves normally reaches the desired state, unless the
runtime is misled by a process that it holds. -/
theorem reconcile_settled {d : DesiredPowerState} (hd : r.desiredPowerState = .value d) :
    (r.reconcile config).wp (SettledStep r.vmName) (fun _ _ => True)
      (fun new after => Reached d after new.info ↔ ¬r.Misled m) m := by
  rw [reconcile, hd]
  cases d with
  | running =>
    refine Prog.wp_bind.mpr (startVM_settled (r := r.setState .starting none) ?_ ?_ ?_)
    · rintro address rfl
      exact iff_of_true ⟨rfl, rfl, rfl⟩ fun hmisled => hmisled.2.2 rfl
    · intro hheld hidle
      refine iff_of_false (fun hreached => ?_) fun hnot => hnot ⟨hd, hheld, hidle⟩
      cases hreached.1
    · intro hheld _ address
      refine iff_of_true ⟨rfl, rfl, rfl⟩ fun hmisled => ?_
      cases hmisled.2.1.symm.trans hheld
  | stopped =>
    refine Prog.wp_bind.mpr (stopVM_settled (r := r.setState .stopping none) ?_)
    refine iff_of_true ⟨rfl, rfl, ?_⟩ fun hmisled => ?_
    · cases m <;> simp [Machine.Running, Machine.stopped, Machine.address]
    · cases hd.symm.trans hmisled.1
  | deleted =>
    refine Prog.wp_bind.mpr (deleteVM_settled (r := r.setState .deleting none) ?_)
    refine iff_of_true ⟨rfl, rfl⟩ fun hmisled => ?_
    cases hd.symm.trans hmisled.1

end Runtime

end MiniControl.WorkerCore
