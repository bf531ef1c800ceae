import MiniControl.WorkerCore.Reconciliation

/-!
# A pass over a settled VM

Passes are repeated every few seconds, so that most of them find the VM as it is
desired. Such a pass reports the desired state again, and none of its commands
changes the VM, not even for a moment.
-/

namespace MiniControl.WorkerCore

open Transition Fleet

/-- The VM is as it is desired. -/
def AtRest : DesiredPowerState → Machine → Prop
  | .running, m => m.Running
  | .stopped, m => ¬m.Running
  | .deleted, m => m = .absent

/-- A normal command leaves the VM as it is. -/
def Keeps (name : String) (m : Machine) (c : Command) : Prop :=
  ∀ reply after, SettledStep name m c reply after → after = m

/-- A VM that has reached the desired state is at rest. -/
theorem Reached.atRest {d : DesiredPowerState} {m : Machine} {info : VMInfo}
    (h : Reached d m info) : AtRest d m := by
  cases d with
  | running =>
    obtain ⟨_, hsome, haddress⟩ := h
    rw [haddress] at hsome
    exact hsome
  | stopped => exact h.2.2
  | deleted => exact h.2

section Commands

variable {name : String} {m : Machine}

/-- Asking for the VM changes nothing, and neither do an address and the clock. -/
theorem keeps_of_query {c : Command} (hc : c = .get name ∨ c = .ip name ∨ c = .beforeDeadline) :
    Keeps name m c := by
  rintro reply after hstep
  rcases hc with rfl | rfl | rfl
  · exact (hstep.settles (by simp [Command.concerns])).2
  · exact (hstep.settles (by simp [Command.concerns])).2
  · exact (hstep.settles rfl).2

/-- A process that fails with a text throws an error with it. -/
theorem Reply.FailsWith.result_error {reply : Reply} {text : String} (h : reply.FailsWith text)
    (c : Command) : ∃ error, reply.result c = .error error ∧ error.outputContains text = true := by
  cases reply with
  | notLaunched output => exact h.elim
  | exited status stdout stderr =>
    refine ⟨.commandFailed c.args status stderr, ?_, decide_eq_true h.2⟩
    rw [Reply.result, if_neg h.1]

/-- A test for existence. -/
theorem existsVM_steady {post : Bool → Machine → Prop} (h : post (decide (m ≠ .absent)) m) :
    (existsVM name).wp (SettledStep name) (Keeps name) post m := by
  refine Prog.wp_bind.mpr (exec_wp (keeps_of_query (.inl rfl)) fun reply after hstep => ?_)
  obtain ⟨hiff, rfl⟩ := hstep.settles (by simp [Command.concerns])
  cases hresult : reply.result (.get name) with
  | ok output => rwa [decide_eq_true (hiff.mp (Reply.result_ok hresult))] at h
  | error error => rwa [decide_eq_false (mt hiff.mpr (Reply.result_error hresult))] at h

/-- The address of a VM that runs is found in the first round. -/
theorem ipLoop_steady {address : String} {post : Except TartError String → Machine → Prop}
    (h : foundAddress (.ok address) = some address → post (.ok address) (.on address))
    (rounds : ℕ) :
    (ipLoop name (rounds + 1)).run.wp (SettledStep name) (Keeps name) post (.on address) := by
  have hkeeps : Keeps name (.on address) .beforeDeadline := keeps_of_query (.inr (.inr rfl))
  refine bind_wp (attempt_wp (exec_wp hkeeps fun reply after hstep => ?_))
  obtain ⟨hdeadline, rfl⟩ := hstep.settles rfl
  cases hresult : reply.result .beforeDeadline with
  | error error => exact absurd (hdeadline rfl) (Reply.result_error hresult)
  | ok output =>
    refine bind_wp (attempt_wp (exec_wp (keeps_of_query (.inr (.inl rfl)))
      fun reply after hstep => ?_))
    obtain ⟨hfound, rfl⟩ := hstep.settles (by simp [Command.concerns])
    dsimp only
    rw [hfound]
    exact h (foundAddress_ok hfound)

end Commands

namespace Runtime

variable {config : Config} {r : Runtime} {m : Machine}

/-- The start of a VM that runs only looks for its address. -/
theorem startVM_steady {address : String} {post : Except TartError Runtime → Machine → Prop}
    (h : post (.ok ({ r with ipAddress := some address }.setState .running none)) (.on address)) :
    (r.startVM config).run.wp (SettledStep r.vmName) (Keeps r.vmName) post (.on address) := by
  refine bind_wp (bind_wp (lift_wp (existsVM_steady ?_)))
  refine bind_wp (bind_wp (lift_wp (existsVM_steady ?_)))
  refine bind_wp (attempt_wp (ipLoop_steady (fun hfound => ?_) 2))
  simp only [hfound]
  exact h

/-- The stop of a VM that does not run. -/
theorem stopVM_steady {post : Except TartError Unit → Machine → Prop} (hm : ¬m.Running)
    (h : post (.ok ()) m) : r.stopVM.run.wp (SettledStep r.vmName) (Keeps r.vmName) post m := by
  refine bind_wp (lift_wp (existsVM_steady ?_))
  cases m with
  | absent => exact h
  | on address => exact absurd rfl hm
  | off =>
    have hstop : ∀ reply after, SettledStep r.vmName .off (.stop r.vmName) reply after →
        reply.FailsWith "not running" ∧ after = .off := fun _ _ hstep =>
      hstep.settles (by simp [Command.concerns])
    have hkeeps : Keeps r.vmName .off (.stop r.vmName) := fun _ _ hstep => (hstop _ _ hstep).2
    refine Prog.wp_bind.mpr (exec_wp hkeeps fun reply after hstep => ?_)
    obtain ⟨hfails, rfl⟩ := hstop reply after hstep
    obtain ⟨error, herror, houtput⟩ := hfails.result_error (.stop r.vmName)
    simp only [herror, houtput, Bool.or_true, if_true]
    exact h

/-- A pass over a VM at rest reports the desired state, and no command of it changes the
VM. -/
theorem reconcile_steady {d : DesiredPowerState} (hd : r.desiredPowerState = .value d)
    (hrest : AtRest d m) :
    (r.reconcile config).wp (SettledStep r.vmName) (Keeps r.vmName)
      (fun new after => Reached d after new.info) m := by
  rw [reconcile, hd]
  cases d with
  | running =>
    cases m with
    | absent => cases hrest
    | off => cases hrest
    | on address =>
      refine Prog.wp_bind.mpr (startVM_steady (r := r.setState .starting none) ?_)
      exact ⟨rfl, rfl, rfl⟩
  | stopped =>
    refine Prog.wp_bind.mpr (stopVM_steady (r := r.setState .stopping none) hrest ?_)
    exact ⟨rfl, rfl, hrest⟩
  | deleted =>
    obtain rfl : m = .absent := hrest
    refine Prog.wp_bind.mpr (bind_wp (lift_wp (existsVM_steady ?_)))
    exact ⟨rfl, rfl⟩

end Runtime

section Frame

variable {host host' : Host} {name other : String}

/-- What is on the host under a name depends on the VM found by it. -/
theorem Host.machine_congr (h : host'.find? (·.name = name) = host.find? (·.name = name)) :
    host'.machine name = host.machine name := by
  rw [Host.machine, h, Host.machine]

/-- A new address of another VM. -/
theorem Host.machine_setAddress_of_ne (hne : other ≠ name) (address : Option String) :
    (host.setAddress other address).machine name = host.machine name :=
  Host.machine_congr (Tables.find?_update_of_ne hne fun _ h => h)

/-- The commands of a pass leave the VMs of other runtimes. -/
theorem Runtime.Allows.machine_eq {r : Runtime} {c : Command} {reply : Reply} {effect : Bool}
    (hc : r.Allows c) (hne : r.vmName ≠ name) (h : host.exec c reply effect = some host') :
    host'.machine name = host.machine name := by
  cases c with
  | get target =>
    simp only [Host.exec] at h
    split_ifs at h
    cases h
    rfl
  | clone source target =>
    obtain ⟨rfl, _⟩ := hc
    simp only [Host.exec] at h
    split_ifs at h
    · cases h
      refine Host.machine_congr ?_
      rw [List.find?_append]
      simp [hne]
    · cases h
      rfl
  | start target =>
    obtain rfl : target = r.vmName := hc
    simp only [Host.exec] at h
    split at h
    · cases h
      split_ifs
      · exact Host.machine_setAddress_of_ne hne _
      · rfl
    · cases h
      rfl
  | ip target =>
    simp only [Host.exec] at h
    split at h
    · split_ifs at h
      cases h
      rfl
    · cases h
      rfl
  | stop target =>
    obtain rfl : target = r.vmName := hc
    simp only [Host.exec] at h
    split_ifs at h
    · cases h
      exact Host.machine_setAddress_of_ne hne _
    · cases h
      rfl
  | delete target =>
    obtain ⟨rfl, _⟩ := hc
    simp only [Host.exec] at h
    split_ifs at h
    · cases h
      exact Host.machine_congr (Tables.find?_delete_of_ne hne)
    · cases h
      rfl
  | readDiskSize | list | set | updateLocalConfig | beforeDeadline | sleep =>
    cases h
    rfl

end Frame

end MiniControl.WorkerCore
