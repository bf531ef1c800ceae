import MiniControl.Heartbeat.Safety
import MiniControl.WorkerCore.Reconciliation

/-!
# Convergence of the worker

From whatever state its history has left a runtime and its host in, one pass in
which Tart behaves normally brings the VM to the desired state exactly when the
runtime is not misled. A guest that powers itself off misleads it: the runtime
keeps the process of the start, and takes the VM for one that is still booting.
-/

namespace MiniControl.Heartbeat

open Transition Fleet WorkerCore

/-- One pass in which Tart behaves normally ends with the VM in the desired state
and reported so, unless the runtime is to run, holds the process of an earlier
start and its VM does not run. -/
theorem reconcile_reaches_iff {Env : Type} {host : Env → Host}
    {answer : Env → Command → Reply × Env} (config : Config) (r : Runtime)
    (hnormal : SettledTart r.vmName host answer) {d : DesiredPowerState}
    (hd : r.desiredPowerState = .value d) (env : Env) :
    Reached d ((host ((r.reconcile config).run answer env).2).machine r.vmName)
        ((r.reconcile config).run answer env).1.info ↔
      ¬(d = .running ∧ r.vmProcess = true ∧ ¬((host env).machine r.vmName).Running) := by
  have hpass := Prog.post_run (fun env => (host env).machine r.vmName) hnormal
    (@Runtime.reconcile_settled config r ((host env).machine r.vmName) d hd)
  rw [hpass, Runtime.Misled, hd, Input.value.injEq]

/-- A host with at most one VM, which is missing, off or on. -/
def loneHost (name : String) : Option Bool → Host
  | none => []
  | some false => [⟨name, none⟩]
  | some true => [⟨name, some "10.0.0.2"⟩]

/-- The answers of a host with at most one VM that does what it is asked to do. -/
def loneTart (name : String) (vm : Option Bool) (c : Command) : Reply × Option Bool :=
  if c.concerns name then
    match c with
    | .get _ => (if vm.isSome then .exited 0 "" "" else .exited 1 "" "no such VM", vm)
    | .clone _ _ => (.exited 0 "" "", some (vm.getD false))
    | .start _ => (.exited 0 "" "", vm.map fun _ => true)
    | .ip _ => (if vm = some true then .exited 0 "10.0.0.2" "" else .exited 1 "" "no address", vm)
    | .stop _ =>
      if vm = some true then (.exited 0 "" "", some false)
      else (.exited 2 "" "VM is not running", vm)
    | .delete _ => (.exited 0 "" "", none)
    | .readDiskSize _ => (.exited 1 "" "no such file", vm)
    | _ => (.exited 0 "" "", vm)
  else (.exited 1 "" "no such VM", vm)

/-- Such a host behaves normally. -/
theorem loneTart_settled (name : String) : SettledTart name (loneHost name) (loneTart name) := by
  have hmachine : ∀ vm, (loneHost name vm).machine name =
      match vm with
      | none => .absent
      | some false => .off
      | some true => .on "10.0.0.2" := by
    rintro (_ | _ | _) <;> simp [loneHost, Host.machine]
  have haddress : Text.trimSpace "10.0.0.2" = "10.0.0.2" := by decide
  intro vm c
  unfold SettledStep
  split_ifs with hc
  · simp only [hmachine, loneTart, hc, if_true]
    cases c with
    | stop =>
      rcases vm with _ | _ | _
      · exact ⟨⟨by decide, by decide⟩, rfl⟩
      · exact ⟨⟨by decide, by decide⟩, rfl⟩
      · exact ⟨rfl, rfl⟩
    | get | ip =>
      rcases vm with _ | _ | _ <;>
        simp [Command.Settles, Reply.Ok, Reply.result, Machine.address, haddress, foundAddress]
    | clone | start | delete | readDiskSize | list | set | updateLocalConfig | beforeDeadline |
      sleep =>
      rcases vm with _ | _ | _ <;>
        simp [Command.Settles, Reply.Ok, Machine.cloned, Machine.Running, Machine.address]
  · simp [loneTart, hc]

/-- A workstation that is to run, without a VM. -/
def newRuntime : Runtime := .new ⟨"id-1", "ws-id1", 0, .value .running⟩

/-- Its first pass clones and starts the VM. -/
theorem reconcile_reaches_iff_new :
    SettledTart "ws-id1" (loneHost "ws-id1") (loneTart "ws-id1") ∧
    newRuntime.desiredPowerState = .value .running ∧
    Reached .running ((loneHost "ws-id1" ((newRuntime.reconcile plainSetup.config).run
      (loneTart "ws-id1") none).2).machine "ws-id1")
        ((newRuntime.reconcile plainSetup.config).run (loneTart "ws-id1") none).1.info := by
  refine ⟨loneTart_settled _, rfl, ?_⟩
  refine (reconcile_reaches_iff plainSetup.config newRuntime (loneTart_settled _) rfl none).mpr ?_
  exact fun hmisled => absurd hmisled.2.1 (by decide)

/-- A member claims a workstation, the worker starts its VM, and the guest powers off. -/
def startedThenOff : List Event :=
  [.server 0 (.register 100 ⟨"w", "mac-1", "uuid", 8, 16, "2", "1", 1, "base"⟩),
   .server 0 (.updateWorker 110 "w" .heartbeat), .server 1 (.beginClaim "alice" ""),
   .server 1 (.claim .lock), .server 1 (.claim (.listWorkers 120)), .server 1 (.claim .listSlots),
   .server 1 (.claim (.insert 120 "id-1")), .server 1 (.claim .commit),
   .startPass [], .finishPass, .sendHeartbeat 0, .arrive 0 (some (3, 140)), .list 0, .receive,
   .startPass ["id-1"], .startRuntime,
   -- `get` and `clone`, and the first `configure`
   .tart (.exited 1 "" "no such VM") false, .tart (.exited 0 "" "") true,
   .tart (.exited 1 "" "no such file") false, .tart (.exited 0 "" "") false,
   .tart (.exited 0 "" "") false, .tart (.exited 0 "" "") false,
   -- `get`, and no address before the deadline
   .tart (.exited 0 "" "") false, .tart (.exited 1 "" "") false,
   -- `configure` again, `run`, and the address
   .tart (.exited 1 "" "no such file") false, .tart (.exited 0 "" "") false,
   .tart (.exited 0 "" "") false, .tart (.exited 0 "" "") false,
   .tart (.exited 0 "10.0.0.2" "") true, .tart (.exited 0 "" "") false,
   .tart (.exited 0 "10.0.0.2" "") false,
   .finishRuntime, .finishPass, .skipHeartbeat, .powerOff "ws-id1"]

/-- After a guest has powered off, a pass in which Tart behaves normally leaves the
VM off and reports that it is starting. -/
theorem powered_off_guest_stays_off : ∃ (s : State) (r : Runtime),
    (plainSetup.system []).Reachable s ∧ s.process.manager.runtimes = [r] ∧
    r.vmName = "ws-id1" ∧ r.desiredPowerState = .value .running ∧
    s.host = loneHost "ws-id1" (some false) ∧
    SettledTart "ws-id1" (loneHost "ws-id1") (loneTart "ws-id1") ∧
    ((r.reconcile plainSetup.config).run (loneTart "ws-id1") (some false)).1.info.state =
      .starting ∧
    ((r.reconcile plainSetup.config).run (loneTart "ws-id1") (some false)).2 = some false := by
  have hrun : ∃ s, runEvents plainSetup.step (initial []) startedThenOff = some s ∧
      ∃ r, s.process.manager.runtimes = [r] ∧ r.vmName = "ws-id1" ∧
        r.desiredPowerState = .value .running ∧ s.host = loneHost "ws-id1" (some false) ∧
        ((r.reconcile plainSetup.config).run (loneTart "ws-id1") (some false)).1.info.state =
          .starting ∧
        ((r.reconcile plainSetup.config).run (loneTart "ws-id1") (some false)).2 = some false := by
    refine ⟨_, rfl, ?_⟩
    refine ⟨_, rfl, ?_⟩
    exact ⟨rfl, rfl, rfl, rfl, rfl⟩
  obtain ⟨s, hs, r, hruntimes, hname, hdesired, hhost, hstate, hvm⟩ := hrun
  exact ⟨s, r, reachable_of_runEvents rfl hs, hruntimes, hname, hdesired, hhost,
    loneTart_settled _, hstate, hvm⟩

end MiniControl.Heartbeat
