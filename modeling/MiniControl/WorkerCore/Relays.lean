import MiniControl.Proxy.Session
import MiniControl.WorkerCore.Adoption

/-!
# Relays to the VMs

After every pass the worker polls for proxy sessions and starts a relay to the
address that the runtime of the VM remembers. A pass sets that address when it
finds the VM running and clears it when it stops or deletes the VM. A pass that
fails, or that takes the VM for one that is booting, leaves it as it was, so that
a relay may go to an address that the VM no longer has.
-/

namespace MiniControl.WorkerCore.Relays

open Transition Fleet Proxy

/-- `PendingProxySession`. -/
structure PendingProxySession where
  sessionID : String
  target : Input ProxyTarget
  vmID : Option String
  port : ℤ
  token : String
  deriving DecidableEq

/-- A relay that is started for a session, with its `targetIP`. -/
structure Relay where
  session : PendingProxySession
  targetIP : String
  deriving DecidableEq

/-- `findVM`. -/
def findVM (m : Manager) (vmID : String) : Option VMInfo :=
  (m.runtimes.find? (·.workstationID = vmID)).map Runtime.info

/-- The guards of `pollProxySessions` for one session: the address to relay to. -/
def relayTarget (m : Manager) (activeRelays : List String) (session : PendingProxySession) :
    Option String :=
  if session.sessionID ∈ activeRelays then none
  else
    match session.target with
    | .value .host => some "127.0.0.1"
    | .value .vm => do
      let vmID ← session.vmID
      let info ← findVM m vmID
      info.ipAddress
    | .invalid _ => none

/-- `pollProxySessions`: the relays that are started, and the active relays afterwards. -/
def pollProxySessions (m : Manager) :
    List String → List PendingProxySession → List Relay × List String
  | activeRelays, [] => ([], activeRelays)
  | activeRelays, session :: sessions =>
    match relayTarget m activeRelays session with
    | none => pollProxySessions m activeRelays sessions
    | some targetIP =>
      let (relays, active) := pollProxySessions m (session.sessionID :: activeRelays) sessions
      (⟨session, targetIP⟩ :: relays, active)

/-- What happens around one command: guests power off before it, and it ends with
a reply, with or without its effect. -/
structure Outcome where
  command : Command
  poweredOff : List String
  reply : Reply
  effect : Bool

/-- The command and the reply to it. -/
def Outcome.exchange (outcome : Outcome) : Command × Reply := (outcome.command, outcome.reply)

/-- The host during a pass: what is still to happen, whether all of it was
possible, and the commands that were issued with their replies. -/
structure Scene where
  host : Host
  outcomes : List Outcome
  possible : Bool
  exchanges : List (Command × Reply)

/-- The address that a reply returns for a VM. -/
def returnedAddress (c : Command) (reply : Reply) : Option (String × String) :=
  match c with
  | .ip name => (foundAddress (reply.result c)).map (name, ·)
  | _ => none

/-- The addresses that Tart has returned for the VMs. -/
def returnedAddresses (exchanges : List (Command × Reply)) : List (String × String) :=
  exchanges.filterMap fun exchange => returnedAddress exchange.1 exchange.2

/-- The next outcome is that of the command. -/
def Scene.answer (scene : Scene) (c : Command) : Reply × Scene :=
  match scene.outcomes with
  | [] =>
    (.notLaunched "", { scene with
      possible := false
      exchanges := scene.exchanges ++ [(c, .notLaunched "")] })
  | outcome :: outcomes =>
    let host := outcome.poweredOff.foldl (fun host name => host.setAddress name none) scene.host
    let exchanges := scene.exchanges ++ [(c, outcome.reply)]
    (outcome.reply,
      match host.exec c outcome.reply outcome.effect with
      | none => ⟨host, outcomes, false, exchanges⟩
      | some host => ⟨host, outcomes, scene.possible && outcome.command = c, exchanges⟩)

/-- The last pass of a runtime: the state in which it ended, and the addresses
that Tart returned in it. -/
structure Completed where
  state : PowerState
  returned : List (String × String)

/-- The worker and its host, with a record of the last pass of each workstation. -/
structure State where
  manager : Manager
  host : Host
  activeRelays : List String
  finishedRelayIDs : List String
  completed : String → Option Completed

/-- The steps of the worker and of its host. -/
inductive Event
  | applyDesired (desired : List DesiredWorkstation) (authoritative : Bool)
  /-- The pass of one runtime, with the outcomes of all its commands. -/
  | pass (workstationID : String) (outcomes : List Outcome)
  | forgetDeleted
  | poll (sessions : List PendingProxySession)
  | markRelayFinished (sessionID : String)
  /-- Forget the finished relays. -/
  | cleanUp
  | powerOff (name : String)
  | restart

/-- A pass of a runtime on a host: the runtime and the scene at its end. -/
def passOf (config : Config) (r : Runtime) (host : Host) (outcomes : List Outcome) :
    Runtime × Scene :=
  (r.reconcile config).run Scene.answer ⟨host, outcomes, true, []⟩

/-- One step. -/
def step (config : Config) (s : State) : Event → Option State
  | .applyDesired desired authoritative =>
    some { s with manager := s.manager.applyDesiredWorkstations desired authoritative }
  | .pass workstationID outcomes =>
    match s.manager.runtimes.find? (·.workstationID = workstationID) with
    | none => none
    | some r =>
      let (new, scene) := passOf config r s.host outcomes
      if scene.possible && scene.outcomes.isEmpty then
        some { s with
          manager := s.manager.put new
          host := scene.host
          completed := Function.update s.completed new.workstationID
            (some ⟨new.state, returnedAddresses scene.exchanges⟩) }
      else none
  | .forgetDeleted => some { s with manager := s.manager.forgetDeleted }
  | .poll sessions =>
    some { s with activeRelays := (pollProxySessions s.manager s.activeRelays sessions).2 }
  | .markRelayFinished sessionID =>
    some { s with finishedRelayIDs := sessionID :: s.finishedRelayIDs }
  | .cleanUp =>
    some { s with
      activeRelays := s.activeRelays.filter (· ∉ s.finishedRelayIDs), finishedRelayIDs := [] }
  | .powerOff name => some { s with host := s.host.setAddress name none }
  | .restart => some ⟨.empty, s.host, [], [], fun _ => none⟩

/-- A worker that has just started. -/
def initial (host : Host) : State := ⟨.empty, host, [], [], fun _ => none⟩

/-- All runs of the worker on any host. -/
def system (config : Config) : System State Event :=
  System.ofStep (fun s => ∃ host, s = initial host) (step config)

/-- The reply to `tart stop` when the VM is not running afterwards: the command
succeeded, or it failed because the VM was not running. -/
def stops (name : String) (reply : Reply) : Bool :=
  match reply.result (.stop name) with
  | .ok _ => true
  | .error error => error.outputContains "is not running" || error.outputContains "not running"

/-- The replies that settle where the VM of a runtime is. A VM that is to run has an
address, a VM that is to stop does not run, a VM that is to be deleted is removed
unless it is not there, and nothing settles a desired state that is not known. -/
def Answered (r : Runtime) (exchanges : List (Command × Reply)) : Prop :=
  match r.desiredPowerState with
  | .value .running => ∃ found ∈ returnedAddresses exchanges, found.1 = r.vmName
  | .value .stopped => ∀ x ∈ exchanges, x.1 = .stop r.vmName → stops r.vmName x.2 = true
  | .value .deleted => (∀ x ∈ exchanges, x.1 = .stop r.vmName → stops r.vmName x.2 = true) ∧
      ∀ x ∈ exchanges, x.1 = .delete r.vmName → x.2.Ok
  | .invalid _ => False

instance (r : Runtime) (exchanges : List (Command × Reply)) : Decidable (Answered r exchanges) := by
  unfold Answered
  split <;> infer_instance

/-- In every pass of a runtime that remembers an address the replies of Tart settle
where its VM is. -/
def Conclusive (s : State) : Event → Prop
  | .pass workstationID outcomes =>
    ∀ r ∈ s.manager.runtimes.find? (·.workstationID = workstationID), r.ipAddress.isSome →
      Answered r (outcomes.map Outcome.exchange)
  | _ => True

instance (s : State) (e : Event) : Decidable (Conclusive s e) := by
  cases e <;> unfold Conclusive <;> infer_instance

section Passes

/-- A command, seen from the exchanges so far. -/
def Records (before : List (Command × Reply)) (c : Command) (reply : Reply)
    (after : List (Command × Reply)) : Prop :=
  after = before ++ [(c, reply)]

/-- What a pass makes of the address of a runtime. It keeps it only when the replies
settle nothing. -/
inductive Ends (r new : Runtime) (exchanges : List (Command × Reply)) : Prop
  | running (address : String) : new.state = .running → new.ipAddress = some address →
      (r.vmName, address) ∈ returnedAddresses exchanges → Ends r new exchanges
  | cleared : new.state = .stopped ∨ new.state = .deleted → new.ipAddress = none →
      Ends r new exchanges
  | kept : new.ipAddress = r.ipAddress → ¬Answered r exchanges → Ends r new exchanges

/-- Tart has not returned an address for the VM. -/
def Silent (name : String) (exchanges : List (Command × Reply)) : Prop :=
  ∀ found ∈ returnedAddresses exchanges, found.1 ≠ name

variable {config : Config} {r : Runtime} {log : List (Command × Reply)} {name : String}

/-- One more exchange. -/
theorem returnedAddresses_concat (c : Command) (reply : Reply) :
    returnedAddresses (log ++ [(c, reply)]) =
      returnedAddresses log ++ (returnedAddress c reply).toList := by
  rw [returnedAddresses, List.filterMap_append]
  cases h : returnedAddress c reply <;> simp [returnedAddresses, h]

/-- A command that does not ask for an address. -/
def asksNoAddress : Command → Prop
  | .ip _ => False
  | _ => True

/-- A command that asks for no address returns none. -/
theorem Silent.records {c : Command} {reply : Reply} {after : List (Command × Reply)}
    (h : Silent name log) (hc : asksNoAddress c) (hstep : Records log c reply after) :
    Silent name after := by
  rw [Silent, hstep, returnedAddresses_concat]
  have hnone : returnedAddress c reply = none := by cases c <;> first | rfl | exact hc.elim
  rw [hnone, Option.toList_none, List.append_nil]
  exact h

/-- Code that asks for no address gets none. -/
theorem silent_of_only {α : Type} {code : TartM α} {Q : α → Prop}
    (hcode : Only asksNoAddress Q code) (h : Silent name log) :
    code.run.wp Records (fun _ _ => True) (fun _ log => Silent name log) log :=
  Prog.wp_mono
    (Prog.Issues.wp_keeps hcode (fun _ _ _ _ hc hs hstep => Silent.records hs hc hstep) h)
    fun _ _ hend => hend.2

/-- The address that `ip` returns is one that Tart returned for the VM, and Tart
returned none when it fails. -/
theorem ip_records (name : String) (timeoutSeconds : ℕ) (hsilent : Silent name log) :
    (ip name timeoutSeconds).run.wp Records (fun _ _ => True)
      (fun result log => match result with
        | .ok address => (name, address) ∈ returnedAddresses log ∧
            foundAddress (.ok address) = some address
        | .error _ => Silent name log) log := by
  have hloop : ∀ rounds log, Silent name log → (ipLoop name rounds).run.wp Records
      (fun _ _ => True)
      (fun result log => match result with
        | .ok address => (name, address) ∈ returnedAddresses log ∧
            foundAddress (.ok address) = some address
        | .error _ => Silent name log) log := by
    intro rounds
    induction rounds with
    | zero => exact fun _ hsilent => hsilent
    | succ rounds ih =>
      intro log hsilent
      refine bind_wp (attempt_wp (exec_wp trivial fun reply after hstep => ?_))
      have hsilent := hsilent.records (c := .beforeDeadline) trivial hstep
      dsimp only
      cases reply.result .beforeDeadline with
      | error error => exact hsilent
      | ok output =>
        refine bind_wp (attempt_wp (exec_wp trivial fun reply after hstep => ?_))
        dsimp only
        cases hfound : foundAddress (reply.result (.ip name)) with
        | some address =>
          refine ⟨?_, foundAddress_ok hfound⟩
          rw [hstep, returnedAddresses_concat, returnedAddress, hfound]
          simp
        | none =>
          have hsilent : Silent name after := by
            rw [Silent, hstep, returnedAddresses_concat, returnedAddress, hfound]
            simpa [Silent] using hsilent
          refine bind_wp (exec_wp trivial fun reply after hstep => ?_)
          have hsilent := hsilent.records (c := .sleep) trivial hstep
          cases reply.result .sleep with
          | error error => exact hsilent
          | ok output => exact ih after hsilent
  exact hloop _ _ hsilent

/-- A current address is one that Tart returned for the VM, and Tart returned none when
there is none. -/
theorem currentIPAddress_records (r : Runtime) (hsilent : Silent r.vmName log) :
    (r.currentIPAddress 5).run.wp Records (fun _ _ => True)
      (fun result log => match result with
        | .ok (some address) => (r.vmName, address) ∈ returnedAddresses log
        | _ => Silent r.vmName log) log := by
  refine bind_wp (lift_wp ?_)
  have hexists : Prog.Issues asksNoAddress (fun _ => True) (existsVM r.vmName) :=
    existsVM_issues trivial
  refine Prog.wp_mono (hexists.wp_keeps (fun _ _ _ _ hc hs hstep => Silent.records hs hc hstep)
    hsilent) fun found log hend => ?_
  cases found with
  | false => exact hend.2
  | true =>
    refine bind_wp (attempt_wp (Prog.wp_mono (ip_records r.vmName 5 hend.2) ?_))
    intro result log hresult
    cases result with
    | error error => exact hresult
    | ok output =>
      dsimp only at hresult ⊢
      rw [hresult.2]
      exact hresult.1

/-- The VM runs at an address that Tart returned, or it keeps its address and Tart
returned none. -/
def Located (r : Runtime) : Except TartError Runtime → List (Command × Reply) → Prop
  | .ok new, log => (∃ address, new.state = .running ∧ new.ipAddress = some address ∧
      (r.vmName, address) ∈ returnedAddresses log) ∨
      (new.ipAddress = r.ipAddress ∧ Silent r.vmName log)
  | .error _, log => Silent r.vmName log

/-- The launch of a VM finds it running, or Tart returned no address. -/
theorem launch_records (r : Runtime) (hsilent : Silent r.vmName log) :
    (r.launch config).run.wp Records (fun _ _ => True) (Located r) log := by
  have hconfigure : Only asksNoAddress (fun _ => True) (configure config r.vmName) :=
    configure_only trivial trivial (fun _ _ => trivial) fun _ => trivial
  refine bind_wp (Prog.wp_mono (silent_of_only hconfigure hsilent) fun result log hsilent => ?_)
  cases result with
  | error error => exact hsilent
  | ok _ =>
    have hstart : Only asksNoAddress (fun _ => True) (start r.vmName) := start_only trivial
    refine bind_wp (Prog.wp_mono (silent_of_only hstart hsilent) fun result log hsilent => ?_)
    cases result with
    | error error => exact hsilent
    | ok _ =>
      refine bind_wp (attempt_wp (Prog.wp_mono (ip_records r.vmName 60 hsilent) ?_))
      intro result log hresult
      cases result with
      | error error => exact .inr ⟨rfl, hresult⟩
      | ok address => exact .inl ⟨address, rfl, rfl, hresult.1⟩

/-- The start of a VM finds it running, or keeps the address and Tart returned none. -/
theorem startVM_records (r : Runtime) (hsilent : Silent r.vmName log) :
    (r.startVM config).run.wp Records (fun _ _ => True) (Located r) log := by
  have hclone : Only asksNoAddress (fun _ => True) (r.cloneIfMissing config) := by
    refine .bind (.lift (existsVM_issues trivial)) fun found _ => ?_
    cases found with
    | true => exact .pure trivial
    | false =>
      exact .bind (.exec trivial) fun _ _ =>
        configure_only trivial trivial (fun _ _ => trivial) fun _ => trivial
  refine bind_wp (Prog.wp_mono (silent_of_only hclone hsilent) fun result log hsilent => ?_)
  cases result with
  | error error => exact hsilent
  | ok _ =>
    refine bind_wp (Prog.wp_mono (currentIPAddress_records r hsilent) fun result log hresult => ?_)
    cases result with
    | error error => exact hresult
    | ok address =>
      cases address with
      | some address => exact .inl ⟨address, rfl, rfl, hresult⟩
      | none =>
        dsimp only
        split_ifs
        · exact .inr ⟨rfl, hresult⟩
        · exact launch_records r hresult

/-- A stop that throws was answered by a reply that settles nothing. -/
theorem stopIfRunning_records (name : String) :
    (stopIfRunning name).run.wp Records (fun _ _ => True)
      (fun result log => ∀ error, result = .error error →
        ∃ x ∈ log, x.1 = .stop name ∧ stops name x.2 = false) log := by
  refine Prog.wp_bind.mpr (exec_wp trivial fun reply after hstep => ?_)
  cases hresult : reply.result (.stop name) with
  | ok output => exact nofun
  | error error =>
    dsimp only
    split_ifs with hnot
    · exact nofun
    · rintro _ ⟨⟩
      refine ⟨(.stop name, reply), ?_, rfl, ?_⟩
      · rw [hstep]
        simp
      · rw [stops, hresult]
        simpa using hnot

/-- A deletion that throws was answered by a reply that settles nothing. -/
theorem deleteVM_records (r : Runtime) :
    r.deleteVM.run.wp Records (fun _ _ => True)
      (fun result log => ∀ error, result = .error error →
        (∃ x ∈ log, x.1 = .stop r.vmName ∧ stops r.vmName x.2 = false) ∨
        ∃ x ∈ log, x.1 = .delete r.vmName ∧ ¬x.2.Ok) log := by
  refine bind_wp (lift_wp (Prog.wp_of_forall fun found log => ?_))
  cases found with
  | false => exact nofun
  | true =>
    refine bind_wp (Prog.wp_mono (stopIfRunning_records r.vmName) fun result log hstop => ?_)
    cases result with
    | error error => exact fun _ _ => .inl (hstop error rfl)
    | ok _ =>
      refine bind_wp (lift_wp (Prog.wp_of_forall fun found log => ?_))
      cases found with
      | false => exact nofun
      | true =>
        refine bind_wp (exec_wp trivial fun reply after hstep => ?_)
        cases hresult : reply.result (.delete r.vmName) with
        | ok output => exact nofun
        | error error =>
          refine fun _ _ => .inr ⟨(.delete r.vmName, reply), ?_, rfl, Reply.result_error hresult⟩
          rw [hstep]
          simp

/-- Whatever happens in a pass, it finds the VM running at an address that Tart
returned, or clears the address, or keeps it after replies that settle nothing. -/
theorem reconcile_ends (config : Config) (r : Runtime) :
    (r.reconcile config).wp Records (fun _ _ => True) (Ends r) [] := by
  have hnever : ∀ {name : String}, Silent name [] := fun _ hfound => absurd hfound List.not_mem_nil
  unfold Runtime.reconcile
  split
  next hrun =>
    have hsettled : ∀ {log}, Silent r.vmName log → ¬Answered r log := by
      intro log hsilent hanswered
      rw [Answered, hrun] at hanswered
      obtain ⟨found, hfound, hname⟩ := hanswered
      exact hsilent found hfound hname
    refine Prog.wp_bind.mpr
      (Prog.wp_mono (startVM_records (r.setState .starting none) hnever) ?_)
    intro result log hresult
    cases result with
    | ok new =>
      rcases hresult with ⟨address, hstate, haddress, hmem⟩ | ⟨haddress, hsilent⟩
      · exact Ends.running address hstate haddress hmem
      · exact Ends.kept haddress (hsettled hsilent)
    | error error => exact Ends.kept rfl (hsettled hresult)
  next hstop =>
    refine Prog.wp_bind.mpr (bind_wp (lift_wp (Prog.wp_of_forall fun found log => ?_)))
    cases found with
    | false => exact Ends.cleared (.inl rfl) rfl
    | true =>
      refine Prog.wp_mono (stopIfRunning_records _) fun result log hresult => ?_
      cases result with
      | ok _ => exact Ends.cleared (.inl rfl) rfl
      | error error =>
        obtain ⟨x, hx, hname, hstops⟩ := hresult error rfl
        refine Ends.kept rfl fun hanswered => ?_
        rw [Answered, hstop] at hanswered
        exact Bool.noConfusion ((hanswered x hx hname).symm.trans hstops)
  next hdelete =>
    refine Prog.wp_bind.mpr (Prog.wp_mono (deleteVM_records _) fun result log hresult => ?_)
    cases result with
    | ok _ => exact Ends.cleared (.inr rfl) rfl
    | error error =>
      refine Ends.kept rfl fun hanswered => ?_
      rw [Answered, hdelete] at hanswered
      rcases hresult error rfl with ⟨x, hx, hname, hstops⟩ | ⟨x, hx, hname, hfailed⟩
      · exact Bool.noConfusion ((hanswered.1 x hx hname).symm.trans hstops)
      · exact hfailed (hanswered.2 x hx hname)
  next text hunknown =>
    refine Ends.kept rfl fun hanswered => ?_
    rw [Answered, hunknown] at hanswered
    exact hanswered

/-- The answers of a scene are recorded. -/
theorem Scene.answer_records (scene : Scene) (c : Command) :
    Records scene.exchanges c (scene.answer c).1 (scene.answer c).2.exchanges := by
  unfold Scene.answer Records
  cases scene.outcomes with
  | nil => rfl
  | cons outcome outcomes =>
    dsimp only
    split <;> rfl

/-- What a pass on a host makes of the address of a runtime. -/
theorem passOf_ends (config : Config) (r : Runtime) (host : Host) (outcomes : List Outcome) :
    Ends r (passOf config r host outcomes).1 (passOf config r host outcomes).2.exchanges :=
  Prog.post_run Scene.exchanges Scene.answer_records (reconcile_ends config r)

/-- A scene goes on to a later one, which is possible only if it was: the outcomes that are
gone were recorded. -/
def Scene.Takes (scene scene' : Scene) : Prop :=
  scene'.possible = true → scene.possible = true ∧
    scene'.exchanges ++ scene'.outcomes.map Outcome.exchange =
      scene.exchanges ++ scene.outcomes.map Outcome.exchange

/-- An answer takes the next outcome, which is that of the command if the scene stays
possible. -/
theorem Scene.answer_takes (scene : Scene) (c : Command) : scene.Takes (scene.answer c).2 := by
  intro hpossible
  unfold Scene.answer at hpossible ⊢
  cases houtcomes : scene.outcomes with
  | nil => simp [houtcomes] at hpossible
  | cons outcome outcomes =>
    simp only [houtcomes] at hpossible ⊢
    split at hpossible
    next => cases hpossible
    next =>
      rw [Bool.and_eq_true, decide_eq_true_eq] at hpossible
      obtain ⟨hbefore, hcommand⟩ := hpossible
      refine ⟨hbefore, ?_⟩
      simp [Outcome.exchange, hcommand]

/-- The exchanges of a pass are those of its outcomes. -/
theorem exchanges_of_passOf {host : Host} {outcomes : List Outcome}
    (hpossible : (passOf config r host outcomes).2.possible = true)
    (hall : (passOf config r host outcomes).2.outcomes.isEmpty = true) :
    (passOf config r host outcomes).2.exchanges = outcomes.map Outcome.exchange := by
  have hpass : ∀ scene : Scene, (r.reconcile config).wp
      (fun scene c reply scene' => (reply, scene') = Scene.answer scene c) (fun _ _ => True)
      (fun _ _ => True) (id scene) :=
    fun _ => Prog.wp_of_forall fun _ _ => trivial
  have htakes : ∀ scene : Scene, scene.Takes ((r.reconcile config).run Scene.answer scene).2 := by
    intro scene
    refine Prog.guarantee_run id (fun _ _ => rfl) (fun _ h => ⟨h, rfl⟩) ?_ ?_ (hpass scene)
    · intro before between after hfirst hsecond hpossible
      obtain ⟨hbetween, hlater⟩ := hsecond hpossible
      obtain ⟨hbefore, hearlier⟩ := hfirst hbetween
      exact ⟨hbefore, hlater.trans hearlier⟩
    · intro before c reply after _ hstep
      obtain rfl : after = (Scene.answer before c).2 := congrArg Prod.snd hstep
      exact Scene.answer_takes before c
  have hexchanges := (htakes ⟨host, outcomes, true, []⟩ hpossible).2
  change (passOf config r host outcomes).2.exchanges ++
    (passOf config r host outcomes).2.outcomes.map Outcome.exchange = _ at hexchanges
  rw [List.isEmpty_iff.mp hall, List.map_nil, List.append_nil] at hexchanges
  exact hexchanges

end Passes

/-- The address that a runtime remembers is one that Tart returned for its VM in
its last pass, which found the VM running. -/
def Fresh (completed : String → Option Completed) (r : Runtime) : Prop :=
  ∀ address, r.ipAddress = some address → r.state = .running ∧
    ∃ pass, completed r.workstationID = some pass ∧ pass.state = .running ∧
      (r.vmName, address) ∈ pass.returned

variable {config : Config} {s : State}

/-- A conclusive pass leaves a fresh address. -/
theorem fresh_of_pass {r : Runtime} {outcomes : List Outcome}
    (hok : r.ipAddress.isSome → Answered r (passOf config r s.host outcomes).2.exchanges)
    {completed : String → Option Completed}
    (hcompleted : completed (passOf config r s.host outcomes).1.workstationID =
      some ⟨(passOf config r s.host outcomes).1.state,
        returnedAddresses (passOf config r s.host outcomes).2.exchanges⟩) :
    Fresh completed (passOf config r s.host outcomes).1 := by
  have hfollows : r.Follows (passOf config r s.host outcomes).1 :=
    (Runtime.reconcile_issues config r).run _ _
  intro address haddress
  cases passOf_ends config r s.host outcomes with
  | running found hstate hfound hmem =>
    rw [hfound, Option.some.injEq] at haddress
    rw [haddress, ← hfollows.vmName] at hmem
    exact ⟨hstate, _, hcompleted, hstate, hmem⟩
  | cleared _ hnone =>
    rw [hnone] at haddress
    cases haddress
  | kept hkept hunanswered =>
    rw [hkept] at haddress
    exact absurd (hok (by rw [haddress]; rfl)) hunanswered

/-- Every step of a run whose passes are conclusive keeps the addresses fresh. -/
theorem fresh_step {s t : State} {e : Event} (hstep : step config s e = some t)
    (hok : Conclusive s e) (h : ∀ r ∈ s.manager.runtimes, Fresh s.completed r) :
    ∀ r ∈ t.manager.runtimes, Fresh t.completed r := by
  cases e with
  | applyDesired desired authoritative =>
    cases hstep
    refine Manager.forall_applyDesiredWorkstations (fun _ _ _ _ hr => hr) (fun _ _ => ?_)
      (fun _ _ hr => hr) h
    exact nofun
  | pass workstationID outcomes =>
    cases hfind : s.manager.runtimes.find? (·.workstationID = workstationID) with
    | none => simp only [step, hfind, reduceCtorEq] at hstep
    | some old =>
      simp only [step, hfind, Option.ite_none_right_eq_some, Option.some.injEq,
        Bool.and_eq_true] at hstep
      obtain ⟨⟨hpossible, hall⟩, rfl⟩ := hstep
      intro r hr
      obtain ⟨before, hbefore, rfl⟩ := Tables.mem_update.mp hr
      split_ifs with hid
      · refine fresh_of_pass (fun haddress => ?_) (Function.update_self _ _ _)
        rw [exchanges_of_passOf hpossible hall]
        exact hok old hfind haddress
      · intro address haddress
        obtain ⟨hstate, pass, hpass, hlast⟩ := h before hbefore address haddress
        exact ⟨hstate, pass, (Function.update_of_ne hid _ _).trans hpass, hlast⟩
  | forgetDeleted =>
    cases hstep
    exact fun r hr => h r (List.mem_of_mem_filter hr)
  | poll sessions =>
    cases hstep
    exact h
  | markRelayFinished sessionID =>
    cases hstep
    exact h
  | cleanUp =>
    cases hstep
    exact h
  | powerOff name =>
    cases hstep
    exact h
  | restart =>
    cases hstep
    exact fun r hr => absurd hr List.not_mem_nil

/-- In every run whose passes are conclusive, the addresses are fresh. -/
theorem fresh_of_reachable (h : (system config).ReachableUnder Conclusive s) :
    ∀ r ∈ s.manager.runtimes, Fresh s.completed r := by
  refine h.invariant ?_ fun s e t _ hok hnext => fresh_step hnext hok
  rintro _ ⟨host, rfl⟩ r hr
  exact absurd hr List.not_mem_nil

/-- A relay that a poll starts for a VM goes to the address that its runtime remembers. -/
theorem address_of_relay {m : Manager} {sessions : List PendingProxySession} {relay : Relay}
    (hvm : relay.session.target = .value .vm) {activeRelays : List String}
    (h : relay ∈ (pollProxySessions m activeRelays sessions).1) :
    ∃ r ∈ m.runtimes, relay.session.vmID = some r.workstationID ∧
      r.ipAddress = some relay.targetIP := by
  induction sessions generalizing activeRelays with
  | nil => cases h
  | cons session sessions ih =>
    rw [pollProxySessions] at h
    cases htarget : relayTarget m activeRelays session with
    | none =>
      rw [htarget] at h
      exact ih h
    | some targetIP =>
      rw [htarget] at h
      rcases List.mem_cons.mp h with rfl | hrest
      · have hvm : session.target = .value .vm := hvm
        simp only [relayTarget, hvm, findVM, Option.ite_none_left_eq_some, Option.bind_eq_bind,
          Option.bind_eq_some_iff, Option.map_eq_some_iff] at htarget
        obtain ⟨_, vmID, hvmID, _, ⟨r, hfind, rfl⟩, haddress⟩ := htarget
        have hid : r.workstationID = vmID := by simpa using List.find?_some hfind
        exact ⟨r, List.mem_of_find?_eq_some hfind, by rw [hvmID, hid], haddress⟩
      · exact ih hrest

/-- As long as the replies of Tart settle in every pass of a runtime that remembers an
address where its VM is, an address is only remembered while the last pass found the VM
running, and relays to VMs go to the address that Tart returned in that pass. -/
theorem relays_go_to_running_vms (config : Config) {s : State}
    (h : (system config).ReachableUnder Conclusive s) :
    (∀ r ∈ s.manager.runtimes, r.info.ipAddress ≠ none → r.info.state = .running) ∧
    ∀ sessions, ∀ relay ∈ (pollProxySessions s.manager s.activeRelays sessions).1,
      relay.session.target = .value .vm →
      ∃ r ∈ s.manager.runtimes, relay.session.vmID = some r.workstationID ∧
        ∃ pass, s.completed r.workstationID = some pass ∧ pass.state = .running ∧
          (r.vmName, relay.targetIP) ∈ pass.returned := by
  have hfresh := fresh_of_reachable h
  constructor
  · intro r hr haddress
    obtain ⟨address, hsome⟩ := Option.ne_none_iff_exists'.mp haddress
    exact (hfresh r hr address hsome).1
  · intro sessions relay hrelay hvm
    obtain ⟨r, hr, hid, haddress⟩ := address_of_relay hvm hrelay
    exact ⟨r, hr, hid, (hfresh r hr _ haddress).2⟩

/-- A command that succeeds. -/
def succeeds (command : Command) : Outcome := ⟨command, [], .exited 0 "" "", true⟩

/-- A command that fails, without an effect. -/
def fails (command : Command) : Outcome := ⟨command, [], .exited 1 "" "failed", false⟩

/-- The configuration of a small worker. -/
def smallConfig : Config := ⟨"base", 1, 8, 256⟩

/-- The commands of `configure` for the VM of the workstation. -/
def configured : List Outcome :=
  [fails (.readDiskSize "ws-1"), succeeds .list, succeeds (.set "ws-1" 7 (some 192)),
    succeeds (.updateLocalConfig "ws-1" 7)]

/-- The address of the VM is found. -/
def addressFound : List Outcome :=
  [succeeds .beforeDeadline, ⟨.ip "ws-1", [], .exited 0 "10.0.0.2" "", true⟩]

/-- The VM has no address before the deadline. -/
def addressMissing : List Outcome :=
  [succeeds .beforeDeadline, fails (.ip "ws-1"), succeeds .sleep, fails .beforeDeadline]

/-- A workstation is to run, and its first pass clones and starts its VM. -/
def startedVM : List Event :=
  [.applyDesired [⟨"id-1", "ws-1", 0, .value .running⟩] true,
   .pass "id-1"
     ([fails (.get "ws-1"), succeeds (.clone "base" "ws-1")] ++ configured ++
      [succeeds (.get "ws-1")] ++ addressMissing ++ configured ++
      [⟨.start "ws-1", [], .exited 0 "10.0.0.2" "", true⟩] ++ addressFound)]

/-- A session for the VM of that workstation. -/
def vmSession : PendingProxySession := ⟨"session-1", .value .vm, some "id-1", 22, "token"⟩

/-- The relay of a VM that was just started goes to its address, also after a second pass
that finds it running. -/
theorem relays_go_to_running_vms_started : ∃ s : State,
    (system smallConfig).ReachableUnder Conclusive s ∧
    (pollProxySessions s.manager s.activeRelays [vmSession]).1 = [⟨vmSession, "10.0.0.2"⟩] ∧
    ∃ r ∈ s.manager.runtimes, some "id-1" = some r.workstationID ∧
      ∃ pass, s.completed r.workstationID = some pass ∧ pass.state = .running ∧
        (r.vmName, "10.0.0.2") ∈ pass.returned := by
  have hrun : ∃ s, runEvents
      (fun s e => if Conclusive s e then step smallConfig s e else none)
      (initial []) (startedVM ++ [.pass "id-1"
        ([succeeds (.get "ws-1"), succeeds (.get "ws-1")] ++ addressFound)]) = some s ∧
      (pollProxySessions s.manager s.activeRelays [vmSession]).1 = [⟨vmSession, "10.0.0.2"⟩] :=
    ⟨_, rfl, rfl⟩
  obtain ⟨s, hs, hrelays⟩ := hrun
  have hreach : (system smallConfig).ReachableUnder Conclusive s :=
    reachableUnder_of_runEvents ⟨[], rfl⟩ hs
  refine ⟨s, hreach, hrelays, ?_⟩
  exact (relays_go_to_running_vms smallConfig hreach).2 [vmSession] ⟨vmSession, "10.0.0.2"⟩
    (by rw [hrelays]; exact List.mem_singleton_self _) rfl

/-- The guest powers off, and the next pass takes the VM for one that is booting
and keeps the address: a relay is started to a VM that does not run. -/
theorem relay_to_powered_off_vm : ∃ s : State, (system smallConfig).Reachable s ∧
    s.host = [⟨"ws-1", none⟩] ∧
    (s.completed "id-1").map Completed.state = some .starting ∧
    (s.completed "id-1").map Completed.returned = some [] ∧
    (pollProxySessions s.manager s.activeRelays [vmSession]).1 = [⟨vmSession, "10.0.0.2"⟩] := by
  have hrun : ∃ s, runEvents (step smallConfig) (initial [])
      (startedVM ++ [.powerOff "ws-1", .pass "id-1"
        ([succeeds (.get "ws-1"), succeeds (.get "ws-1")] ++ addressMissing)]) = some s ∧
      s.host = [⟨"ws-1", none⟩] ∧
      (s.completed "id-1").map Completed.state = some .starting ∧
      (s.completed "id-1").map Completed.returned = some [] ∧
      (pollProxySessions s.manager s.activeRelays [vmSession]).1 = [⟨vmSession, "10.0.0.2"⟩] :=
    ⟨_, rfl, rfl, rfl, rfl, rfl⟩
  obtain ⟨s, hs, hrest⟩ := hrun
  exact ⟨s, reachable_of_runEvents ⟨[], rfl⟩ hs, hrest⟩

end MiniControl.WorkerCore.Relays
