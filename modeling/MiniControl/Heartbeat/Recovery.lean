import MiniControl.Heartbeat.Calm
import MiniControl.Heartbeat.Convergence
import MiniControl.WorkerCore.Adoption

/-!
# Recovery of the system

The worker keeps no state over a restart, and the server only learns from heartbeats
how a VM fares. Whatever has happened before, a worker that starts in calm weather has
brought all its VMs to the desired states when its second heartbeat is answered: the
first answer tells it what is desired, and the second request tells the server that it
is so. From then on rows and VMs agree as long as the weather stays calm, whatever the
order of passes, heartbeats and statements is.
-/

namespace MiniControl.Heartbeat

open Transition Fleet WorkerCore

section Steps

variable {w : Workstation} {setup : Setup} {n : ℕ} {s : State} {r : Runtime} {m : Machine}
  {t : State} {todo : List String} {host : Host} {info : VMInfo} {d : DesiredPowerState} {q : ℕ}

/-- The process moves on with its manager. -/
theorem Recovering.process (h : Recovering w setup n s)
    (hbusy : ∀ q, s.process.position ≠ .awaiting q) {process : Process}
    (hnodup : process.manager.ids.Nodup) (hfresh : n = 0 → process.manager.runtimes = [])
    (hruntimes : ∀ r ∈ process.manager.runtimes, r.workstationID = w.id →
      r.desiredPowerState = .value w.desiredPowerState ∧
        (¬process.position.Passes w.id → ¬r.Misled (s.host.machine w.vmName)))
    (hpresent : 1 ≤ n → Kept w (setup.rows s.server) →
      w.id ∈ process.manager.desiredIDs ∧ w.id ∈ process.manager.ids)
    (hposition : PositionKnown w setup.workerID n { s with process } (setup.rows s.server)
      process.position) : Recovering w setup n { s with process } := by
  refine ⟨?_, hnodup, hfresh, hruntimes, hpresent, h.settled, hposition⟩
  rcases h.row with hkept | ⟨hdeleted, hgone, habsent, hn | ⟨_, q, hq⟩⟩
  · exact .inl hkept
  · exact .inr ⟨hdeleted, hgone, habsent, .inl hn⟩
  · exact absurd hq (hbusy q)

/-- The process moves on without a change of its runtimes. -/
theorem Recovering.goto (h : Recovering w setup n s)
    (hbusy : ∀ q, s.process.position ≠ .awaiting q) {position : Position}
    (hpasses : ¬s.process.position.Passes w.id)
    (hposition : PositionKnown w setup.workerID n (s.goto position) (setup.rows s.server)
      position) : Recovering w setup n (s.goto position) := by
  refine h.process hbusy h.nodup h.fresh (fun r hr hid => ?_) h.present hposition
  obtain ⟨hdesired, hmisled⟩ := h.runtimes r hr hid
  exact ⟨hdesired, fun _ => hmisled hpasses⟩

/-- A pass of the workstation will reach the desired state, and leaves a VM alone that the
server knows to have reached it. -/
theorem pass_reaches {config : Config} (hname : r.vmName = w.vmName)
    (hdesired : r.desiredPowerState = .value w.desiredPowerState) (hmisled : ¬r.Misled m)
    (hrest : 2 ≤ n → AtRest w.desiredPowerState m) :
    (r.reconcile config).wp (SettledStep w.vmName) (fun m c => 2 ≤ n → Keeps w.vmName m c)
      (fun new m => Reached w.desiredPowerState m new.info) m := by
  rw [← hname]
  by_cases hn : 2 ≤ n
  · exact Prog.wp_weaken (Runtime.reconcile_steady hdesired (hrest hn)) fun _ _ hkeeps _ => hkeeps
  · have hreaches := Prog.wp_mono (@Runtime.reconcile_settled config r m _ hdesired)
      fun _ _ hiff => hiff.mpr hmisled
    exact Prog.wp_weaken hreaches fun _ _ _ hn' => absurd hn' hn

/-- VM names tell workstations apart. -/
theorem RuntimeOk.vmName_iff {sh : Shared} {workerID : String} (hok : sh.Ok)
    (hknown : sh.Known w.id) (hname : w.vmName = generateWorkstationVMName w.id)
    (hr : RuntimeOk sh workerID r) : r.vmName = w.vmName ↔ r.workstationID = w.id := by
  rw [hr.vmName, hname]
  constructor
  · exact List.inj_on_of_nodup_map hok.usedNames hr.owned.known.used hknown.used
  · exact congrArg _

/-- The worker turns to the next runtime. -/
theorem Recovering.startRuntime (h : Recovering w setup n s) (hinv : Inv setup s)
    (hok : s.server.shared.Ok) (hknown : s.server.shared.Known w.id)
    (hname : w.vmName = generateWorkstationVMName w.id)
    (hstep : setup.step s .startRuntime = some t) : Recovering w setup n t := by
  simp only [Setup.step] at hstep
  split at hstep
  next id todo hposition =>
    have hbusy : ∀ q, s.process.position ≠ .awaiting q := by
      rw [hposition]
      exact fun q heq => by cases heq
    have hpasses : ¬s.process.position.Passes w.id := by
      rw [hposition]
      exact fun hpass => hpass
    have hpass := h.position
    rw [hposition] at hpass
    obtain ⟨hreached, _⟩ := hpass
    split at hstep
    next r hfound =>
      cases hstep
      have hr : r ∈ s.process.manager.runtimes := List.mem_of_find?_eq_some hfound
      have hid : r.workstationID = id := by simpa using List.find?_some hfound
      refine h.goto hbusy hpasses ⟨fun htodo hcurrent => ?_, ?_⟩
      · refine hreached ?_ fun _ _ heq => by cases heq
        rw [List.mem_cons, not_or]
        refine ⟨fun heq => hcurrent r _ rfl (hid.trans heq.symm), htodo⟩
      · rintro _ _ ⟨rfl⟩ hown
        obtain ⟨hdesired, hmisled⟩ := h.runtimes r hr hown
        have hvm := ((hinv.runtimes r hr).vmName_iff hok hknown hname).mpr hown
        exact ⟨hdesired, pass_reaches hvm hdesired (hmisled hpasses) fun hn => (h.settled hn).2⟩
    next hnone =>
      cases hstep
      refine h.goto hbusy hpasses ⟨fun htodo _ r hr hid => ?_, fun _ _ heq => by cases heq⟩
      refine hreached ?_ (fun _ _ heq => by cases heq) r hr hid
      rw [List.mem_cons, not_or]
      refine ⟨fun heq => ?_, htodo⟩
      exact List.find?_eq_none.mp hnone r hr (decide_eq_true (hid.trans heq))
  next => cases hstep

/-- A command of Tart. -/
theorem Recovering.tart (h : Recovering w setup n s) (hinv : Inv setup s) (hok : s.server.shared.Ok)
    (hknown : s.server.shared.Known w.id) (hname : w.vmName = generateWorkstationVMName w.id)
    {c : Command} {next : Reply → Prog Command Reply Runtime} {reply : Reply} {effect : Bool}
    (hposition : s.process.position = .reconciling todo (some (r, .call c next)))
    (hexec : s.host.exec c reply effect = some host)
    (hsettles : SettledStep r.vmName (s.host.machine r.vmName) c reply (host.machine r.vmName)) :
    Recovering w setup n ({ s with host }.goto (.reconciling todo (some (r, next reply)))) := by
  have hpass := h.position
  rw [hposition] at hpass
  obtain ⟨hreached, hown⟩ := hpass
  obtain ⟨hr, hissues⟩ := hinv.current _ _ _ hposition
  have hrow : Kept w (setup.rows s.server) ∨ (w.desiredPowerState = .deleted ∧
      Gone w (setup.rows s.server) ∧ s.host.machine w.vmName = .absent ∧ 2 ≤ n) := by
    rcases h.row with hkept | ⟨hdeleted, hgone, habsent, hn | ⟨_, q, hq⟩⟩
    · exact .inl hkept
    · exact .inr ⟨hdeleted, hgone, habsent, hn⟩
    · cases hposition.symm.trans hq
  by_cases hid : r.workstationID = w.id
  · have hvm := (hr.vmName_iff hok hknown hname).mpr hid
    rw [hvm] at hsettles
    obtain ⟨hdesired, hkeeps, hnext⟩ := hown r _ rfl hid
    -- what the server knows of the VM is not changed
    have hmachine : 2 ≤ n → host.machine w.vmName = s.host.machine w.vmName := fun hn =>
      hkeeps hn reply _ hsettles
    refine ⟨?_, h.nodup, h.fresh, fun r' hr' hid' => ?_, h.present, fun hn => ?_, ?_, ?_⟩
    · rcases hrow with hkept | ⟨hdeleted, hgone, habsent, hn⟩
      · exact .inl hkept
      · exact .inr ⟨hdeleted, hgone, (hmachine hn).trans habsent, .inl hn⟩
    · exact ⟨(h.runtimes r' hr' hid').1, fun hpasses => absurd hid hpasses⟩
    · change RowSettled w (host.machine w.vmName) _ ∧ AtRest _ (host.machine w.vmName)
      rw [hmachine hn]
      exact h.settled hn
    · exact fun _ hcurrent => absurd hid (hcurrent r _ rfl)
    · rintro _ _ ⟨rfl⟩ _
      exact ⟨hdesired, hnext reply _ hsettles⟩
  · have hmachine : host.machine w.vmName = s.host.machine w.vmName :=
      hissues.1.machine_eq (fun heq => hid ((hr.vmName_iff hok hknown hname).mp heq)) hexec
    have hpasses : ¬s.process.position.Passes w.id := by
      rw [hposition]
      exact hid
    refine ⟨?_, h.nodup, h.fresh, fun r' hr' hid' => ?_, h.present, fun hn => ?_, ?_, ?_⟩
    · rcases hrow with hkept | ⟨hdeleted, hgone, habsent, hn⟩
      · exact .inl hkept
      · exact .inr ⟨hdeleted, hgone, hmachine.trans habsent, .inl hn⟩
    · obtain ⟨hdesired, hmisled⟩ := h.runtimes r' hr' hid'
      refine ⟨hdesired, fun _ => ?_⟩
      change ¬r'.Misled (host.machine w.vmName)
      rw [hmachine]
      exact hmisled hpasses
    · change RowSettled w (host.machine w.vmName) _ ∧ AtRest _ (host.machine w.vmName)
      rw [hmachine]
      exact h.settled hn
    · intro htodo _
      change AllReached w (host.machine w.vmName) _
      rw [hmachine]
      exact hreached htodo fun r' _ heq => by
        cases heq
        exact hid
    · rintro _ _ ⟨rfl⟩ heq
      exact absurd heq hid

/-- A VM that has reached the desired state does not mislead its runtime. -/
theorem Reached.not_misled (h : Reached d m info) (hdesired : r.desiredPowerState = .value d) :
    ¬r.Misled m := by
  rintro ⟨hrunning, _, hidle⟩
  obtain rfl : d = .running := Input.value.inj (hdesired.symm.trans hrunning)
  exact hidle h.atRest

/-- A pass of a runtime ends. -/
theorem Recovering.finishRuntime (h : Recovering w setup n s) (hinv : Inv setup s) {r new : Runtime}
    (hposition : s.process.position = .reconciling todo (some (r, .done new))) :
    Recovering w setup n
      { s with process := ⟨s.process.manager.put new, .reconciling todo none⟩ } := by
  have hpass := h.position
  rw [hposition] at hpass
  obtain ⟨hreached, hown⟩ := hpass
  obtain ⟨_, hfollows⟩ := hinv.current _ _ _ hposition
  have hfollows : r.Follows new := hfollows
  have hids : (s.process.manager.put new).ids = s.process.manager.ids :=
    Tables.map_update fun _ _ hid => hid.symm
  have hbusy : ∀ q, s.process.position ≠ .awaiting q := by
    rw [hposition]
    exact fun q heq => by cases heq
  -- the runtimes of the workstation are the result of its pass, or the same as before
  have hcases : ∀ r' ∈ (s.process.manager.put new).runtimes, r'.workstationID = w.id →
      (r' = new ∧ r.workstationID = w.id) ∨
        (r' ∈ s.process.manager.runtimes ∧ r.workstationID ≠ w.id) := by
    intro r' hr' hid
    obtain ⟨old, hold, rfl⟩ := Tables.mem_update.mp hr'
    split_ifs at hid ⊢ with hkey
    · exact .inl ⟨rfl, hfollows.workstationID.symm.trans hid⟩
    · exact .inr ⟨hold, fun heq => hkey (hid.trans (heq.symm.trans hfollows.workstationID.symm))⟩
  refine h.process hbusy (hids ▸ h.nodup) (fun hn => ?_) (fun r' hr' hid => ?_) (fun hn hkept => ?_)
    ⟨fun htodo _ r' hr' hid => ?_, fun _ _ heq => by cases heq⟩
  · change Tables.update _ _ _ s.process.manager.runtimes = []
    rw [h.fresh hn]
    rfl
  · rcases hcases r' hr' hid with ⟨rfl, hr⟩ | ⟨hold, hne⟩
    · obtain ⟨hdesired, hdone⟩ := hown r _ rfl hr
      have hnew := hfollows.desired.trans hdesired
      exact ⟨hnew, fun _ => Reached.not_misled hdone hnew⟩
    · obtain ⟨hdesired, hmisled⟩ := h.runtimes r' hold hid
      refine ⟨hdesired, fun _ => hmisled ?_⟩
      rw [hposition]
      exact hne
  · change w.id ∈ s.process.manager.desiredIDs ∧ w.id ∈ (s.process.manager.put new).ids
    rw [hids]
    exact h.present hn hkept
  · rcases hcases r' hr' hid with ⟨rfl, hr⟩ | ⟨hold, hne⟩
    · exact (hown r _ rfl hr).2
    · refine hreached htodo (fun _ _ heq => ?_) r' hold hid
      cases heq
      exact hne

/-- The report of a runtime that has reached the desired state. -/
theorem Reached.tells (h : Reached d m info) : Tells m info.status d := by
  have hrest := h.atRest
  cases d with
  | running =>
    obtain ⟨hstate, _, haddress⟩ := h
    refine ⟨by rw [VMInfo.status, hstate], ?_⟩
    cases m with
    | absent | off => cases hrest
    | on address =>
      rw [VMInfo.status, haddress]
      rfl
  | stopped =>
    obtain ⟨hstate, haddress, _⟩ := h
    refine ⟨by rw [VMInfo.status, hstate], ?_⟩
    rw [VMInfo.status, haddress]
    rfl
  | deleted => exact ⟨by rw [VMInfo.status, h.1], h.2⟩

/-- The pass over all runtimes ends. -/
theorem Recovering.finishPass (h : Recovering w setup n s)
    (hposition : s.process.position = .reconciling [] none) :
    Recovering w setup n { s with
      process := ⟨s.process.manager.forgetDeleted,
        .reconciled (s.process.manager.forgetDeleted.allVMInfo.map VMInfo.status)⟩ } := by
  have hpass := h.position
  rw [hposition] at hpass
  have hreached := hpass.1 List.not_mem_nil fun _ _ heq => by cases heq
  have hsub : ∀ r ∈ s.process.manager.forgetDeleted.runtimes, r ∈ s.process.manager.runtimes :=
    fun r hr => List.mem_of_mem_filter hr
  have hbusy : ∀ q, s.process.position ≠ .awaiting q := by
    rw [hposition]
    exact fun q heq => by cases heq
  have hpasses : ¬s.process.position.Passes w.id := by
    rw [hposition]
    exact fun hpass => hpass
  -- a runtime that the server still lists is not forgotten
  have hstays : 1 ≤ n → Kept w (setup.rows s.server) →
      ∃ r ∈ s.process.manager.forgetDeleted.runtimes, r.workstationID = w.id := by
    intro hn hkept
    obtain ⟨hdesired, hid⟩ := h.present hn hkept
    obtain ⟨r, hr, hid⟩ := List.mem_map.mp hid
    exact ⟨r, List.mem_filter.mpr ⟨hr, by simp [hid, hdesired]⟩, hid⟩
  refine h.process hbusy ?_ (fun hn => ?_) (fun r hr hid => ?_) (fun hn hkept => ?_)
    ⟨fun r hr hid => hreached r (hsub r hr) hid, ?_, fun hn hkept => ?_⟩
  · exact (List.filter_sublist.map _).nodup h.nodup
  · change s.process.manager.runtimes.filter _ = []
    rw [h.fresh hn, List.filter_nil]
  · obtain ⟨hdesired, hmisled⟩ := h.runtimes r (hsub r hr) hid
    exact ⟨hdesired, fun _ => hmisled hpasses⟩
  · obtain ⟨r, hr, hid⟩ := hstays hn hkept
    exact ⟨(h.present hn hkept).1, hid ▸ List.mem_map_of_mem hr⟩
  · intro status hstatus hid
    obtain ⟨info, hinfo, rfl⟩ := List.mem_map.mp hstatus
    obtain ⟨r, hr, rfl⟩ := List.mem_map.mp hinfo
    have hr := hsub r ((List.mem_insertionSort _).mp hr)
    refine ⟨Nat.one_le_iff_ne_zero.mpr fun hn => ?_, Reached.tells (hreached r hr hid)⟩
    rw [h.fresh hn] at hr
    exact absurd hr List.not_mem_nil
  · obtain ⟨r, hr, hid⟩ := hstays hn hkept
    refine ⟨r.info.status, List.mem_map_of_mem (List.mem_map_of_mem ?_), hid⟩
    exact (List.mem_insertionSort _).mpr hr

/-- The request is sent. -/
theorem Recovering.sendHeartbeat (h : Recovering w setup n s) {statuses : List StatusReport}
    (hposition : s.process.position = .reconciled statuses) :
    Recovering w setup n ((s.setHandler q (.sent statuses)).goto (.awaiting q)) := by
  have hknown := h.position
  rw [hposition] at hknown
  obtain ⟨hreached, htell, hlisted⟩ := hknown
  have hpasses : ¬s.process.position.Passes w.id := by
    rw [hposition]
    exact fun hpass => hpass
  refine ⟨?_, h.nodup, h.fresh, fun r hr hid => ?_, h.present, h.settled, hreached, ?_⟩
  · rcases h.row with hkept | ⟨hdeleted, hgone, habsent, hn | ⟨_, q', hq'⟩⟩
    · exact .inl hkept
    · exact .inr ⟨hdeleted, hgone, habsent, .inl hn⟩
    · cases hposition.symm.trans hq'
  · obtain ⟨hdesired, hmisled⟩ := h.runtimes r hr hid
    exact ⟨hdesired, fun _ => hmisled hpasses⟩
  · change HandlerKnown w setup.workerID n _ _ _ ((s.setHandler q (.sent statuses)).handlers q)
    rw [State.setHandler_self]
    exact ⟨htell, hlisted⟩

/-- The worker adopts the desired list. -/
theorem Recovering.receive (h : Recovering w setup n s) {desired : List Fleet.DesiredWorkstation}
    (hposition : s.process.position = .awaiting q) (hq : s.handlers q = .responding desired) :
    Recovering w setup (n + 1) ({ s with
      process := ⟨s.process.manager.applyDesiredWorkstations (desired.map decodeDesired) true,
        .ready⟩ }.setHandler q .closed) := by
  have hknown := h.position
  rw [hposition] at hknown
  obtain ⟨hreached, hhandler⟩ := hknown
  rw [hq] at hhandler
  obtain ⟨hsettled, hnodup, hentries, hlisted, hunlisted⟩ := hhandler
  have hids : (desired.map decodeDesired).map (·.id) = desired.map (·.id) := by
    rw [List.map_map]
    rfl
  obtain ⟨hcarries, _⟩ := Manager.carries_applyDesiredWorkstations h.nodup (hids ▸ hnodup)
  -- a runtime with the handle of a start was there before, and has reached its state
  have hheld : ∀ r ∈ (s.process.manager.applyDesiredWorkstations
      (desired.map decodeDesired) true).runtimes, r.workstationID = w.id → r.vmProcess = true →
      AtRest w.desiredPowerState (s.host.machine w.vmName) := by
    refine Manager.forall_applyDesiredWorkstations ?_ ?_ ?_ ?_
    · exact fun _ _ _ _ hr => hr
    · exact fun _ _ _ hprocess => by cases hprocess
    · exact fun _ _ hr => hr
    · exact fun r hr hid _ => (hreached r hr hid).atRest
  refine ⟨?_, hcarries.nodup, fun hn => by omega, ?_, fun _ hkept => ?_, fun hn => ?_, trivial⟩
  · rcases h.row with hkept | ⟨hdeleted, hgone, habsent, hn⟩
    · exact .inl hkept
    · exact .inr ⟨hdeleted, hgone, habsent, .inl (by omega)⟩
  · intro r hr hid
    have hassigned : (r.workstationID, r.desiredPowerState) ∈
        (s.process.manager.applyDesiredWorkstations (desired.map decodeDesired) true).assignments :=
      List.mem_map_of_mem (f := fun r : Runtime => (r.workstationID, r.desiredPowerState)) hr
    have hdesired : r.desiredPowerState = .value w.desiredPowerState := by
      by_cases hmem : w.id ∈ desired.map (·.id)
      · obtain ⟨d, hd, hdID⟩ := List.mem_map.mp hmem
        have happlied := hcarries.applied _ hassigned (decodeDesired d) (List.mem_map_of_mem hd)
          (hdID.trans hid.symm)
        refine happlied.trans ?_
        rw [decodeDesired, hentries d hd hdID]
      · have hmarked := hcarries.marked _ hassigned (by rw [hids, hid]; exact hmem)
        rcases h.row with hkept | ⟨hdeleted, _⟩
        · exact absurd (hlisted hkept) hmem
        · exact hmarked.trans (hdeleted ▸ rfl)
    refine ⟨hdesired, fun _ => ?_⟩
    rintro ⟨hrunning, hprocess, hidle⟩
    have hrest := hheld r hr hid hprocess
    rw [Input.value.inj (hdesired.symm.trans hrunning)] at hrest
    exact hidle hrest
  · have hmem := hlisted hkept
    refine ⟨?_, ?_⟩
    · change w.id ∈ (desired.map decodeDesired).map (·.id)
      rw [hids]
      exact hmem
    · obtain ⟨d, hd, hid⟩ := List.mem_map.mp hmem
      have hpresent := hcarries.listed (decodeDesired d) (List.mem_map_of_mem hd)
      exact hid ▸ hpresent
  · refine ⟨hsettled (by omega), ?_⟩
    rcases h.row with hkept | ⟨hdeleted, _, habsent, _⟩
    · obtain ⟨_, hid⟩ := h.present (by omega) hkept
      obtain ⟨r, hr, hid⟩ := List.mem_map.mp hid
      exact (hreached r hr hid).atRest
    · change AtRest w.desiredPowerState (s.host.machine w.vmName)
      rw [hdeleted]
      exact habsent

/-- A calm step keeps the invariant. -/
theorem Recovering.step (h : Recovering w setup n s) (hinv : Inv setup s)
    (hreach : setup.server.system.Reachable s.server)
    (howned : Owned s.server.shared setup.workerID w.id)
    (hname : w.vmName = generateWorkstationVMName w.id) {e : Event} (hcalm : setup.Calm s e)
    (hstep : setup.step s e = some t) :
    Recovering w setup (n + e.answers) t := by
  obtain ⟨hok, hholds⟩ := setup.server.holds_of_reachable hreach
  cases Setup.step_effect hstep with
  | @server tx action server _ hnext =>
    by_cases hreports : s.Reports tx
    · obtain ⟨q, statuses, hposition, hq⟩ := hreports
      -- the worker owns the workstation for ever
      have hadvances := Advances.of_change hok (setup.server.step_change hreach hnext)
      exact h.reports hok howned (hholds tx) hposition hq (hcalm.1 ⟨q, statuses, hposition, hq⟩)
        (hadvances.owned _ _ howned) hnext
    · refine h.frame ?_ fun tx' hreports' => ?_
      · rw [hcalm.2 hreports server hnext]
        exact fun _ _ => Iff.rfl
      · obtain ⟨sh, local', _, rfl⟩ := Program.step_eq_some.mp hnext
        refine Function.update_of_ne ?_ ..
        rintro rfl
        exact hreports hreports'
  | arrive hq => exact h.arrive hcalm hq
  | record hq hnext =>
    have hrows := setup.rows_record hnext
    have hrecorded := h.frame (w := w) (fun row _ => by rw [hrows.1]) fun tx _ => hrows.2 tx
    exact Recovering.arrive hrecorded hcalm hq
  | report hq hnext => exact h.report hcalm hq hnext
  | reported hq hended => exact h.reported hcalm hq hended
  | list hq =>
    have hknown := h.position
    rw [show s.process.position = _ from hcalm] at hknown
    obtain ⟨_, hhandler⟩ := hknown
    rw [hq] at hhandler
    refine h.setHandler hcalm (handlerKnown_list hok howned ?_ fun hn => ?_)
    · exact h.row.imp_right fun hrow => hrow.2.1
    · refine (hhandler.2 hn).resolve_right ?_
      rintro ⟨status, hmem, _⟩
      exact absurd hmem List.not_mem_nil
  | drop | giveUp | restart | powerOff => exact hcalm.elim
  | startPass hposition horder =>
    have hmem : ∀ r ∈ s.process.manager.runtimes, r.workstationID ∈ _ := fun r hr =>
      (List.isPerm_iff.mp horder).mem_iff.mpr (List.mem_map_of_mem hr)
    refine h.goto (fun q heq => by cases hposition.symm.trans heq) ?_ ⟨?_, ?_⟩
    · rw [hposition]
      exact fun hpass => hpass
    · intro htodo _ r hr hid
      exact absurd (hid ▸ hmem r hr) htodo
    · rintro _ _ ⟨⟩
  | startRuntime | skipRuntime => exact h.startRuntime hinv hok howned.known hname hstep
  | tart hposition hexec =>
    exact h.tart hinv hok howned.known hname hposition hexec (hcalm _ _ _ _ _ hposition hexec)
  | finishRuntime hposition => exact h.finishRuntime hinv hposition
  | finishPass hposition => exact h.finishPass hposition
  | skipHeartbeat hposition =>
    refine h.goto (fun q heq => by cases hposition.symm.trans heq) ?_ trivial
    rw [hposition]
    exact fun hpass => hpass
  | sendHeartbeat hposition _ => exact h.sendHeartbeat hposition
  | receive hposition hq => exact h.receive hposition hq

/-- A worker that has just started knows nothing. -/
theorem Recovering.start (hfresh : s.process = .fresh)
    (hw : w ∈ s.server.shared.db.workstations) (hworker : w.workerID = setup.workerID) :
    Recovering w setup 0 s := by
  have hrow : w ∈ setup.rows s.server := List.mem_filter.mpr ⟨hw, decide_eq_true hworker⟩
  have hempty : s.process.manager.runtimes = [] := by
    rw [hfresh]
    rfl
  refine ⟨.inl ⟨w, hrow, rfl, rfl⟩, ?_, fun _ => hempty, ?_, fun hn => absurd hn (by decide),
    fun hn => absurd hn (by decide), ?_⟩
  · rw [hfresh]
    exact List.nodup_nil
  · rw [hempty]
    exact fun r hr => absurd hr List.not_mem_nil
  · rw [hfresh]
    trivial

/-- The invariant holds along a calm run, whose states are states of the system. -/
theorem Setup.CalmRun.recovering (hrun : setup.CalmRun s n t)
    (hreach : (setup.system host).Reachable s) (hfresh : s.process = .fresh)
    (hw : w ∈ s.server.shared.db.workstations) (hworker : w.workerID = setup.workerID) :
    (setup.system host).Reachable t ∧ Owned t.server.shared setup.workerID w.id ∧
      Recovering w setup n t := by
  obtain ⟨hok, _⟩ := setup.server.holds_of_reachable (setup.server_reachable hreach)
  have hname := hok.vmNames w hw
  induction hrun with
  | start =>
    have hsame : ∀ row ∈ s.server.shared.db.workstations, row.id = w.id → row = w :=
      fun row hrow hid => List.inj_on_of_nodup_map hok.ids hrow hw hid
    refine ⟨hreach, ⟨Shared.Known.of_mem hok hw, fun row hrow hid => ?_⟩, .start hfresh hw hworker⟩
    rw [hsame row hrow hid]
    exact hworker
  | @step n t u e _ hcalm hstep ih =>
    obtain ⟨hreach, howned, hrecovering⟩ := ih
    have hserver := setup.server_reachable hreach
    obtain ⟨hok, _⟩ := setup.server.holds_of_reachable hserver
    refine ⟨hreach.next hstep, ?_,
      hrecovering.step (setup.inv_of_reachable hreach) hserver howned hname hcalm hstep⟩
    rcases (Setup.step_effect hstep).server_next with heq | ⟨⟨e', hnext⟩, _⟩
    · rw [heq]
      exact howned
    · exact (Advances.of_change hok (setup.server.step_change hserver hnext)).owned _ _ howned

end Steps

/-- Whatever has happened before, once a worker that has started in calm weather has
received two answers, each VM of its workstations is as desired, and the server knows
it: the row shows the state and the address of the VM, or is gone with it. -/
theorem Setup.recovers (setup : Setup) (host : Host) {s t : State} {n : ℕ}
    (hreach : (setup.system host).Reachable s) (hfresh : s.process = .fresh)
    (hrun : setup.CalmRun s n t) (hn : 2 ≤ n) :
    ∀ w ∈ s.server.shared.db.workstations, w.workerID = setup.workerID →
      AtRest w.desiredPowerState (t.host.machine w.vmName) ∧
      RowSettled w (t.host.machine w.vmName) t.server.shared.db.workstations := by
  intro w hw hworker
  obtain ⟨_, howned, hrecovering⟩ := hrun.recovering hreach hfresh hw hworker
  obtain ⟨hsettled, hrest⟩ := hrecovering.settled hn
  refine ⟨hrest, ?_⟩
  rcases hsettled with ⟨hdeleted, hgone⟩ | ⟨row, hrow, hid, hfits⟩
  · refine .inl ⟨hdeleted, fun row hrow hid => ?_⟩
    exact hgone row ((mem_rows_iff howned hid).mpr hrow) hid
  · exact .inr ⟨row, (mem_rows_iff howned hid).mp hrow, hid, hfits⟩

/-- The state in which a worker restarts while the VM that it has started runs. -/
def restarted : State :=
  (runEvents plainSetup.step (initial []) (startedThenOff.dropLast ++ [.restart])).getD (initial [])

/-- A calm run from there: the worker learns of the VM, finds it running and reports it. -/
theorem calmRun_restarted : ∃ t, plainSetup.CalmRun restarted 2 t := by
  have hget : SettledStep "ws-id1" (.on "10.0.0.2") (.get "ws-id1") (.exited 0 "" "")
      (.on "10.0.0.2") := loneTart_settled "ws-id1" (some true) (.get "ws-id1")
  have hdeadline : SettledStep "ws-id1" (.on "10.0.0.2") .beforeDeadline (.exited 0 "" "")
      (.on "10.0.0.2") := loneTart_settled "ws-id1" (some true) .beforeDeadline
  have hip : SettledStep "ws-id1" (.on "10.0.0.2") (.ip "ws-id1") (.exited 0 "10.0.0.2" "")
      (.on "10.0.0.2") := loneTart_settled "ws-id1" (some true) (.ip "ws-id1")
  have hstart : plainSetup.CalmRun restarted 0 restarted := .start
  have hanswered := hstart
    |>.step (e := .startPass []) trivial rfl
    |>.step (e := .finishPass) trivial rfl
    |>.step (e := .sendHeartbeat 1) trivial rfl
    |>.step (e := .arrive 1 none) rfl rfl
    |>.step (e := .list 1) rfl rfl
    |>.step (e := .receive) trivial rfl
  have hpass := hanswered
    |>.step (e := .startPass ["id-1"]) trivial rfl
    |>.step (e := .startRuntime) trivial rfl
    |>.step (e := .tart (.exited 0 "" "") false) (by
      rintro _ _ _ _ _ ⟨⟩ ⟨⟩
      exact hget) rfl
    |>.step (e := .tart (.exited 0 "" "") false) (by
      rintro _ _ _ _ _ ⟨⟩ ⟨⟩
      exact hget) rfl
    |>.step (e := .tart (.exited 0 "" "") false) (by
      rintro _ _ _ _ _ ⟨⟩ ⟨⟩
      exact hdeadline) rfl
    |>.step (e := .tart (.exited 0 "10.0.0.2" "") false) (by
      rintro _ _ _ _ _ ⟨⟩ ⟨⟩
      exact hip) rfl
    |>.step (e := .finishRuntime) trivial rfl
    |>.step (e := .finishPass) trivial rfl
  have hreported := hpass
    |>.step (e := .sendHeartbeat 2) trivial rfl
    |>.step (e := .arrive 2 none) rfl rfl
    |>.step (e := .report 2 4) rfl rfl
    |>.step (e := .server 4 (.row (.selectForUpdate 160)))
      ⟨fun _ => by decide, absurd ⟨2, _, rfl, rfl⟩⟩ rfl
    |>.step (e := .server 4 (.row .write)) ⟨fun _ => by decide, absurd ⟨2, _, rfl, rfl⟩⟩ rfl
    |>.step (e := .server 4 (.row .commit)) ⟨fun _ => by decide, absurd ⟨2, _, rfl, rfl⟩⟩ rfl
    |>.step (e := .reported 2) rfl rfl
    |>.step (e := .list 2) rfl rfl
    |>.step (e := .receive) trivial rfl
  exact ⟨_, hreported⟩

/-- A worker is restarted while the VM of its workstation runs; two answers later the VM is
at rest, and the row says so. -/
theorem recovers_restarted : (plainSetup.system []).Reachable restarted ∧
    restarted.process = .fresh ∧ ∃ t w, plainSetup.CalmRun restarted 2 t ∧
      restarted.server.shared.db.workstations = [w] ∧ w.workerID = plainSetup.workerID ∧
      AtRest w.desiredPowerState (t.host.machine w.vmName) ∧
      RowSettled w (t.host.machine w.vmName) t.server.shared.db.workstations := by
  have hevents : runEvents plainSetup.step (initial []) (startedThenOff.dropLast ++ [.restart]) =
      some restarted := rfl
  have hreach : (plainSetup.system []).Reachable restarted := reachable_of_runEvents rfl hevents
  obtain ⟨t, hrun⟩ := calmRun_restarted
  refine ⟨hreach, rfl, t, _, hrun, rfl, rfl, ?_⟩
  exact plainSetup.recovers [] hreach rfl hrun le_rfl _ (List.mem_singleton_self _) rfl

end MiniControl.Heartbeat
