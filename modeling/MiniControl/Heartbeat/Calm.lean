import MiniControl.Heartbeat.Safety
import MiniControl.WorkerCore.Steadiness

/-!
# Calm weather

In calm weather no request of the worker is lost and none of an earlier process is
served, the worker is not restarted, nobody changes the rows of this worker, the
transactions of its reports do not fail, and Tart behaves normally towards the VM it
is asked about.

`Recovering` is what a worker that starts in calm weather and the server know about one
workstation after some answers to its heartbeats. This file is about the server's
steps, in whatever order they are taken.
-/

namespace MiniControl.Heartbeat

open Transition Fleet WorkerCore

/-- The rows of the worker. -/
def Setup.rows (setup : Setup) (server : Fleet.State) : List Workstation :=
  server.shared.db.workstations.filter (·.workerID = setup.workerID)

/-- The transaction is one of the request that the worker waits for. -/
def State.Reports (s : State) (tx : ℕ) : Prop :=
  ∃ q statuses, s.process.position = .awaiting q ∧ s.handlers q = .reporting statuses (some tx)

/-- The steps of calm weather. -/
def Setup.Calm (setup : Setup) (s : State) : Event → Prop
  | .server tx action =>
      (s.Reports tx → action ≠ .row .fail) ∧
      (¬s.Reports tx → ∀ server, setup.server.program.step s.server (tx, action) = some server →
        setup.rows server = setup.rows s.server)
  | .arrive q _ | .report q _ | .reported q | .list q => s.process.position = .awaiting q
  | .tart reply effect => ∀ todo r c next host,
      s.process.position = .reconciling todo (some (r, .call c next)) →
      s.host.exec c reply effect = some host →
      SettledStep r.vmName (s.host.machine r.vmName) c reply (host.machine r.vmName)
  | .drop _ | .giveUp | .restart | .powerOff _ => False
  | .startPass _ | .startRuntime | .finishRuntime | .finishPass | .skipHeartbeat
  | .sendHeartbeat _ | .receive => True

/-- The answers to heartbeats that the worker receives in a step. -/
def Event.answers : Event → ℕ
  | .receive => 1
  | _ => 0

/-- A run in calm weather, with the number of its answers to heartbeats. -/
inductive Setup.CalmRun (setup : Setup) (s : State) : ℕ → State → Prop
  | start : CalmRun setup s 0 s
  | step {n : ℕ} {t u : State} {e : Event} : CalmRun setup s n t → setup.Calm t e →
      setup.step t e = some u → CalmRun setup s (n + e.answers) u

/-- A pass of the workstation is under way. -/
def Position.Passes (id : String) : Position → Prop
  | .reconciling _ (some (r, _)) => r.workstationID = id
  | _ => False

section Invariant

variable (w : Workstation)

/-- The row of the workstation is there, with its desired state. -/
def Kept (rows : List Workstation) : Prop :=
  ∃ row ∈ rows, row.id = w.id ∧ row.desiredPowerState = w.desiredPowerState

/-- The row of the workstation is gone. -/
def Gone (rows : List Workstation) : Prop := ∀ row ∈ rows, row.id ≠ w.id

/-- What a row says of a VM in the desired state. -/
def Fits (m : Machine) (row : Workstation) : DesiredPowerState → Prop
  | .running => row.powerState = .running ∧
      ∃ address, m = .on address ∧ row.ipAddress = Text.trimSpace address
  | .stopped => row.powerState = .stopped ∧ row.ipAddress = ""
  | .deleted => False

/-- What a report says of a VM in the desired state. -/
def Tells (m : Machine) (status : StatusReport) : DesiredPowerState → Prop
  | .running => status.powerState = .value .running ∧ m = .on status.ipAddress
  | .stopped => status.powerState = .value .stopped ∧ status.ipAddress = ""
  | .deleted => status.powerState = .value .deleted ∧ m = .absent

/-- The server knows that the desired state is reached: the row says so, or it is gone. -/
def RowSettled (m : Machine) (rows : List Workstation) : Prop :=
  (w.desiredPowerState = .deleted ∧ Gone w rows) ∨
    ∃ row ∈ rows, row.id = w.id ∧ Fits m row w.desiredPowerState

/-- What is known at each position of the transaction that reports the workstation. -/
def PhaseKnown (m : Machine) (rows : List Workstation) : RowPhase → Prop
  | .begun => True
  | .locked row _ => row ∈ rows ∧ row.id = w.id
  | .written (.put row) _ => row.id = w.id ∧ row.desiredPowerState = w.desiredPowerState ∧
      Fits m row w.desiredPowerState
  | .written .remove _ => w.desiredPowerState = .deleted ∧ m = .absent
  | .finished _ => RowSettled w m rows

/-- The runtimes of the workstation have reached the desired state. -/
def AllReached (m : Machine) (runtimes : List Runtime) : Prop :=
  ∀ r ∈ runtimes, r.workstationID = w.id → Reached w.desiredPowerState m r.info

/-- The reports of the workstation are right, and there are none before the first answer. -/
def AllTell (n : ℕ) (m : Machine) (statuses : List StatusReport) : Prop :=
  ∀ status ∈ statuses, status.workstationID = w.id → 1 ≤ n ∧ Tells m status w.desiredPowerState

/-- The workstation is among the reports. -/
def Listed (statuses : List StatusReport) : Prop :=
  ∃ status ∈ statuses, status.workstationID = w.id

/-- What is known of the request that the worker waits for, after `n` answers. -/
def HandlerKnown (workerID : String) (n : ℕ) (m : Machine) (rows : List Workstation)
    (locals : ℕ → Transaction) : Handler → Prop
  | .sent statuses => AllTell w n m statuses ∧ (1 ≤ n → Kept w rows → Listed w statuses)
  | .reporting statuses none => AllTell w n m statuses ∧
      (1 ≤ n → RowSettled w m rows ∨ Listed w statuses)
  | .reporting statuses (some tx) => AllTell w n m statuses ∧ ∃ status phase,
      locals tx = .row (.reportStatus workerID status) phase ∧
      (status.workstationID = w.id →
        1 ≤ n ∧ Tells m status w.desiredPowerState ∧ PhaseKnown w m rows phase) ∧
      (1 ≤ n → status.workstationID ≠ w.id → RowSettled w m rows ∨ Listed w statuses)
  | .responding desired => (1 ≤ n → RowSettled w m rows) ∧ (desired.map (·.id)).Nodup ∧
      (∀ d ∈ desired, d.id = w.id → d.desiredPowerState = w.desiredPowerState) ∧
      (Kept w rows → w.id ∈ desired.map (·.id)) ∧ (Gone w rows → w.id ∉ desired.map (·.id))
  | .unused | .closed => False

/-- What is known at each position of the worker, after `n` answers. -/
def PositionKnown (workerID : String) (n : ℕ) (s : State) (rows : List Workstation) :
    Position → Prop
  | .ready => True
  | .reconciling todo current =>
      (w.id ∉ todo → (∀ r p, current = some (r, p) → r.workstationID ≠ w.id) →
        AllReached w (s.host.machine w.vmName) s.process.manager.runtimes) ∧
      ∀ r p, current = some (r, p) → r.workstationID = w.id →
        r.desiredPowerState = .value w.desiredPowerState ∧
        p.wp (SettledStep w.vmName) (fun m c => 2 ≤ n → Keeps w.vmName m c)
          (fun new m => Reached w.desiredPowerState m new.info) (s.host.machine w.vmName)
  | .reconciled statuses => AllReached w (s.host.machine w.vmName) s.process.manager.runtimes ∧
      AllTell w n (s.host.machine w.vmName) statuses ∧ (1 ≤ n → Kept w rows → Listed w statuses)
  | .awaiting q => AllReached w (s.host.machine w.vmName) s.process.manager.runtimes ∧
      HandlerKnown w workerID n (s.host.machine w.vmName) rows s.server.locals (s.handlers q)

/-- The invariant of a calm run after `n` answers, for one workstation. A pass of it may
leave its VM in between for a while, as long as the server does not know better. -/
structure Recovering (setup : Setup) (n : ℕ) (s : State) : Prop where
  row : Kept w (setup.rows s.server) ∨ (w.desiredPowerState = .deleted ∧
    Gone w (setup.rows s.server) ∧ s.host.machine w.vmName = .absent ∧
    (2 ≤ n ∨ (n = 1 ∧ ∃ q, s.process.position = .awaiting q)))
  nodup : s.process.manager.ids.Nodup
  fresh : n = 0 → s.process.manager.runtimes = []
  runtimes : ∀ r ∈ s.process.manager.runtimes, r.workstationID = w.id →
    r.desiredPowerState = .value w.desiredPowerState ∧
      (¬s.process.position.Passes w.id → ¬r.Misled (s.host.machine w.vmName))
  present : 1 ≤ n → Kept w (setup.rows s.server) →
    w.id ∈ s.process.manager.desiredIDs ∧ w.id ∈ s.process.manager.ids
  settled : 2 ≤ n → RowSettled w (s.host.machine w.vmName) (setup.rows s.server) ∧
    AtRest w.desiredPowerState (s.host.machine w.vmName)
  position : PositionKnown w setup.workerID n s (setup.rows s.server) s.process.position

end Invariant

section Rows

variable {w : Workstation} {m : Machine} {rows rows' : List Workstation}

/-- The tables have the same row of the workstation. -/
def SameRow (w : Workstation) (rows rows' : List Workstation) : Prop :=
  ∀ row : Workstation, row.id = w.id → (row ∈ rows' ↔ row ∈ rows)

/-- The row of the workstation is kept in the one table if it is in the other. -/
theorem SameRow.kept (h : SameRow w rows rows') : Kept w rows' ↔ Kept w rows := by
  constructor
  · rintro ⟨row, hrow, hid, hdesired⟩
    exact ⟨row, (h row hid).mp hrow, hid, hdesired⟩
  · rintro ⟨row, hrow, hid, hdesired⟩
    exact ⟨row, (h row hid).mpr hrow, hid, hdesired⟩

/-- The row of the workstation stays away. -/
theorem SameRow.gone (h : SameRow w rows rows') (hgone : Gone w rows) : Gone w rows' :=
  fun row hrow hid => hgone row ((h row hid).mp hrow) hid

/-- A row that shows the state of its VM goes on showing it. -/
theorem SameRow.settled (h : SameRow w rows rows') (hsettled : RowSettled w m rows) :
    RowSettled w m rows' := by
  rcases hsettled with ⟨hdeleted, hgone⟩ | ⟨row, hrow, hid, hfits⟩
  · exact .inl ⟨hdeleted, h.gone hgone⟩
  · exact .inr ⟨row, (h row hid).mpr hrow, hid, hfits⟩

/-- A transaction that reports for the workstation still knows what it knows. -/
theorem SameRow.phase (h : SameRow w rows rows') {phase : RowPhase}
    (hphase : PhaseKnown w m rows phase) : PhaseKnown w m rows' phase := by
  match phase, hphase with
  | .begun, _ => trivial
  | .locked row _, ⟨hrow, hid⟩ => exact ⟨(h row hid).mpr hrow, hid⟩
  | .written (.put _) _, hput => exact hput
  | .written .remove _, hremove => exact hremove
  | .finished _, hsettled => exact h.settled hsettled

/-- And so does the handler of a heartbeat. -/
theorem SameRow.handler (h : SameRow w rows rows') {workerID : String} {n : ℕ}
    {locals : ℕ → Transaction} {handler : Handler}
    (hhandler : HandlerKnown w workerID n m rows locals handler) :
    HandlerKnown w workerID n m rows' locals handler := by
  match handler, hhandler with
  | .sent _, ⟨htell, hlisted⟩ => exact ⟨htell, fun hn hkept => hlisted hn (h.kept.mp hkept)⟩
  | .reporting _ none, ⟨htell, hsettled⟩ =>
    exact ⟨htell, fun hn => (hsettled hn).imp_left h.settled⟩
  | .reporting _ (some tx), ⟨htell, status, phase, hlocal, hown, hother⟩ =>
    refine ⟨htell, status, phase, hlocal, fun hid => ?_, fun hn hid => ?_⟩
    · obtain ⟨hn, htells, hphase⟩ := hown hid
      exact ⟨hn, htells, h.phase hphase⟩
    · exact (hother hn hid).imp_left h.settled
  | .responding _, ⟨hsettled, hnodup, hdesired, hkept, hgone⟩ =>
    refine ⟨fun hn => h.settled (hsettled hn), hnodup, hdesired, fun hk => hkept (h.kept.mp hk), ?_⟩
    intro hgone'
    exact hgone fun row hrow hid => hgone' row ((h row hid).mpr hrow) hid

/-- A row that is there is not gone. -/
theorem Kept.not_gone (h : Kept w rows) (hgone : Gone w rows) : False := by
  obtain ⟨row, hrow, hid, _⟩ := h
  exact hgone row hrow hid

end Rows

section Steps

variable {w : Workstation} {setup : Setup} {n : ℕ} {s : State} {server : Fleet.State} {t : State}
  {q tx : ℕ} {row : Workstation} {action : RowAction} {m : Machine} {status : StatusReport}
  {sh : Shared} {statuses : List StatusReport}

/-- A step of the database that leaves the row and the transactions of the reports. -/
theorem Recovering.frame (h : Recovering w setup n s)
    (hrows : SameRow w (setup.rows s.server) (setup.rows server))
    (hlocals : ∀ tx, s.Reports tx → server.locals tx = s.server.locals tx) :
    Recovering w setup n { s with server } := by
  refine ⟨?_, h.nodup, h.fresh, h.runtimes, fun hn hkept => h.present hn (hrows.kept.mp hkept),
    ?_, ?_⟩
  · rcases h.row with hkept | ⟨hdeleted, hgone, hrest⟩
    · exact .inl (hrows.kept.mpr hkept)
    · exact .inr ⟨hdeleted, hrows.gone hgone, hrest⟩
  · intro hn
    obtain ⟨hsettled, hrest⟩ := h.settled hn
    exact ⟨hrows.settled hsettled, hrest⟩
  · have hknown := h.position
    match hposition : s.process.position, hknown with
    | .ready, _ => trivial
    | .reconciling _ _, hpass => exact hpass
    | .reconciled _, ⟨hreached, htell, hlisted⟩ =>
      exact ⟨hreached, htell, fun hn hkept => hlisted hn (hrows.kept.mp hkept)⟩
    | .awaiting q, ⟨hreached, hhandler⟩ =>
      refine ⟨hreached, hrows.handler ?_⟩
      match hq : s.handlers q, hhandler with
      | .sent _, hsent => exact hsent
      | .reporting _ none, hreporting => exact hreporting
      | .reporting statuses (some tx), ⟨htell, status, phase, hlocal, hrest⟩ =>
        have hsame := hlocals tx ⟨q, statuses, hposition, hq⟩
        exact ⟨htell, status, phase, hsame.trans hlocal, hrest⟩
      | .responding _, hresponding => exact hresponding

/-- A step of the server while the worker waits. -/
theorem Recovering.awaiting (h : Recovering w setup n s)
    (hposition : s.process.position = .awaiting q) (hprocess : t.process = s.process)
    (hhost : t.host = s.host)
    (hrow : Kept w (setup.rows t.server) ∨ (w.desiredPowerState = .deleted ∧
      Gone w (setup.rows t.server) ∧ s.host.machine w.vmName = .absent ∧ 1 ≤ n))
    (hkept : Kept w (setup.rows t.server) → Kept w (setup.rows s.server))
    (hsettled : 2 ≤ n → RowSettled w (s.host.machine w.vmName) (setup.rows t.server))
    (hhandler : HandlerKnown w setup.workerID n (s.host.machine w.vmName) (setup.rows t.server)
      t.server.locals (t.handlers q)) : Recovering w setup n t := by
  have hknown := h.position
  rw [hposition] at hknown
  refine ⟨?_, ?_, ?_, ?_, ?_, ?_, ?_⟩
  · rcases hrow with hkept | ⟨hdeleted, hgone, habsent, hn⟩
    · exact .inl hkept
    · refine .inr ⟨hdeleted, hgone, hhost ▸ habsent, ?_⟩
      rcases Nat.lt_or_ge n 2 with hlt | hge
      · exact .inr ⟨by omega, q, hprocess ▸ hposition⟩
      · exact .inl hge
  · rw [hprocess]
    exact h.nodup
  · rw [hprocess]
    exact h.fresh
  · rw [hprocess, hhost]
    exact h.runtimes
  · rw [hprocess]
    exact fun hn hk => h.present hn (hkept hk)
  · rw [hhost]
    exact fun hn => ⟨hsettled hn, (h.settled hn).2⟩
  · rw [hprocess, hposition]
    refine ⟨?_, ?_⟩
    · rw [hprocess, hhost]
      exact hknown.1
    · rw [hhost]
      exact hhandler

/-- The same when the row stays as it is. -/
theorem Recovering.awaiting_same (h : Recovering w setup n s)
    (hposition : s.process.position = .awaiting q) (hprocess : t.process = s.process)
    (hhost : t.host = s.host) (hrows : SameRow w (setup.rows s.server) (setup.rows t.server))
    (hhandler : HandlerKnown w setup.workerID n (s.host.machine w.vmName) (setup.rows t.server)
      t.server.locals (t.handlers q)) : Recovering w setup n t := by
  refine h.awaiting hposition hprocess hhost ?_ hrows.kept.mp
    (fun hn => hrows.settled (h.settled hn).1) hhandler
  rcases h.row with hkept | ⟨hdeleted, hgone, habsent, hn⟩
  · exact .inl (hrows.kept.mpr hkept)
  · exact .inr ⟨hdeleted, hrows.gone hgone, habsent, by omega⟩

/-- Which rows of the worker have the id of the workstation. -/
theorem mem_rows_iff (howned : Owned server.shared setup.workerID w.id) (hid : row.id = w.id) :
    row ∈ setup.rows server ↔ row ∈ server.shared.db.workstations := by
  rw [Setup.rows, List.mem_filter, decide_eq_true_eq, and_iff_left_iff_imp]
  exact fun hrow => howned.worker row hrow hid

/-- The report of another workstation leaves the row. -/
theorem sameRow_of_executes {sh sh' : Shared} {op : RowOp} {phase phase' : RowPhase}
    (hexecutes : op.Executes sh tx phase action sh' phase') (hholds : phase.Holds sh tx op)
    (hid : op.workstationID ≠ w.id) :
    SameRow w sh.db.workstations sh'.db.workstations := by
  intro row hrow
  have hne : row.id ≠ op.workstationID := by
    rw [hrow]
    exact Ne.symm hid
  cases hexecutes with
  | missing | lock | answer | vanished | put | remove | giveUp | fail | rollback => exact Iff.rfl
  | commitPut =>
    obtain ⟨old, ⟨_, _, hold⟩, hnew⟩ := hholds
    exact Tables.mem_update_iff_of_ne (fun _ _ => hnew.id.trans hold) hne
  | commitRemove => exact Tables.mem_delete.trans (and_iff_left hne)

/-- The decision about the row when a right report arrives. -/
theorem decision_of_tells (now : Time) (htells : Tells m status w.desiredPowerState)
    (hworker : row.workerID = setup.workerID)
    (hdesired : row.desiredPowerState = w.desiredPowerState) :
    (w.desiredPowerState = .deleted ∧ m = .absent ∧
      updateWorkstationStatus now setup.workerID status row = .delete) ∨
    ∃ set, updateWorkstationStatus now setup.workerID status row = .update set ∧
      ∀ current : Workstation, (set current).id = current.id ∧
        (set current).desiredPowerState = current.desiredPowerState ∧
        Fits m (set current) w.desiredPowerState := by
  have hempty : Text.trimSpace "" = "" := by decide
  unfold updateWorkstationStatus
  rw [if_neg (not_not.mpr hworker), hdesired]
  cases hd : w.desiredPowerState with
  | running =>
    rw [hd] at htells
    obtain ⟨hstate, haddress⟩ := htells
    right
    simp only [hstate, reduceCtorEq, and_false, if_false]
    exact ⟨_, rfl, fun current => ⟨rfl, rfl, rfl, _, haddress, rfl⟩⟩
  | stopped =>
    rw [hd] at htells
    obtain ⟨hstate, haddress⟩ := htells
    right
    simp only [hstate, haddress, hempty, reduceCtorEq, and_false, if_false]
    exact ⟨_, rfl, fun current => ⟨rfl, rfl, rfl, rfl⟩⟩
  | deleted =>
    rw [hd] at htells
    obtain ⟨hstate, habsent⟩ := htells
    left
    simp only [hstate, and_self, if_true]
    exact ⟨trivial, habsent, trivial⟩

/-- A statement of the report of the workstation itself: what is known next, and the row
that it commits. -/
theorem Recovering.own_report (h : Recovering w setup n s) (hok : s.server.shared.Ok)
    (howned : Owned s.server.shared setup.workerID w.id) {phase phase' : RowPhase}
    (hid : status.workstationID = w.id)
    (htells : Tells (s.host.machine w.vmName) status w.desiredPowerState)
    (hphase : PhaseKnown w (s.host.machine w.vmName) s.server.shared.db.workstations phase)
    (hfails : action ≠ .fail)
    (hexecutes : (RowOp.reportStatus setup.workerID status).Executes s.server.shared tx phase
      action sh phase') :
    PhaseKnown w (s.host.machine w.vmName) sh.db.workstations phase' ∧
      (SameRow w s.server.shared.db.workstations sh.db.workstations ∨
        RowSettled w (s.host.machine w.vmName) sh.db.workstations ∧
          ((Kept w sh.db.workstations ∧ Kept w s.server.shared.db.workstations) ∨
            (w.desiredPowerState = .deleted ∧ Gone w sh.db.workstations ∧
              s.host.machine w.vmName = .absent))) := by
  have hsame : SameRow w s.server.shared.db.workstations s.server.shared.db.workstations :=
    fun _ _ => Iff.rfl
  -- a row with the id is the kept one
  have hkept : ∀ row ∈ s.server.shared.db.workstations, row.id = w.id →
      row.workerID = setup.workerID ∧ row.desiredPowerState = w.desiredPowerState := by
    intro row hrow hrowID
    refine ⟨howned.worker row hrow hrowID, ?_⟩
    rcases h.row with ⟨kept, hkept, hkeptID, hdesired⟩ | ⟨_, hgone, _⟩
    · have hmem := (mem_rows_iff howned hkeptID).mp hkept
      rw [List.inj_on_of_nodup_map hok.ids hrow hmem (hrowID.trans hkeptID.symm)]
      exact hdesired
    · exact absurd hrowID (hgone row ((mem_rows_iff howned hrowID).mpr hrow))
  cases hexecutes with
  | missing hnone =>
    refine ⟨?_, .inl hsame⟩
    have hgone : Gone w s.server.shared.db.workstations := by
      intro row hrow hrowID
      refine List.find?_eq_none.mp hnone row hrow ?_
      simpa [RowOp.selects] using hrowID.trans hid.symm
    rcases h.row with ⟨row, hrow, hrowID, _⟩ | ⟨hdeleted, _⟩
    · exact absurd hrowID (hgone row ((mem_rows_iff howned hrowID).mp hrow))
    · exact .inl ⟨hdeleted, hgone⟩
  | lock hfound _ =>
    refine ⟨⟨List.mem_of_find?_eq_some hfound, ?_⟩, .inl hsame⟩
    have hselects := List.find?_some hfound
    simp only [RowOp.selects, decide_eq_true_eq] at hselects
    exact hselects.trans hid
  | @answer now row _ hanswer =>
    obtain ⟨hworker, hdesired⟩ := hkept row hphase.1 hphase.2
    rcases decision_of_tells now htells hworker hdesired with ⟨_, _, hdelete⟩ | ⟨set, hset, _⟩
    · cases hdelete.symm.trans hanswer
    · cases hset.symm.trans hanswer
  | vanished _ hnone =>
    refine absurd ?_ (List.find?_eq_none.mp hnone _ hphase.1)
    exact decide_eq_true (hphase.2.trans hid.symm)
  | @put now row current set hupdate hfound =>
    obtain ⟨hworker, hdesired⟩ := hkept row hphase.1 hphase.2
    have hcurrent : current = row := by
      refine List.inj_on_of_nodup_map hok.ids (List.mem_of_find?_eq_some hfound) hphase.1 ?_
      have hmatch := List.find?_some hfound
      have hfoundID : current.id = status.workstationID := of_decide_eq_true hmatch
      exact hfoundID.trans (hid.trans hphase.2.symm)
    subst hcurrent
    refine ⟨?_, .inl hsame⟩
    rcases decision_of_tells now htells hworker hdesired with ⟨_, _, hdelete⟩ | ⟨set', hset, hrow⟩
    · cases hdelete.symm.trans hupdate
    · cases hset.symm.trans hupdate
      obtain ⟨hrowID, hrowDesired, hfits⟩ := hrow current
      exact ⟨hrowID.trans hphase.2, hrowDesired.trans hdesired, hfits⟩
  | @remove now row hdelete =>
    obtain ⟨hworker, hdesired⟩ := hkept row hphase.1 hphase.2
    refine ⟨?_, .inl hsame⟩
    rcases decision_of_tells now htells hworker hdesired with ⟨hd, habsent, _⟩ | ⟨set, hset, _⟩
    · exact ⟨hd, habsent⟩
    · cases hset.symm.trans hdelete
  | @commitPut row reply =>
    obtain ⟨hrowID, hrowDesired, hfits⟩ := hphase
    have hlive : ∃ old ∈ s.server.shared.db.workstations, old.id = w.id ∧
        old.desiredPowerState = w.desiredPowerState := by
      rcases h.row with ⟨kept, hkept, hkeptID, hdesired⟩ | ⟨hdeleted, _⟩
      · exact ⟨kept, (mem_rows_iff howned hkeptID).mp hkept, hkeptID, hdesired⟩
      · rw [hdeleted] at hfits
        exact hfits.elim
    obtain ⟨old, hold, holdID, holdDesired⟩ := hlive
    have hmem : row ∈ Tables.update Workstation.id status.workstationID (fun _ => row)
        s.server.shared.db.workstations :=
      Tables.mem_update_of_mem hold (holdID.trans hid.symm)
    have hsettled : RowSettled w (s.host.machine w.vmName) (Tables.update Workstation.id
        status.workstationID (fun _ => row) s.server.shared.db.workstations) :=
      .inr ⟨row, hmem, hrowID, hfits⟩
    exact ⟨hsettled, .inr ⟨hsettled, .inl ⟨⟨row, hmem, hrowID, hrowDesired⟩,
      ⟨old, hold, holdID, holdDesired⟩⟩⟩⟩
  | commitRemove =>
    obtain ⟨hdeleted, habsent⟩ := hphase
    have hgone : Gone w (Tables.delete Workstation.id status.workstationID
        s.server.shared.db.workstations) := by
      intro row hrow hrowID
      exact (Tables.mem_delete.mp hrow).2 (hrowID.trans hid.symm)
    exact ⟨.inl ⟨hdeleted, hgone⟩, .inr ⟨.inl ⟨hdeleted, hgone⟩, .inr ⟨hdeleted, hgone, habsent⟩⟩⟩
  | giveUp | fail | rollback => exact absurd rfl hfails

/-- Which tables have the same row, seen from the rows of the worker. -/
theorem SameRow.rows (howned : Owned s.server.shared setup.workerID w.id)
    (howned' : Owned server.shared setup.workerID w.id)
    (h : SameRow w s.server.shared.db.workstations server.shared.db.workstations) :
    SameRow w (setup.rows s.server) (setup.rows server) := by
  intro row hid
  rw [mem_rows_iff howned hid, mem_rows_iff howned' hid]
  exact h row hid

/-- A statement of a report of the awaited request. -/
theorem Recovering.reports (h : Recovering w setup n s) (hok : s.server.shared.Ok)
    (howned : Owned s.server.shared setup.workerID w.id)
    (hholds : (s.server.locals tx).Holds s.server.shared tx)
    (hposition : s.process.position = .awaiting q)
    (hq : s.handlers q = .reporting statuses (some tx)) {action : Action}
    (hfails : action ≠ .row .fail) (howned' : Owned server.shared setup.workerID w.id)
    (hstep : setup.server.program.step s.server (tx, action) = some server) :
    Recovering w setup n { s with server } := by
  have hknown := h.position
  rw [hposition] at hknown
  obtain ⟨_, hhandler⟩ := hknown
  rw [hq] at hhandler
  obtain ⟨htell, status, phase, hlocal, hown, hother⟩ := hhandler
  obtain ⟨sh, local', hact, rfl⟩ := Program.step_eq_some.mp hstep
  rw [hlocal] at hact hholds
  -- the transaction goes on with a statement of its operation
  obtain ⟨rowAction, phase', rfl, rfl, hexecutes⟩ : ∃ rowAction phase', action = .row rowAction ∧
      local' = .row (.reportStatus setup.workerID status) phase' ∧
      (RowOp.reportStatus setup.workerID status).Executes s.server.shared tx phase rowAction sh
        phase' := by
    cases action with
    | row rowAction =>
      obtain ⟨⟨sh', phase'⟩, hoperation, heq⟩ := Option.map_eq_some_iff.mp hact
      cases heq
      exact ⟨rowAction, phase', rfl, rfl, executes_of_rowOperation hoperation⟩
    | _ => cases hact
  have hlocal' : Function.update s.server.locals tx (.row (.reportStatus setup.workerID status)
      phase') tx = .row (.reportStatus setup.workerID status) phase' := Function.update_self ..
  by_cases hid : status.workstationID = w.id
  · obtain ⟨hn, htells, hphase⟩ := hown hid
    have hrows : SameRow w (setup.rows s.server) s.server.shared.db.workstations := fun row hrow =>
      (mem_rows_iff howned hrow).symm
    obtain ⟨hphase', hrow⟩ := h.own_report hok howned hid htells (hrows.phase hphase)
      (fun heq => hfails (heq ▸ rfl)) hexecutes
    have hrows' : SameRow w sh.db.workstations
        (setup.rows ⟨sh, Function.update s.server.locals tx
          (.row (.reportStatus setup.workerID status) phase')⟩) := fun row hrow =>
      mem_rows_iff howned' hrow
    have hhandler' : HandlerKnown w setup.workerID n (s.host.machine w.vmName)
        (setup.rows ⟨sh, Function.update s.server.locals tx
          (.row (.reportStatus setup.workerID status) phase')⟩)
        (Function.update s.server.locals tx (.row (.reportStatus setup.workerID status) phase'))
        (s.handlers q) := by
      rw [hq]
      exact ⟨htell, status, phase', hlocal', fun _ => ⟨hn, htells, hrows'.phase hphase'⟩,
        fun _ hne => absurd hid hne⟩
    rcases hrow with hsame | ⟨hsettled, hkept⟩
    · exact h.awaiting_same hposition rfl rfl (hsame.rows howned howned') hhandler'
    · refine h.awaiting hposition rfl rfl ?_ ?_ (fun _ => hrows'.settled hsettled) hhandler'
      · rcases hkept with ⟨hkept, _⟩ | ⟨hdeleted, hgone, habsent⟩
        · exact .inl (hrows'.kept.mpr hkept)
        · exact .inr ⟨hdeleted, hrows'.gone hgone, habsent, hn⟩
      · intro hkept'
        rcases hkept with ⟨_, hkept⟩ | ⟨_, hgone, _⟩
        · exact hrows.kept.mp hkept
        · exact ((hrows'.kept.mp hkept').not_gone hgone).elim
  · have hsame := (sameRow_of_executes hexecutes hholds hid).rows howned howned'
    refine h.awaiting_same hposition rfl rfl hsame ?_
    simp only [hq]
    exact ⟨htell, status, phase', hlocal', fun heq => absurd heq hid,
      fun hn hne => (hother hn hne).imp_left hsame.settled⟩

/-- The desired list is read. -/
theorem handlerKnown_list (hok : server.shared.Ok)
    (howned : Owned server.shared setup.workerID w.id)
    (hrow : Kept w (setup.rows server) ∨ Gone w (setup.rows server))
    (hsettled : 1 ≤ n → RowSettled w m (setup.rows server)) :
    HandlerKnown w setup.workerID n m (setup.rows server) server.locals
      (.responding (listDesiredWorkstations setup.workerID server.shared.db.workstations)) := by
  refine ⟨hsettled, nodup_listDesiredWorkstations hok.ids, ?_, ?_, ?_⟩
  · intro d hd hid
    obtain ⟨row, hrow', _, rfl⟩ := mem_listDesiredWorkstations.mp hd
    have hmem := (mem_rows_iff howned hid).mpr hrow'
    rcases hrow with ⟨kept, hkept, hkeptID, hdesired⟩ | hgone
    · have hmem' := (mem_rows_iff howned hkeptID).mp hkept
      rw [← hdesired, ← List.inj_on_of_nodup_map hok.ids hrow' hmem' (hid.trans hkeptID.symm)]
    · exact absurd hid (hgone row hmem)
  · rintro ⟨kept, hkept, hid, _⟩
    rw [Setup.rows, List.mem_filter, decide_eq_true_eq] at hkept
    rw [← hid]
    exact List.mem_map.mpr
      ⟨_, mem_listDesiredWorkstations.mpr ⟨kept, hkept.1, hkept.2, rfl⟩, rfl⟩
  · intro hgone hmem
    obtain ⟨d, hd, hid⟩ := List.mem_map.mp hmem
    obtain ⟨row, hrow', _, rfl⟩ := mem_listDesiredWorkstations.mp hd
    exact hgone row ((mem_rows_iff howned hid).mpr hrow') hid

/-- The server's side of the awaited request goes on without a change of the tables. -/
theorem Recovering.setHandler (h : Recovering w setup n s) {handler : Handler}
    (hposition : s.process.position = .awaiting q)
    (hhandler : HandlerKnown w setup.workerID n (s.host.machine w.vmName) (setup.rows s.server)
      s.server.locals handler) : Recovering w setup n (s.setHandler q handler) := by
  refine h.awaiting_same hposition rfl rfl (fun _ _ => Iff.rfl) ?_
  rw [State.setHandler_self]
  exact hhandler

/-- Recording the heartbeat touches no row, and no transaction is open for it. -/
theorem Setup.rows_record {server server' : Fleet.State} {now : Time}
    (hstep : setup.server.program.step server
      (tx, .updateWorker now setup.workerID .heartbeat) = some server') :
    setup.rows server' = setup.rows server ∧ ∀ tx', server'.locals tx' = server.locals tx' := by
  obtain ⟨sh, local', hact, rfl⟩ := Program.step_eq_some.mp hstep
  have hact : setup.server.act server.shared tx (server.locals tx)
      (.updateWorker now setup.workerID .heartbeat) = some (sh, local') := hact
  cases hlocal : server.locals tx with
  | idle =>
    rw [hlocal] at hact
    simp only [Server.act] at hact
    split_ifs at hact
    cases hact
    refine ⟨rfl, fun tx' => ?_⟩
    have hsame : Function.update server.locals tx .idle = server.locals := by
      rw [← hlocal]
      exact Function.update_eq_self ..
    exact congrFun hsame tx'
  | claim | row | hostname =>
    rw [hlocal] at hact
    cases hact

/-- The request reaches the server. -/
theorem Recovering.arrive (h : Recovering w setup n s)
    (hposition : s.process.position = .awaiting q) (hq : s.handlers q = .sent statuses) :
    Recovering w setup n (s.setHandler q (.reporting statuses none)) := by
  have hknown := h.position
  rw [hposition] at hknown
  obtain ⟨_, hhandler⟩ := hknown
  rw [hq] at hhandler
  obtain ⟨htell, hlisted⟩ := hhandler
  refine h.setHandler hposition ⟨htell, fun hn => ?_⟩
  rcases h.row with hkept | ⟨hdeleted, hgone, _⟩
  · exact .inr (hlisted hn hkept)
  · exact .inl (.inl ⟨hdeleted, hgone⟩)

/-- The transaction of a report begins. -/
theorem Recovering.report (h : Recovering w setup n s)
    (hposition : s.process.position = .awaiting q)
    (hq : s.handlers q = .reporting (status :: statuses) none)
    (hstep : setup.server.program.step s.server
      (tx, .beginRow (.reportStatus setup.workerID status)) = some server) :
    Recovering w setup n ({ s with server }.setHandler q (.reporting statuses (some tx))) := by
  have hknown := h.position
  rw [hposition] at hknown
  obtain ⟨_, hhandler⟩ := hknown
  rw [hq] at hhandler
  obtain ⟨htell, hsettled⟩ := hhandler
  obtain ⟨sh, local', hact, rfl⟩ := Program.step_eq_some.mp hstep
  have hbegun : sh = s.server.shared ∧
      local' = .row (.reportStatus setup.workerID status) .begun := by
    have hact : setup.server.act s.server.shared tx (s.server.locals tx)
        (.beginRow (.reportStatus setup.workerID status)) = some (sh, local') := hact
    generalize s.server.locals tx = before at hact
    cases before with
    | idle =>
      cases hact
      exact ⟨rfl, rfl⟩
    | claim | row | hostname => cases hact
  obtain ⟨rfl, rfl⟩ := hbegun
  refine h.awaiting_same hposition rfl rfl (fun _ _ => Iff.rfl) ?_
  rw [State.setHandler_self]
  refine ⟨fun status' hmem => htell status' (List.mem_cons_of_mem _ hmem), status, .begun,
    Function.update_self .., fun hid => ?_, fun hn hne => ?_⟩
  · obtain ⟨hn, htells⟩ := htell status List.mem_cons_self hid
    exact ⟨hn, htells, trivial⟩
  · refine (hsettled hn).imp_right ?_
    rintro ⟨status', hmem, hid⟩
    rcases List.mem_cons.mp hmem with rfl | hmem
    · exact absurd hid hne
    · exact ⟨status', hmem, hid⟩

/-- The transaction of a report has ended. -/
theorem Recovering.reported (h : Recovering w setup n s)
    (hposition : s.process.position = .awaiting q)
    (hq : s.handlers q = .reporting statuses (some tx))
    (hended : transactionEnded (s.server.locals tx) = true) :
    Recovering w setup n (s.setHandler q (.reporting statuses none)) := by
  have hknown := h.position
  rw [hposition] at hknown
  obtain ⟨_, hhandler⟩ := hknown
  rw [hq] at hhandler
  obtain ⟨htell, status, phase, hlocal, hown, hother⟩ := hhandler
  refine h.setHandler hposition ⟨htell, fun hn => ?_⟩
  by_cases hid : status.workstationID = w.id
  · rw [hlocal] at hended
    cases phase with
    | finished => exact .inl (hown hid).2.2
    | begun | locked | written => cases hended
  · exact hother hn hid

end Steps

end MiniControl.Heartbeat
