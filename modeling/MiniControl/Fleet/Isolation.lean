import MiniControl.Fleet.Changes

/-!
# What a transaction may rely on

Each position of a transaction comes with an assertion about the shared state:
which lock it holds, and what it read that is still true. Statements of other
transactions keep the assertion, and the own statements lead from one assertion
to the next. Every statement is therefore one of the listed changes.
-/

namespace MiniControl.Fleet

open Transition

/-- The claim has the allocation lock, and its uncommitted row is the only one. -/
def Shared.Allocating (sh : Shared) (tx : ℕ) (uncommitted : List Workstation) : Prop :=
  sh.allocationLock = some tx ∧ sh.uncommitted = uncommitted

/-- What a claim knows at each position. -/
def ClaimPhase.Holds (sh : Shared) (tx : ℕ) : ClaimPhase → Prop
  | .waiting => True
  | .locked => sh.Allocating tx []
  | .listed workers => sh.Allocating tx [] ∧
      ∀ w ∈ workers, ∃ row ∈ sh.db.workers, row.id = w.id ∧ row.poolSize = w.poolSize
  | .chosen c => sh.Allocating tx [] ∧ sh.InPool c.workerID c.slot ∧ sh.Free c.workerID c.slot
  | .inserted row => sh.Allocating tx [row]
  | .finished reply => reply ≠ .duplicateSlot

/-- The row operation has locked a row that exists, and decides from it. -/
def Shared.Decides (sh : Shared) (tx : ℕ) (op : RowOp) (old : Workstation) : Prop :=
  sh.rowLocks op.workstationID = some tx ∧ old ∈ sh.db.workstations ∧ old.id = op.workstationID

/-- What a row operation knows at each position. -/
def RowPhase.Holds (sh : Shared) (tx : ℕ) (op : RowOp) : RowPhase → Prop
  | .begun => True
  | .locked row _ => sh.Decides tx op row
  | .written (.put new) _ => ∃ old, sh.Decides tx op old ∧ Successor old new
  | .written .remove _ => ∃ old now, sh.Decides tx op old ∧ op.decision now old = .delete
  | .finished _ => True

/-- What a hostname assignment knows at each position. -/
def HostnamePhase.Holds (sh : Shared) (tx : ℕ) : HostnamePhase → Prop
  | .waiting => True
  | .locked | .unknown | .numbered _ => sh.hostnameLock = some tx ∧ sh.stagedWorker = none
  | .inserted row => sh.hostnameLock = some tx ∧ sh.stagedWorker = some row ∧
      ∀ w ∈ sh.db.workers, w.id = row.id → w.poolSize = row.poolSize
  | .finished _ => True

/-- What a transaction knows at each position. -/
def Transaction.Holds (sh : Shared) (tx : ℕ) : Transaction → Prop
  | .idle => True
  | .claim _ _ phase => phase.Holds sh tx
  | .row op phase => phase.Holds sh tx op
  | .hostname _ phase => phase.Holds sh tx

section Frame

variable {tx other : ℕ} {t : Transaction} {sh sh' : Shared} {op : RowOp}

/-- The allocation lock and the uncommitted row survive other transactions. -/
theorem Shared.Allocating.frame {rows : List Workstation} (h : sh.Allocating other rows)
    (hne : other ≠ tx) (hchange : Change tx t sh sh') : sh'.Allocating other rows := by
  obtain ⟨hlock, hrows, _⟩ := hchange.allocation_frame hne h.1
  exact ⟨hlock, hrows.trans h.2⟩

/-- A claim keeps what it knows while others run. -/
theorem ClaimPhase.Holds.frame {phase : ClaimPhase} (h : phase.Holds sh other) (hne : other ≠ tx)
    (hchange : Change tx t sh sh') : phase.Holds sh' other := by
  cases phase with
  | waiting => trivial
  | locked => exact Shared.Allocating.frame h hne hchange
  | listed workers =>
    refine ⟨h.1.frame hne hchange, fun w hw => ?_⟩
    obtain ⟨row, hrow, hid, hsize⟩ := h.2 w hw
    obtain ⟨new, hnew, hid', hsize'⟩ := hchange.workersKept.kept row hrow
    exact ⟨new, hnew, hid'.trans hid, hsize'.trans hsize⟩
  | chosen c =>
    refine ⟨h.1.frame hne hchange, hchange.inPool h.2.1, h.2.2.change hchange ?_⟩
    exact (hchange.allocation_frame hne h.1.1).2.2
  | inserted row => exact Shared.Allocating.frame h hne hchange
  | finished reply => exact h

/-- A locked row survives other transactions. -/
theorem Shared.Decides.frame {old : Workstation} (h : sh.Decides other op old) (hne : other ≠ tx)
    (hchange : Change tx t sh sh') : sh'.Decides other op old := by
  obtain ⟨hlock, hrow⟩ := hchange.row_frame hne h.1
  exact ⟨hlock, hrow old h.2.1 h.2.2, h.2.2⟩

/-- A row operation keeps what it knows while others run. -/
theorem RowPhase.Holds.frame {phase : RowPhase} (h : phase.Holds sh other op) (hne : other ≠ tx)
    (hchange : Change tx t sh sh') : phase.Holds sh' other op := by
  match phase, h with
  | .begun, _ => trivial
  | .locked row now, h => exact Shared.Decides.frame h hne hchange
  | .written (.put new) reply, ⟨old, hold, hnew⟩ =>
    exact ⟨old, hold.frame hne hchange, hnew⟩
  | .written .remove reply, ⟨old, now, hold, hdelete⟩ =>
    exact ⟨old, now, hold.frame hne hchange, hdelete⟩
  | .finished reply, _ => trivial

/-- A hostname assignment keeps what it knows while others run. -/
theorem HostnamePhase.Holds.frame {phase : HostnamePhase} (hok : sh.Ok)
    (h : phase.Holds sh other) (hne : other ≠ tx) (hchange : Change tx t sh sh') :
    phase.Holds sh' other := by
  have hkeep : sh.hostnameLock = some other ∧ sh.stagedWorker = none →
      sh'.hostnameLock = some other ∧ sh'.stagedWorker = none := by
    rintro ⟨hlock, hnone⟩
    obtain ⟨hlock', hstaged, _⟩ := hchange.hostname_frame hne hlock
    exact ⟨hlock', hstaged.trans hnone⟩
  match phase, h with
  | .waiting, _ => trivial
  | .locked, h | .unknown, h | .numbered _, h => exact hkeep h
  | .finished _, _ => trivial
  | .inserted row, ⟨hlock, hstaged, hsize⟩ =>
    obtain ⟨hlock', hstaged', hrows⟩ := hchange.hostname_frame hne hlock
    refine ⟨hlock', hstaged'.trans hstaged, fun w hw hid => ?_⟩
    -- the row with this id is the one that existed before, since ids are distinct
    obtain ⟨old, hold, holdID⟩ := hrows row hstaged w hw hid
    obtain ⟨new, hnew, hnewID, hnewSize⟩ := hchange.workersKept.kept old hold
    have heq : new = w := List.inj_on_of_nodup_map (hchange.workersKept.nodup hok.workerIDs) hnew hw
      (hnewID.trans (holdID.trans hid.symm))
    rw [← heq, hnewSize]
    exact hsize old hold holdID

/-- Every transaction keeps what it knows while others run. -/
theorem Transaction.Holds.frame {u : Transaction} (hok : sh.Ok) (h : u.Holds sh other)
    (hne : other ≠ tx) (hchange : Change tx t sh sh') : u.Holds sh' other := by
  cases u with
  | idle => trivial
  | claim memberID preferredWorkerID phase => exact ClaimPhase.Holds.frame h hne hchange
  | row op phase => exact RowPhase.Holds.frame h hne hchange
  | hostname hardwareUUID phase => exact HostnamePhase.Holds.frame hok h hne hchange

end Frame

section Statements

variable {server : Server} {tx : ℕ} {t : Transaction} {sh sh' : Shared} {workers : List Worker}
  {phase : ClaimPhase} {op : RowOp} {row : Worker} {now : Time} {hardwareUUID : String}

/-- A claim that holds the lock without an uncommitted row may give it back. -/
theorem Shared.Allocating.free (h : sh.Allocating tx []) :
    Change tx t sh { sh with allocationLock := none } := by
  have hchange := Change.freeAllocation (t := t) h.1
  rwa [← h.2] at hchange

/-- A chosen slot is within the pool of a worker and free. -/
theorem Candidate.FromWorkers.place {c : Candidate}
    (h : c.FromWorkers workers (listAllocatedSlots sh.db.workstations))
    (hworkers : ∀ w ∈ workers, ∃ row ∈ sh.db.workers, row.id = w.id ∧ row.poolSize = w.poolSize) :
    sh.InPool c.workerID c.slot ∧ sh.Free c.workerID c.slot := by
  obtain ⟨worker, hworker, hid, hslot⟩ := h
  obtain ⟨hnonneg, hlt, hfree⟩ := firstAvailableSlot_some hslot
  obtain ⟨row, hrow, hrowID, hsize⟩ := hworkers worker hworker
  refine ⟨⟨hnonneg, row, hrow, hrowID.trans hid, hsize ▸ hlt⟩, fun w hw hplace => hfree ?_⟩
  exact mem_listAllocatedSlots.mpr ⟨w, hw, hplace.1.trans hid.symm, hplace.2⟩

/-- A claim that holds the lock and has written nothing. -/
theorem ClaimPhase.Holds.allocating (h : phase.Holds sh tx) (hphase : phase.Deciding) :
    sh.Allocating tx [] := by
  cases phase with
  | locked => exact h
  | listed => exact h.1
  | chosen => exact h.1
  | _ => exact hphase.elim

/-- Every statement of a claim is a change, and leads to what the claim knows next. -/
theorem Server.claimWorkstation_change {memberID preferredWorkerID : String}
    {phase phase' : ClaimPhase} {action : ClaimAction} (hok : sh.Ok) (h : phase.Holds sh tx)
    (hact : server.claimWorkstation sh tx memberID preferredWorkerID phase action =
      some (sh', phase')) : Change tx t sh sh' ∧ phase'.Holds sh' tx := by
  have hended : ∀ {sh : Shared} {reply : ClaimReply}, reply ≠ .duplicateSlot →
      (ClaimPhase.finished reply).Holds sh tx := fun hreply => hreply
  cases claims_of_claimWorkstation hact with
  | lock hlock => exact ⟨.lockAllocation hlock, rfl, hok.unlocked hlock⟩
  | noWorkers => exact ⟨h.free, hended (by simp)⟩
  | list _ hworkers =>
    refine ⟨.same, h, fun w hw => ⟨w, ?_, rfl, rfl⟩⟩
    rw [← hworkers] at hw
    exact mem_of_mem_listSchedulableWorkers hw
  | refuse => exact ⟨h.1.free, hended (by simp)⟩
  | choose hcandidate => exact ⟨.same, h.1, (selectWorkstationCandidate_ok hcandidate).place h.2⟩
  | conflict _ hold hplace =>
    -- the constraint cannot refuse a slot that is known to be free
    exact absurd hplace (h.2.2 _ hold)
  | insert hfresh hrow =>
    obtain ⟨⟨hlock, huncommitted⟩, hpool, hfree⟩ := h
    subst hrow
    rw [huncommitted]
    exact ⟨.insert hlock hfresh ⟨rfl, rfl, hpool, hfree⟩, hlock, rfl⟩
  | @commit row =>
    obtain ⟨hlock, huncommitted⟩ := h
    have herase : sh.uncommitted.erase row = [] := by simp [huncommitted]
    rw [herase]
    exact ⟨.commitInsert hlock huncommitted, hended (by simp)⟩
  | giveUp => exact ⟨.same, hended (by simp)⟩
  | fail hphase => exact ⟨(h.allocating hphase).free, hended (by simp)⟩
  | @rollback row =>
    obtain ⟨hlock, huncommitted⟩ := h
    have herase : sh.uncommitted.erase row = [] := by simp [huncommitted]
    rw [herase]
    exact ⟨.freeAllocation hlock, hended (by simp)⟩

/-- The row with the id of the operation is the locked one, since ids are distinct. -/
theorem Shared.Decides.current {row current : Workstation} (h : sh.Decides tx op row)
    (hids : (sh.db.workstations.map Workstation.id).Nodup)
    (hcurrent : sh.db.workstations.find? (·.id = op.workstationID) = some current) :
    current = row := by
  have hid : current.id = op.workstationID := by simpa using List.find?_some hcurrent
  exact List.inj_on_of_nodup_map hids (List.mem_of_find?_eq_some hcurrent) h.2.1
    (hid.trans h.2.2.symm)

/-- Every statement of a row operation is a change, and leads to what the
operation knows next. -/
theorem rowOperation_change {phase phase' : RowPhase} {action : RowAction} (hok : sh.Ok)
    (h : phase.Holds sh tx op) (hact : rowOperation sh tx op phase action = some (sh', phase')) :
    Change tx (.row op phase) sh sh' ∧ phase'.Holds sh' tx op := by
  cases executes_of_rowOperation hact with
  | missing => exact ⟨.same, trivial⟩
  | lock hrow hlock =>
    refine ⟨.lockRow hlock, sh.setRowLock_self _ _, List.mem_of_find?_eq_some hrow, ?_⟩
    exact RowOp.id_of_selects (List.find?_some hrow)
  | answer => exact ⟨.freeRow h.1, trivial⟩
  | vanished => exact ⟨.freeRow h.1, trivial⟩
  | put hset hcurrent =>
    rw [Shared.Decides.current h hok.ids hcurrent]
    exact ⟨.same, _, h, RowOp.decision_update hset⟩
  | remove hdelete => exact ⟨.same, _, _, h, hdelete⟩
  | commitPut =>
    obtain ⟨old, hold, hnew⟩ := h
    exact ⟨.commitPut hold.1 hold.2.1 hold.2.2 hnew, trivial⟩
  | commitRemove =>
    obtain ⟨old, now, hold, hdelete⟩ := h
    exact ⟨.commitRemove rfl hold.1 hold.2.1 hold.2.2 hdelete, trivial⟩
  | giveUp => exact ⟨.same, trivial⟩
  | fail => exact ⟨.freeRow h.1, trivial⟩
  | @rollback write =>
    cases write with
    | put =>
      obtain ⟨old, hold, _⟩ := h
      exact ⟨.freeRow hold.1, trivial⟩
    | remove =>
      obtain ⟨old, now, hold, _⟩ := h
      exact ⟨.freeRow hold.1, trivial⟩

/-- A committed row version with the pool size of the row it replaces. -/
theorem putWorker_kept (h : ∀ w ∈ workers, w.id = row.id → w.poolSize = row.poolSize) :
    WorkersKept workers (putWorker row workers) := by
  unfold putWorker
  split_ifs with hany
  · exact .update (fun w _ hid => hid.symm) fun w hw hid => (h w hw hid).symm
  · exact .append hany

/-- The row version of a hostname assignment has the pool size of the row it
replaces. -/
theorem upsertHostname_poolSize {id hostname hardwareUUID : String}
    (hids : (workers.map Worker.id).Nodup)
    (h : upsertHostname now id hostname hardwareUUID workers = some row) :
    ∀ w ∈ workers, w.id = row.id → w.poolSize = row.poolSize := by
  intro w hw hid
  unfold upsertHostname at h
  split at h
  next old hold =>
    cases h
    rw [List.inj_on_of_nodup_map hids hw (List.mem_of_find?_eq_some hold) hid]
  next hnone =>
    split_ifs at h
    cases h
    have hne : w.id ≠ id := by simpa using List.find?_eq_none.mp hnone w hw
    exact absurd hid hne

/-- Every statement of a hostname assignment is a change, and leads to what the
assignment knows next. -/
theorem Server.assignHostname_change {phase phase' : HostnamePhase} {action : HostnameAction}
    (hok : sh.Ok) (h : phase.Holds sh tx)
    (hact : server.assignHostname sh tx hardwareUUID phase action = some (sh', phase')) :
    Change tx t sh sh' ∧ phase'.Holds sh' tx := by
  have hfree : sh.hostnameLock = some tx ∧ sh.stagedWorker = none →
      Change tx t sh { sh with hostnameLock := none } := by
    rintro ⟨hlock, hstaged⟩
    have hchange := Change.freeHostnames (t := t) hlock
    rwa [← hstaged] at hchange
  match phase, action, h with
  | .waiting, .lock, _ =>
    simp only [Server.assignHostname] at hact
    split_ifs at hact with hlock
    cases hact
    exact ⟨.lockHostnames hlock, rfl, hok.unstaged hlock⟩
  | .waiting, .fail, _ =>
    cases hact
    exact ⟨.same, trivial⟩
  | .locked, .select, h =>
    simp only [Server.assignHostname] at hact
    split at hact
    · cases hact
      exact ⟨hfree h, trivial⟩
    · cases hact
      exact ⟨.same, h⟩
  | .unknown, .selectNext, h =>
    simp only [Server.assignHostname] at hact
    split at hact
    · cases hact
      exact ⟨hfree h, trivial⟩
    · cases hact
      exact ⟨.same, h⟩
  | .numbered hostname, .insert now, h =>
    simp only [Server.assignHostname] at hact
    split at hact
    next =>
      cases hact
      exact ⟨hfree h, trivial⟩
    next row hrow =>
      cases hact
      exact ⟨.stageWorker h.1, h.1, rfl, upsertHostname_poolSize hok.workerIDs hrow⟩
  | .inserted row, .commit, ⟨hlock, hstaged, hsize⟩ =>
    cases hact
    exact ⟨.commitWorker hlock (putWorker_kept hsize), trivial⟩
  | .locked, .fail, h | .unknown, .fail, h | .numbered _, .fail, h =>
    cases hact
    exact ⟨.freeHostnames h.1, trivial⟩
  | .inserted row, .fail, h =>
    cases hact
    exact ⟨.freeHostnames h.1, trivial⟩

/-- A registration that need not wait adds no worker with a staged id. -/
theorem upsertWorker_staged {r : Registration} (hlocked : ¬sh.registrationLocked r = true)
    (h : upsertWorker now r sh.db.workers = some workers) :
    ∀ row, sh.stagedWorker = some row → ∀ w ∈ workers, w.id = row.id →
      ∃ old ∈ sh.db.workers, old.id = row.id := by
  intro row hrow w hw hid
  unfold upsertWorker at h
  split_ifs at h
  · cases h
    obtain ⟨old, hold, rfl⟩ := Tables.mem_update.mp hw
    refine ⟨old, hold, ?_⟩
    rw [← hid]
    split_ifs <;> rfl
  · cases h
    rcases List.mem_append.mp hw with hold | hnew
    · exact ⟨w, hold, hid⟩
    · rw [List.mem_singleton.mp hnew] at hid
      exact absurd (by simp [Shared.registrationLocked, hrow, ← hid, Registration.worker]) hlocked

/-- Every statement is a change, and leads to what its transaction knows next. -/
theorem Server.act_change {t' : Transaction} {action : Action} (hok : sh.Ok)
    (h : t.Holds sh tx) (hact : server.act sh tx t action = some (sh', t')) :
    Change tx t sh sh' ∧ t'.Holds sh' tx := by
  cases t with
  | idle =>
    cases action with
    | beginClaim | beginRow | beginHostname =>
      cases hact
      exact ⟨.same, trivial⟩
    | register now r =>
      simp only [Server.act] at hact
      split_ifs at hact with hlocked
      obtain ⟨workers, hworkers, heq⟩ := Option.map_eq_some_iff.mp hact
      cases heq
      exact ⟨.workers (upsertWorker_kept hworkers) (upsertWorker_staged hlocked hworkers), trivial⟩
    | updateWorker now id update =>
      simp only [Server.act] at hact
      split_ifs at hact with hlocked
      cases hact
      refine ⟨.workers (update.kept now id _) fun row _ w hw hid => ?_, trivial⟩
      obtain ⟨old, hold, rfl⟩ := Tables.mem_update.mp hw
      refine ⟨old, hold, ?_⟩
      rw [← hid]
      split_ifs
      · exact (update.apply_id now old).symm
      · rfl
    | _ => cases hact
  | claim memberID preferredWorkerID phase =>
    cases action with
    | claim action =>
      obtain ⟨r, hr, heq⟩ := Option.map_eq_some_iff.mp hact
      cases heq
      exact claimWorkstation_change hok h hr
    | _ => cases hact
  | row op phase =>
    cases action with
    | row action =>
      obtain ⟨r, hr, heq⟩ := Option.map_eq_some_iff.mp hact
      cases heq
      exact rowOperation_change hok h hr
    | _ => cases hact
  | hostname hardwareUUID phase =>
    cases action with
    | hostname action =>
      obtain ⟨r, hr, heq⟩ := Option.map_eq_some_iff.mp hact
      cases heq
      exact assignHostname_change hok h hr
    | _ => cases hact

end Statements

/-- The invariant holds in a fresh installation. -/
theorem Shared.Ok.empty : Shared.empty.Ok := by
  constructor <;> simp [Shared.empty]

variable {s t : State} {tx : ℕ} {server : Server} {sh sh' : Shared} {op : RowOp} {phase' : RowPhase}

/-- In every reachable state the shared state is in order, and every transaction
knows what it may rely on. -/
theorem Server.holds_of_reachable (server : Server) (h : server.system.Reachable s) :
    s.shared.Ok ∧ ∀ tx, (s.locals tx).Holds s.shared tx := by
  refine Program.invariant (p := server.program) (I := Shared.Ok)
    (A := fun sh tx t => t.Holds sh tx) ?_ ?_ ?_ h
  · rintro s rfl
    exact ⟨.empty, fun _ => trivial⟩
  · intro s tx action sh t _ hok hholds hact
    obtain ⟨hchange, ht⟩ := act_change hok hholds hact
    exact ⟨hok.change hchange, ht⟩
  · intro s tx action sh t other _ hok hholds hne hother hact
    exact hother.frame hok hne (act_change hok hholds hact).1

/-- Every step out of a reachable state is a change by its transaction. -/
theorem Server.step_change (server : Server) {action : Action} (h : server.system.Reachable s)
    (hnext : server.system.next s (tx, action) t) :
    Change tx (s.locals tx) s.shared t.shared := by
  obtain ⟨hok, hholds⟩ := server.holds_of_reachable h
  obtain ⟨sh, l, hact, rfl⟩ := Program.step_eq_some.mp hnext
  exact (act_change hok (hholds tx) hact).1

/-- A row operation is under way only because it was before or has begun now. -/
theorem Server.act_row {t : Transaction} {action : Action}
    (h : server.act sh tx t action = some (sh', .row op phase')) :
    (∃ phase, t = .row op phase) ∨ action = .beginRow op := by
  cases t with
  | idle =>
    cases action with
    | beginRow => cases h; exact .inr rfl
    | register => simp [Server.act] at h
    | updateWorker => simp [Server.act] at h
    | _ => cases h
  | claim memberID preferredWorkerID phase => cases action <;> simp [Server.act] at h
  | row op phase =>
    cases action with
    | row statement =>
      obtain ⟨r, hr, heq⟩ := Option.map_eq_some_iff.mp h
      cases heq
      exact .inl ⟨phase, rfl⟩
    | _ => cases h
  | hostname hardwareUUID phase => cases action <;> simp [Server.act] at h

/-- The same for the transactions of a state. -/
theorem Server.step_row {tx tx' : ℕ} {action : Action} (hnext : server.system.next s (tx, action) t)
    (h : t.locals tx' = .row op phase') :
    (∃ phase, s.locals tx' = .row op phase) ∨ action = .beginRow op := by
  obtain ⟨sh, l, hact, rfl⟩ := Program.step_eq_some.mp hnext
  by_cases htx : tx' = tx
  · subst htx
    obtain rfl : l = .row op phase' := (Function.update_self _ _ _).symm.trans h
    exact act_row hact
  · exact .inl ⟨phase', (Function.update_of_ne htx _ _).symm.trans h⟩

/-- A transaction is in the middle of a claim only after a statement of the claim. -/
theorem Server.act_claim {t : Transaction} {action : Action} {memberID preferredWorkerID : String}
    {phase' : ClaimPhase}
    (h : server.act sh tx t action = some (sh', .claim memberID preferredWorkerID phase'))
    (hphase : phase' ≠ .waiting) :
    ∃ phase statement, t = .claim memberID preferredWorkerID phase ∧
      server.claimWorkstation sh tx memberID preferredWorkerID phase statement =
        some (sh', phase') := by
  cases t with
  | idle =>
    cases action with
    | beginClaim =>
      cases h
      exact absurd rfl hphase
    | register => simp [Server.act] at h
    | updateWorker => simp [Server.act] at h
    | _ => cases h
  | claim memberID preferredWorkerID phase =>
    cases action with
    | claim statement =>
      obtain ⟨r, hr, heq⟩ := Option.map_eq_some_iff.mp h
      cases heq
      exact ⟨phase, statement, rfl, hr⟩
    | _ => cases h
  | row op phase => cases action <;> simp [Server.act] at h
  | hostname hardwareUUID phase => cases action <;> simp [Server.act] at h

end MiniControl.Fleet
