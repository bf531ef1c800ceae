import MiniControl.Fleet.Statements

/-!
# What one statement changes

`Change` lists what a statement of a transaction can do to the tables, the locks
and the uncommitted rows, together with what the transaction knows when it does
so. Every property of whole runs is derived from this list: the invariant of the
shared state, and what a transaction may rely on while others run.
-/

namespace MiniControl.Fleet

namespace Shared

/-- The slot lies in the pool of a worker that exists. -/
def InPool (sh : Shared) (workerID : String) (slot : ℤ) : Prop :=
  0 ≤ slot ∧ ∃ worker ∈ sh.db.workers, worker.id = workerID ∧ slot < worker.poolSize

/-- No committed workstation has the slot. -/
def Free (sh : Shared) (workerID : String) (slot : ℤ) : Prop :=
  ∀ w ∈ sh.db.workstations, ¬(w.workerID = workerID ∧ w.slot = slot)

/-- A new row that a claim may insert. -/
structure Placeable (sh : Shared) (row : Workstation) : Prop where
  vmName : row.vmName = generateWorkstationVMName row.id
  desired : row.desiredPowerState = .running
  pool : sh.InPool row.workerID row.slot
  free : sh.Free row.workerID row.slot

/-- An inserted row that a claim may commit. -/
structure Insertable (sh : Shared) (row : Workstation) : Prop extends Placeable sh row where
  used : row.id ∈ sh.usedIDs
  unstored : ∀ w ∈ sh.db.workstations, w.id ≠ row.id

end Shared

/-- What a statement of a transaction at position `t` can do to the committed
workstations. -/
inductive RowsChange (t : Transaction) (sh : Shared) : List Workstation → Prop
  | same : RowsChange t sh sh.db.workstations
  | insert {row : Workstation} : sh.uncommitted = [row] →
      RowsChange t sh (sh.db.workstations ++ [row])
  | put {id : String} {old new : Workstation} : old ∈ sh.db.workstations → old.id = id →
      Successor old new →
      RowsChange t sh (Tables.update Workstation.id id (fun _ => new) sh.db.workstations)
  | remove {op : RowOp} {reply : RowReply} {now : Time} {old : Workstation} :
      t = .row op (.written .remove reply) → old ∈ sh.db.workstations →
      old.id = op.workstationID → op.decision now old = .delete →
      RowsChange t sh (Tables.delete Workstation.id op.workstationID sh.db.workstations)

/-- What a statement of transaction `tx` at position `t` can do to the shared state. -/
inductive Change (tx : ℕ) (t : Transaction) (sh : Shared) : Shared → Prop
  | same : Change tx t sh sh
  | lockAllocation : sh.allocationLock = none → Change tx t sh { sh with allocationLock := some tx }
  | freeAllocation : sh.allocationLock = some tx →
      Change tx t sh { sh with allocationLock := none, uncommitted := [] }
  | insert {row : Workstation} : sh.allocationLock = some tx → sh.FreshID row.id →
      sh.Placeable row →
      Change tx t sh { sh with uncommitted := [row], usedIDs := row.id :: sh.usedIDs }
  | commitInsert {row : Workstation} : sh.allocationLock = some tx → sh.uncommitted = [row] →
      Change tx t sh { sh.setWorkstations (sh.db.workstations ++ [row]) with
        uncommitted := [], allocationLock := none }
  | lockHostnames : sh.hostnameLock = none → Change tx t sh { sh with hostnameLock := some tx }
  | freeHostnames : sh.hostnameLock = some tx →
      Change tx t sh { sh with stagedWorker := none, hostnameLock := none }
  | stageWorker {row : Worker} : sh.hostnameLock = some tx →
      Change tx t sh { sh with stagedWorker := some row }
  | commitWorker {workers : List Worker} : sh.hostnameLock = some tx →
      WorkersKept sh.db.workers workers →
      Change tx t sh { sh.setWorkers workers with stagedWorker := none, hostnameLock := none }
  | lockRow {id : String} : sh.rowLocks id = none → Change tx t sh (sh.setRowLock id (some tx))
  | freeRow {id : String} : sh.rowLocks id = some tx → Change tx t sh (sh.setRowLock id none)
  | commitPut {op : RowOp} {old new : Workstation} :
      sh.rowLocks op.workstationID = some tx → old ∈ sh.db.workstations →
      old.id = op.workstationID → Successor old new →
      Change tx t sh ((sh.setWorkstations (Tables.update Workstation.id op.workstationID
        (fun _ => new) sh.db.workstations)).setRowLock op.workstationID none)
  | commitRemove {op : RowOp} {reply : RowReply} {now : Time} {old : Workstation} :
      t = .row op (.written .remove reply) → sh.rowLocks op.workstationID = some tx →
      old ∈ sh.db.workstations → old.id = op.workstationID → op.decision now old = .delete →
      Change tx t sh ((sh.setWorkstations (Tables.delete Workstation.id op.workstationID
        sh.db.workstations)).setRowLock op.workstationID none)
  | workers {workers : List Worker} : WorkersKept sh.db.workers workers →
      (∀ row, sh.stagedWorker = some row → ∀ w ∈ workers, w.id = row.id →
        ∃ old ∈ sh.db.workers, old.id = row.id) →
      Change tx t sh (sh.setWorkers workers)

/-- The invariant of the tables, the locks and the uncommitted rows. -/
structure Shared.Ok (sh : Shared) : Prop where
  workerIDs : (sh.db.workers.map Worker.id).Nodup
  ids : (sh.db.workstations.map Workstation.id).Nodup
  used : ∀ w ∈ sh.db.workstations, w.id ∈ sh.usedIDs
  vmNames : ∀ w ∈ sh.db.workstations, w.vmName = generateWorkstationVMName w.id
  usedNames : (sh.usedIDs.map generateWorkstationVMName).Nodup
  pool : ∀ w ∈ sh.db.workstations, sh.InPool w.workerID w.slot
  places : (sh.db.workstations.map fun w => (w.workerID, w.slot)).Nodup
  marked : ∀ w ∈ sh.db.workstations, Marked w
  uncommitted : ∀ row ∈ sh.uncommitted, sh.Insertable row
  unlocked : sh.allocationLock = none → sh.uncommitted = []
  unstaged : sh.hostnameLock = none → sh.stagedWorker = none

namespace Change

variable {tx : ℕ} {t : Transaction} {sh sh' : Shared}

/-- The effect of a change on the committed workstations. -/
theorem rows (h : Change tx t sh sh') : RowsChange t sh sh'.db.workstations := by
  cases h
  case commitInsert _ hrow => exact .insert hrow
  case commitPut _ hold hid hnew => exact .put hold hid hnew
  case commitRemove ht _ hold hid hdelete => exact .remove ht hold hid hdelete
  all_goals exact .same

/-- The effect of a change on the committed workers. -/
theorem workersKept (h : Change tx t sh sh') : WorkersKept sh.db.workers sh'.db.workers := by
  cases h
  case commitWorker hkept => exact hkept
  case workers hkept _ => exact hkept
  all_goals exact .refl _

/-- Generated ids are only added. -/
theorem usedIDs (h : Change tx t sh sh') : sh'.usedIDs = sh.usedIDs ∨
    ∃ id, sh.FreshID id ∧ sh'.usedIDs = id :: sh.usedIDs := by
  cases h
  case insert row _ hfresh _ => exact .inr ⟨row.id, hfresh, rfl⟩
  all_goals exact .inl rfl

/-- A used id stays used. -/
theorem mem_usedIDs (h : Change tx t sh sh') {id : String} (hid : id ∈ sh.usedIDs) :
    id ∈ sh'.usedIDs := by
  rcases h.usedIDs with heq | ⟨new, _, heq⟩
  · rwa [heq]
  · rw [heq]
    exact List.mem_cons_of_mem _ hid

/-- A slot in a pool stays in it, since pool sizes do not change. -/
theorem inPool (h : Change tx t sh sh') {workerID : String} {slot : ℤ}
    (hpool : sh.InPool workerID slot) : sh'.InPool workerID slot := by
  obtain ⟨hnonneg, worker, hworker, rfl, hlt⟩ := hpool
  obtain ⟨new, hnew, hid, hsize⟩ := h.workersKept.kept worker hworker
  exact ⟨hnonneg, new, hnew, hid, hsize ▸ hlt⟩

/-- An uncommitted row was uncommitted before, and no row was committed now, or
it was inserted now under a new id. -/
theorem uncommitted (h : Change tx t sh sh') {row : Workstation} (hrow : row ∈ sh'.uncommitted) :
    (row ∈ sh.uncommitted ∧ sh'.db.workstations.length ≤ sh.db.workstations.length) ∨
      (sh.FreshID row.id ∧ sh.Placeable row ∧ row.id ∈ sh'.usedIDs ∧ sh'.db = sh.db) := by
  cases h
  case freeAllocation | commitInsert => cases hrow
  case insert new _ hfresh hplace =>
    rw [List.mem_singleton.mp hrow]
    exact .inr ⟨hfresh, hplace, List.mem_cons_self, rfl⟩
  case commitPut => exact .inl ⟨hrow, (List.length_map _).le⟩
  case commitRemove => exact .inl ⟨hrow, List.length_filter_le _ _⟩
  all_goals exact .inl ⟨hrow, le_rfl⟩

end Change

namespace RowsChange

variable {t : Transaction} {sh : Shared} {rows : List Workstation} {w : Workstation}

/-- Every row afterwards is a successor of a row before, or was inserted now. -/
theorem origin (h : RowsChange t sh rows) (hw : w ∈ rows) :
    (∃ old ∈ sh.db.workstations, Successor old w) ∨
      (sh.uncommitted = [w] ∧ rows = sh.db.workstations ++ [w]) := by
  cases h with
  | same => exact .inl ⟨w, hw, .refl w⟩
  | insert hrow =>
    rcases List.mem_append.mp hw with hold | hnew
    · exact .inl ⟨w, hold, .refl w⟩
    · rw [List.mem_singleton.mp hnew]
      exact .inr ⟨hrow, rfl⟩
  | put hold hid hnew =>
    obtain ⟨r, hr, rfl⟩ := Tables.mem_update.mp hw
    left
    split_ifs with hkey
    · exact ⟨_, hold, hnew⟩
    · exact ⟨r, hr, .refl r⟩
  | remove _ _ _ _ => exact .inl ⟨w, (Tables.mem_delete.mp hw).1, .refl w⟩

/-- Every row before leaves the table or has a successor. -/
theorem persists (h : RowsChange t sh rows) (hids : (sh.db.workstations.map Workstation.id).Nodup)
    (hw : w ∈ sh.db.workstations) :
    (∃ new ∈ rows, Successor w new) ∨ ∀ new ∈ rows, new.id ≠ w.id := by
  cases h with
  | same => exact .inl ⟨w, hw, .refl w⟩
  | insert _ => exact .inl ⟨w, List.mem_append_left _ hw, .refl w⟩
  | @put id old new hold hid hnew =>
    left
    by_cases hkey : w.id = id
    · rw [List.inj_on_of_nodup_map hids hw hold (hkey.trans hid.symm)]
      exact ⟨new, Tables.mem_update_of_mem hold hid, hnew⟩
    · exact ⟨w, Tables.mem_update_of_ne hw hkey, .refl w⟩
  | @remove op _ _ _ _ _ _ _ =>
    by_cases hkey : w.id = op.workstationID
    · exact .inr fun new hnew => hkey ▸ (Tables.mem_delete.mp hnew).2
    · exact .inl ⟨w, Tables.mem_delete.mpr ⟨hw, hkey⟩, .refl w⟩

/-- A change that adds no row makes successors only. -/
theorem successor (h : RowsChange t sh rows) (hlength : rows.length ≤ sh.db.workstations.length) :
    ∀ w ∈ rows, ∃ old ∈ sh.db.workstations, Successor old w := by
  intro w hw
  rcases h.origin hw with hold | ⟨_, hrows⟩
  · exact hold
  · rw [hrows, List.length_append, List.length_singleton] at hlength
    omega

/-- Values of a column that describes the place of a row stay distinct. -/
theorem nodup_map (h : RowsChange t sh rows) {β : Type} {column : Workstation → β}
    (hids : (sh.db.workstations.map Workstation.id).Nodup)
    (hplace : ∀ old new, SamePlace old new → column new = column old)
    (hinsert : ∀ row ∈ sh.uncommitted, ∀ w ∈ sh.db.workstations, column w ≠ column row)
    (hnodup : (sh.db.workstations.map column).Nodup) : (rows.map column).Nodup := by
  cases h with
  | same => exact hnodup
  | insert hrow =>
    exact Tables.nodup_map_append hnodup (hinsert _ (hrow ▸ List.mem_singleton_self _))
  | put hold hid hnew =>
    rw [Tables.map_update]
    · exact hnodup
    · intro r hr hkey
      rw [List.inj_on_of_nodup_map hids hr hold (hkey.trans hid.symm)]
      exact hplace _ _ hnew.toSamePlace
  | remove _ _ _ _ => exact Tables.nodup_map_delete hnodup

end RowsChange

variable {tx : ℕ} {t : Transaction} {sh sh' : Shared}

/-- What holds of the rows before, of the uncommitted row, and of successors
holds of the rows after a change. -/
theorem Change.forall_rows (h : Change tx t sh sh') {P : Workstation → Prop}
    (hold : ∀ w ∈ sh.db.workstations, P w) (huncommitted : ∀ w ∈ sh.uncommitted, P w)
    (hstep : ∀ old new, Successor old new → P old → P new) :
    ∀ w ∈ sh'.db.workstations, P w := by
  intro w hw
  rcases h.rows.origin hw with ⟨old, hmem, hnew⟩ | ⟨hrow, _⟩
  · exact hstep old w hnew (hold old hmem)
  · exact huncommitted w (hrow ▸ List.mem_singleton_self _)

/-- A free slot stays free when no row is added. -/
theorem Shared.Free.change {workerID : String} {slot : ℤ} (h : sh.Free workerID slot)
    (hchange : Change tx t sh sh')
    (hlength : sh'.db.workstations.length ≤ sh.db.workstations.length) :
    sh'.Free workerID slot := by
  intro w hw hplace
  obtain ⟨old, hold, hnew⟩ := hchange.rows.successor hlength w hw
  exact h old hold ⟨hnew.workerID ▸ hplace.1, hnew.slot ▸ hplace.2⟩

/-- The invariant survives every change. -/
theorem Shared.Ok.change (hok : sh.Ok) (h : Change tx t sh sh') : sh'.Ok where
  workerIDs := h.workersKept.nodup hok.workerIDs
  ids := h.rows.nodup_map hok.ids (fun _ _ hplace => hplace.id)
    (fun row hrow => (hok.uncommitted row hrow).unstored) hok.ids
  used := by
    refine h.forall_rows (fun w hw => h.mem_usedIDs (hok.used w hw))
      (fun w hw => h.mem_usedIDs (hok.uncommitted w hw).used) fun old new hnew hold => ?_
    rwa [hnew.id]
  vmNames := by
    refine h.forall_rows hok.vmNames (fun w hw => (hok.uncommitted w hw).vmName)
      fun old new hnew hold => ?_
    rwa [hnew.id, hnew.vmName]
  usedNames := by
    rcases h.usedIDs with heq | ⟨new, hfresh, heq⟩
    · rw [heq]
      exact hok.usedNames
    · rw [heq, List.map_cons, List.nodup_cons]
      refine ⟨fun hmem => ?_, hok.usedNames⟩
      obtain ⟨used, hused, hname⟩ := List.mem_map.mp hmem
      exact hfresh used hused hname
  pool := by
    refine h.forall_rows (fun w hw => h.inPool (hok.pool w hw))
      (fun w hw => h.inPool (hok.uncommitted w hw).pool) fun old new hnew hold => ?_
    rwa [hnew.workerID, hnew.slot]
  places := by
    refine h.rows.nodup_map hok.ids (fun _ _ hplace => ?_) (fun row hrow w hw heq => ?_) hok.places
    · rw [hplace.workerID, hplace.slot]
    · exact (hok.uncommitted row hrow).free w hw ⟨congrArg Prod.fst heq, congrArg Prod.snd heq⟩
  marked := by
    refine h.forall_rows hok.marked (fun w hw hdeleted => ?_) fun old new hnew hold =>
      hnew.marked hold
    rw [(hok.uncommitted w hw).desired] at hdeleted
    cases hdeleted
  uncommitted row hrow := by
    rcases h.uncommitted hrow with ⟨hold, hlength⟩ | ⟨hfresh, hplace, hused, hdb⟩
    · have hins := hok.uncommitted row hold
      refine ⟨⟨hins.vmName, hins.desired, h.inPool hins.pool, hins.free.change h hlength⟩,
        h.mem_usedIDs hins.used, fun w hw => ?_⟩
      obtain ⟨old, hmem, hnew⟩ := h.rows.successor hlength w hw
      rw [hnew.id]
      exact hins.unstored old hmem
    · refine ⟨⟨hplace.vmName, hplace.desired, h.inPool hplace.pool, ?_⟩, hused, fun w hw heq => ?_⟩
      · exact hplace.free.change h (by rw [hdb])
      · rw [hdb] at hw
        exact hfresh w.id (hok.used w hw) (congrArg generateWorkstationVMName heq)
  unlocked := by
    cases h
    case lockAllocation => exact fun h => by cases h
    case insert hlock _ _ => exact fun h => by rw [h] at hlock; cases hlock
    case freeAllocation | commitInsert => exact fun _ => rfl
    all_goals exact hok.unlocked
  unstaged := by
    cases h
    case lockHostnames => exact fun h => by cases h
    case stageWorker hlock => exact fun h => by rw [h] at hlock; cases hlock
    case freeHostnames | commitWorker => exact fun _ => rfl
    all_goals exact hok.unstaged

/-- The id was committed at some time: it is used, and no claim is about to
commit it. -/
structure Shared.Known (sh : Shared) (id : String) : Prop where
  used : id ∈ sh.usedIDs
  settled : ∀ row ∈ sh.uncommitted, row.id ≠ id

namespace Shared.Known

variable {tx : ℕ} {t : Transaction} {sh sh' : Shared} {id : String} {w : Workstation}

/-- The ids of the table are known. -/
theorem of_mem (hok : sh.Ok) (hw : w ∈ sh.db.workstations) : sh.Known w.id :=
  ⟨hok.used w hw, fun row hrow heq => (hok.uncommitted row hrow).unstored w hw heq.symm⟩

/-- A known id stays known. -/
theorem change (h : sh.Known id) (hchange : Change tx t sh sh') : sh'.Known id := by
  refine ⟨hchange.mem_usedIDs h.used, fun row hrow => ?_⟩
  rcases hchange.uncommitted hrow with ⟨hold, _⟩ | ⟨hfresh, _⟩
  · exact h.settled row hold
  · rintro rfl
    exact hfresh row.id h.used rfl

/-- A row with a known id is the successor of a row with that id. -/
theorem successor (h : sh.Known id) (hchange : Change tx t sh sh') (hw : w ∈ sh'.db.workstations)
    (hid : w.id = id) :
    ∃ old ∈ sh.db.workstations, old.id = id ∧ Successor old w := by
  rcases hchange.rows.origin hw with ⟨old, hold, hnew⟩ | ⟨hrow, _⟩
  · exact ⟨old, hold, hnew.id.symm.trans hid, hnew⟩
  · exact absurd hid (h.settled w (hrow ▸ List.mem_singleton_self _))

end Shared.Known

namespace Change

variable {tx holder : ℕ} {t : Transaction} {sh sh' : Shared}

/-- While another transaction has the allocation lock, a statement leaves the
lock and the uncommitted rows, and commits no new workstation. -/
theorem allocation_frame (h : Change tx t sh sh') (hne : holder ≠ tx)
    (hlock : sh.allocationLock = some holder) :
    sh'.allocationLock = some holder ∧ sh'.uncommitted = sh.uncommitted ∧
      sh'.db.workstations.length ≤ sh.db.workstations.length := by
  have hother : sh.allocationLock ≠ some tx := fun h => hne (Option.some.inj (hlock.symm.trans h))
  cases h
  case lockAllocation hnone => simp [hlock] at hnone
  case freeAllocation hown => exact absurd hown hother
  case insert hown _ _ => exact absurd hown hother
  case commitInsert hown _ => exact absurd hown hother
  case commitPut => exact ⟨hlock, rfl, (List.length_map _).le⟩
  case commitRemove => exact ⟨hlock, rfl, List.length_filter_le _ _⟩
  all_goals exact ⟨hlock, rfl, le_rfl⟩

/-- While another transaction has the hostname lock, a statement leaves the lock
and the staged row, and adds no worker with the id of that row. -/
theorem hostname_frame (h : Change tx t sh sh') (hne : holder ≠ tx)
    (hlock : sh.hostnameLock = some holder) :
    sh'.hostnameLock = some holder ∧ sh'.stagedWorker = sh.stagedWorker ∧
      ∀ row, sh.stagedWorker = some row → ∀ w ∈ sh'.db.workers, w.id = row.id →
        ∃ old ∈ sh.db.workers, old.id = row.id := by
  have hother : sh.hostnameLock ≠ some tx := fun h => hne (Option.some.inj (hlock.symm.trans h))
  cases h
  case lockHostnames hnone => simp [hlock] at hnone
  case freeHostnames hown => exact absurd hown hother
  case stageWorker hown => exact absurd hown hother
  case commitWorker hown _ => exact absurd hown hother
  case workers hstaged => exact ⟨hlock, rfl, hstaged⟩
  all_goals exact ⟨hlock, rfl, fun row _ w hw hid => ⟨w, hw, hid⟩⟩

/-- While another transaction has locked a row, a statement leaves the lock and
the row. -/
theorem row_frame (h : Change tx t sh sh') (hne : holder ≠ tx) {id : String}
    (hlock : sh.rowLocks id = some holder) :
    sh'.rowLocks id = some holder ∧
      ∀ w ∈ sh.db.workstations, w.id = id → w ∈ sh'.db.workstations := by
  have hother : ∀ {key}, sh.rowLocks key = some tx → id ≠ key := by
    rintro key hown rfl
    exact hne (Option.some.inj (hlock.symm.trans hown))
  cases h
  case commitInsert _ _ =>
    exact ⟨hlock, fun w hw _ => List.mem_append_left _ hw⟩
  case lockRow key hnone =>
    have hkey : id ≠ key := by
      rintro rfl
      simp [hlock] at hnone
    exact ⟨(sh.setRowLock_of_ne hkey _).trans hlock, fun w hw _ => hw⟩
  case freeRow key hown =>
    exact ⟨(sh.setRowLock_of_ne (hother hown) _).trans hlock, fun w hw _ => hw⟩
  case commitPut hown _ _ _ =>
    refine ⟨(Shared.setRowLock_of_ne _ (hother hown) _).trans hlock, fun w hw hid => ?_⟩
    exact Tables.mem_update_of_ne hw (hid ▸ hother hown)
  case commitRemove _ hown _ _ _ =>
    refine ⟨(Shared.setRowLock_of_ne _ (hother hown) _).trans hlock, fun w hw hid => ?_⟩
    exact Tables.mem_delete.mpr ⟨hw, hid ▸ hother hown⟩
  all_goals exact ⟨hlock, fun w hw _ => hw⟩

end Change

end MiniControl.Fleet
