import MiniControl.Fleet.Isolation

/-!
# Slot allocation over whole runs

Claims run under the allocation lock, but registrations, heartbeats, hostname
assignments, updates and deletions of rows interleave with them freely. The slots
stay within the pools and distinct all the same, the uniqueness constraint never
has to refuse a claim, and a claim is refused for lack of slots only when the
workers it read were full.
-/

namespace MiniControl.Fleet

open Transition

/-- The committed workstations of a worker. -/
def Shared.heldBy (sh : Shared) (workerID : String) : List Workstation :=
  sh.db.workstations.filter (·.workerID = workerID)

variable {sh : Shared} {worker : Worker} {server : Server} {tx : ℕ} {memberID : String}

/-- A slot in a pool is below the pool size of every row of its worker. -/
theorem Shared.Ok.slot_lt (hok : sh.Ok) {w : Workstation} (hw : w ∈ sh.db.workstations)
    (hworker : worker ∈ sh.db.workers) (hid : worker.id = w.workerID) :
    w.slot < worker.poolSize := by
  obtain ⟨_, row, hrow, hrowID, hlt⟩ := hok.pool w hw
  rwa [List.inj_on_of_nodup_map hok.workerIDs hworker hrow (hid.trans hrowID.symm)]

/-- The slots of one worker are distinct. -/
theorem Shared.Ok.nodup_slots (hok : sh.Ok) (workerID : String) :
    ((sh.heldBy workerID).map Workstation.slot).Nodup := by
  have hsub : ((sh.heldBy workerID).map fun w => (w.workerID, w.slot)).Nodup :=
    hok.places.sublist (List.filter_sublist.map _)
  have hmap : (sh.heldBy workerID).map (fun w => (w.workerID, w.slot)) =
      ((sh.heldBy workerID).map Workstation.slot).map fun slot => (workerID, slot) := by
    rw [List.map_map]
    apply List.map_congr_left
    intro w hw
    have hid : w.workerID = workerID := by simpa using (List.mem_filter.mp hw).2
    simp [hid]
  rw [hmap] at hsub
  exact hsub.of_map _

/-- No worker holds more workstations than its pool has slots. -/
theorem Shared.Ok.length_heldBy (hok : sh.Ok) (hworker : worker ∈ sh.db.workers) :
    ((sh.heldBy worker.id).length : ℤ) ≤ max 0 worker.poolSize := by
  refine Tables.length_le_of_nodup_of_lt (hok.nodup_slots worker.id) fun w hw => ?_
  obtain ⟨hmem, hid⟩ := List.mem_filter.mp hw
  exact ⟨(hok.pool w hmem).1, hok.slot_lt hmem hworker (of_decide_eq_true hid).symm⟩

/-- A worker without an available slot holds at least as many workstations as
its pool has slots. -/
theorem poolSize_le_of_firstAvailableSlot
    (h : firstAvailableSlot worker (listAllocatedSlots sh.db.workstations worker.id) = none) :
    worker.poolSize ≤ (sh.heldBy worker.id).length := by
  refine Tables.le_length_of_forall_mem Workstation.slot fun slot hlo hhi => ?_
  have hmem := firstAvailableSlot_eq_none.mp h slot hlo hhi
  obtain ⟨w, hw, hid, hslot⟩ := mem_listAllocatedSlots.mp hmem
  exact ⟨w, List.mem_filter.mpr ⟨hw, by simpa using hid⟩, hslot⟩

/-- Only the statement that reads the slots refuses a claim for lack of slots. -/
theorem Server.claimWorkstation_noSlots {sh sh' : Shared} {memberID preferredWorkerID : String}
    {phase : ClaimPhase} {action : ClaimAction}
    (h : server.claimWorkstation sh tx memberID preferredWorkerID phase action =
      some (sh', .finished (.refused .noSlotsAvailable))) :
    ∃ workers, phase = .listed workers ∧
      selectWorkstationCandidate workers (listAllocatedSlots sh.db.workstations)
        preferredWorkerID = .error .noSlotsAvailable := by
  cases claims_of_claimWorkstation h with
  | @refuse workers _ herror => exact ⟨workers, rfl, herror⟩

/-- A claim without a preferred worker that is refused for lack of slots had
read, at its last statement, only workers that were full. -/
theorem Server.full_of_noSlots {s t : State} {action : Action}
    (hnext : server.system.next s (tx, action) t)
    (ht : t.locals tx = .claim memberID "" (.finished (.refused .noSlotsAvailable))) :
    ∃ workers, s.locals tx = .claim memberID "" (.listed workers) ∧
      ∀ worker ∈ workers, worker.poolSize ≤ (s.shared.heldBy worker.id).length := by
  obtain ⟨sh, l, hact, rfl⟩ := Program.step_eq_some.mp hnext
  obtain rfl : l = .claim memberID "" (.finished (.refused .noSlotsAvailable)) := by simpa using ht
  obtain ⟨phase, statement, hlocal, hclaim⟩ := act_claim hact (by simp)
  obtain ⟨workers, rfl, hselect⟩ := claimWorkstation_noSlots hclaim
  refine ⟨workers, hlocal, fun worker hworker => ?_⟩
  exact poolSize_le_of_firstAvailableSlot
    (selectWorkstationCandidate_noSlots.mp hselect worker hworker)

/-- In every reachable state every slot lies in the pool of its worker, the
places are distinct, no worker holds more workstations than its pool has slots,
no claim was refused by the uniqueness constraint, and a claim without a
preferred worker is refused for lack of slots only when every worker that it had
read held, when it read the slots, as many workstations as its pool has slots. -/
theorem Server.allocation_safe (server : Server) {s : State} (h : server.system.Reachable s) :
    (∀ w ∈ s.shared.db.workstations, 0 ≤ w.slot ∧
      (∃ worker ∈ s.shared.db.workers, worker.id = w.workerID) ∧
      ∀ worker ∈ s.shared.db.workers, worker.id = w.workerID → w.slot < worker.poolSize) ∧
    (s.shared.db.workstations.map fun w => (w.workerID, w.slot)).Nodup ∧
    (∀ worker ∈ s.shared.db.workers,
      ((s.shared.heldBy worker.id).length : ℤ) ≤ max 0 worker.poolSize) ∧
    (∀ tx memberID preferredWorkerID,
      s.locals tx ≠ .claim memberID preferredWorkerID (.finished .duplicateSlot)) ∧
    (∀ tx action t memberID, server.system.next s (tx, action) t →
      t.locals tx = .claim memberID "" (.finished (.refused .noSlotsAvailable)) →
      ∃ workers, s.locals tx = .claim memberID "" (.listed workers) ∧
        ∀ worker ∈ workers, worker.poolSize ≤ (s.shared.heldBy worker.id).length) := by
  obtain ⟨hok, hholds⟩ := server.holds_of_reachable h
  refine ⟨fun w hw => ?_, hok.places, fun worker => hok.length_heldBy, ?_, ?_⟩
  · obtain ⟨hnonneg, worker, hworker, hid, _⟩ := hok.pool w hw
    exact ⟨hnonneg, ⟨worker, hworker, hid⟩, fun row hrow hrowID => hok.slot_lt hw hrow hrowID⟩
  · intro tx memberID preferredWorkerID hfinished
    have hreply := hholds tx
    rw [hfinished] at hreply
    exact hreply rfl
  · intro tx action t memberID hnext ht
    exact full_of_noSlots hnext ht

/-- A worker with one slot registers and sends a heartbeat, one member claims the
slot, and the claim of a second member is refused. -/
def fullFleet : List (ℕ × Action) :=
  [(0, .register 100 ⟨"w", "mac-1", "uuid", 8, 16, "2", "1", 1, "base"⟩),
   (0, .updateWorker 110 "w" .heartbeat),
   (1, .beginClaim "alice" ""), (2, .beginClaim "bob" ""),
   (1, .claim .lock), (1, .claim (.listWorkers 120)), (1, .claim .listSlots),
   (1, .claim (.insert 120 "id-1")), (0, .updateWorker 121 "w" .heartbeat), (1, .claim .commit),
   (2, .claim .lock), (2, .claim (.listWorkers 122)), (2, .claim .listSlots)]

/-- The slot invariant in the state that the run of a full fleet reaches. -/
theorem allocation_safe_fullFleet : ∃ s : State, plainServer.system.Reachable s ∧
    s.locals 2 = .claim "bob" "" (.finished (.refused .noSlotsAvailable)) ∧
    s.shared.db.workstations.map (·.slot) = [0] ∧
    (s.shared.db.workstations.map fun w => (w.workerID, w.slot)).Nodup := by
  have hrun : ∃ s, runEvents plainServer.program.step State.initial fullFleet = some s ∧
      s.locals 2 = .claim "bob" "" (.finished (.refused .noSlotsAvailable)) ∧
      s.shared.db.workstations.map (·.slot) = [0] := ⟨_, rfl, rfl, rfl⟩
  obtain ⟨s, hs, hrefused, hslots⟩ := hrun
  have hreach : plainServer.system.Reachable s := reachable_of_runEvents rfl hs
  exact ⟨s, hreach, hrefused, hslots, (plainServer.allocation_safe hreach).2.1⟩

end MiniControl.Fleet
