import MiniControl.Fleet.Model
import MiniControl.Tables.Keyed
import Mathlib.Data.List.MinMax
import Mathlib.Data.Prod.Lex
import Mathlib.Data.String.Basic
import Mathlib.Data.Int.ConditionallyCompleteOrder
import Mathlib.Order.ConditionallyCompleteLattice.Finset

/-!
# Choosing a worker and a slot

A claim reads the schedulable workers and the occupied slots, and chooses among
the workers with a free slot one with the fewest workstations. The choice is a
single pass over the workers with a sentinel for "nothing found yet".
-/

namespace MiniControl.Fleet

/-- The scheduling failures of a claim. -/
inductive ClaimError
  | noActiveWorkers
  | noSlotsAvailable
  | targetWorkerFull
  | targetWorkerUnavailable
  deriving DecidableEq

/-- The text of each scheduling failure. -/
def ClaimError.message : ClaimError → String
  | .noActiveWorkers => "no active workers available"
  | .noSlotsAvailable => "no workstation slots available"
  | .targetWorkerFull => "no workstation slots available on target worker"
  | .targetWorkerUnavailable => "target worker is not available"

/-- The occupied slots of each worker. -/
abbrev Occupancy := String → Finset ℤ

/-- `listAllocatedSlots`: the slots of all workstations, by worker. -/
def listAllocatedSlots (workstations : List Workstation) : Occupancy := fun workerID =>
  ((workstations.filter (·.workerID = workerID)).map (·.slot)).toFinset

/-- `firstAvailableSlot`: the first slot below the pool size that is not occupied. -/
def firstAvailableSlot (worker : Worker) (occupied : Finset ℤ) : Option ℤ :=
  ((List.range worker.poolSize.toNat).map Int.ofNat).find? (· ∉ occupied)

/-- `workstationCandidate`: a worker, a free slot of it and its load. -/
structure Candidate where
  workerID : String
  slot : ℤ
  count : ℕ
  deriving DecidableEq

/-- Whether a candidate replaces the best one so far. -/
def Candidate.replaces (candidate best : Candidate) : Bool :=
  best.slot = -1 || candidate.count < best.count ||
    (candidate.count = best.count &&
      (candidate.workerID < best.workerID ||
        (candidate.workerID = best.workerID && candidate.slot < best.slot)))

/-- One round of the selection loop. -/
def considerWorker (existing : Occupancy) (best : Candidate) (worker : Worker) : Candidate :=
  match firstAvailableSlot worker (existing worker.id) with
  | none => best
  | some slot =>
    let candidate : Candidate := ⟨worker.id, slot, (existing worker.id).card⟩
    if candidate.replaces best then candidate else best

/-- The value with which the selection loop starts. -/
def noCandidate : Candidate := ⟨"", -1, 0⟩

/-- `selectWorkstationCandidate`: the slot on the preferred worker if one is
named, and otherwise the best candidate of all workers. -/
def selectWorkstationCandidate (workers : List Worker) (existing : Occupancy)
    (preferredWorkerID : String) : Except ClaimError Candidate :=
  if preferredWorkerID ≠ "" then
    match workers.find? (·.id = preferredWorkerID) with
    | none => .error .targetWorkerUnavailable
    | some worker =>
      match firstAvailableSlot worker (existing worker.id) with
      | none => .error .targetWorkerFull
      | some slot => .ok ⟨worker.id, slot, (existing worker.id).card⟩
  else
    let best := workers.foldl (considerWorker existing) noCandidate
    if best.slot = -1 then .error .noSlotsAvailable else .ok best

variable {worker : Worker} {occupied : Finset ℤ} {slot : ℤ} {existing : Occupancy} {c : Candidate}
  {workers : List Worker}

/-- An available slot is within the pool and free. -/
theorem firstAvailableSlot_some (h : firstAvailableSlot worker occupied = some slot) :
    0 ≤ slot ∧ slot < worker.poolSize ∧ slot ∉ occupied := by
  have hfree : slot ∉ occupied := by simpa using List.find?_some h
  obtain ⟨n, hn, rfl⟩ := List.mem_map.mp (List.mem_of_find?_eq_some h)
  have hlt := List.mem_range.mp hn
  refine ⟨Int.natCast_nonneg n, ?_, hfree⟩
  simp only [Int.ofNat_eq_natCast]
  omega

/-- No slot is available exactly when every slot of the pool is occupied. -/
theorem firstAvailableSlot_eq_none :
    firstAvailableSlot worker occupied = none ↔
      ∀ slot, 0 ≤ slot → slot < worker.poolSize → slot ∈ occupied := by
  unfold firstAvailableSlot
  rw [List.find?_eq_none]
  constructor
  · intro h slot hlo hhi
    have hmem : slot ∈ (List.range worker.poolSize.toNat).map Int.ofNat := by
      refine List.mem_map.mpr ⟨slot.toNat, List.mem_range.mpr (by omega), ?_⟩
      simp only [Int.ofNat_eq_natCast]
      omega
    simpa using h slot hmem
  · intro h slot hmem
    obtain ⟨n, hn, rfl⟩ := List.mem_map.mp hmem
    have hlt := List.mem_range.mp hn
    have hslot := h (Int.ofNat n) (Int.natCast_nonneg n) (by
      simp only [Int.ofNat_eq_natCast]
      omega)
    simpa using hslot

/-- A candidate names a worker of the list and its first available slot. -/
def Candidate.FromWorkers (workers : List Worker) (existing : Occupancy) (c : Candidate) : Prop :=
  ∃ worker ∈ workers, worker.id = c.workerID ∧
    firstAvailableSlot worker (existing worker.id) = some c.slot

/-- The candidate that a worker with a free slot gives. -/
def candidateOf (existing : Occupancy) (worker : Worker) : Option Candidate :=
  (firstAvailableSlot worker (existing worker.id)).map fun slot =>
    ⟨worker.id, slot, (existing worker.id).card⟩

/-- Candidates are preferred by their load, then by their worker and then by their slot. -/
def Candidate.rank (c : Candidate) : ℕ ×ₗ String ×ₗ ℤ :=
  toLex (c.count, toLex (c.workerID, c.slot))

/-- The candidate of a worker has its id, the number of its workstations and its first free
slot. -/
theorem candidateOf_eq_some :
    candidateOf existing worker = some c ↔ c.workerID = worker.id ∧
      c.count = (existing worker.id).card ∧
      firstAvailableSlot worker (existing worker.id) = some c.slot := by
  obtain ⟨workerID, slot, count⟩ := c
  simp only [candidateOf, Option.map_eq_some_iff, Candidate.mk.injEq]
  constructor
  · rintro ⟨_, hslot, rfl, rfl, rfl⟩
    exact ⟨rfl, rfl, hslot⟩
  · rintro ⟨rfl, rfl, hslot⟩
    exact ⟨slot, hslot, rfl, rfl, rfl⟩

/-- After the sentinel a candidate is replaced by those of a lower rank. -/
theorem Candidate.replaces_iff {c best : Candidate} (h : best.slot ≠ -1) :
    c.replaces best = true ↔ c.rank < best.rank := by
  simp [replaces, rank, h, Prod.Lex.toLex_lt_toLex]

/-- The selection loop finds the candidate of the least rank, and keeps its sentinel
when there is none. -/
theorem foldl_considerWorker (existing : Occupancy) (workers : List Worker) :
    workers.foldl (considerWorker existing) noCandidate =
      ((workers.filterMap (candidateOf existing)).argmin Candidate.rank).getD noCandidate := by
  -- The loop appends one worker at a time, as `List.argmin_concat` does.
  induction workers using List.reverseRecOn with
  | nil => rfl
  | append_singleton workers worker ih =>
    rw [List.foldl_concat, ih, List.filterMap_append]
    cases hcandidate : candidateOf existing worker with
    | none =>
      have hslot : firstAvailableSlot worker (existing worker.id) = none := by
        simpa [candidateOf] using hcandidate
      simp [considerWorker, hslot, hcandidate]
    | some candidate =>
      obtain ⟨hworker, hcount, hslot⟩ := candidateOf_eq_some.mp hcandidate
      have hround : ∀ best, considerWorker existing best worker =
          if candidate.replaces best then candidate else best := by
        intro best
        simp only [considerWorker, hslot]
        rw [← hcount, ← hworker]
      simp only [hround, List.filterMap_cons, hcandidate, List.filterMap_nil, List.argmin_concat]
      cases hbest : (workers.filterMap (candidateOf existing)).argmin Candidate.rank with
      | none => simp [Candidate.replaces, noCandidate]
      | some best =>
        obtain ⟨other, _, hother⟩ := List.mem_filterMap.mp (List.argmin_mem hbest)
        obtain ⟨hnonneg, _, _⟩ := firstAvailableSlot_some (candidateOf_eq_some.mp hother).2.2
        have hset : best.slot ≠ -1 := by omega
        simp only [Option.getD_some, Candidate.replaces_iff hset]
        split <;> rfl

/-- Without a preferred worker the candidate of the least rank is selected. -/
theorem selectWorkstationCandidate_eq (workers : List Worker) (existing : Occupancy) :
    selectWorkstationCandidate workers existing "" =
      match (workers.filterMap (candidateOf existing)).argmin Candidate.rank with
      | none => .error .noSlotsAvailable
      | some best => .ok best := by
  simp only [selectWorkstationCandidate, ne_eq, not_true_eq_false, if_false, foldl_considerWorker]
  cases hbest : (workers.filterMap (candidateOf existing)).argmin Candidate.rank with
  | none => rfl
  | some best =>
    obtain ⟨worker, _, hworker⟩ := List.mem_filterMap.mp (List.argmin_mem hbest)
    obtain ⟨hnonneg, _, _⟩ := firstAvailableSlot_some (candidateOf_eq_some.mp hworker).2.2
    have hset : best.slot ≠ -1 := by omega
    simp [hset]

/-- A selected candidate is the first available slot of a listed worker. -/
theorem selectWorkstationCandidate_ok {preferredWorkerID : String}
    (h : selectWorkstationCandidate workers existing preferredWorkerID = .ok c) :
    c.FromWorkers workers existing := by
  by_cases hpreferred : preferredWorkerID = ""
  · rw [hpreferred, selectWorkstationCandidate_eq] at h
    split at h
    next => cases h
    next best hbest =>
      cases h
      obtain ⟨worker, hmem, hworker⟩ := List.mem_filterMap.mp (List.argmin_mem hbest)
      obtain ⟨hid, _, hslot⟩ := candidateOf_eq_some.mp hworker
      exact ⟨worker, hmem, hid.symm, hslot⟩
  · rw [selectWorkstationCandidate, if_pos hpreferred] at h
    split at h
    next => cases h
    next worker hworker =>
      split at h
      next => cases h
      next slot hslot =>
        cases h
        exact ⟨worker, List.mem_of_find?_eq_some hworker, rfl, hslot⟩

/-- Without a preferred worker, a claim finds no slot exactly when every listed
worker has all slots of its pool occupied. -/
theorem selectWorkstationCandidate_noSlots :
    selectWorkstationCandidate workers existing "" = .error .noSlotsAvailable ↔
      ∀ worker ∈ workers, firstAvailableSlot worker (existing worker.id) = none := by
  have hnone : (∀ worker ∈ workers, firstAvailableSlot worker (existing worker.id) = none) ↔
      (workers.filterMap (candidateOf existing)).argmin Candidate.rank = none := by
    simp [List.argmin_eq_none, List.filterMap_eq_nil_iff, candidateOf]
  rw [selectWorkstationCandidate_eq, hnone]
  split
  next heq => simp [heq]
  next heq => simp [heq]

/-- A slot is listed as allocated exactly when a workstation has it. -/
theorem mem_listAllocatedSlots {workstations : List Workstation} {workerID : String} :
    slot ∈ listAllocatedSlots workstations workerID ↔
      ∃ w ∈ workstations, w.workerID = workerID ∧ w.slot = slot := by
  simp [listAllocatedSlots, and_assoc]

end MiniControl.Fleet
