import MiniControl.Fleet.Scheduling

/-!
# The selection is the least loaded worker

What the selection loop is for, without a loop: among the workers with a free slot it
is the one that holds the fewest workstations, and of several such workers the one
with the least id. The slot is the least free one. Since the ids are distinct there is
one such worker, and the order in which the workers are listed does not matter.
-/

namespace MiniControl.Fleet

variable {workers : List Worker} {existing : Occupancy} {worker : Worker} {c : Candidate}

/-- The free slots of a worker below its pool size. -/
def Worker.freeSlots (existing : Occupancy) (worker : Worker) : Set ℤ :=
  {slot | 0 ≤ slot ∧ slot < worker.poolSize ∧ slot ∉ existing worker.id}

/-- The load of a worker, with its id to tell equal loads apart. -/
def Worker.load (existing : Occupancy) (worker : Worker) : ℕ ×ₗ String :=
  toLex ((existing worker.id).card, worker.id)

/-- The candidate is the least free slot of the worker. -/
structure Candidate.Of (existing : Occupancy) (worker : Worker) (c : Candidate) : Prop where
  workerID : c.workerID = worker.id
  count : c.count = (existing worker.id).card
  slot : IsLeast (worker.freeSlots existing) c.slot

/-- The candidate is that of the least loaded worker among those with a free slot. -/
def Candidate.LeastLoaded (workers : List Worker) (existing : Occupancy) (c : Candidate) : Prop :=
  ∃ worker ∈ workers, c.Of existing worker ∧
    ∀ other ∈ workers, (other.freeSlots existing).Nonempty →
      worker.load existing ≤ other.load existing

/-- The scan for a slot finds the least free one. -/
theorem firstAvailableSlot_eq_some {slot : ℤ} :
    firstAvailableSlot worker (existing worker.id) = some slot ↔
      IsLeast (worker.freeSlots existing) slot := by
  have hsound : ∀ {found}, firstAvailableSlot worker (existing worker.id) = some found →
      IsLeast (worker.freeSlots existing) found := by
    intro found hfound
    refine ⟨firstAvailableSlot_some hfound, ?_⟩
    rintro other ⟨hnonneg, _, hfree⟩
    rw [firstAvailableSlot, List.find?_map, Option.map_eq_some_iff] at hfound
    obtain ⟨n, hn, rfl⟩ := hfound
    obtain ⟨_, _, hbelow⟩ := List.find?_range_eq_some.mp hn
    obtain ⟨m, rfl⟩ := Int.eq_ofNat_of_zero_le hnonneg
    by_contra hless
    have hoccupied := hbelow m (by simpa using hless)
    exact hfree (by simpa using hoccupied)
  refine ⟨hsound, fun hleast => ?_⟩
  cases hfound : firstAvailableSlot worker (existing worker.id) with
  | none =>
    obtain ⟨hnonneg, hlt, hfree⟩ := hleast.1
    exact absurd (firstAvailableSlot_eq_none.mp hfound slot hnonneg hlt) hfree
  | some found => rw [(hsound hfound).unique hleast]

/-- No slot is found exactly if none is free. -/
theorem firstAvailableSlot_eq_none_iff :
    firstAvailableSlot worker (existing worker.id) = none ↔ worker.freeSlots existing = ∅ := by
  rw [firstAvailableSlot_eq_none, Set.eq_empty_iff_forall_notMem]
  simp only [Worker.freeSlots, Set.mem_ofPred_eq, not_and, not_not]

/-- A worker offers a candidate exactly as `Candidate.Of` describes it. -/
theorem candidateOf_eq_some_iff : candidateOf existing worker = some c ↔ c.Of existing worker := by
  rw [candidateOf_eq_some, firstAvailableSlot_eq_some]
  exact ⟨fun h => ⟨h.1, h.2.1, h.2.2⟩, fun h => ⟨h.workerID, h.count, h.slot⟩⟩

/-- Every worker with a free slot has a candidate. -/
theorem Candidate.exists_of (h : (worker.freeSlots existing).Nonempty) :
    ∃ c : Candidate, c.Of existing worker := by
  cases hcandidate : candidateOf existing worker with
  | none =>
    have hslot : firstAvailableSlot worker (existing worker.id) = none := by
      simpa [candidateOf] using hcandidate
    exact absurd (firstAvailableSlot_eq_none_iff.mp hslot) h.ne_empty
  | some c => exact ⟨c, candidateOf_eq_some_iff.mp hcandidate⟩

/-- The candidates of two workers are ranked as the workers are loaded. -/
theorem Candidate.Of.rank_lt {d : Candidate} {other : Worker} (hc : c.Of existing worker)
    (hd : d.Of existing other) (h : worker.load existing < other.load existing) :
    c.rank < d.rank := by
  simp only [Worker.load, Prod.Lex.toLex_lt_toLex] at h
  simp only [rank, Prod.Lex.toLex_lt_toLex, hc.workerID, hc.count, hd.workerID, hd.count]
  rcases h with h | ⟨hcount, hid⟩
  · exact .inl h
  · exact .inr ⟨hcount, .inl hid⟩

/-- A worker offers one candidate at most. -/
theorem Candidate.Of.unique {d : Candidate} (hc : c.Of existing worker)
    (hd : d.Of existing worker) : c = d := by
  obtain ⟨workerID, slot, count⟩ := c
  obtain ⟨workerID', slot', count'⟩ := d
  have hslot : slot = slot' := hc.slot.unique hd.slot
  have hcount : count = count' := hc.count.trans hd.count.symm
  have hworker : workerID = workerID' := hc.workerID.trans hd.workerID.symm
  rw [hslot, hcount, hworker]

/-- With distinct ids at most one candidate is that of the least loaded worker. -/
theorem Candidate.LeastLoaded.unique {d : Candidate} (hids : (workers.map Worker.id).Nodup)
    (hc : c.LeastLoaded workers existing) (hd : d.LeastLoaded workers existing) : c = d := by
  obtain ⟨worker, hworker, hof, hleast⟩ := hc
  obtain ⟨other, hother, hof', hleast'⟩ := hd
  have hload : worker.load existing = other.load existing :=
    le_antisymm (hleast other hother ⟨_, hof'.slot.1⟩) (hleast' worker hworker ⟨_, hof.slot.1⟩)
  have hid : worker.id = other.id := congrArg Prod.snd (toLex.injective hload)
  obtain rfl := List.inj_on_of_nodup_map hids hworker hother hid
  exact hof.unique hof'

/-- The selection loop ends with the candidate of the least loaded worker. -/
theorem leastLoaded_of_selectWorkstationCandidate
    (h : selectWorkstationCandidate workers existing "" = .ok c) :
    c.LeastLoaded workers existing := by
  rw [selectWorkstationCandidate_eq] at h
  split at h
  next => cases h
  next best hbest =>
    cases h
    obtain ⟨worker, hworker, hcandidate⟩ := List.mem_filterMap.mp (List.argmin_mem hbest)
    have hof := candidateOf_eq_some_iff.mp hcandidate
    refine ⟨worker, hworker, hof, fun other hother hfree => ?_⟩
    obtain ⟨d, hd⟩ := Candidate.exists_of hfree
    have hmem : d ∈ workers.filterMap (candidateOf existing) :=
      List.mem_filterMap.mpr ⟨other, hother, candidateOf_eq_some_iff.mpr hd⟩
    by_contra hless
    exact absurd (hd.rank_lt hof (not_le.mp hless)) (List.not_lt_of_mem_argmin hmem hbest)

/-- Without a preferred worker the only error is that no worker has a free slot. -/
theorem selectWorkstationCandidate_error {error : ClaimError} :
    selectWorkstationCandidate workers existing "" = .error error ↔
      error = .noSlotsAvailable ∧ ∀ worker ∈ workers, worker.freeSlots existing = ∅ := by
  simp only [← firstAvailableSlot_eq_none_iff]
  rw [← selectWorkstationCandidate_noSlots]
  constructor
  · intro h
    have herror : error = .noSlotsAvailable := by
      rw [selectWorkstationCandidate_eq] at h
      split at h
      · exact (Except.error.inj h).symm
      · cases h
    exact ⟨herror, herror ▸ h⟩
  · rintro ⟨rfl, h⟩
    exact h

/-- Without a preferred worker the selection is the least loaded one. -/
theorem selectWorkstationCandidate_eq_ok (hids : (workers.map Worker.id).Nodup) :
    selectWorkstationCandidate workers existing "" = .ok c ↔ c.LeastLoaded workers existing := by
  refine ⟨leastLoaded_of_selectWorkstationCandidate, fun hleast => ?_⟩
  cases hselect : selectWorkstationCandidate workers existing "" with
  | error error =>
    obtain ⟨worker, hworker, hof, _⟩ := hleast
    have hempty := (selectWorkstationCandidate_error.mp hselect).2 worker hworker
    exact absurd hempty (Set.Nonempty.ne_empty ⟨_, hof.slot.1⟩)
  | ok found => rw [(leastLoaded_of_selectWorkstationCandidate hselect).unique hids hleast]

section Preferred

variable {preferredWorkerID : String}

/-- The preferred worker is the one listed with its id. -/
theorem find?_preferred (hids : (workers.map Worker.id).Nodup) (hworker : worker ∈ workers)
    (hid : worker.id = preferredWorkerID) :
    workers.find? (·.id = preferredWorkerID) = some worker :=
  Tables.find?_eq_some hids hworker (by simpa using hid) fun _ _ h => by
    simpa [hid] using h

/-- A preferred worker that is listed gives its candidate, if it has one. -/
theorem selectWorkstationCandidate_of_listed (hids : (workers.map Worker.id).Nodup)
    (hpreferred : preferredWorkerID ≠ "") (hworker : worker ∈ workers)
    (hid : worker.id = preferredWorkerID) :
    selectWorkstationCandidate workers existing preferredWorkerID =
      match candidateOf existing worker with
      | none => .error .targetWorkerFull
      | some candidate => .ok candidate := by
  rw [selectWorkstationCandidate, if_pos hpreferred, find?_preferred hids hworker hid]
  simp only [candidateOf]
  cases firstAvailableSlot worker (existing worker.id) <;> rfl

/-- A preferred worker that is not among the schedulable ones is unavailable. -/
theorem selectWorkstationCandidate_of_unlisted (hpreferred : preferredWorkerID ≠ "")
    (hunlisted : ∀ worker ∈ workers, worker.id ≠ preferredWorkerID) :
    selectWorkstationCandidate workers existing preferredWorkerID =
      .error .targetWorkerUnavailable := by
  have hfind : workers.find? (·.id = preferredWorkerID) = none := by simpa using hunlisted
  rw [selectWorkstationCandidate, if_pos hpreferred, hfind]

/-- With a preferred worker its candidate is selected. -/
theorem selectWorkstationCandidate_preferred_ok (hids : (workers.map Worker.id).Nodup)
    (hpreferred : preferredWorkerID ≠ "") :
    selectWorkstationCandidate workers existing preferredWorkerID = .ok c ↔
      ∃ worker ∈ workers, worker.id = preferredWorkerID ∧ c.Of existing worker := by
  by_cases hlisted : ∃ worker ∈ workers, worker.id = preferredWorkerID
  · obtain ⟨worker, hworker, hid⟩ := hlisted
    have honly : (∃ other ∈ workers, other.id = preferredWorkerID ∧ c.Of existing other) ↔
        c.Of existing worker := by
      constructor
      · rintro ⟨other, hother, hid', hof⟩
        rwa [List.inj_on_of_nodup_map hids hother hworker (hid'.trans hid.symm)] at hof
      · exact fun hof => ⟨worker, hworker, hid, hof⟩
    rw [selectWorkstationCandidate_of_listed hids hpreferred hworker hid, honly,
      ← candidateOf_eq_some_iff]
    split
    next heq => simp [heq]
    next heq => simp [heq]
  · push Not at hlisted
    rw [selectWorkstationCandidate_of_unlisted hpreferred hlisted]
    constructor
    · intro h
      cases h
    · rintro ⟨worker, hworker, hid, _⟩
      exact absurd hid (hlisted worker hworker)

/-- With a preferred worker the errors say that it is full or not listed. -/
theorem selectWorkstationCandidate_preferred_error (hids : (workers.map Worker.id).Nodup)
    (hpreferred : preferredWorkerID ≠ "") {error : ClaimError} :
    selectWorkstationCandidate workers existing preferredWorkerID = .error error ↔
      (error = .targetWorkerFull ∧
        ∃ worker ∈ workers, worker.id = preferredWorkerID ∧ worker.freeSlots existing = ∅) ∨
      (error = .targetWorkerUnavailable ∧ ∀ worker ∈ workers, worker.id ≠ preferredWorkerID) := by
  by_cases hlisted : ∃ worker ∈ workers, worker.id = preferredWorkerID
  · obtain ⟨worker, hworker, hid⟩ := hlisted
    have hfull : (∃ other ∈ workers, other.id = preferredWorkerID ∧
        other.freeSlots existing = ∅) ↔ worker.freeSlots existing = ∅ := by
      constructor
      · rintro ⟨other, hother, hid', hempty⟩
        rwa [List.inj_on_of_nodup_map hids hother hworker (hid'.trans hid.symm)] at hempty
      · exact fun hempty => ⟨worker, hworker, hid, hempty⟩
    have hunlisted : ¬∀ worker ∈ workers, worker.id ≠ preferredWorkerID :=
      fun h => h worker hworker hid
    rw [selectWorkstationCandidate_of_listed hids hpreferred hworker hid, hfull,
      ← firstAvailableSlot_eq_none_iff]
    simp only [hunlisted, and_false, or_false]
    split
    next heq =>
      have hnone : firstAvailableSlot worker (existing worker.id) = none := by
        simpa [candidateOf] using heq
      simp [hnone, eq_comm]
    next heq => simp [(candidateOf_eq_some.mp heq).2.2]
  · have hnone : ¬∃ worker ∈ workers, worker.id = preferredWorkerID ∧
        worker.freeSlots existing = ∅ := by
      rintro ⟨worker, hworker, hid, _⟩
      exact hlisted ⟨worker, hworker, hid⟩
    push Not at hlisted
    rw [selectWorkstationCandidate_of_unlisted hpreferred hlisted]
    simp only [hnone, and_false, false_or, Except.error.injEq]
    exact ⟨fun h => ⟨h.symm, hlisted⟩, fun h => h.1.symm⟩

end Preferred

/-- Without a preferred worker the selection is the least free slot of the least loaded
worker, and fails exactly when no worker has a free slot. With one it is the least
free slot of that worker, and fails exactly when it is full or not listed. The order of
the workers does not matter. -/
theorem selects_least_loaded (workers : List Worker) (existing : Occupancy)
    (hids : (workers.map Worker.id).Nodup) :
    (∀ c, selectWorkstationCandidate workers existing "" = .ok c ↔
      c.LeastLoaded workers existing) ∧
    (∀ error, selectWorkstationCandidate workers existing "" = .error error ↔
      error = .noSlotsAvailable ∧ ∀ worker ∈ workers, worker.freeSlots existing = ∅) ∧
    (∀ preferredWorkerID, preferredWorkerID ≠ "" →
      (∀ c, selectWorkstationCandidate workers existing preferredWorkerID = .ok c ↔
        ∃ worker ∈ workers, worker.id = preferredWorkerID ∧ c.Of existing worker) ∧
      (∀ error, selectWorkstationCandidate workers existing preferredWorkerID = .error error ↔
        (error = .targetWorkerFull ∧
          ∃ worker ∈ workers, worker.id = preferredWorkerID ∧ worker.freeSlots existing = ∅) ∨
        (error = .targetWorkerUnavailable ∧
          ∀ worker ∈ workers, worker.id ≠ preferredWorkerID))) ∧
    (∀ workers' : List Worker, workers.Perm workers' → ∀ preferredWorkerID,
      selectWorkstationCandidate workers' existing preferredWorkerID =
        selectWorkstationCandidate workers existing preferredWorkerID) := by
  refine ⟨fun c => selectWorkstationCandidate_eq_ok hids,
    fun error => selectWorkstationCandidate_error,
    fun preferredWorkerID hpreferred =>
      ⟨fun c => selectWorkstationCandidate_preferred_ok hids hpreferred,
        fun error => selectWorkstationCandidate_preferred_error hids hpreferred⟩,
    fun workers' hperm preferredWorkerID => ?_⟩
  -- Every characterisation above speaks of the members of the list only.
  have hids' : (workers'.map Worker.id).Nodup := (hperm.map Worker.id).nodup_iff.mp hids
  have hmem : ∀ worker, worker ∈ workers' ↔ worker ∈ workers := fun _ => hperm.mem_iff.symm
  by_cases hpreferred : preferredWorkerID = ""
  · subst hpreferred
    cases hselect : selectWorkstationCandidate workers existing "" with
    | error error =>
      rw [selectWorkstationCandidate_error] at hselect ⊢
      simpa only [hmem] using hselect
    | ok c =>
      rw [selectWorkstationCandidate_eq_ok hids] at hselect
      rw [selectWorkstationCandidate_eq_ok hids']
      simpa only [Candidate.LeastLoaded, hmem] using hselect
  · cases hselect : selectWorkstationCandidate workers existing preferredWorkerID with
    | error error =>
      rw [selectWorkstationCandidate_preferred_error hids hpreferred] at hselect
      rw [selectWorkstationCandidate_preferred_error hids' hpreferred]
      simpa only [hmem] using hselect
    | ok c =>
      rw [selectWorkstationCandidate_preferred_ok hids hpreferred] at hselect
      rw [selectWorkstationCandidate_preferred_ok hids' hpreferred]
      simpa only [hmem] using hselect

/-- A registered worker with the given pool. -/
def pooledWorker (id : String) (poolSize : ℤ) : Worker where
  id := id
  hostname := id
  hardwareUUID := id
  cpuCores := 8
  memoryBytes := 0
  tartVersion := ""
  workerVersion := ""
  poolSize := poolSize
  baseImage := ""
  status := .active
  registeredAt := 0
  lastHeartbeat := some 0
  authTokenHash := none
  authTokenLastUsedAt := none
  authTokenRevokedAt := none

/-- Two slots of the second worker are occupied, one of them beyond its pool, and one
of the third. -/
def threeWorkers : Occupancy := fun id =>
  if id = "b" then {0, 7} else if id = "c" then {1} else ∅

/-- Of a worker without a pool and two with free slots, the one that holds fewer
workstations is chosen, in whatever order they are listed. -/
theorem selects_least_loaded_three :
    (⟨"c", 0, 1⟩ : Candidate).LeastLoaded
      [pooledWorker "c" 3, pooledWorker "a" (-1), pooledWorker "b" 2] threeWorkers ∧
    selectWorkstationCandidate [pooledWorker "a" (-1), pooledWorker "b" 2, pooledWorker "c" 3]
      threeWorkers "" = .ok ⟨"c", 0, 1⟩ := by
  obtain ⟨hok, _, _, hperm⟩ := selects_least_loaded
    [pooledWorker "c" 3, pooledWorker "a" (-1), pooledWorker "b" 2] threeWorkers (by decide)
  have hselect : selectWorkstationCandidate
      [pooledWorker "c" 3, pooledWorker "a" (-1), pooledWorker "b" 2] threeWorkers "" =
        .ok ⟨"c", 0, 1⟩ := rfl
  refine ⟨(hok _).mp hselect, ?_⟩
  rw [hperm _ (by decide) "", hselect]

end MiniControl.Fleet
