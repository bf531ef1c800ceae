import MiniControl.Balance.Greedy
import MiniControl.Fleet.Alone
import MiniControl.Fleet.LeastLoaded

/-!
# Claims fill the fleet

Successive claims without a preferred worker, with nothing deleted in between, fill the
schedulable workers evenly. Each worker has its first slots occupied, no worker is more
than one workstation ahead of a worker with a free slot, and the claims succeed until
every pool is full. The columns of the workers other than their ids and pools may change
from one claim to the next, as they do with every heartbeat.
-/

namespace MiniControl.Fleet

/-- A claim without a preferred worker, and the workers table that it reads. -/
structure ClaimRound where
  memberID : String
  listed : Time
  now : Time
  id : String
  workers : List Worker
  deriving DecidableEq

/-- Claims that run one after another, with their replies. -/
def Server.claimRounds (server : Server) (rows : List Workstation) :
    List ClaimRound → List Workstation × List ClaimReply
  | [] => (rows, [])
  | round :: rounds =>
    let claimed :=
      server.claim round.memberID "" round.listed round.now round.id ⟨round.workers, rows⟩
    let rest := server.claimRounds claimed.1.workstations rounds
    (rest.1, claimed.2 :: rest.2)

/-- The schedulable workers that a claim finds. -/
def Server.schedulable (server : Server) (round : ClaimRound) : List Worker :=
  listSchedulableWorkers server.collate (round.listed - schedulableHeartbeatWindow) round.workers

/-- The id and the pool size of a worker. -/
abbrev Pool := String × ℤ

/-- The pool of a worker. -/
def Worker.pool (worker : Worker) : Pool := (worker.id, worker.poolSize)

/-- The slots of a pool. -/
def Pool.capacity (pool : Pool) : ℕ := pool.2.toNat

/-- The workstations in a pool. -/
def Pool.held (rows : List Workstation) (pool : Pool) : List Workstation :=
  rows.filter (·.workerID = pool.1)

/-- The number of workstations in a pool. -/
def Pool.content (rows : List Workstation) (pool : Pool) : ℕ := (pool.held rows).length

/-- The workstations occupy the first slots of each pool, and are spread evenly. -/
structure Filled (fleet : List Pool) (rows : List Workstation) : Prop where
  slots : ∀ pool ∈ fleet, (pool.held rows).map Workstation.slot =
    (List.range (pool.content rows)).map Int.ofNat
  even : Balance.Even fleet.toFinset Pool.capacity (Pool.content rows)
  total : ∑ pool ∈ fleet.toFinset, pool.content rows = rows.length

section

variable {fleet : List Pool} {rows : List Workstation} {worker : Worker} {row : Workstation}
  {server : Server} {round : ClaimRound}

/-- No workstations fill any fleet. -/
theorem Filled.nil (fleet : List Pool) : Filled fleet [] := by
  refine ⟨fun pool _ => rfl, ⟨fun pool _ => Nat.zero_le _, fun pool _ other _ => ?_⟩, ?_⟩
  · exact .inl (Nat.zero_le _)
  · exact Finset.sum_eq_zero fun pool _ => rfl

/-- A filled worker has given away its slots from zero on, without a gap. -/
theorem Filled.listAllocatedSlots_eq (h : Filled fleet rows) (hworker : worker.pool ∈ fleet) :
    listAllocatedSlots rows worker.id =
      ((List.range (worker.pool.content rows)).map Int.ofNat).toFinset := by
  rw [← h.slots _ hworker]
  rfl

/-- The load of a worker is the number of its workstations. -/
theorem Filled.card_listAllocatedSlots (h : Filled fleet rows) (hworker : worker.pool ∈ fleet) :
    (listAllocatedSlots rows worker.id).card = worker.pool.content rows := by
  have hnodup : ((List.range (worker.pool.content rows)).map Int.ofNat).Nodup :=
    List.nodup_range.map fun _ _ => Int.ofNat.inj
  rw [h.listAllocatedSlots_eq hworker, List.toFinset_card_of_nodup hnodup, List.length_map,
    List.length_range]

/-- The free slots of a worker are those after its workstations. -/
theorem Filled.mem_freeSlots (h : Filled fleet rows) (hworker : worker.pool ∈ fleet) {slot : ℤ} :
    slot ∈ worker.freeSlots (listAllocatedSlots rows) ↔
      (worker.pool.content rows : ℤ) ≤ slot ∧ slot < worker.poolSize := by
  simp only [Worker.freeSlots, Set.mem_ofPred_eq, h.listAllocatedSlots_eq hworker,
    List.mem_toFinset, List.mem_map, List.mem_range, Int.ofNat_eq_natCast, not_exists, not_and]
  constructor
  · rintro ⟨hnonneg, hlt, hfree⟩
    refine ⟨?_, hlt⟩
    by_contra hless
    exact hfree slot.toNat (by omega) (by omega)
  · rintro ⟨hle, hlt⟩
    exact ⟨by omega, hlt, fun n hn heq => by omega⟩

/-- A filled worker has a free slot exactly as long as it holds fewer workstations than it
has slots. -/
theorem Filled.nonempty_freeSlots (h : Filled fleet rows) (hworker : worker.pool ∈ fleet) :
    (worker.freeSlots (listAllocatedSlots rows)).Nonempty ↔
      worker.pool.content rows < worker.pool.capacity := by
  have hcapacity : worker.pool.capacity = worker.poolSize.toNat := rfl
  constructor
  · rintro ⟨slot, hslot⟩
    obtain ⟨hle, hlt⟩ := (h.mem_freeSlots hworker).mp hslot
    omega
  · intro hlt
    exact ⟨worker.pool.content rows, (h.mem_freeSlots hworker).mpr ⟨le_rfl, by omega⟩⟩

/-- The workstations of a pool after one more is added. -/
theorem Pool.held_append (pool : Pool) (rows : List Workstation) (row : Workstation) :
    pool.held (rows ++ [row]) = pool.held rows ++ if row.workerID = pool.1 then [row] else [] := by
  simp only [held, List.filter_append, List.filter_cons, List.filter_nil, decide_eq_true_eq]

/-- A new workstation adds one to the content of its worker. -/
theorem Pool.content_append_self {pool : Pool} (h : row.workerID = pool.1) :
    pool.content (rows ++ [row]) = pool.content rows + 1 := by
  rw [content, held_append, if_pos h, List.length_append]
  rfl

/-- A new workstation changes nothing for the other workers. -/
theorem Pool.held_append_of_ne {pool : Pool} (h : row.workerID ≠ pool.1) :
    pool.held (rows ++ [row]) = pool.held rows := by
  rw [held_append, if_neg h, List.append_nil]

/-- A workstation in the first free slot of the least loaded worker keeps the fleet
filled. -/
theorem Filled.append (h : Filled fleet rows) (hfleet : (fleet.map Prod.fst).Nodup)
    {workers : List Worker} (hworkers : (workers.map Worker.pool).Perm fleet) {c : Candidate}
    (hleast : c.LeastLoaded workers (listAllocatedSlots rows)) (hid : row.workerID = c.workerID)
    (hslot : row.slot = c.slot) : Filled fleet (rows ++ [row]) := by
  have hpool : ∀ w ∈ workers, w.pool ∈ fleet := fun w hw =>
    hworkers.mem_iff.mp (List.mem_map_of_mem hw)
  have hmem : ∀ pool ∈ fleet, ∃ w ∈ workers, w.pool = pool := fun pool hp =>
    List.mem_map.mp (hworkers.mem_iff.mpr hp)
  obtain ⟨worker, hworker, hof, hleast⟩ := hleast
  have hrow : row.workerID = worker.pool.1 := hid.trans hof.workerID
  have hother : ∀ pool ∈ fleet, pool ≠ worker.pool → row.workerID ≠ pool.1 := by
    intro pool hp hne heq
    exact hne (List.inj_on_of_nodup_map hfleet hp (hpool worker hworker) (heq.symm.trans hrow))
  have hadds : Balance.Adds fleet.toFinset Pool.capacity (Pool.content rows)
      (Pool.content (rows ++ [row])) worker.pool := by
    refine ⟨List.mem_toFinset.mpr (hpool worker hworker),
      (h.nonempty_freeSlots (hpool worker hworker)).mp ⟨_, hof.slot.1⟩, ?_,
      Pool.content_append_self hrow, fun pool hp hne => ?_⟩
    · intro pool hp hroom
      obtain ⟨other, hmember, rfl⟩ := hmem pool (List.mem_toFinset.mp hp)
      have hload := hleast other hmember ((h.nonempty_freeSlots (hpool other hmember)).mpr hroom)
      simp only [Worker.load, h.card_listAllocatedSlots (hpool _ hworker),
        h.card_listAllocatedSlots (hpool _ hmember), Prod.Lex.toLex_le_toLex] at hload
      omega
    · rw [Pool.content, Pool.held_append_of_ne (hother pool (List.mem_toFinset.mp hp) hne)]
      rfl
  refine ⟨fun pool hp => ?_, h.even.adds hadds, ?_⟩
  · by_cases heq : pool = worker.pool
    · -- The new slot is the least free one, which follows the occupied ones.
      subst heq
      have hfree := (h.mem_freeSlots (hpool worker hworker)).mp hof.slot.1
      have hnext : c.slot = worker.pool.content rows := by
        have hle := hof.slot.2 ((h.mem_freeSlots (hpool worker hworker)).mpr
          ⟨le_rfl, lt_of_le_of_lt hfree.1 hfree.2⟩)
        omega
      rw [Pool.content_append_self hrow, Pool.held_append, if_pos hrow, List.map_append,
        h.slots _ hp, List.range_succ, List.map_append, List.map_singleton, hslot, hnext]
      rfl
    · rw [Pool.content, Pool.held_append_of_ne (hother pool hp heq)]
      exact h.slots pool hp
  · rw [hadds.sum, h.total, List.length_append]
    rfl

/-- A claim that selects no candidate is refused. -/
theorem Server.claim_of_error {error : ClaimError} (hworkers : server.schedulable round ≠ [])
    (hselect : selectWorkstationCandidate (server.schedulable round) (listAllocatedSlots rows) "" =
      .error error) :
    server.claim round.memberID "" round.listed round.now round.id ⟨round.workers, rows⟩ =
      (⟨round.workers, rows⟩, .refused error) := by
  refine (if_neg hworkers).trans ?_
  rw [Server.schedulable] at hselect
  simp only [hselect]

/-- A claim inserts the row of its candidate if the slot is free. -/
theorem Server.claim_of_ok {candidate : Candidate} (hworkers : server.schedulable round ≠ [])
    (hselect : selectWorkstationCandidate (server.schedulable round) (listAllocatedSlots rows) "" =
      .ok candidate) (hfree : ¬(rows.any fun old => decide (old.workerID = candidate.workerID) &&
      decide (old.slot = candidate.slot)) = true) :
    server.claim round.memberID "" round.listed round.now round.id ⟨round.workers, rows⟩ =
      (⟨round.workers, rows ++ [newWorkstation round.now round.id round.memberID candidate]⟩,
        .claimed (newWorkstation round.now round.id round.memberID candidate)) := by
  refine (if_neg hworkers).trans ?_
  rw [Server.schedulable] at hselect
  simp only [hselect]
  exact if_neg hfree

/-- A claim on a filled fleet takes the next slot, or finds that there is none. -/
theorem Filled.claim (h : Filled fleet rows) (hfleet : (fleet.map Prod.fst).Nodup)
    (hne : fleet ≠ []) (hround : ((server.schedulable round).map Worker.pool).Perm fleet) :
    (rows.length < ∑ pool ∈ fleet.toFinset, pool.capacity →
      ∃ row, server.claim round.memberID "" round.listed round.now round.id
          ⟨round.workers, rows⟩ = (⟨round.workers, rows ++ [row]⟩, .claimed row) ∧
        Filled fleet (rows ++ [row])) ∧
    (∑ pool ∈ fleet.toFinset, pool.capacity ≤ rows.length →
      server.claim round.memberID "" round.listed round.now round.id ⟨round.workers, rows⟩ =
        (⟨round.workers, rows⟩, .refused .noSlotsAvailable)) := by
  have hworkers : server.schedulable round ≠ [] := by
    intro hempty
    rw [hempty] at hround
    exact hne hround.symm.eq_nil
  have hroom := h.even.exists_room
  rw [h.total] at hroom
  have hpool : ∀ w ∈ server.schedulable round, w.pool ∈ fleet := fun w hw =>
    hround.mem_iff.mp (List.mem_map_of_mem hw)
  constructor
  · intro hlt
    obtain ⟨pool, hp, hpoolRoom⟩ := hroom.mpr hlt
    obtain ⟨w, hw, rfl⟩ := List.mem_map.mp (hround.mem_iff.mpr (List.mem_toFinset.mp hp))
    cases hselect : selectWorkstationCandidate (server.schedulable round)
        (listAllocatedSlots rows) "" with
    | error error =>
      have hempty := (selectWorkstationCandidate_error.mp hselect).2 w hw
      have hfree := (h.nonempty_freeSlots (hpool w hw)).mpr hpoolRoom
      exact absurd hempty hfree.ne_empty
    | ok candidate =>
      have hleast := leastLoaded_of_selectWorkstationCandidate hselect
      have hfree : ¬(rows.any fun old =>
          decide (old.workerID = candidate.workerID) && decide (old.slot = candidate.slot)) =
            true := by
        obtain ⟨worker, _, hof, _⟩ := hleast
        intro hany
        obtain ⟨old, hold, heq⟩ := List.any_eq_true.mp hany
        simp only [Bool.and_eq_true, decide_eq_true_eq] at heq
        refine hof.slot.1.2.2 (mem_listAllocatedSlots.mpr ⟨old, hold, ?_, heq.2⟩)
        rw [heq.1, hof.workerID]
      exact ⟨newWorkstation round.now round.id round.memberID candidate,
        Server.claim_of_ok hworkers hselect hfree, h.append hfleet hround hleast rfl rfl⟩
  · intro hfull
    have herror : selectWorkstationCandidate (server.schedulable round) (listAllocatedSlots rows)
        "" = .error .noSlotsAvailable := by
      refine selectWorkstationCandidate_error.mpr ⟨rfl, fun w hw => ?_⟩
      by_contra hfree
      have hlt := (h.nonempty_freeSlots (hpool w hw)).mp (Set.nonempty_iff_ne_empty.mpr hfree)
      exact absurd (hroom.mp ⟨_, List.mem_toFinset.mpr (hpool w hw), hlt⟩) (not_lt.mpr hfull)
    exact Server.claim_of_error hworkers herror

/-- Claims on a filled fleet, whose workstations count as claims already made. -/
theorem Filled.claimRounds (hfleet : (fleet.map Prod.fst).Nodup) (hne : fleet ≠ [])
    {rounds : List ClaimRound}
    (hrounds : ∀ round ∈ rounds, ((server.schedulable round).map Worker.pool).Perm fleet)
    (h : Filled fleet rows) (hle : rows.length ≤ ∑ pool ∈ fleet.toFinset, pool.capacity) :
    (∀ i < rounds.length,
      (rows.length + i < ∑ pool ∈ fleet.toFinset, pool.capacity →
        ∃ row, (server.claimRounds rows rounds).2[i]? = some (.claimed row)) ∧
      (∑ pool ∈ fleet.toFinset, pool.capacity ≤ rows.length + i →
        (server.claimRounds rows rounds).2[i]? = some (.refused .noSlotsAvailable))) ∧
    (server.claimRounds rows rounds).1.length =
      min (rows.length + rounds.length) (∑ pool ∈ fleet.toFinset, pool.capacity) ∧
    Filled fleet (server.claimRounds rows rounds).1 := by
  induction rounds generalizing rows with
  | nil =>
    refine ⟨fun i hi => absurd hi (Nat.not_lt_zero i), ?_, h⟩
    exact (min_eq_left hle).symm
  | cons round rounds ih =>
    have hrest := fun round hround => hrounds round (List.mem_cons_of_mem _ hround)
    obtain ⟨hsuccess, hrefused⟩ := h.claim hfleet hne (hrounds round List.mem_cons_self)
    rcases Nat.lt_or_ge rows.length (∑ pool ∈ fleet.toFinset, pool.capacity) with hlt | hge
    · obtain ⟨row, hclaim, hfilled⟩ := hsuccess hlt
      have hlength : (rows ++ [row]).length = rows.length + 1 := List.length_append
      obtain ⟨hreplies, hcount, hend⟩ := ih hrest hfilled (by omega)
      simp only [Server.claimRounds, hclaim]
      refine ⟨fun i hi => ?_, by rw [hcount, List.length_cons]; omega, hend⟩
      cases i with
      | zero => exact ⟨fun _ => ⟨row, rfl⟩, fun hfull => absurd hfull (by omega)⟩
      | succ i =>
        have hreply := hreplies i (by simpa using hi)
        rw [hlength, Nat.add_right_comm, Nat.add_assoc] at hreply
        exact hreply
    · obtain ⟨hreplies, hcount, hend⟩ := ih hrest h hle
      simp only [Server.claimRounds, hrefused hge]
      refine ⟨fun i hi => ?_, by rw [hcount, List.length_cons]; omega, hend⟩
      cases i with
      | zero => exact ⟨fun hlt => absurd hlt (by omega), fun _ => rfl⟩
      | succ i =>
        obtain ⟨_, hreply⟩ := hreplies i (by simpa using hi)
        exact ⟨fun hlt => absurd hlt (by omega), fun _ => hreply (by omega)⟩

end

/-- Successive claims on a fixed fleet, starting with no workstations, succeed as long
as there is a free slot and are refused from then on. At any time the workstations
occupy the first slots of each worker, and no worker is more than one workstation
ahead of a worker that is not full. A negative pool size counts as no slots. -/
theorem claims_fill_evenly (server : Server) (fleet : List Pool) (rounds : List ClaimRound)
    (hfleet : (fleet.map Prod.fst).Nodup) (hne : fleet ≠ [])
    (hrounds : ∀ round ∈ rounds, ((server.schedulable round).map Worker.pool).Perm fleet) :
    (∀ i < rounds.length,
      (i < ∑ pool ∈ fleet.toFinset, pool.capacity →
        ∃ row, (server.claimRounds [] rounds).2[i]? = some (.claimed row)) ∧
      (∑ pool ∈ fleet.toFinset, pool.capacity ≤ i →
        (server.claimRounds [] rounds).2[i]? = some (.refused .noSlotsAvailable))) ∧
    (server.claimRounds [] rounds).1.length =
      min rounds.length (∑ pool ∈ fleet.toFinset, pool.capacity) ∧
    Filled fleet (server.claimRounds [] rounds).1 := by
  simpa using (Filled.nil fleet).claimRounds hfleet hne hrounds (Nat.zero_le _)

/-- One member claims at the given time from a fleet with one and two slots. -/
def smallFleetRound (now : Time) (id : String) : ClaimRound where
  memberID := "alice"
  listed := now
  now := now
  id := id
  workers := [pooledWorker "b" 2, pooledWorker "a" 1]

/-- Of four claims on three slots the last one is refused, and the second one goes to
the worker that holds nothing yet. -/
theorem claims_fill_evenly_four :
    let rounds := [smallFleetRound 1 "i", smallFleetRound 2 "j", smallFleetRound 3 "k",
      smallFleetRound 4 "l"]
    (plainServer.claimRounds [] rounds).2[3]? = some (.refused .noSlotsAvailable) ∧
    (plainServer.claimRounds [] rounds).1.map (fun w => (w.workerID, w.slot)) =
      [("a", 0), ("b", 0), ("b", 1)] ∧
    Filled [("a", 1), ("b", 2)] (plainServer.claimRounds [] rounds).1 := by
  intro rounds
  have hfill := claims_fill_evenly plainServer [("a", 1), ("b", 2)] rounds (by decide) (by decide)
    (by decide)
  exact ⟨(hfill.1 3 (by decide)).2 (by decide), rfl, hfill.2.2⟩

end MiniControl.Fleet
