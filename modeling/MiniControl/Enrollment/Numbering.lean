import MiniControl.Enrollment.Hostnames

/-!
# The numbers of assigned hostnames

The next number is one more than the largest number that a hostname of the table
says, computed in 32-bit integers. Registrations bring any hostname, so that one row
may say the largest number there is, and then no assignment to a new hardware UUID
succeeds any more. As long as all rows say smaller numbers, the assignment answers
with a name that no row has.
-/

namespace MiniControl.Enrollment

open Transition Fleet

/-- A maximum is below a bound exactly when everything it runs over is. -/
theorem foldl_max_lt_iff (numbers : List ℕ) (start bound : ℕ) :
    numbers.foldl max start < bound ↔ start < bound ∧ ∀ n ∈ numbers, n < bound := by
  induction numbers generalizing start with
  | nil => simp
  | cons n numbers ih =>
    rw [List.foldl_cons, ih, List.forall_mem_cons, Nat.max_lt, and_assoc]

/-- There is a next number exactly when no hostname says the largest one or more. -/
theorem nextHostnameNumber_isSome_iff (workers : List Worker) :
    (nextHostnameNumber workers).isSome ↔ ∀ w ∈ workers, hostnameNumber w.hostname < maxInt := by
  have hmax := foldl_max_lt_iff (workers.map fun w => hostnameNumber w.hostname) 0 maxInt
  simp only [List.forall_mem_map, show 0 < maxInt by decide, true_and] at hmax
  unfold nextHostnameNumber
  dsimp only
  constructor
  · intro h
    split_ifs at h with hfits
    · exact hmax.mp hfits.2
    · cases h
  · intro hless
    have hall : (workers.map fun w => hostnameNumber w.hostname).all (· ≤ maxInt) = true := by
      rw [List.all_eq_true, List.forall_mem_map]
      exact fun w hw => decide_eq_true (hless w hw).le
    rw [if_pos ⟨hall, hmax.mpr hless⟩]
    rfl

/-- The name of the next number is no hostname of the table. -/
theorem ne_macHostname_of_nextHostnameNumber {workers : List Worker} {number : ℕ}
    (h : nextHostnameNumber workers = some number) :
    ∀ w ∈ workers, w.hostname ≠ macHostname number := by
  intro w hw heq
  have hless := lt_of_nextHostnameNumber h hw
  rw [heq, hostnameNumber_macHostname] at hless
  exact Nat.lt_irrefl _ hless

section Alone

variable {e : Registrar} {s : State} {i : ℕ} {hardwareUUID : String}

/-- One more statement of a client that runs alone. -/
theorem runEvents_client {sh : Shared} {t t' : Transaction} {fleet : Fleet.Shared}
    {events : List (ℕ × Action)} (action : Fleet.Action)
    (hrun : runEvents e.program.step s events =
      some ⟨sh, Function.update s.locals i (.client t)⟩) (hreserved : reserved action = false)
    (hact : e.server.act sh.fleet i t action = some (fleet, t')) :
    runEvents e.program.step s (events ++ [(i, .client action)]) =
      some ⟨{ sh with fleet := fleet }, Function.update s.locals i (.client t')⟩ := by
  rw [runEvents_concat hrun]
  refine Program.step_eq_some.mpr ⟨{ sh with fleet := fleet }, .client t', ?_, ?_⟩
  · change e.act sh i (Function.update s.locals i (.client t) i) (.client action) = _
    rw [Function.update_self, Registrar.act, hreserved, hact]
    rfl
  · rw [Function.update_idem]

/-- A row version of an assignment has the name that was assigned. -/
theorem hostname_of_upsertHostname (now : Time) (id hostname : String) {uuid : String}
    {workers : List Worker} (hnew : ∀ w ∈ workers, w.hardwareUUID ≠ uuid) :
    ∃ row, upsertHostname now id hostname uuid workers = some row ∧ row.hostname = hostname := by
  unfold upsertHostname
  cases workers.find? (·.id = id) with
  | some row => exact ⟨_, rfl, rfl⟩
  | none =>
    have hnone : ¬workers.any (·.hardwareUUID = uuid) = true := by simpa using hnew
    exact ⟨_, if_neg hnone, rfl⟩

/-- A call for a new hardware UUID that runs alone answers with the name of the next
number, or fails when there is none. -/
theorem assign_alone (now : Time) (hidle : s.locals i = .client .idle)
    (hlock : s.shared.fleet.hostnameLock = none)
    (hnew : ∀ w ∈ s.shared.workers, w.hardwareUUID ≠ hardwareUUID) :
    ∃ k t, runEvents e.program.step s ((assignCall i hardwareUUID now).take k) = some t ∧
      t.locals i = .client (.hostname hardwareUUID
        (.finished ((nextHostnameNumber s.shared.workers).map macHostname))) := by
  have hstart : runEvents e.program.step s [] =
      some ⟨s.shared, Function.update s.locals i (.client .idle)⟩ := by
    rw [← hidle, Function.update_eq_self]
    rfl
  have hbegun := runEvents_client (.beginHostname hardwareUUID) hstart rfl rfl
  have hlocked := runEvents_client (.hostname .lock) hbegun rfl
    (by simp [Server.act, Server.assignHostname, hlock]; exact ⟨rfl, rfl⟩)
  have hnone : s.shared.fleet.db.workers.find? (·.hardwareUUID = hardwareUUID) = none :=
    List.find?_eq_none.mpr fun w hw hsame => hnew w hw (of_decide_eq_true hsame)
  have hunknown := runEvents_client (.hostname .select) hlocked rfl
    (by simp only [Server.act, Server.assignHostname, hnone, Option.map_some]; exact rfl)
  cases hnumber : nextHostnameNumber s.shared.workers with
  | none =>
    have hfailed := runEvents_client (.hostname .selectNext) hunknown rfl
      (by
        change nextHostnameNumber s.shared.fleet.db.workers = none at hnumber
        simp only [Server.act, Server.assignHostname, hnumber, Option.map_some]
        exact rfl)
    exact ⟨4, _, hfailed, Function.update_self ..⟩
  | some number =>
    have hnumbered := runEvents_client (.hostname .selectNext) hunknown rfl
      (by
        change nextHostnameNumber s.shared.fleet.db.workers = some number at hnumber
        simp only [Server.act, Server.assignHostname, hnumber, Option.map_some]
        exact rfl)
    obtain ⟨row, hrow, hhostname⟩ := hostname_of_upsertHostname now
      (e.server.generateWorkerID hardwareUUID) (macHostname number) hnew
    have hinserted := runEvents_client (.hostname (.insert now)) hnumbered rfl
      (by
        change upsertHostname _ _ _ _ s.shared.fleet.db.workers = some row at hrow
        simp only [Server.act, Server.assignHostname, hrow, Option.map_some]
        exact rfl)
    have hcommitted := runEvents_client (.hostname .commit) hinserted rfl rfl
    refine ⟨6, _, hcommitted, (Function.update_self ..).trans ?_⟩
    rw [hhostname]
    rfl

end Alone

/-- A call of `AssignHostname` for a hardware UUID that is not in the table computes a
number that fits, succeeds, and returns a name that no row has, exactly when every
row says a number below the largest one. -/
theorem assignHostname_fresh_iff (e : Registrar) {s : State} {i : ℕ} {hardwareUUID : String}
    (now : Time) (hidle : s.locals i = .client .idle)
    (hlock : s.shared.fleet.hostnameLock = none)
    (hnew : ∀ w ∈ s.shared.workers, w.hardwareUUID ≠ hardwareUUID) :
    ∃ k t reply, runEvents e.program.step s ((assignCall i hardwareUUID now).take k) = some t ∧
      t.locals i = .client (.hostname hardwareUUID (.finished reply)) ∧
      ((∃ number hostname, nextHostnameNumber s.shared.workers = some number ∧
          reply = some hostname ∧ ∀ w ∈ s.shared.workers, w.hostname ≠ hostname) ↔
        ∀ w ∈ s.shared.workers, hostnameNumber w.hostname < maxInt) := by
  obtain ⟨k, t, hrun, hreply⟩ := assign_alone (e := e) now hidle hlock hnew
  refine ⟨k, t, _, hrun, hreply, ?_⟩
  rw [← nextHostnameNumber_isSome_iff, Option.isSome_iff_exists]
  constructor
  · rintro ⟨number, _, hnumber, _⟩
    exact ⟨number, hnumber⟩
  · rintro ⟨number, hnumber⟩
    refine ⟨number, macHostname number, hnumber, ?_, ne_macHostname_of_nextHostnameNumber hnumber⟩
    rw [hnumber]
    rfl

/-- What holds of the only value of a column holds of every row. -/
theorem forall_of_map_eq_singleton {workers : List Worker} {column : Worker → String}
    {value : String} {P : String → Prop} (hmap : workers.map column = [value]) (hvalue : P value) :
    ∀ w ∈ workers, P (column w) := by
  intro w hw
  have hmem : column w ∈ workers.map column := List.mem_map_of_mem hw
  rw [hmap, List.mem_singleton] at hmem
  rwa [hmem]

/-- A worker registers under a name with zeros in front, and the next one gets a
name of its own. -/
theorem assignHostname_fresh_zeros : ∃ s : State, plainRegistrar.system.Reachable s ∧
    ∃ k t hostname, runEvents plainRegistrar.program.step s ((assignCall 1 "other" 120).take k) =
        some t ∧ t.locals 1 = .client (.hostname "other" (.finished (some hostname))) ∧
      ∀ w ∈ s.shared.workers, w.hostname ≠ hostname := by
  have hrun : ∃ s, runEvents plainRegistrar.program.step State.initial (registerSteps 0 "mac-007") =
      some s ∧ s.locals 1 = .client .idle ∧ s.shared.fleet.hostnameLock = none ∧
      s.shared.workers.map Worker.hardwareUUID = ["uuid"] ∧
      s.shared.workers.map Worker.hostname = ["mac-007"] := ⟨_, rfl, rfl, rfl, rfl, rfl⟩
  obtain ⟨s, hs, hidle, hlock, huuids, hnames⟩ := hrun
  have hnew : ∀ w ∈ s.shared.workers, w.hardwareUUID ≠ "other" :=
    forall_of_map_eq_singleton (P := (· ≠ "other")) huuids (by decide)
  have hsmall : ∀ w ∈ s.shared.workers, hostnameNumber w.hostname < maxInt :=
    forall_of_map_eq_singleton (P := (hostnameNumber · < maxInt)) hnames (by decide)
  obtain ⟨k, t, reply, hcall, hreply, hiff⟩ :=
    assignHostname_fresh_iff plainRegistrar 120 hidle hlock hnew
  obtain ⟨_, hostname, _, rfl, hfresh⟩ := hiff.mpr hsmall
  exact ⟨s, reachable_of_runEvents rfl hs, k, t, hostname, hcall, hreply, hfresh⟩

/-- After a registration under the largest number, an assignment to a new hardware
UUID fails. -/
theorem assignHostname_overflows : ∃ s t : State, plainRegistrar.system.Reachable s ∧
    s.locals 1 = .client .idle ∧ s.shared.fleet.hostnameLock = none ∧
    (∀ w ∈ s.shared.workers, w.hardwareUUID ≠ "other") ∧
    nextHostnameNumber s.shared.workers = none ∧
    runEvents plainRegistrar.program.step s ((assignCall 1 "other" 120).take 4) = some t ∧
    t.locals 1 = .client (.hostname "other" (.finished none)) := by
  have hrun : ∃ s t, runEvents plainRegistrar.program.step State.initial
      (registerSteps 0 "mac-2147483647") = some s ∧ s.locals 1 = .client .idle ∧
      s.shared.fleet.hostnameLock = none ∧
      s.shared.workers.map Worker.hardwareUUID = ["uuid"] ∧
      nextHostnameNumber s.shared.workers = none ∧
      runEvents plainRegistrar.program.step s ((assignCall 1 "other" 120).take 4) = some t ∧
      t.locals 1 = .client (.hostname "other" (.finished none)) :=
    ⟨_, _, rfl, rfl, rfl, rfl, by decide, rfl, by decide⟩
  obtain ⟨s, t, hs, hidle, hlock, huuids, hnext, hcall, hfailed⟩ := hrun
  have hnew : ∀ w ∈ s.shared.workers, w.hardwareUUID ≠ "other" :=
    forall_of_map_eq_singleton (P := (· ≠ "other")) huuids (by decide)
  exact ⟨s, t, reachable_of_runEvents rfl hs, hidle, hlock, hnew, hnext, hcall, hfailed⟩

end MiniControl.Enrollment
