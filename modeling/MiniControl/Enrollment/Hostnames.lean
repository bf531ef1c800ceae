import MiniControl.Enrollment.Tokens

/-!
# Assigned hostnames

`AssignHostname` keeps no record of the names it gave: a name is what the row of the
hardware UUID says, and the next number is one more than the numbers the rows say.
The names are stable and distinct as long as the registrations in between bring the
name that the row already has, and no two hardware UUIDs share a worker id.
-/

namespace MiniControl.Enrollment

open Transition Fleet

/-- Reading the number of a name gives the number that it was made from. -/
theorem hostnameNumber_macHostname (number : ℕ) : hostnameNumber (macHostname number) = number := by
  have hdigits : (macHostname number).toList =
      'm' :: 'a' :: 'c' :: '-' :: Nat.toDigits 10 number := by
    simp [macHostname]
  have hall : (Nat.toDigits 10 number).all Char.isDigit = true :=
    List.all_eq_true.mpr fun c hc => Nat.isDigit_of_mem_toDigits (by decide) (by decide) hc
  rw [hostnameNumber, hdigits]
  simp only [ne_eq, Nat.toDigits_ne_nil, not_false_eq_true, hall, and_self, if_true]
  exact Nat.ofDigitChars_toDigits (b := 10) (by decide) (by decide)

/-- A maximum is above the value it starts from and all values it runs over. -/
theorem le_foldl_max (numbers : List ℕ) (start : ℕ) :
    start ≤ numbers.foldl max start ∧ ∀ n ∈ numbers, n ≤ numbers.foldl max start := by
  induction numbers generalizing start with
  | nil => simp
  | cons n numbers ih =>
    obtain ⟨hstart, hrest⟩ := ih (max start n)
    rw [List.foldl_cons]
    refine ⟨by omega, fun k hk => ?_⟩
    rcases List.mem_cons.mp hk with rfl | hk
    · omega
    · exact hrest k hk

/-- The next number is above all numbers in use. -/
theorem lt_of_nextHostnameNumber {workers : List Worker} {number : ℕ}
    (h : nextHostnameNumber workers = some number) {w : Worker} (hw : w ∈ workers) :
    hostnameNumber w.hostname < number := by
  simp only [nextHostnameNumber] at h
  split_ifs at h
  have hle := (le_foldl_max (workers.map fun w => hostnameNumber w.hostname) 0).2 _
    (List.mem_map_of_mem hw)
  have hnumber := Option.some.inj h
  omega

/-- What identifies and names a worker. -/
structure Entry where
  id : String
  hardwareUUID : String
  hostname : String
  deriving DecidableEq

/-- The entry of a row. -/
def entry (w : Worker) : Entry := ⟨w.id, w.hardwareUUID, w.hostname⟩

/-- The entries of the table. -/
def entries (workers : List Worker) : List Entry := workers.map entry

/-- The step keeps the names: a registration brings the hostname that the row of its
worker has, and an assignment inserts a row for a worker that has none. -/
def keepsNames (e : Registrar) (s : State) (x : ℕ × Action) : Bool :=
  match s.locals x.1, x.2 with
  | .register request (.checked _), .upsert _ =>
    s.shared.workers.any fun w =>
      w.id = e.server.generateWorkerID request.hardwareUUID ∧ w.hostname = request.hostname
  | .client (.hostname hardwareUUID (.numbered _)), .client (.hostname (.insert _)) =>
    s.shared.workers.all fun w => w.id ≠ e.server.generateWorkerID hardwareUUID
  | _, _ => true

/-- The steps that keep the names. -/
def KeepsNames (e : Registrar) (s : State) (x : ℕ × Action) : Prop :=
  keepsNames e s x = true

instance (e : Registrar) (s : State) : DecidablePred (KeepsNames e s) := fun x =>
  inferInstanceAs (Decidable (keepsNames e s x = true))

/-- Every worker has one name of the form `mac-N`, and no two have the same. -/
structure Named (names : List Entry) : Prop where
  uuids : (names.map Entry.hardwareUUID).Nodup
  hostnames : (names.map Entry.hostname).Nodup
  form : ∀ x ∈ names, ∃ number, x.hostname = macHostname number

/-- A name above all names in use. -/
def Above (names : List Entry) (hostname : String) : Prop :=
  ∃ number, hostname = macHostname number ∧ ∀ x ∈ names, hostnameNumber x.hostname < number

/-- What a hostname assignment knows at each position. -/
def PhaseNamed (names : List Entry) (hardwareUUID : String) : HostnamePhase → Prop
  | .waiting | .locked => True
  | .unknown => ∀ x ∈ names, x.hardwareUUID ≠ hardwareUUID
  | .numbered hostname => (∀ x ∈ names, x.hardwareUUID ≠ hardwareUUID) ∧ Above names hostname
  | .inserted row => row.hardwareUUID = hardwareUUID ∧
      (∀ x ∈ names, x.hardwareUUID ≠ hardwareUUID) ∧ Above names row.hostname ∧
      ∀ x ∈ names, x.id ≠ row.id
  | .finished (some hostname) =>
      ∃ x ∈ names, x.hardwareUUID = hardwareUUID ∧ x.hostname = hostname
  | .finished none => True

/-- What a client knows at each position. -/
def CallNamed (names : List Entry) : Call → Prop
  | .client (.hostname hardwareUUID phase) => PhaseNamed names hardwareUUID phase
  | _ => True

section

variable {e : Registrar} {names : List Entry} {sh sh' : Shared} {tx : ℕ} {workers : List Worker}

/-- A name above all others keeps the names distinct. -/
theorem Named.append (h : Named names) {x : Entry}
    (huuid : ∀ y ∈ names, y.hardwareUUID ≠ x.hardwareUUID) (habove : Above names x.hostname) :
    Named (names ++ [x]) := by
  obtain ⟨number, hname, hlt⟩ := habove
  refine ⟨Tables.nodup_map_append h.uuids huuid, ?_, fun y hy => ?_⟩
  · refine Tables.nodup_map_append h.hostnames fun y hy heq => ?_
    have hless := hlt y hy
    rw [heq, hname, hostnameNumber_macHostname] at hless
    exact Nat.lt_irrefl _ hless
  · rcases List.mem_append.mp hy with hold | hnew
    · exact h.form y hold
    · rw [List.mem_singleton.mp hnew]
      exact ⟨number, hname⟩

/-- A statement that keeps what the assignments look at leaves the names as they are. -/
theorem entries_update {id : String} {f : Worker → Worker}
    (h : ∀ w ∈ workers, w.id = id → entry (f w) = entry w) :
    entries (Tables.update Worker.id id f workers) = entries workers :=
  Tables.map_update h

/-- A registration that brings the name of its worker changes no entry. -/
theorem entries_upsertWorker {now : Time} {r : Registration} {old new : List Worker}
    (hids : (old.map Worker.id).Nodup) (hname : ∃ w ∈ old, w.id = r.id ∧ w.hostname = r.hostname)
    (h : upsertWorker now r old = some new) : entries new = entries old := by
  obtain ⟨row, hrow, hid, hhostname⟩ := hname
  have hany : (old.any (·.id = r.id)) = true :=
    List.any_eq_true.mpr ⟨row, hrow, decide_eq_true hid⟩
  rw [upsertWorker, if_pos hany] at h
  cases h
  refine entries_update fun w hw hkey => ?_
  have heq : w = row := List.inj_on_of_nodup_map hids hw hrow (hkey.trans hid.symm)
  rw [entry, entry, heq, ← hhostname]

/-- A step changes no entry, or it commits a hostname assignment. -/
theorem Steps.entries {s : State} {i : ℕ} {a : Action} {call : Call}
    (h : Steps e s.shared i (s.locals i) a sh call)
    (hids : (s.shared.workers.map Worker.id).Nodup) (hok : KeepsNames e s (i, a)) :
    entries sh.workers = entries s.shared.workers ∨
      ∃ hardwareUUID row, s.locals i = .client (.hostname hardwareUUID (.inserted row)) ∧
        sh.workers = putWorker row s.shared.workers ∧
        call = .client (.hostname hardwareUUID (.finished (some row.hostname))) := by
  generalize hlocal : s.locals i = before at h
  cases h with
  | client hreserved hact =>
    cases workersStep_of_act hreserved hact with
    | begin => exact .inl rfl
    | same hworkers => exact .inl (congrArg _ hworkers)
    | @update now id update _ _ =>
      exact .inl (entries_update fun w _ _ => by cases update <;> rfl)
    | assign hassigns =>
      cases hassigns with
      | commit => exact .inr ⟨_, _, rfl, rfl, rfl⟩
      | _ => exact .inl rfl
  | malformed | receive => exact .inl rfl
  | register hregisters =>
    cases hregisters with
    | refuse | check | respond | fail => exact .inl rfl
    | issue => exact .inl (entries_update fun _ _ _ => rfl)
    | upsert _ hworkers =>
      simp only [KeepsNames, keepsNames, hlocal, List.any_eq_true, decide_eq_true_eq] at hok
      exact .inl (entries_upsertWorker hids hok hworkers)

/-- Committing the row of an assignment adds its entry. -/
theorem entries_putWorker {row : Worker} (h : ∀ x ∈ entries workers, x.id ≠ row.id) :
    entries (putWorker row workers) = entries workers ++ [entry row] := by
  have hnone : ¬workers.any (·.id = row.id) = true := by
    intro hany
    obtain ⟨w, hw, hid⟩ := List.any_eq_true.mp hany
    exact h (entry w) (List.mem_map_of_mem hw) (of_decide_eq_true hid)
  rw [putWorker, if_neg hnone, entries, List.map_append]
  rfl

/-- A statement of a hostname assignment leads to what the assignment knows next. -/
theorem phaseNamed_of_assigns {server : Server} {sh sh' : Fleet.Shared} {hardwareUUID : String}
    {phase phase' : HostnamePhase} {action : HostnameAction}
    (h : server.Assigns sh tx hardwareUUID phase action sh' phase')
    (hphase : PhaseNamed (entries sh.db.workers) hardwareUUID phase)
    (hnew : ∀ now hostname, phase = .numbered hostname → action = .insert now →
      ∀ w ∈ sh.db.workers, w.id ≠ server.generateWorkerID hardwareUUID) :
    PhaseNamed (entries sh'.db.workers) hardwareUUID phase' := by
  cases h with
  | lock | exhausted | conflict | giveUp | fail => trivial
  | @known row hfound =>
    have huuid : row.hardwareUUID = hardwareUUID := by simpa using List.find?_some hfound
    exact ⟨entry row, List.mem_map_of_mem (List.mem_of_find?_eq_some hfound), huuid, rfl⟩
  | unknown hnone =>
    rintro x hx rfl
    obtain ⟨w, hw, rfl⟩ := List.mem_map.mp hx
    exact List.find?_eq_none.mp hnone w hw (decide_eq_true rfl)
  | number hnumber =>
    refine ⟨hphase, _, rfl, fun x hx => ?_⟩
    obtain ⟨w, hw, rfl⟩ := List.mem_map.mp hx
    exact lt_of_nextHostnameNumber hnumber hw
  | @insert hostname now row hrow =>
    obtain ⟨huuid, habove⟩ := hphase
    have hfree := hnew now hostname rfl rfl
    have hnone : sh.db.workers.find? (·.id = server.generateWorkerID hardwareUUID) = none :=
      List.find?_eq_none.mpr fun w hw hid => hfree w hw (of_decide_eq_true hid)
    unfold upsertHostname at hrow
    simp only [hnone] at hrow
    split_ifs at hrow
    cases hrow
    refine ⟨rfl, huuid, habove, fun x hx => ?_⟩
    obtain ⟨w, hw, rfl⟩ := List.mem_map.mp hx
    exact hfree w hw
  | @commit row =>
    obtain ⟨huuid, _, _, hids⟩ := hphase
    refine ⟨entry row, ?_, huuid, rfl⟩
    change entry row ∈ entries (putWorker row sh.db.workers)
    rw [entries_putWorker hids]
    exact List.mem_append_right _ (List.mem_singleton_self _)

end

/-- A finished assignment keeps the entry it answered with when entries are added. -/
theorem PhaseNamed.of_finished {names names' : List Entry} {hardwareUUID : String}
    {reply : Option String} (h : PhaseNamed names hardwareUUID (.finished reply))
    (hsub : ∀ x ∈ names, x ∈ names') : PhaseNamed names' hardwareUUID (.finished reply) := by
  cases reply with
  | none => trivial
  | some hostname =>
    obtain ⟨x, hx, hname⟩ := h
    exact ⟨x, hsub x hx, hname⟩

variable {s : State} {i : ℕ} {call : Call} {names : List Entry}

/-- Every step leads to what its client knows next. -/
theorem Steps.callNamed {e : Registrar} {a : Action} {sh : Shared}
    (h : Steps e s.shared i (s.locals i) a sh call) (hok : KeepsNames e s (i, a))
    (hcall : CallNamed (Enrollment.entries s.shared.workers) (s.locals i)) :
    CallNamed (Enrollment.entries sh.workers) call := by
  generalize hlocal : s.locals i = before at h hcall
  cases h with
  | @client t t' action fleet hreserved hact =>
    cases workersStep_of_act hreserved hact with
    | begin | update => trivial
    | same _ _ hnot =>
      cases t' with
      | hostname hardwareUUID phase => exact absurd rfl (hnot hardwareUUID phase)
      | idle | claim | row => trivial
    | assign hassigns =>
      refine phaseNamed_of_assigns hassigns hcall ?_
      rintro now hostname rfl rfl
      simp only [KeepsNames, keepsNames, hlocal, List.all_eq_true, decide_eq_true_eq] at hok
      exact hok
  | malformed | receive | register => trivial

/-- While an assignment is about to commit, the others have not begun to look, or are
finished. -/
theorem CallNamed.append {sh : Fleet.Shared} {i j : ℕ} (h : CallNamed names call)
    (hheld : call.transaction.Holds sh j) (hlock : sh.hostnameLock = some i) (hne : j ≠ i)
    (x : Entry) :
    CallNamed (names ++ [x]) call := by
  have hother : ¬sh.hostnameLock = some j := fun heq =>
    hne (Option.some.inj (heq.symm.trans hlock))
  match call, h with
  | .client (.hostname _ .waiting), _ | .client (.hostname _ .locked), _ => trivial
  | .client (.hostname _ .unknown), _ => exact absurd hheld.1 hother
  | .client (.hostname _ (.numbered _)), _ => exact absurd hheld.1 hother
  | .client (.hostname _ (.inserted _)), _ => exact absurd hheld.1 hother
  | .client (.hostname _ (.finished _)), h =>
    exact PhaseNamed.of_finished h fun y hy => List.mem_append_left _ hy
  | .client .idle, _ | .client (.claim _ _ _), _ | .client (.row _ _), _ => trivial
  | .register _ _, _ => trivial

/-- Names are distinct and of the right form in every state reached, and every
assignment knows what it needs. -/
theorem Registrar.named_of_reachable (e : Registrar)
    (h : e.system.ReachableUnder (KeepsNames e) s) :
    Named (entries s.shared.workers) ∧
      ∀ i, CallNamed (entries s.shared.workers) (s.locals i) := by
  refine System.ReachableUnder.invariant (P := fun s => Named (entries s.shared.workers) ∧
    ∀ i, CallNamed (entries s.shared.workers) (s.locals i)) ?_ ?_ h
  · rintro s rfl
    exact ⟨⟨List.nodup_nil, List.nodup_nil, fun x hx => absurd hx List.not_mem_nil⟩,
      fun i => trivial⟩
  · rintro s ⟨i, a⟩ t hreach hok hnext ⟨hnamed, hcalls⟩
    obtain ⟨hfleet, hheld⟩ :=
      e.server.holds_of_reachable (e.simulation.reachable hreach.reachable)
    obtain ⟨sh, call, hact, rfl⟩ := Program.step_eq_some.mp hnext
    have hsteps := Registrar.steps_of_act hact
    have hown := hsteps.callNamed hok (hcalls i)
    rcases hsteps.entries hfleet.workerIDs hok with hsame | ⟨uuid, row, hlocal, hput, _⟩
    · refine ⟨hsame ▸ hnamed, fun j => ?_⟩
      by_cases hj : j = i
      · subst hj
        simpa using hown
      · simpa [Function.update_of_ne hj, hsame] using hcalls j
    · have hcommits := hcalls i
      have hlock := hheld i
      rw [hlocal] at hcommits
      simp only [State.fleet, hlocal] at hlock
      obtain ⟨huuid, hnew, habove, hids⟩ := hcommits
      have hadded : entries sh.workers = entries s.shared.workers ++ [entry row] := by
        rw [hput, entries_putWorker hids]
      refine ⟨?_, fun j => ?_⟩
      · change Named (entries sh.workers)
        rw [hadded]
        exact hnamed.append (fun y hy => (hnew y hy).trans_eq huuid.symm) habove
      · by_cases hj : j = i
        · subst hj
          simpa using hown
        · simp only [Function.update_of_ne hj]
          rw [hadded]
          exact (hcalls j).append (hheld j) hlock.1 hj (entry row)

/-- As long as every step keeps the names, two successful assignments answer with the
same name exactly if they are for the same hardware UUID, and the name is `mac-N`. -/
theorem Registrar.hostnames_stable (e : Registrar) {s : State}
    (h : e.system.ReachableUnder (KeepsNames e) s) {i j : ℕ} {u v hostname hostname' : String}
    (hi : s.locals i = .client (.hostname u (.finished (some hostname))))
    (hj : s.locals j = .client (.hostname v (.finished (some hostname')))) :
    (u = v ↔ hostname = hostname') ∧ ∃ number, hostname = macHostname number := by
  obtain ⟨hnamed, hcalls⟩ := e.named_of_reachable h
  have hfirst := hcalls i
  have hsecond := hcalls j
  rw [hi] at hfirst
  rw [hj] at hsecond
  obtain ⟨x, hx, rfl, rfl⟩ := hfirst
  obtain ⟨y, hy, rfl, rfl⟩ := hsecond
  refine ⟨⟨fun huuid => ?_, fun hname => ?_⟩, hnamed.form x hx⟩
  · rw [List.inj_on_of_nodup_map hnamed.uuids hx hy huuid]
  · rw [List.inj_on_of_nodup_map hnamed.hostnames hx hy hname]

/-- The statements of a successful `AssignHostname` for a new hardware UUID. -/
def assignCall (i : ℕ) (hardwareUUID : String) (now : Time) : List (ℕ × Action) :=
  [(i, .client (.beginHostname hardwareUUID)), (i, .client (.hostname .lock)),
   (i, .client (.hostname .select)), (i, .client (.hostname .selectNext)),
   (i, .client (.hostname (.insert now))), (i, .client (.hostname .commit))]

/-- The statements of an assignment for a hardware UUID that has a row. -/
def assignAgain (i : ℕ) (hardwareUUID : String) : List (ℕ × Action) :=
  [(i, .client (.beginHostname hardwareUUID)), (i, .client (.hostname .lock)),
   (i, .client (.hostname .select))]

/-- A registration with the enrollment token, up to its upsert. -/
def registerSteps (i : ℕ) (hostname : String) : List (ℕ × Action) :=
  [(i, .receive (some (macRequest hostname "enroll"))), (i, .check), (i, .upsert 110)]

/-- A worker is assigned a name, registers under it, and is assigned it again. -/
theorem hostnames_stable_registered : ∃ (s : State) (hostname : String),
    plainRegistrar.system.ReachableUnder (KeepsNames plainRegistrar) s ∧
    s.locals 0 = .client (.hostname "uuid" (.finished (some "mac-1"))) ∧
    s.locals 2 = .client (.hostname "uuid" (.finished (some hostname))) ∧ "mac-1" = hostname := by
  have hrun : ∃ s hostname, runEvents (fun s x =>
        if KeepsNames plainRegistrar s x then plainRegistrar.program.step s x else none)
      State.initial (assignCall 0 "uuid" 100 ++ registerSteps 1 "mac-1" ++ assignAgain 2 "uuid") =
        some s ∧
      s.locals 0 = .client (.hostname "uuid" (.finished (some "mac-1"))) ∧
      s.locals 2 = .client (.hostname "uuid" (.finished (some hostname))) :=
    ⟨_, _, rfl, by decide, rfl⟩
  obtain ⟨s, hostname, hs, hfirst, hsecond⟩ := hrun
  have hreach : plainRegistrar.system.ReachableUnder (KeepsNames plainRegistrar) s :=
    reachableUnder_of_runEvents rfl hs
  exact ⟨s, hostname, hreach, hfirst, hsecond,
    (plainRegistrar.hostnames_stable hreach hfirst hsecond).1.mp rfl⟩

/-- A registration under another name changes what the next assignment answers. -/
theorem register_renames : ¬∀ (e : Registrar) (s : State), e.system.Reachable s →
    ∀ i j u hostname hostname', s.locals i = .client (.hostname u (.finished (some hostname))) →
      s.locals j = .client (.hostname u (.finished (some hostname'))) → hostname = hostname' := by
  intro hclaim
  have hrun : ∃ s, runEvents plainRegistrar.program.step State.initial
      (assignCall 0 "uuid" 100 ++ registerSteps 1 "foo" ++ assignAgain 2 "uuid") = some s ∧
      s.locals 0 = .client (.hostname "uuid" (.finished (some "mac-1"))) ∧
      s.locals 2 = .client (.hostname "uuid" (.finished (some "foo"))) :=
    ⟨_, rfl, by decide, rfl⟩
  obtain ⟨s, hs, hfirst, hsecond⟩ := hrun
  have hsame :=
    hclaim plainRegistrar s (reachable_of_runEvents rfl hs) 0 2 "uuid" _ _ hfirst hsecond
  exact absurd hsame (by decide)

end MiniControl.Enrollment
