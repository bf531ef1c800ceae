import MiniControl.Enrollment.System
import Mathlib.Data.Set.Function

/-!
# The lifecycle of worker tokens

A row of the workers table is known by its id, by its hardware UUID and by the hash
of its token, and these are looked up in separate statements. In every run they
denote one row, and the token of a worker is the one that was issued to it last.
-/

namespace MiniControl.Enrollment

open Transition Fleet

/-- The hardware UUIDs and the tokens in use are among the given ones, and a token
that is issued was not issued before. -/
def InUse (uuids tokens : Set String) (s : State) : ℕ × Action → Prop
  | (_, .receive (some request)) => request.hardwareUUID ∈ uuids
  | (_, .client (.beginHostname hardwareUUID)) => hardwareUUID ∈ uuids
  | (_, .issue _ token) => token ∈ tokens ∧ token ∉ s.shared.issued.map Prod.snd
  | _ => True

/-- The columns by which a worker is known agree: the id is derived from a hardware
UUID in use, and the token is the one that was issued last. -/
structure Registrar.Identified (e : Registrar) (uuids : Set String) (sh : Shared) (w : Worker) :
    Prop where
  id : w.id = e.server.generateWorkerID w.hardwareUUID
  inUse : w.hardwareUUID ∈ uuids
  token : w.authTokenHash = (sh.lastIssued w.id).map e.hashWorkerToken
  unrevoked : w.authTokenRevokedAt = none

/-- The invariant of the workers table and of the issued tokens. -/
structure Registrar.Consistent (e : Registrar) (uuids tokens : Set String) (sh : Shared) :
    Prop where
  rows : ∀ w ∈ sh.workers, e.Identified uuids sh w
  staged : ∀ w, sh.fleet.stagedWorker = some w → e.Identified uuids sh w
  holders : ∀ p ∈ sh.issued, ∃ w ∈ sh.workers, w.id = p.1
  fresh : (sh.issued.map Prod.snd).Nodup
  inUse : ∀ p ∈ sh.issued, p.2 ∈ tokens

/-- What a registration knows at each position. -/
def Registrar.PhaseHolds (e : Registrar) (uuids : Set String) (sh : Shared)
    (request : RegisterRequest) : RegisterPhase → Prop
  | .received => request.hardwareUUID ∈ uuids
  | .checked issue => request.hardwareUUID ∈ uuids ∧
      (issue = true → Proxy.tokensMatch e.enrollmentToken request.workerToken = true)
  | .upserted issue => request.hardwareUUID ∈ uuids ∧
      (issue = true → Proxy.tokensMatch e.enrollmentToken request.workerToken = true) ∧
      ∃ w ∈ sh.workers, w.id = e.server.generateWorkerID request.hardwareUUID
  | .returned _ => True

/-- What a client knows at each position. -/
def Registrar.CallHolds (e : Registrar) (uuids : Set String) (sh : Shared) : Call → Prop
  | .client (.hostname hardwareUUID _) => hardwareUUID ∈ uuids
  | .client _ => True
  | .register request phase => e.PhaseHolds uuids sh request phase

section

variable {e : Registrar} {uuids tokens : Set String} {sh sh' : Shared} {w : Worker} {id : String}
  {now : Time} {request : RegisterRequest} {workers : List Worker}

/-- The token that was issued last depends on the issued tokens only. -/
theorem Shared.lastIssued_eq (h : sh'.issued = sh.issued) (id : String) :
    sh'.lastIssued id = sh.lastIssued id := by
  rw [lastIssued, h, lastIssued]

/-- A row stays identified while no token is issued to it. -/
theorem Registrar.Identified.congr (h : e.Identified uuids sh w) {w' : Worker}
    (hid : w'.id = w.id) (huuid : w'.hardwareUUID = w.hardwareUUID)
    (hhash : w'.authTokenHash = w.authTokenHash)
    (hrevoked : w'.authTokenRevokedAt = w.authTokenRevokedAt)
    (hissued : sh'.lastIssued w.id = sh.lastIssued w.id) : e.Identified uuids sh' w' where
  id := by rw [hid, huuid, h.id]
  inUse := huuid ▸ h.inUse
  token := by rw [hhash, hid, hissued, h.token]
  unrevoked := hrevoked.trans h.unrevoked

/-- A worker without a row was issued no token. -/
theorem Registrar.Consistent.lastIssued_eq_none (h : e.Consistent uuids tokens sh)
    (hid : ∀ w ∈ sh.workers, w.id ≠ id) : sh.lastIssued id = none := by
  rw [Shared.lastIssued, Option.map_eq_none_iff, List.find?_eq_none]
  intro p hp hkey
  obtain ⟨w, hw, hwid⟩ := h.holders p hp
  exact hid w hw (hwid.trans (by simpa using hkey))

/-- A new row without a token, for a hardware UUID in use. -/
theorem Registrar.Consistent.identified_new (h : e.Consistent uuids tokens sh)
    (hid : w.id = e.server.generateWorkerID w.hardwareUUID) (huuid : w.hardwareUUID ∈ uuids)
    (hhash : w.authTokenHash = none) (hrevoked : w.authTokenRevokedAt = none)
    (hnew : ∀ old ∈ sh.workers, old.id ≠ w.id) : e.Identified uuids sh w where
  id := hid
  inUse := huuid
  token := by rw [h.lastIssued_eq_none hnew, hhash]; rfl
  unrevoked := hrevoked

/-- The invariant survives statements that issue no token, when rows stay and the
rows that are new or rewritten are identified. -/
theorem Registrar.Consistent.of_rows (h : e.Consistent uuids tokens sh)
    (hissued : sh'.issued = sh.issued) (hkept : WorkersKept sh.workers sh'.workers)
    (hrows : ∀ w ∈ sh'.workers, w ∈ sh.workers ∨ e.Identified uuids sh w)
    (hstaged : ∀ w, sh'.fleet.stagedWorker = some w → e.Identified uuids sh w) :
    e.Consistent uuids tokens sh' := by
  have hsame : ∀ w, e.Identified uuids sh w → e.Identified uuids sh' w := fun w hw =>
    hw.congr rfl rfl rfl rfl (Shared.lastIssued_eq hissued w.id)
  refine ⟨fun w hw => hsame w ?_, fun w hw => hsame w (hstaged w hw), ?_, ?_, ?_⟩
  · rcases hrows w hw with hold | hnew
    · exact h.rows w hold
    · exact hnew
  · rw [hissued]
    intro p hp
    obtain ⟨w, hw, hid⟩ := h.holders p hp
    obtain ⟨w', hw', hid', _⟩ := hkept.kept w hw
    exact ⟨w', hw', hid'.trans hid⟩
  · rw [hissued]
    exact h.fresh
  · rw [hissued]
    exact h.inUse

/-- Statements that issue no token keep the columns by which a worker is known. -/
theorem identified_update (hw : e.Identified uuids sh w) {update : WorkerUpdate}
    (hupdate : ∀ hash, update ≠ .issueToken hash) (now : Time) :
    e.Identified uuids sh (update.apply now w) := by
  cases update with
  | issueToken hash => exact absurd rfl (hupdate hash)
  | heartbeat | offline | touchToken => exact hw.congr rfl rfl rfl rfl rfl

/-- The row of a hostname assignment. -/
theorem identified_upsertHostname (h : e.Consistent uuids tokens sh)
    {hostname hardwareUUID : String} (huuid : hardwareUUID ∈ uuids)
    (hrow : upsertHostname now (e.server.generateWorkerID hardwareUUID) hostname hardwareUUID
      sh.workers = some w) : e.Identified uuids sh w := by
  unfold upsertHostname at hrow
  split at hrow
  next row hfound =>
    cases hrow
    exact (h.rows row (List.mem_of_find?_eq_some hfound)).congr rfl rfl rfl rfl rfl
  next hnone =>
    split_ifs at hrow
    cases hrow
    refine h.identified_new rfl huuid rfl rfl fun old hold heq => ?_
    exact List.find?_eq_none.mp hnone old hold (decide_eq_true heq)

/-- The row of a registration. -/
theorem identified_upsertWorker (h : e.Consistent uuids tokens sh)
    (huuid : request.hardwareUUID ∈ uuids)
    (hupsert : upsertWorker now (e.registration request) sh.workers = some workers)
    (hw : w ∈ workers) : w ∈ sh.workers ∨ e.Identified uuids sh w := by
  unfold upsertWorker at hupsert
  split_ifs at hupsert with hid
  · cases hupsert
    obtain ⟨old, hold, rfl⟩ := Tables.mem_update.mp hw
    split_ifs
    · exact .inr ((h.rows old hold).congr rfl rfl rfl rfl rfl)
    · exact .inl hold
  · cases hupsert
    rcases List.mem_append.mp hw with hold | hnew
    · exact .inl hold
    · right
      rw [List.mem_singleton.mp hnew]
      refine h.identified_new rfl huuid rfl rfl fun old hold heq => hid ?_
      exact List.any_eq_true.mpr ⟨old, hold, decide_eq_true heq⟩

/-- The rows after a commit are the rows before it and the committed one. -/
theorem mem_of_mem_putWorker {row : Worker} (h : w ∈ putWorker row workers) :
    w ∈ workers ∨ w = row := by
  unfold putWorker at h
  split_ifs at h
  · obtain ⟨old, hold, rfl⟩ := Tables.mem_update.mp h
    split_ifs
    · exact .inr rfl
    · exact .inl hold
  · rcases List.mem_append.mp h with hold | hnew
    · exact .inl hold
    · exact .inr (List.mem_singleton.mp hnew)

/-- A statement of another client keeps the invariant. -/
theorem Registrar.Consistent.client (h : e.Consistent uuids tokens sh) {tx : ℕ}
    {t t' : Transaction} {action : Fleet.Action} {fleet : Fleet.Shared}
    (hcall : e.CallHolds uuids sh (.client t)) (hheld : t.Holds sh.fleet tx)
    (hkept : WorkersKept sh.workers fleet.db.workers)
    (hstep : WorkersStep e.server sh.fleet tx t action fleet t') :
    e.Consistent uuids tokens { sh with fleet := fleet } := by
  cases hstep with
  | begin hardwareUUID => exact h
  | same hworkers hstaged _ =>
    refine h.of_rows rfl hkept (fun w hw => .inl ?_) fun w hw => h.staged w (hstaged ▸ hw)
    rw [Shared.workers, ← hworkers]
    exact hw
  | update _ hupdate =>
    refine h.of_rows rfl hkept (fun w hw => ?_) h.staged
    obtain ⟨old, hold, rfl⟩ := Tables.mem_update.mp hw
    split_ifs
    · exact .inr (identified_update (h.rows old hold) hupdate _)
    · exact .inl hold
  | assign hassigns =>
    cases hassigns with
    | lock | known | unknown | exhausted | number | conflict | giveUp =>
      exact h.of_rows rfl hkept (fun w hw => .inl hw) h.staged
    | insert hrow =>
      refine h.of_rows rfl hkept (fun w hw => .inl hw) fun w hw => ?_
      cases hw
      exact identified_upsertHostname h hcall hrow
    | @commit row =>
      -- the row to be committed is the staged one
      have hrow : e.Identified uuids sh row := h.staged row hheld.2.1
      refine h.of_rows rfl hkept (fun w hw => ?_) (fun w hw => by cases hw)
      rcases mem_of_mem_putWorker hw with hold | rfl
      · exact .inl hold
      · exact .inr hrow
    | fail =>
      -- nothing is staged any more
      exact h.of_rows rfl hkept (fun w hw => .inl hw) (fun w hw => by cases hw)

/-- A token that is issued is the last one of its worker, and changes nothing for the
others. -/
theorem Shared.lastIssued_cons (fleet : Fleet.Shared) (issued : List (String × String))
    (id token key : String) : (Shared.mk fleet ((id, token) :: issued)).lastIssued key =
      if id = key then some token else (Shared.mk fleet issued).lastIssued key := by
  simp only [lastIssued, List.find?_cons]
  by_cases hid : id = key <;> simp [hid]

/-- The step that issues a token keeps the invariant: no hostname assignment has
staged a version of the row, since the row exists and is not locked. -/
theorem Registrar.Consistent.issue (h : e.Consistent uuids tokens sh) {id token : String}
    (hrow : ∃ w ∈ sh.workers, w.id = id) (hunlocked : sh.fleet.workerLocked id = false)
    (htoken : token ∈ tokens) (hfresh : token ∉ sh.issued.map Prod.snd) :
    e.Consistent uuids tokens
      ⟨sh.fleet.setWorkers (Tables.update Worker.id id
        ((WorkerUpdate.issueToken (e.hashWorkerToken token)).apply now) sh.workers),
        (id, token) :: sh.issued⟩ := by
  have hother : ∀ w, e.Identified uuids sh w → w.id ≠ id → ∀ fleet,
      e.Identified uuids ⟨fleet, (id, token) :: sh.issued⟩ w := by
    intro w hw hne fleet
    refine hw.congr rfl rfl rfl rfl ?_
    rw [Shared.lastIssued_cons, if_neg (Ne.symm hne)]
    rfl
  constructor
  · intro w hw
    obtain ⟨old, hold, rfl⟩ := Tables.mem_update.mp hw
    split_ifs with hid
    · have hidentified := h.rows old hold
      refine ⟨hidentified.id, hidentified.inUse, ?_, rfl⟩
      rw [Shared.lastIssued_cons, WorkerUpdate.apply_id, if_pos hid.symm]
      rfl
    · exact hother old (h.rows old hold) hid _
  · intro w hw
    refine hother w (h.staged w hw) (fun heq => ?_) _
    obtain ⟨row, hmem, hid⟩ := hrow
    have hlocked : sh.fleet.workerLocked id = true := by
      have hstaged : sh.fleet.stagedWorker = some w := hw
      simp only [Fleet.Shared.workerLocked, hstaged, Option.any_some, heq, decide_true,
        Bool.and_true]
      exact List.any_eq_true.mpr ⟨row, hmem, decide_eq_true hid⟩
    rw [hlocked] at hunlocked
    cases hunlocked
  · intro p hp
    have hholder : ∃ w ∈ sh.workers, w.id = p.1 := by
      rcases List.mem_cons.mp hp with rfl | hold
      · exact hrow
      · exact h.holders p hold
    obtain ⟨w, hw, hid⟩ := hholder
    by_cases hkey : w.id = id
    · exact ⟨_, Tables.mem_update_of_mem hw hkey, hid⟩
    · exact ⟨w, Tables.mem_update_of_ne hw hkey, hid⟩
  · rw [List.map_cons, List.nodup_cons]
    exact ⟨hfresh, h.fresh⟩
  · intro p hp
    rcases List.mem_cons.mp hp with rfl | hold
    · exact htoken
    · exact h.inUse p hold

/-- A check that goes on to issue a token has seen the enrollment token. -/
theorem tokensMatch_of_shouldIssue
    (h : e.shouldIssueWorkerToken sh.workers request.hardwareUUID request.workerToken =
      some true) : Proxy.tokensMatch e.enrollmentToken request.workerToken = true := by
  unfold Registrar.shouldIssueWorkerToken at h
  cases hfound : sh.workers.find? (·.hardwareUUID = request.hardwareUUID) with
  | none => simp_all
  | some row =>
    simp only [hfound] at h
    split_ifs at h with hpresents henrolls
    · cases h
    · exact henrolls

/-- An upserted row exists. -/
theorem exists_of_upsertWorker {r : Registration} {old workers : List Worker}
    (h : upsertWorker now r old = some workers) : ∃ w ∈ workers, w.id = r.id := by
  unfold upsertWorker at h
  split_ifs at h with hid
  · cases h
    obtain ⟨row, hrow, hkey⟩ := List.any_eq_true.mp hid
    have hkey : row.id = r.id := of_decide_eq_true hkey
    exact ⟨_, Tables.mem_update_of_mem hrow hkey, hkey⟩
  · cases h
    exact ⟨r.worker now, List.mem_append_right _ (List.mem_singleton_self _), rfl⟩

/-- What a client knows survives the steps of others, since rows stay. -/
theorem Registrar.CallHolds.frame {call : Call} (h : e.CallHolds uuids sh call)
    (hkept : WorkersKept sh.workers sh'.workers) : e.CallHolds uuids sh' call := by
  match call, h with
  | .client (.hostname _ _), h => exact h
  | .client .idle, _ | .client (.claim _ _ _), _ | .client (.row _ _), _ => trivial
  | .register _ .received, h | .register _ (.checked _), h => exact h
  | .register _ (.returned _), _ => trivial
  | .register _ (.upserted _), ⟨huuid, henrolls, w, hw, hid⟩ =>
    obtain ⟨w', hw', hid', _⟩ := hkept.kept w hw
    exact ⟨huuid, henrolls, w', hw', hid'.trans hid⟩

end

variable {e : Registrar} {uuids tokens : Set String} {s : State} {i tx : ℕ} {sh sh' : Shared}
  {request : RegisterRequest} {phase phase' : RegisterPhase} {w : Worker}

/-- Every step keeps the invariant, and leads to what its client knows next. -/
theorem Steps.consistent {a : Action} {call : Call} (h : Steps e s.shared i (s.locals i) a sh call)
    (hok : InUse uuids tokens s (i, a)) (hs : e.Consistent uuids tokens s.shared)
    (hcall : e.CallHolds uuids s.shared (s.locals i))
    (hheld : (s.locals i).transaction.Holds s.shared.fleet i)
    (hkept : WorkersKept s.shared.workers sh.workers) :
    e.Consistent uuids tokens sh ∧ e.CallHolds uuids sh call := by
  generalize hlocal : s.locals i = before at h hcall hheld
  cases h with
  | @client t t' action fleet hreserved hact =>
    have hstep := workersStep_of_act hreserved hact
    refine ⟨hs.client hcall hheld hkept hstep, ?_⟩
    cases hstep with
    | begin hardwareUUID => exact hok
    | same _ _ hnot =>
      cases t' with
      | hostname hardwareUUID phase => exact absurd rfl (hnot hardwareUUID phase)
      | idle | claim | row => trivial
    | update => trivial
    | assign => exact hcall
  | malformed => exact ⟨hs, trivial⟩
  | receive request =>
    refine ⟨hs, ?_⟩
    have huuid : request.hardwareUUID ∈ uuids := hok
    simp only [Registrar.CallHolds, RegisterRequest.validate]
    split_ifs
    · trivial
    · trivial
    · trivial
    · exact huuid
  | register hregisters =>
    cases hregisters with
    | refuse | respond | fail => exact ⟨hs, trivial⟩
    | @check issue hissue =>
      refine ⟨hs, hcall, ?_⟩
      rintro rfl
      exact tokensMatch_of_shouldIssue hissue
    | upsert _ hworkers =>
      obtain ⟨huuid, henrolls⟩ := hcall
      refine ⟨?_, huuid, henrolls, exists_of_upsertWorker hworkers⟩
      exact hs.of_rows rfl hkept (fun w hw => identified_upsertWorker hs huuid hworkers hw)
        hs.staged
    | issue hunlocked =>
      obtain ⟨_, _, hrow⟩ := hcall
      exact ⟨hs.issue hrow hunlocked hok.1 hok.2, trivial⟩

/-- The invariant holds in every reached state. -/
theorem Registrar.consistent_of_reachable (e : Registrar)
    (h : e.system.ReachableUnder (InUse uuids tokens) s) :
    e.Consistent uuids tokens s.shared ∧ ∀ i, e.CallHolds uuids s.shared (s.locals i) := by
  refine System.ReachableUnder.invariant (P := fun s => e.Consistent uuids tokens s.shared ∧
    ∀ i, e.CallHolds uuids s.shared (s.locals i)) ?_ ?_ h
  · rintro s rfl
    refine ⟨⟨?_, ?_, ?_, List.nodup_nil, ?_⟩, fun i => trivial⟩
    · exact fun w hw => absurd hw List.not_mem_nil
    · exact fun w hw => by cases hw
    · exact fun p hp => absurd hp List.not_mem_nil
    · exact fun p hp => absurd hp List.not_mem_nil
  · rintro s ⟨i, a⟩ t hreach hok hnext ⟨hs, hcalls⟩
    obtain ⟨hfleet, hheld⟩ :=
      e.server.holds_of_reachable (e.simulation.reachable hreach.reachable)
    obtain ⟨sh, call, hact, rfl⟩ := Program.step_eq_some.mp hnext
    have hsteps := Registrar.steps_of_act hact
    have hkept : WorkersKept s.shared.workers sh.workers := by
      obtain ⟨hsame, _⟩ | ⟨action, haction⟩ := hsteps.fleet
      · rw [Shared.workers, Shared.workers, hsame]
        exact .refl _
      · exact (Server.act_change hfleet (hheld i) haction).1.workersKept
    obtain ⟨hsh, hcall⟩ := hsteps.consistent hok hs (hcalls i) (hheld i) hkept
    refine ⟨hsh, fun j => ?_⟩
    by_cases hj : j = i
    · subst hj
      simpa using hcall
    · simpa [Function.update_of_ne hj] using (hcalls j).frame hkept

section

variable {e : Registrar} {uuids tokens : Set String} {sh : Shared} {w : Worker} {id token : String}

/-- The token that was issued last was issued. -/
theorem Shared.mem_issued (h : sh.lastIssued id = some token) :
    (id, token) ∈ sh.issued := by
  obtain ⟨p, hfound, rfl⟩ := Option.map_eq_some_iff.mp h
  have hid : p.1 = id := by simpa using List.find?_some hfound
  rw [← hid]
  exact List.mem_of_find?_eq_some hfound

/-- The hash of a row is that of a token in use which was issued to the row. -/
theorem Registrar.Consistent.issued_of_hash (h : e.Consistent uuids tokens sh) (hw : w ∈ sh.workers)
    {hash : String} (hhash : w.authTokenHash = some hash) :
    ∃ token, sh.lastIssued w.id = some token ∧ token ∈ tokens ∧ e.hashWorkerToken token = hash := by
  obtain ⟨token, htoken, heq⟩ := Option.map_eq_some_iff.mp ((h.rows w hw).token.symm.trans hhash)
  exact ⟨token, htoken, h.inUse _ (Shared.mem_issued htoken), heq⟩

/-- At most one row has a given hash, and it is found by it. -/
theorem Registrar.Consistent.authenticate_eq_some (h : e.Consistent uuids tokens sh)
    (hids : (sh.workers.map Worker.id).Nodup) (hinj : Set.InjOn e.hashWorkerToken tokens)
    (hw : w ∈ sh.workers) (hhash : w.authTokenHash = some (e.hashWorkerToken token)) :
    e.authenticateWorkerToken sh.workers token = some w := by
  refine Tables.find?_eq_some hids hw (decide_eq_true ⟨hhash, (h.rows w hw).unrevoked⟩) ?_
  intro w' hw' hmatch
  obtain ⟨issued, hissued, hused, heq⟩ := h.issued_of_hash hw hhash
  obtain ⟨issued', hissued', hused', heq'⟩ := h.issued_of_hash hw' (of_decide_eq_true hmatch).1
  have hsame : issued' = issued := hinj hused' hused (heq'.trans heq.symm)
  rw [hsame] at hissued'
  -- a token is issued once, so that the two rows have one id
  have hpair := List.inj_on_of_nodup_map h.fresh (Shared.mem_issued hissued')
    (Shared.mem_issued hissued) rfl
  exact congrArg Prod.fst hpair

/-- The accepted tokens are the ones issued last. -/
theorem Registrar.Consistent.accepts_iff (h : e.Consistent uuids tokens sh)
    (hids : (sh.workers.map Worker.id).Nodup) (hinj : Set.InjOn e.hashWorkerToken tokens)
    (htoken : token ∈ tokens) :
    (e.authenticateWorkerToken sh.workers token).map Worker.id = some id ↔
      sh.lastIssued id = some token := by
  constructor
  · intro haccepts
    obtain ⟨w, hfound, rfl⟩ := Option.map_eq_some_iff.mp haccepts
    have hhash : w.authTokenHash = some (e.hashWorkerToken token) := by
      rw [Registrar.authenticateWorkerToken] at hfound
      have hmatch := List.find?_some hfound
      simp only [decide_eq_true_eq] at hmatch
      exact hmatch.1
    obtain ⟨issued, hissued, hused, heq⟩ :=
      h.issued_of_hash (List.mem_of_find?_eq_some hfound) hhash
    rw [hissued, hinj hused htoken heq]
  · intro hissued
    obtain ⟨w, hw, hid⟩ := h.holders _ (Shared.mem_issued hissued)
    have hhash : w.authTokenHash = some (e.hashWorkerToken token) := by
      rw [(h.rows w hw).token, hid, hissued]
      rfl
    rw [h.authenticate_eq_some hids hinj hw hhash, Option.map_some, hid]

/-- A check that goes on without a new token has seen the accepted token of the row
with the request's hardware UUID. -/
theorem Registrar.Consistent.presents_of_shouldIssue (h : e.Consistent uuids tokens sh)
    (hids : (sh.workers.map Worker.id).Nodup) (hinj : Set.InjOn e.hashWorkerToken tokens)
    {request : RegisterRequest}
    (hcheck : e.shouldIssueWorkerToken sh.workers request.hardwareUUID request.workerToken =
      some false) :
    ∃ w ∈ sh.workers, w.hardwareUUID = request.hardwareUUID ∧
      e.authenticateWorkerToken sh.workers request.workerToken = some w := by
  unfold Registrar.shouldIssueWorkerToken at hcheck
  cases hfound : sh.workers.find? (·.hardwareUUID = request.hardwareUUID) with
  | none =>
    simp only [hfound] at hcheck
    split_ifs at hcheck
    cases hcheck
  | some w =>
    simp only [hfound] at hcheck
    split_ifs at hcheck with hpresents
    · have hw : w ∈ sh.workers := List.mem_of_find?_eq_some hfound
      obtain ⟨hash, hhash, hmatch⟩ := (Option.any_eq_true _ _).mp hpresents.2
      have heq : hash = e.hashWorkerToken request.workerToken := by
        unfold Proxy.tokensMatch at hmatch
        split_ifs at hmatch
        simpa using hmatch
      refine ⟨w, hw, by simpa using List.find?_some hfound, ?_⟩
      exact h.authenticate_eq_some hids hinj hw (heq ▸ hhash)
    · cases hcheck

end

/-- The check of a registration found its token to be the accepted one of the row
with its hardware UUID, in the state in which it looked. -/
def Registrar.Presented (e : Registrar) (uuids tokens : Set String) (i : ℕ)
    (request : RegisterRequest) (s : State) : Prop :=
  ∃ u t w, e.system.ReachableUnder (InUse uuids tokens) u ∧
    u.locals i = .register request .received ∧ e.system.next u (i, .check) t ∧
    e.system.LeadsUnder (InUse uuids tokens) t s ∧ w ∈ u.shared.workers ∧
    w.hardwareUUID = request.hardwareUUID ∧
    e.authenticateWorkerToken u.shared.workers request.workerToken = some w

/-- Worker ids stay distinct. -/
theorem Registrar.ids_of_reachable (e : Registrar) (h : e.system.Reachable s) :
    (s.shared.workers.map Worker.id).Nodup :=
  (e.server.holds_of_reachable (e.simulation.reachable h)).1.workerIDs

/-- A registration without the enrollment token got past its check with an accepted
token. -/
theorem Registrar.presented_of_reachable (e : Registrar) (hinj : Set.InjOn e.hashWorkerToken tokens)
    (h : e.system.ReachableUnder (InUse uuids tokens) s)
    (hlocal : s.locals i = .register request (.checked false) ∨
      s.locals i = .register request (.upserted false)) :
    e.Presented uuids tokens i request s := by
  refine System.ReachableUnder.invariant (P := fun s =>
    (s.locals i = .register request (.checked false) ∨
      s.locals i = .register request (.upserted false)) → e.Presented uuids tokens i request s)
    ?_ ?_ h hlocal
  · rintro s rfl hlocal
    rcases hlocal with hlocal | hlocal <;> cases hlocal
  · rintro s ⟨j, a⟩ t hreach hok hnext ih hlocal
    have hextend : e.Presented uuids tokens i request s → e.Presented uuids tokens i request t := by
      rintro ⟨u, v, w, hu, hreceived, hcheck, hrun, hrow⟩
      exact ⟨u, v, w, hu, hreceived, hcheck, .tail hrun hok hnext, hrow⟩
    obtain ⟨sh, call, hact, rfl⟩ := Program.step_eq_some.mp hnext
    by_cases hj : i = j
    · subst hj
      simp only [Function.update_self] at hlocal
      have hsteps := Registrar.steps_of_act hact
      generalize hbefore : s.locals i = before at hsteps
      cases hsteps with
      | client | malformed => rcases hlocal with hlocal | hlocal <;> cases hlocal
      | receive received =>
        simp only [RegisterRequest.validate] at hlocal
        split_ifs at hlocal <;> rcases hlocal with hlocal | hlocal <;> cases hlocal
      | register hregisters =>
        cases hregisters with
        | check hissue =>
          obtain ⟨hs, _⟩ := e.consistent_of_reachable hreach
          rcases hlocal with hlocal | hlocal <;> cases hlocal
          obtain ⟨w, hw, huuid, haccepted⟩ :=
            hs.presents_of_shouldIssue (e.ids_of_reachable hreach.reachable) hinj hissue
          exact ⟨s, _, w, hreach, hbefore, hnext, .refl _, hw, huuid, haccepted⟩
        | upsert =>
          rcases hlocal with hlocal | hlocal <;> cases hlocal
          exact hextend (ih (.inl hbefore))
        | refuse | respond | issue | fail =>
          rcases hlocal with hlocal | hlocal <;> cases hlocal
    · simp only [Function.update_of_ne hj] at hlocal
      exact hextend (ih hlocal)

/-- A registration leaves the rows with other ids. -/
theorem Registers.mem_workers_iff {a : Action} (h : Registers e sh tx request phase a sh' phase')
    (hid : w.id ≠ e.server.generateWorkerID request.hardwareUUID) :
    w ∈ sh'.workers ↔ w ∈ sh.workers := by
  cases h with
  | refuse | check | respond | fail => rfl
  | issue => exact Tables.mem_update_iff_of_ne (fun _ hkey => hkey) hid
  | @upsert _ now workers _ hworkers =>
    change w ∈ workers ↔ w ∈ sh.workers
    unfold upsertWorker at hworkers
    split_ifs at hworkers
    · cases hworkers
      exact Tables.mem_update_iff_of_ne (fun _ hkey => hkey) hid
    · cases hworkers
      have hnew : w ≠ (e.registration request).worker now := fun heq => hid (heq ▸ rfl)
      simp [hnew]

/-- A registration leaves the rows of other hardware UUIDs, as long as the ids derived
from them are distinct. -/
theorem Registers.mem_workers_iff_of_uuid {a : Action}
    (h : Registers e sh tx request phase a sh' phase')
    (hids : Set.InjOn e.server.generateWorkerID uuids) (hs : e.Consistent uuids tokens sh)
    (hs' : e.Consistent uuids tokens sh') (huuid : request.hardwareUUID ∈ uuids)
    (hne : w.hardwareUUID ≠ request.hardwareUUID) : w ∈ sh'.workers ↔ w ∈ sh.workers := by
  by_cases hid : w.id = e.server.generateWorkerID request.hardwareUUID
  · have hnone : ∀ sh, e.Consistent uuids tokens sh → w ∉ sh.workers := fun sh hsh hw =>
      hne (hids (hsh.rows w hw).inUse huuid ((hsh.rows w hw).id.symm.trans hid))
    exact iff_of_false (hnone sh' hs') (hnone sh hs)
  · exact h.mem_workers_iff hid

/-- In every reached state the tokens that `requireWorkerAuth` accepts as a worker
are exactly the one issued last to it. A registration changes the table only with the
enrollment token or with a token that its check found accepted for the row of its
hardware UUID; it leaves all other rows, issues a token only in the first case, and
changes nothing when a step of it fails. -/
theorem Registrar.token_lifecycle (e : Registrar) {uuids tokens : Set String}
    (hhash : Set.InjOn e.hashWorkerToken tokens)
    (hids : Set.InjOn e.server.generateWorkerID uuids) {s : State}
    (h : e.system.ReachableUnder (InUse uuids tokens) s) :
    (∀ authorization workerID, Rest.bearerToken authorization ∈ tokens →
      ((e.requireWorkerAuth s.shared.workers authorization).map Worker.id = some workerID ↔
        s.shared.lastIssued workerID = some (Rest.bearerToken authorization))) ∧
    (∀ i a t request phase, s.locals i = .register request phase →
      InUse uuids tokens s (i, a) → e.system.next s (i, a) t →
      (t.shared.workers ≠ s.shared.workers →
        Proxy.tokensMatch e.enrollmentToken request.workerToken = true ∨
          e.Presented uuids tokens i request s) ∧
      (∀ w : Worker, w.hardwareUUID ≠ request.hardwareUUID →
        (w ∈ t.shared.workers ↔ w ∈ s.shared.workers)) ∧
      (t.shared.issued ≠ s.shared.issued →
        Proxy.tokensMatch e.enrollmentToken request.workerToken = true ∧
          ∃ token, t.shared.issued =
            (e.server.generateWorkerID request.hardwareUUID, token) :: s.shared.issued) ∧
      (a = .fail → t.shared = s.shared)) := by
  obtain ⟨hs, hcalls⟩ := e.consistent_of_reachable h
  refine ⟨fun authorization workerID htoken => ?_,
    fun i a t request phase hlocal hok hnext => ?_⟩
  · exact hs.accepts_iff (e.ids_of_reachable h.reachable) hhash htoken
  · obtain ⟨ht, _⟩ := e.consistent_of_reachable (h.take (i, a) hok hnext)
    obtain ⟨sh, call, hact, rfl⟩ := Program.step_eq_some.mp hnext
    have hcall := hcalls i
    have hsteps := Registrar.steps_of_act hact
    rw [hlocal] at hcall hsteps
    cases hsteps with
    | register hregisters =>
      refine ⟨?_, fun w hne => ?_, ?_, ?_⟩
      · intro hchanged
        cases hregisters with
        | refuse | check | respond | fail => exact absurd rfl hchanged
        | @upsert issue _ _ _ _ =>
          cases issue with
          | true => exact .inl (hcall.2 rfl)
          | false => exact .inr (e.presented_of_reachable hhash h (.inl hlocal))
        | issue => exact .inl (hcall.2.1 rfl)
      · by_cases hsame : sh.workers = s.shared.workers
        · change w ∈ sh.workers ↔ _
          rw [hsame]
        · have huuid : request.hardwareUUID ∈ uuids := by
            cases hregisters with
            | refuse | check | respond | fail => exact absurd rfl hsame
            | upsert | issue => exact hcall.1
          exact hregisters.mem_workers_iff_of_uuid hids hs ht huuid hne
      · intro hchanged
        cases hregisters with
        | issue => exact ⟨hcall.2.1 rfl, _, rfl⟩
        | refuse | check | respond | fail | upsert => exact absurd rfl hchanged
      · rintro rfl
        cases hregisters with
        | fail => rfl

/-- A registrar whose hashes and worker ids are the texts themselves. -/
def plainRegistrar : Registrar := ⟨plainServer, id, "enroll", 2, "base"⟩

/-- A worker with the given token. -/
def macRequest (hostname token : String) : RegisterRequest :=
  ⟨hostname, "uuid", 8, 16, "2", "1", token⟩

/-- A worker enrolls and gets its token. -/
theorem token_lifecycle_enrolled : ∃ s : State,
    plainRegistrar.system.ReachableUnder (InUse Set.univ Set.univ) s ∧
    (plainRegistrar.requireWorkerAuth s.shared.workers "Bearer wkt_1").map Worker.id =
      some "uuid" := by
  have hinitial : plainRegistrar.system.ReachableUnder (InUse Set.univ Set.univ) State.initial :=
    .init rfl
  have hreceived := hinitial.take (0, .receive (some (macRequest "mac-1" "enroll"))) trivial rfl
  have hchecked := hreceived.take (0, .check) trivial rfl
  have hupserted := hchecked.take (0, .upsert 100) trivial rfl
  have hissued := hupserted.take (0, .issue 110 "wkt_1") ⟨trivial, List.not_mem_nil⟩ rfl
  refine ⟨_, hissued, ?_⟩
  have hinj : Set.InjOn (id : String → String) Set.univ := Function.injective_id.injOn
  exact ((plainRegistrar.token_lifecycle hinj hinj hissued).1 "Bearer wkt_1" "uuid" trivial).mpr
    (by decide)

end MiniControl.Enrollment
