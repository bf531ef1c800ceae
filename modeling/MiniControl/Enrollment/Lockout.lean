import MiniControl.Enrollment.Handshake

/-!
# Machines that are locked out

A start of the worker with a token of its file passes the check of the server, unless
the server has issued another token to the machine since.

It can do so: a request of an earlier process, with the enrollment token, can be served
after a later process has saved its own token. The machine is locked out then until it
is installed anew. In the runs in which a token is issued to the machine only while its
process waits for that answer this does not happen, and a process that runs is
authenticated by all its requests.
-/

namespace MiniControl.Enrollment

open Transition Fleet Installer Text

section Checks

variable {m : Machine} {uuids tokens : Set String} {sh : Shared} {token : String}

/-- The enrollment token gets through whatever the table holds. -/
theorem Machine.shouldIssue_enrollmentToken (m : Machine) (workers : List Worker)
    (hardwareUUID : String) :
    (m.registrar.shouldIssueWorkerToken workers hardwareUUID m.registrar.enrollmentToken).isSome =
      true := by
  have hmatch : Proxy.tokensMatch m.registrar.enrollmentToken m.registrar.enrollmentToken = true :=
    (tokensMatch_iff m.enrollment_ne).mpr rfl
  unfold Registrar.shouldIssueWorkerToken
  simp only [hmatch, if_true]
  split
  · rfl
  · split <;> rfl

/-- The token issued last to the machine gets through without a new one. -/
theorem Machine.shouldIssue_of_latest (hids : Set.InjOn m.registrar.server.generateWorkerID uuids)
    (huuid : m.hardwareUUID ∈ uuids) (h : m.registrar.Consistent uuids tokens sh)
    (hlatest : m.Latest sh token) :
    m.registrar.shouldIssueWorkerToken sh.workers m.hardwareUUID token = some false := by
  have hrow : ∃ w ∈ sh.workers, w.hardwareUUID = m.hardwareUUID := by
    obtain ⟨w, hw, hid⟩ := h.holders _ (Shared.mem_issued hlatest)
    exact ⟨w, hw, hids (h.rows w hw).inUse huuid ((h.rows w hw).id.symm.trans hid)⟩
  unfold Registrar.shouldIssueWorkerToken
  cases hfound : sh.workers.find? (·.hardwareUUID = m.hardwareUUID) with
  | none =>
    obtain ⟨w, hw, hmachine⟩ := hrow
    exact absurd (decide_eq_true hmachine) (List.find?_eq_none.mp hfound w hw)
  | some row =>
    have hidentified := h.rows row (List.mem_of_find?_eq_some hfound)
    have hmachine : row.hardwareUUID = m.hardwareUUID := by simpa using List.find?_some hfound
    have hid : row.id = m.workerID := by rw [hidentified.id, hmachine, Machine.workerID]
    have hhash : row.authTokenHash = some (m.registrar.hashWorkerToken token) := by
      rw [hidentified.token, hid, hlatest, Option.map_some]
    have hmatch := (tokensMatch_iff (m.hash_ne token)).mpr rfl
    simp only [hhash, hidentified.unrevoked, Option.any_some, hmatch, and_self, if_true]

/-- No other token that was generated gets through. -/
theorem Machine.latest_of_shouldIssue (hhash : Set.InjOn m.registrar.hashWorkerToken tokens)
    (hrows : (sh.workers.map Worker.id).Nodup) (h : m.registrar.Consistent uuids tokens sh)
    (hused : token ∈ tokens) (hgenerated : IsGenerated token) {issue : Bool}
    (hcheck : m.registrar.shouldIssueWorkerToken sh.workers m.hardwareUUID token = some issue) :
    m.Latest sh token := by
  let request : RegisterRequest :=
    { RegisterRequest.empty with hardwareUUID := m.hardwareUUID, workerToken := token }
  have hrequest : m.registrar.shouldIssueWorkerToken sh.workers request.hardwareUUID
      request.workerToken = some issue := hcheck
  cases issue with
  | true =>
    -- it would be the enrollment token
    have hmatch := tokensMatch_of_shouldIssue hrequest
    rw [tokensMatch_iff m.enrollment_ne] at hmatch
    exact absurd hmatch (m.ne_enrollmentToken hgenerated)
  | false =>
    obtain ⟨w, hw, hmachine, hfound⟩ := h.presents_of_shouldIssue hrows hhash hrequest
    have hid : w.id = m.workerID := by rw [(h.rows w hw).id, hmachine, Machine.workerID]
    have haccepts : (m.registrar.authenticateWorkerToken sh.workers token).map Worker.id =
        some m.workerID := by
      rw [hfound, Option.map_some, hid]
    exact (h.accepts_iff hrows hhash hused).mp haccepts

/-- Some token is the last one when one was issued. -/
theorem Machine.Issued.exists_latest (h : m.Issued sh token) : ∃ latest, m.Latest sh latest := by
  cases hfound : sh.issued.find? (·.1 = m.workerID) with
  | none => exact absurd (decide_eq_true rfl) (List.find?_eq_none.mp hfound _ h)
  | some p => exact ⟨p.2, by rw [Machine.Latest, Shared.lastIssued, hfound, Option.map_some]⟩

end Checks

section Samples

/-- A machine whose server hashes a token to itself with a mark. -/
def plainMachine : Machine where
  registrar := { plainRegistrar with hashWorkerToken := fun token => token ++ "#" }
  hardwareUUID := "uuid"
  marks := diacritics
  yams := flatYams
  hardwareUUID_ne := by decide
  followsYaml := flatYams_follows
  enrollment_ne := by decide
  enrollment_printable := List.all_eq_true.mp rfl
  enrollment_unmarked := by decide
  hash_ne := by simp

/-- The values with which the installer runs. -/
def plainVariables : Variables := ⟨"mini".toList, "443".toList, [], [], "base".toList, [], ['p']⟩

/-- Printable values without a quote can be installed. -/
theorem installable_of_quoteless {v : Variables} (hport : v.serverPort = "443".toList)
    (h : ∀ text ∈ [v.serverHost, v.localImageName, v.tlsFingerprint, v.hostPassword],
      '\'' ∉ text ∧ text.all isPrintable = true) : plainMachine.Installable v :=
  ⟨⟨443, by rw [hport]; decide⟩,
    fun text htext => Machine.savable_of_quoteless (h text htext).1 (h text htext).2⟩

/-- No two tokens have the same hash. -/
theorem injOn_plainMachine (tokens : Set String) :
    Set.InjOn plainMachine.registrar.hashWorkerToken tokens := by
  intro a _ b _ hab
  have hlists := congrArg String.toList hab
  simp only [plainMachine, String.toList_append] at hlists
  exact String.toList_inj.mp (List.append_cancel_right hlists)

/-- The worker ids are the hardware UUIDs. -/
theorem injOn_plainMachine_ids (uuids : Set String) :
    Set.InjOn plainMachine.registrar.server.generateWorkerID uuids :=
  Function.injective_id.injOn

/-- A token of one repeated byte. -/
def repeatedToken (byte : UInt8) : String := generateWorkerToken (List.replicate 32 byte)

/-- Such a token could be generated. -/
theorem isGenerated_repeatedToken (byte : UInt8) : IsGenerated (repeatedToken byte) :=
  ⟨_, List.length_replicate, rfl⟩

/-- The runs of the machine in which tokens are issued in time. -/
abbrev plainRuns (s : Site) (e : Event) : Prop :=
  plainMachine.Orderly Set.univ {token | IsGenerated token} s e ∧ plainMachine.Timely s e

/-- The machine enrolls and saves its token. -/
theorem plainMachine_enrolls : ∃ s config, plainMachine.system.ReachableUnder plainRuns s ∧
    s.file = some (WorkerConfig.save diacritics config) ∧
    s.process = .running config (repeatedToken 1) ∧ config.enrollmentToken = [] := by
  have hinitial : plainMachine.system.ReachableUnder plainRuns Machine.initial := .init rfl
  have hvalidated := hinitial.take (.validate plainVariables true)
    ⟨installable_of_quoteless rfl (by decide), trivial⟩ rfl
  have hemptied := hvalidated.take .empty ⟨trivial, trivial⟩ rfl
  have hfilled := hemptied.take .fill ⟨trivial, trivial⟩ rfl
  have happended := hfilled.take .append ⟨trivial, trivial⟩ rfl
  have hstarted := happended.take (.start ⟨"mac", 8, 16, "1"⟩ 0) ⟨trivial, trivial⟩ rfl
  have harrived := hstarted.take (.arrive 0) ⟨trivial, trivial⟩ rfl
  have hchecked := harrived.take (.server 0 .check) ⟨⟨trivial, by simp⟩, trivial⟩ rfl
  have hupserted := hchecked.take (.server 0 (.upsert 100)) ⟨⟨trivial, by simp⟩, trivial⟩ rfl
  have hissued := hupserted.take (.server 0 (.issue 110 (repeatedToken 1)))
    ⟨⟨⟨isGenerated_repeatedToken 1, List.not_mem_nil⟩, by simp⟩, fun _ _ _ _ => ⟨_, rfl⟩⟩ rfl
  have hanswered := hissued.take .answer ⟨trivial, trivial⟩ rfl
  have hsaved := hanswered.take (.persist true) ⟨fun _ => rfl, trivial⟩ rfl
  exact ⟨_, _, hsaved, rfl, rfl, rfl⟩

end Samples

/-- When a machine is locked out. In every run the file holds the enrollment token or a
worker token but not both, unless it is empty, and the server refuses a start with it
exactly when it is a worker token and another token was issued to the machine after
it. -/
theorem Machine.locked_out_iff (m : Machine) {uuids tokens : Set String}
    (htokens : ∀ token ∈ tokens, IsGenerated token)
    (hhash : Set.InjOn m.registrar.hashWorkerToken tokens)
    (hids : Set.InjOn m.registrar.server.generateWorkerID uuids) (huuid : m.hardwareUUID ∈ uuids)
    {s : Site} (h : m.system.ReachableUnder (m.Orderly uuids tokens) s) {text : List Char}
    (hfile : s.file = some text) (hne : text ≠ []) :
    ∃ config, m.load text = .ok config ∧
      (config.workerToken = [] ↔ config.enrollmentToken ≠ []) ∧
      (m.registrar.shouldIssueWorkerToken s.server.shared.workers m.hardwareUUID
          (preferredAuthToken config) = none ↔
        ∃ token latest, config.workerToken = token.toList ∧
          (m.workerID, token) ∈ s.server.shared.issued ∧
          s.server.shared.lastIssued m.workerID = some latest ∧ latest ≠ token) := by
  obtain ⟨hs, hreach⟩ := Machine.holds_issued htokens huuid h
  obtain ⟨hconsistent, _⟩ := m.registrar.consistent_of_reachable hreach
  have hrows := m.registrar.ids_of_reachable hreach.reachable
  obtain ⟨config, hdescribes, haccepted, _⟩ := hs.file text hfile hne
  refine ⟨config, hdescribes.load, haccepted.empty_iff, ?_⟩
  rcases haccepted.preferred with ⟨hempty, henrollment⟩ | ⟨hworker, hgenerated, hissued⟩
  · -- the enrollment token gets through
    refine iff_of_false ?_ ?_
    · rw [henrollment]
      exact Option.isSome_iff_ne_none.mp (m.shouldIssue_enrollmentToken _ _)
    · rintro ⟨token, latest, htoken, hmem, _⟩
      have hused := htokens token (hconsistent.inUse _ hmem)
      exact hused.toList_ne (htoken.symm.trans hempty)
  · have hpreferred : config.workerToken = (preferredAuthToken config).toList := by
      rw [preferredAuthToken, if_pos hworker, String.toList_ofList]
    constructor
    · intro hrefused
      obtain ⟨latest, hlatest⟩ := hissued.exists_latest
      refine ⟨_, latest, hpreferred, hissued, hlatest, ?_⟩
      rintro rfl
      rw [Machine.shouldIssue_of_latest hids huuid hconsistent hlatest] at hrefused
      cases hrefused
    · rintro ⟨token, latest, htoken, _, hlatest, hother⟩
      obtain rfl : preferredAuthToken config = token :=
        String.toList_inj.mp (hpreferred.symm.trans htoken)
      cases hcheck : m.registrar.shouldIssueWorkerToken s.server.shared.workers m.hardwareUUID
        (preferredAuthToken config) with
      | none => rfl
      | some issue =>
        have hpasses := Machine.latest_of_shouldIssue hhash hrows hconsistent
          (hconsistent.inUse _ hissued) hgenerated hcheck
        exact absurd (Option.some.inj (hlatest.symm.trans hpasses)) hother

/-- The first request is served only after a second process has enrolled and saved its
token. -/
theorem delayedIssue_reaches : ∃ s config,
    plainMachine.system.ReachableUnder
      (plainMachine.Orderly Set.univ {token | IsGenerated token}) s ∧
    s.file = some (WorkerConfig.save diacritics config) ∧
    plainMachine.load (WorkerConfig.save diacritics config) = .ok config ∧
    config.workerToken = (repeatedToken 1).toList ∧
    s.server.shared.issued = [("uuid", repeatedToken 2), ("uuid", repeatedToken 1)] := by
  have hinitial : plainMachine.system.ReachableUnder
      (plainMachine.Orderly Set.univ {token | IsGenerated token}) Machine.initial := .init rfl
  have hvalidated := hinitial.take (.validate plainVariables true)
    (installable_of_quoteless rfl (by decide)) rfl
  have hemptied := hvalidated.take .empty trivial rfl
  have hfilled := hemptied.take .fill trivial rfl
  have happended := hfilled.take .append trivial rfl
  have hstarted := happended.take (.start ⟨"mac", 8, 16, "1"⟩ 0) trivial rfl
  have harrived := hstarted.take (.arrive 0) trivial rfl
  have hstopped := harrived.take .stop trivial rfl
  have hstarted := hstopped.take (.start ⟨"mac", 8, 16, "1"⟩ 1) trivial rfl
  have harrived := hstarted.take (.arrive 1) trivial rfl
  have hchecked := harrived.take (.server 1 .check) ⟨trivial, by simp⟩ rfl
  have hupserted := hchecked.take (.server 1 (.upsert 100)) ⟨trivial, by simp⟩ rfl
  have hissued := hupserted.take (.server 1 (.issue 110 (repeatedToken 1)))
    ⟨⟨isGenerated_repeatedToken 1, List.not_mem_nil⟩, by simp⟩ rfl
  have hanswered := hissued.take .answer trivial rfl
  have hsaved := hanswered.take (.persist true) (fun _ => rfl) rfl
  have hchecked := hsaved.take (.server 0 .check) ⟨trivial, by simp⟩ rfl
  have hupserted := hchecked.take (.server 0 (.upsert 120)) ⟨trivial, by simp⟩ rfl
  have hlate := hupserted.take (.server 0 (.issue 130 (repeatedToken 2)))
    ⟨⟨isGenerated_repeatedToken 2, by decide⟩, by simp⟩ rfl
  exact ⟨_, _, hlate, rfl, rfl, rfl, rfl⟩

/-- A machine is locked out: its file holds the only token it has, and the server refuses
it. -/
theorem locked_out_iff_delayed : ∃ s text config,
    plainMachine.system.ReachableUnder
      (plainMachine.Orderly Set.univ {token | IsGenerated token}) s ∧
    s.file = some text ∧ plainMachine.load text = .ok config ∧
    config.enrollmentToken = [] ∧ preferredAuthToken config = repeatedToken 1 ∧
    plainMachine.registrar.shouldIssueWorkerToken s.server.shared.workers "uuid"
      (repeatedToken 1) = none := by
  obtain ⟨s, saved, hreach, hfile, hsaved, hworker, hissued⟩ := delayedIssue_reaches
  obtain ⟨config, hload, htokens, hrefused⟩ := plainMachine.locked_out_iff (fun _ => id)
    (injOn_plainMachine _) (injOn_plainMachine_ids _) (Set.mem_univ _) hreach hfile
    (WorkerConfig.save_ne_nil _ _)
  obtain rfl : saved = config := Except.ok.inj (hsaved.symm.trans hload)
  have hpreferred : preferredAuthToken saved = repeatedToken 1 := by
    have hne : saved.workerToken ≠ [] := by
      rw [hworker]
      exact (isGenerated_repeatedToken 1).toList_ne
    rw [preferredAuthToken, if_pos hne, hworker, String.ofList_toList]
  have henrollment : saved.enrollmentToken = [] := by
    by_contra hne
    exact (isGenerated_repeatedToken 1).toList_ne (hworker.symm.trans (htokens.mpr hne))
  refine ⟨s, _, saved, hreach, hfile, hsaved, henrollment, hpreferred, ?_⟩
  rw [← hpreferred]
  refine hrefused.mpr ⟨repeatedToken 1, repeatedToken 2, hworker, ?_, ?_, by decide⟩
  · rw [hissued]
    exact List.mem_cons_of_mem _ List.mem_cons_self
  · rw [Shared.lastIssued, hissued]
    rfl

/-- The machine is not locked out while tokens are issued in time. Whatever is lost and
whenever the worker and the installer stop, the file holds the enrollment token or a
worker token but not both, unless it is empty, and a start with it passes the check of
the server. -/
theorem Machine.never_locked_out (m : Machine) {uuids tokens : Set String}
    (htokens : ∀ token ∈ tokens, IsGenerated token)
    (hids : Set.InjOn m.registrar.server.generateWorkerID uuids) (huuid : m.hardwareUUID ∈ uuids)
    {s : Site}
    (h : m.system.ReachableUnder (fun s e => m.Orderly uuids tokens s e ∧ m.Timely s e) s)
    {text : List Char} (hfile : s.file = some text) (hne : text ≠ []) :
    ∃ config, m.load text = .ok config ∧
      (config.workerToken = [] ↔ config.enrollmentToken ≠ []) ∧
      (m.registrar.shouldIssueWorkerToken s.server.shared.workers m.hardwareUUID
        (preferredAuthToken config)).isSome = true := by
  obtain ⟨hs, hreach⟩ := Machine.holds_latest htokens hids huuid h
  obtain ⟨hconsistent, _⟩ := m.registrar.consistent_of_reachable hreach
  obtain ⟨config, hdescribes, haccepted, _⟩ := hs.file text hfile hne
  refine ⟨config, hdescribes.load, haccepted.empty_iff, ?_⟩
  rcases haccepted.preferred with ⟨_, henrollment⟩ | ⟨_, _, hlatest⟩
  · rw [henrollment]
    exact m.shouldIssue_enrollmentToken _ _
  · rw [Machine.shouldIssue_of_latest hids huuid hconsistent hlatest]
    rfl

/-- After the enrollment the worker token of the file passes the check. -/
theorem never_locked_out_enrolled : ∃ s text config, s.file = some text ∧
    plainMachine.system.ReachableUnder plainRuns s ∧ plainMachine.load text = .ok config ∧
    (plainMachine.registrar.shouldIssueWorkerToken s.server.shared.workers "uuid"
      (preferredAuthToken config)).isSome = true := by
  obtain ⟨s, config, hreach, hfile, _⟩ := plainMachine_enrolls
  obtain ⟨loaded, hloaded, _, hpasses⟩ := plainMachine.never_locked_out (fun _ => id)
    (injOn_plainMachine_ids _) (Set.mem_univ _) hreach hfile
    (WorkerConfig.save_ne_nil _ _)
  exact ⟨s, _, loaded, hfile, hreach, hloaded, hpasses⟩

section Running

variable {m : Machine} {uuids tokens : Set String} {s t : Site} {config : WorkerConfig}
  {request : RegisterRequest} {call : ℕ}

/-- A call that went on without issuing a token has seen a worker token. -/
def PhaseDecided (config : WorkerConfig) : RegisterPhase → Prop
  | .checked false | .upserted false | .returned (.registered _ _ _ none) =>
      config.workerToken ≠ []
  | _ => True

/-- What the process has decided on: it runs with the token issued last. -/
def Machine.Decided (m : Machine) (s : Site) : Process → Prop
  | .down | .registered _ (some _) => True
  | .registering config call => ∀ request phase, s.requests call = .arrived →
      s.server.locals call = .register request phase → PhaseDecided config phase
  | .registered config none => config.workerToken ≠ []
  | .running _ authToken => IsGenerated authToken ∧ m.Latest s.server.shared authToken

/-- The check of a call that presents the enrollment token issues a token. -/
theorem Machine.workerToken_ne_of_shouldIssue {valid : Shared → String → Prop} {sh : Shared}
    (htokens : ∀ token ∈ tokens, IsGenerated token)
    (hhash : Set.InjOn m.registrar.hashWorkerToken (insert m.registrar.enrollmentToken tokens))
    (hrows : (sh.workers.map Worker.id).Nodup) (hs : m.registrar.Consistent uuids tokens sh)
    (haccepted : m.Accepted valid sh config.workerToken config.enrollmentToken)
    (htoken : request.workerToken = preferredAuthToken config)
    (hcheck : m.registrar.shouldIssueWorkerToken sh.workers request.hardwareUUID
      request.workerToken = some false) : config.workerToken ≠ [] := by
  rcases haccepted.preferred with ⟨_, henrollment⟩ | ⟨hne, _⟩
  · -- the enrollment token would have the hash of a generated one
    have hinj := hhash.mono (Set.subset_insert _ _)
    obtain ⟨w, hw, _, hfound⟩ := hs.presents_of_shouldIssue hrows hinj hcheck
    have hmatch := List.find?_some (Registrar.authenticateWorkerToken.eq_1 .. ▸ hfound)
    simp only [decide_eq_true_eq] at hmatch
    obtain ⟨token, _, hused, heq⟩ := hs.issued_of_hash hw hmatch.1
    have hsame : token = request.workerToken := by
      refine hhash (Set.mem_insert_of_mem _ hused) ?_ heq
      rw [htoken, henrollment]
      exact Set.mem_insert _ _
    exact absurd (hsame.trans (htoken.trans henrollment)) (m.ne_enrollmentToken (htokens _ hused))
  · exact hne

/-- What the process has decided on depends on the token issued last and on the call that
it waits for. -/
theorem Machine.Decided.of_calls {process : Process} (h : m.Decided s process)
    (hlatest : ∀ config authToken, process = .running config authToken →
      m.Latest s.server.shared authToken → m.Latest t.server.shared authToken)
    (hcalls : ∀ config call request phase, process = .registering config call →
      t.requests call = .arrived → t.server.locals call = .register request phase →
      PhaseDecided config phase) : m.Decided t process := by
  match process, h with
  | .down, _ | .registered _ (some _), _ => trivial
  | .registered config none, h => exact h
  | .running config authToken, h => exact ⟨h.1, hlatest config authToken rfl h.2⟩
  | .registering config call, _ =>
    exact fun request phase harrived hlocal => hcalls config call request phase rfl harrived hlocal

/-- The call that the process waits for, after a step of a client. -/
theorem Machine.Decided.phase_server (h : m.Decided s s.process) (hs : m.Holds m.Latest s)
    (htokens : ∀ token ∈ tokens, IsGenerated token)
    (hhash : Set.InjOn m.registrar.hashWorkerToken (insert m.registrar.enrollmentToken tokens))
    (hreach : m.registrar.system.ReachableUnder (InUse uuids tokens) s.server) {call call' : ℕ}
    {action : Action} {server : State}
    (hstep : m.registrar.program.step s.server (call, action) = some server) {phase : RegisterPhase}
    (hprocess : s.process = .registering config call') (harrived : s.requests call' = .arrived)
    (hlocal : server.locals call' = .register request phase) : PhaseDecided config phase := by
  obtain ⟨hconsistent, _⟩ := m.registrar.consistent_of_reachable hreach
  have hrows := m.registrar.ids_of_reachable hreach.reachable
  have hknown := hs.process
  rw [hprocess] at h hknown
  obtain ⟨_, haccepted, hawaits⟩ := hknown
  have hcall := hs.calls call'
  rw [harrived] at hcall hawaits
  obtain ⟨sh, call'', hact, rfl⟩ := Program.step_eq_some.mp hstep
  by_cases hsame : call' = call
  · subst hsame
    have hsteps := Registrar.steps_of_act hact
    simp only [Function.update_self] at hlocal
    have hbefore : ∀ request phase, s.server.locals call' = .register request phase →
        PhaseDecided config phase := fun request phase => h request phase harrived
    generalize s.server.locals call' = before at hsteps hawaits hcall hbefore
    cases hsteps with
    | client | malformed | receive => exact hcall.elim
    | register hregisters =>
      cases hlocal
      cases hregisters with
      | refuse | fail | issue => trivial
      | @check issue hcheck =>
        cases issue with
        | true => trivial
        | false =>
          exact Machine.workerToken_ne_of_shouldIssue htokens hhash hrows hconsistent haccepted
            hawaits.1 hcheck
      | @upsert issue =>
        have hdecided := hbefore _ _ rfl
        cases issue with
        | true => trivial
        | false => exact hdecided
      | respond => exact hbefore _ (.upserted false) rfl
  · simp only [Function.update_of_ne hsame] at hlocal
    exact h request phase harrived hlocal

/-- A step of a client keeps what the process has decided on. -/
theorem Machine.Decided.server (h : m.Decided s s.process) (hs : m.Holds m.Latest s)
    (htokens : ∀ token ∈ tokens, IsGenerated token)
    (hhash : Set.InjOn m.registrar.hashWorkerToken (insert m.registrar.enrollmentToken tokens))
    (hids : Set.InjOn m.registrar.server.generateWorkerID uuids) (huuid : m.hardwareUUID ∈ uuids)
    (hreach : m.registrar.system.ReachableUnder (InUse uuids tokens) s.server) {action : Action}
    {server : State} (htimely : m.Timely s (.server call action))
    (hstep : m.registrar.program.step s.server (call, action) = some server) :
    m.Decided { s with server := server } s.process := by
  refine h.of_calls ?_ fun config call' request phase hprocess harrived hlocal =>
    h.phase_server hs htokens hhash hreach hstep hprocess harrived hlocal
  intro config authToken hprocess hlatest
  rcases Machine.lastIssued_cases hids huuid hreach hstep with hsame | hissue
  · exact hsame.trans hlatest
  · -- no token is issued to a machine whose process runs
    obtain ⟨now, token, request, rfl, hlocal, hmachine⟩ := hissue
    obtain ⟨config', hwaits⟩ := htimely request _ hlocal hmachine
    cases hprocess.symm.trans hwaits

/-- So does the arrival of a request, which has not been checked. -/
theorem Machine.Decided.arrive (h : m.Decided s s.process) {server : State}
    (hstep : m.registrar.program.step s.server (call, .receive (some request)) = some server) :
    m.Decided { s with
      server := server
      requests := Function.update s.requests call .arrived } s.process := by
  obtain ⟨sh, local', hact, rfl⟩ := Program.step_eq_some.mp hstep
  have hsteps := Registrar.steps_of_act hact
  generalize hbefore : s.server.locals call = before at hsteps
  cases hsteps with
  | register hregisters => cases hregisters
  | receive =>
    refine h.of_calls (fun _ _ _ => id) ?_
    intro config call' received phase hprocess harrived hlocal
    rw [hprocess] at h
    by_cases hcall : call' = call
    · subst hcall
      simp only [Function.update_self] at hlocal
      cases hlocal
      unfold RegisterRequest.validate
      split_ifs <;> trivial
    · simp only [Function.update_of_ne hcall] at harrived hlocal
      exact h received phase harrived hlocal

/-- The token that a process uses after an answer with a new one. -/
theorem authTokenAfter_some {token : String} (h : IsGenerated token) (config : WorkerConfig) :
    authTokenAfter config (some token) = token := if_neg h.ne_empty

/-- Every step keeps it. -/
theorem Moves.decided {e : Event} (hmoves : Moves m s e t) (h : m.Decided s s.process)
    (hs : m.Holds m.Latest s) (htokens : ∀ token ∈ tokens, IsGenerated token)
    (hhash : Set.InjOn m.registrar.hashWorkerToken (insert m.registrar.enrollmentToken tokens))
    (hids : Set.InjOn m.registrar.server.generateWorkerID uuids) (huuid : m.hardwareUUID ∈ uuids)
    (hreach : m.registrar.system.ReachableUnder (InUse uuids tokens) s.server)
    (htimely : m.Timely s e) : m.Decided t t.process := by
  cases hmoves with
  | server _ hstep => exact h.server hs htokens hhash hids huuid hreach htimely hstep
  | validate | empty | fill | append | abort => exact h
  | refused | stop => trivial
  | start _ _ _ hunused =>
    intro request phase harrived
    simp only [Function.update_self] at harrived
    cases harrived
  | arrive _ hstep => exact h.arrive hstep
  | @lose call _ _ =>
    refine h.of_calls (fun _ _ _ => id) ?_
    intro config call' request phase hprocess harrived hlocal
    rw [hprocess] at h
    by_cases hcall : call' = call
    · subst hcall
      simp only [Function.update_self] at harrived
      cases harrived
    · simp only [Function.update_of_ne hcall] at harrived
      exact h request phase harrived hlocal
  | @accepted config call request workerID poolSize baseImage issued hprocess harrived hreturned =>
    rw [hprocess] at h
    cases issued with
    | none => exact h request _ harrived hreturned
    | some token => trivial
  | @kept config issued saves hprocess hnone =>
    have hknown := hs.process
    rw [hprocess] at h hknown
    cases issued with
    | none =>
      rcases Machine.Accepted.preferred hknown with ⟨hempty, _⟩ | ⟨_, hlatest⟩
      · exact absurd hempty h
      · exact hlatest
    | some token =>
      obtain ⟨_, htoken, hlatest⟩ := hknown
      rw [authTokenAfter_some htoken]
      exact ⟨htoken, hlatest⟩
  | saved hprocess hsome =>
    obtain ⟨token, rfl, _, htoken, hlatest, _⟩ := hs.persisted hprocess hsome
    rw [authTokenAfter_some htoken]
    exact ⟨htoken, hlatest⟩
  | unsaved hprocess hsome =>
    obtain ⟨token, rfl, _, htoken, hlatest, _⟩ := hs.persisted hprocess hsome
    rw [authTokenAfter_some htoken]
    exact ⟨htoken, hlatest⟩

end Running

/-- A process that runs is authenticated as the machine by every request that it makes. -/
theorem Machine.running_authenticated (m : Machine) {uuids tokens : Set String}
    (htokens : ∀ token ∈ tokens, IsGenerated token)
    (hhash : Set.InjOn m.registrar.hashWorkerToken (insert m.registrar.enrollmentToken tokens))
    (hids : Set.InjOn m.registrar.server.generateWorkerID uuids) (huuid : m.hardwareUUID ∈ uuids)
    {s : Site}
    (h : m.system.ReachableUnder (fun s e => m.Orderly uuids tokens s e ∧ m.Timely s e) s)
    {config : WorkerConfig} {authToken : String}
    (hprocess : s.process = .running config authToken) :
    (m.registrar.requireWorkerAuth s.server.shared.workers (bearer authToken.toList)).map
      Worker.id = some m.workerID := by
  have hdecided : m.Decided s s.process := by
    refine System.ReachableUnder.invariant (P := fun s => m.Decided s s.process) ?_ ?_ h
    · rintro s rfl
      trivial
    · intro s e t hreach hok hnext hs
      obtain ⟨hholds, hserver⟩ := Machine.holds_latest htokens hids huuid hreach
      exact (Machine.moves_of_step hnext).decided hs hholds htokens hhash hids huuid hserver hok.2
  rw [hprocess] at hdecided
  obtain ⟨htoken, hlatest⟩ := hdecided
  obtain ⟨_, hreach⟩ := Machine.holds_latest htokens hids huuid h
  obtain ⟨hconsistent, _⟩ := m.registrar.consistent_of_reachable hreach
  have hused : authToken ∈ tokens := hconsistent.inUse _ (Shared.mem_issued hlatest)
  rw [Registrar.requireWorkerAuth, htoken.bearerToken]
  exact (hconsistent.accepts_iff (m.registrar.ids_of_reachable hreach.reachable)
    (hhash.mono (Set.subset_insert _ _)) hused).mpr hlatest

/-- After the enrollment the worker is authenticated with its token. -/
theorem running_authenticated_enrolled : ∃ s config,
    plainMachine.system.ReachableUnder plainRuns s ∧
    s.process = .running config (repeatedToken 1) ∧
    (plainMachine.registrar.requireWorkerAuth s.server.shared.workers
      (bearer (repeatedToken 1).toList)).map Worker.id = some "uuid" := by
  obtain ⟨s, config, hreach, _, hprocess, _⟩ := plainMachine_enrolls
  exact ⟨s, config, hreach, hprocess, plainMachine.running_authenticated (fun _ => id)
    (injOn_plainMachine _) (injOn_plainMachine_ids _) (Set.mem_univ _) hreach hprocess⟩

end MiniControl.Enrollment
