import MiniControl.Enrollment.Site

/-!
# The enrollment of a machine

Whatever happens, the file of a machine keeps a token with which the next start of its
worker can get through: the enrollment token, or a worker token that was issued to the
machine. Unless the installer is writing it, the file can also be loaded.

The invariant is stated for a notion of which tokens are valid. One notion is that the
token was issued to the machine at some time; it holds in all orderly runs. The other is
that it is the token issued last; it holds when a token is issued only to a process that
waits for it.
-/

namespace MiniControl.Enrollment

open Transition Fleet Installer Text

/-- What the process knows about the call that it waits for, which presented the token
of its configuration. A token is issued to the enrollment token only. -/
def PhaseKnown (valid : Shared → String → Prop) (sh : Shared) (config : WorkerConfig) :
    RegisterPhase → Prop
  | .received => True
  | .checked issue | .upserted issue => issue = true → config.workerToken = []
  | .returned (.registered _ _ _ (some token)) => IsGenerated token ∧ valid sh token
  | .returned _ => True

/-- The call that the process waits for. -/
def Awaits (valid : Shared → String → Prop) (sh : Shared) (config : WorkerConfig) :
    Delivery → Call → Prop
  | .sent request, _ => request.workerToken = preferredAuthToken config
  | .arrived, .register request phase =>
      request.workerToken = preferredAuthToken config ∧ PhaseKnown valid sh config phase
  | .lost, _ => True
  | _, _ => False

namespace Machine

variable (m : Machine)

/-- The token was issued to the machine. -/
def Issued (sh : Shared) (token : String) : Prop := (m.workerID, token) ∈ sh.issued

/-- No token was issued to the machine after this one. -/
def Latest (sh : Shared) (token : String) : Prop := sh.lastIssued m.workerID = some token

/-- Whose requests the calls of the server serve. -/
def CallKnown : Delivery → Call → Prop
  | .unused, .register request _ => request.hardwareUUID ≠ m.hardwareUUID
  | .unused, .client _ => True
  | .sent request, call => request.hardwareUUID = m.hardwareUUID ∧ call = .client .idle
  | .lost, call => call = .client .idle
  | .arrived, .register request _ => request.hardwareUUID = m.hardwareUUID
  | .arrived, .client _ => False

variable (valid : Shared → String → Prop)

/-- The two tokens of a file: the enrollment token, or a valid worker token. -/
def Accepted (sh : Shared) (workerToken enrollmentToken : List Char) : Prop :=
  (workerToken = [] ∧ enrollmentToken = m.registrar.enrollmentToken.toList) ∨
    (enrollmentToken = [] ∧ ∃ token, IsGenerated token ∧ workerToken = token.toList ∧
      valid sh token)

/-- What the process knows. -/
def ProcessKnown (s : Site) : Process → Prop
  | .down | .running _ _ => True
  | .registering config call => m.Keeps config ∧
      m.Accepted valid s.server.shared config.workerToken config.enrollmentToken ∧
      Awaits valid s.server.shared config (s.requests call) (s.server.locals call)
  | .registered config none =>
      m.Accepted valid s.server.shared config.workerToken config.enrollmentToken
  | .registered config (some token) => m.Keeps config ∧ IsGenerated token ∧
      valid s.server.shared token

end Machine

/-- The process waits for the answer to the enrollment token. -/
def Process.Enrolling : Process → Prop
  | .registering config _ => config.workerToken = []
  | _ => False

/-- What the installer has made of the file so far. -/
def Installation.Matches (file : Option (List Char)) : Installation → Prop
  | .idle | .resolved _ => True
  | .emptied _ linked => file = some [] ∧ linked = true
  | .filled v => file = some (unlines v.configLines)

/-- The invariant. While the process enrolls, no worker token is in the file or about to
be written to it. -/
structure Machine.Holds (m : Machine) (valid : Shared → String → Prop) (s : Site) : Prop where
  calls : ∀ i, m.CallKnown (s.requests i) (s.server.locals i)
  process : m.ProcessKnown valid s s.process
  file : ∀ text, s.file = some text → text ≠ [] → ∃ config, m.Describes text config ∧
    m.Accepted valid s.server.shared config.workerToken config.enrollmentToken ∧
    (s.process.Enrolling → config.workerToken = []) ∧
    ∀ v, s.installing.variables? = some v → v.writeWorkerToken ≠ [] → config.workerToken ≠ []
  installing : ∀ v, s.installing.variables? = some v → m.Installable v ∧
    m.Accepted valid s.server.shared v.writeWorkerToken v.writeEnrollmentToken ∧
    (s.process.Enrolling → v.writeWorkerToken = [])
  written : s.installing.Matches s.file

section Acceptance

variable {m : Machine} {valid : Shared → String → Prop} {sh sh' : Shared}
  {workerToken enrollmentToken : List Char}

/-- The tokens stay accepted while valid tokens stay valid. -/
theorem Machine.Accepted.mono (h : m.Accepted valid sh workerToken enrollmentToken)
    (hvalid : ∀ token, valid sh token → valid sh' token) :
    m.Accepted valid sh' workerToken enrollmentToken := by
  rcases h with henrollment | ⟨hempty, token, htoken, hworker, hheld⟩
  · exact .inl henrollment
  · exact .inr ⟨hempty, token, htoken, hworker, hvalid token hheld⟩

/-- Without a worker token it is the enrollment token, which is accepted at any time. -/
theorem Machine.Accepted.of_empty (h : m.Accepted valid sh workerToken enrollmentToken)
    (hempty : workerToken = []) : m.Accepted valid sh' workerToken enrollmentToken := by
  rcases h with henrollment | ⟨_, token, htoken, hworker, _⟩
  · exact .inl henrollment
  · exact absurd (hworker.symm.trans hempty) htoken.toList_ne

/-- One of the two tokens is empty, and not the other. -/
theorem Machine.Accepted.empty_iff (h : m.Accepted valid sh workerToken enrollmentToken) :
    workerToken = [] ↔ enrollmentToken ≠ [] := by
  rcases h with ⟨hempty, henrollment⟩ | ⟨hnone, token, htoken, hworker, _⟩
  · refine iff_of_true hempty ?_
    rw [henrollment]
    exact fun hnil => m.enrollment_ne (String.toList_eq_nil_iff.mp hnil)
  · rw [hworker]
    exact iff_of_false htoken.toList_ne (not_not.mpr hnone)

/-- The token that the worker presents. -/
theorem Machine.Accepted.preferred {config : WorkerConfig}
    (h : m.Accepted valid sh config.workerToken config.enrollmentToken) :
    (config.workerToken = [] ∧ preferredAuthToken config = m.registrar.enrollmentToken) ∨
      (config.workerToken ≠ [] ∧ IsGenerated (preferredAuthToken config) ∧
        valid sh (preferredAuthToken config)) := by
  rcases h with ⟨hempty, henrollment⟩ | ⟨_, token, htoken, hworker, hheld⟩
  · left
    refine ⟨hempty, ?_⟩
    rw [preferredAuthToken, if_neg (not_not.mpr hempty), henrollment, String.ofList_toList]
  · right
    have hne : config.workerToken ≠ [] := hworker ▸ htoken.toList_ne
    have hpreferred : preferredAuthToken config = token := by
      rw [preferredAuthToken, if_pos hne, hworker, String.ofList_toList]
    rw [hpreferred]
    exact ⟨hne, htoken, hheld⟩

/-- Accepted tokens are written by the installer as they are. -/
theorem Machine.Accepted.printable (h : m.Accepted valid sh workerToken enrollmentToken) :
    IsPrintable workerToken ∧ IsPrintable enrollmentToken ∧ IsWorkerToken m.marks workerToken := by
  have hnil : IsPrintable [] := fun c hc => absurd hc List.not_mem_nil
  rcases h with ⟨rfl, rfl⟩ | ⟨rfl, token, htoken, rfl, _⟩
  · exact ⟨hnil, m.enrollment_printable, .inl rfl⟩
  · exact ⟨(m.savable_of_isGenerated htoken).1, hnil, htoken.isWorkerToken m.marks⟩

/-- Generated tokens are not the enrollment token. -/
theorem Machine.ne_enrollmentToken (m : Machine) {token : String} (h : IsGenerated token) :
    token ≠ m.registrar.enrollmentToken := by
  rintro rfl
  exact m.enrollment_unmarked h.mark

/-- The comparison of tokens is equality, apart from empty ones. -/
theorem tokensMatch_iff {expected actual : String} (hne : expected ≠ "") :
    Proxy.tokensMatch expected actual = true ↔ actual = expected := by
  unfold Proxy.tokensMatch
  split_ifs with hempty
  · simp only [false_iff]
    rintro rfl
    exact hne (hempty.elim id id)
  · rw [decide_eq_true_eq]
    exact eq_comm

end Acceptance

section Server

variable {m : Machine} {valid : Shared → String → Prop} {uuids tokens : Set String} {s t : State}
  {call : ℕ} {action : Action} {config : WorkerConfig} {request : RegisterRequest} {sh sh' : Shared}
  {phase : RegisterPhase}

/-- A token that was issued stays so. -/
theorem Machine.Issued.step (hstep : m.registrar.program.step s (call, action) = some t)
    {token : String} (h : m.Issued s.shared token) : m.Issued t.shared token := by
  obtain ⟨sh, call', hact, rfl⟩ := Program.step_eq_some.mp hstep
  have hsteps := Registrar.steps_of_act hact
  generalize s.locals call = before at hsteps
  cases hsteps with
  | client | malformed | receive => exact h
  | register hregisters =>
    cases hregisters with
    | refuse | check | upsert | respond | fail => exact h
    | issue => exact List.mem_cons_of_mem _ h

/-- A step of a client issues no token to the machine, or it is the one of a call that
serves this machine. -/
theorem Machine.lastIssued_cases (hids : Set.InjOn m.registrar.server.generateWorkerID uuids)
    (huuid : m.hardwareUUID ∈ uuids)
    (hreach : m.registrar.system.ReachableUnder (InUse uuids tokens) s)
    (hstep : m.registrar.program.step s (call, action) = some t) :
    t.shared.lastIssued m.workerID = s.shared.lastIssued m.workerID ∨
      ∃ now token request, action = .issue now token ∧
        s.locals call = .register request (.upserted true) ∧
        request.hardwareUUID = m.hardwareUUID := by
  obtain ⟨_, hcalls⟩ := m.registrar.consistent_of_reachable hreach
  obtain ⟨sh, call', hact, rfl⟩ := Program.step_eq_some.mp hstep
  have hcall := hcalls call
  have hsteps := Registrar.steps_of_act hact
  generalize hlocal : s.locals call = before at hsteps hcall
  cases hsteps with
  | client | malformed | receive => exact .inl rfl
  | @register request _ _ _ _ hregisters =>
    cases hregisters with
    | refuse | check | upsert | respond | fail => exact .inl rfl
    | @issue now token _ =>
      by_cases hmachine : request.hardwareUUID = m.hardwareUUID
      · exact .inr ⟨now, token, request, rfl, rfl, hmachine⟩
      · left
        have hne : m.registrar.server.generateWorkerID request.hardwareUUID ≠ m.workerID :=
          fun heq => hmachine (hids hcall.1 huuid heq)
        rw [Shared.lastIssued_cons, if_neg hne]
        rfl

/-- The check of a call that presents the token of the configuration: a token is to be
issued to the enrollment token only. -/
theorem Machine.empty_of_shouldIssue
    (haccepted : m.Accepted valid sh config.workerToken config.enrollmentToken)
    (htoken : request.workerToken = preferredAuthToken config)
    (hcheck : m.registrar.shouldIssueWorkerToken sh.workers request.hardwareUUID
      request.workerToken = some true) : config.workerToken = [] := by
  rcases haccepted.preferred with ⟨hempty, _⟩ | ⟨_, hgenerated, _⟩
  · exact hempty
  · have hmatch := tokensMatch_of_shouldIssue hcheck
    rw [tokensMatch_iff m.enrollment_ne, htoken] at hmatch
    exact absurd hmatch (m.ne_enrollmentToken hgenerated)

/-- What the process knows about its call survives a step in which valid tokens stay
valid. -/
theorem PhaseKnown.mono (h : PhaseKnown valid sh config phase)
    (hvalid : ∀ token, valid sh token → valid sh' token) :
    PhaseKnown valid sh' config phase := by
  match phase, h with
  | .received, _ | .returned (.error _), _ | .returned (.registered _ _ _ none), _ => trivial
  | .checked _, h | .upserted _, h => exact h
  | .returned (.registered _ _ _ (some token)), ⟨htoken, hheld⟩ =>
    exact ⟨htoken, hvalid token hheld⟩

/-- So does what it knows while it waits. -/
theorem Awaits.mono {delivery : Delivery} {call : Call} (h : Awaits valid sh config delivery call)
    (hvalid : ∀ token, valid sh token → valid sh' token) :
    Awaits valid sh' config delivery call := by
  cases delivery with
  | unused => exact h
  | sent request => exact h
  | lost => exact h
  | arrived =>
    cases call with
    | client => exact h
    | register request phase => exact ⟨h.1, h.2.mono hvalid⟩

/-- A step of the call itself leads to what the process knows next. -/
theorem Machine.phaseKnown_step (htokens : ∀ token ∈ tokens, IsGenerated token)
    (hnew : ∀ fleet issued token, valid ⟨fleet, (m.workerID, token) :: issued⟩ token)
    (hok : InUse uuids tokens s (call, action)) {phase phase' : RegisterPhase}
    (haccepted : m.Accepted valid s.shared config.workerToken config.enrollmentToken)
    (htoken : request.workerToken = preferredAuthToken config)
    (hmachine : request.hardwareUUID = m.hardwareUUID)
    (hphase : PhaseKnown valid s.shared config phase)
    (hregisters : Registers m.registrar s.shared call request phase action sh phase') :
    PhaseKnown valid sh config phase' := by
  cases hregisters with
  | refuse | fail | respond => trivial
  | check hcheck =>
    rintro rfl
    exact Machine.empty_of_shouldIssue haccepted htoken hcheck
  | upsert => exact hphase
  | @issue now token =>
    refine ⟨htokens token hok.1, ?_⟩
    rw [hmachine]
    exact hnew _ _ _

end Server

section Preservation

variable {m : Machine} {valid : Shared → String → Prop} {uuids tokens : Set String} {s t : Site}
  {call : ℕ} {config config' : WorkerConfig} {v : Variables} {request : RegisterRequest}
  {issued : Option String} {e : Event}

/-- A known call stays a call of the same machine. -/
theorem Machine.CallKnown.server {s t : State} {action : Action} {delivery : Delivery}
    (h : m.CallKnown delivery (s.locals call))
    (hdelivery : delivery = .unused ∨ delivery = .arrived)
    (hother : ∀ request, action = .receive (some request) →
      request.hardwareUUID ≠ m.hardwareUUID)
    (hstep : m.registrar.program.step s (call, action) = some t) :
    m.CallKnown delivery (t.locals call) := by
  obtain ⟨sh, call', hact, rfl⟩ := Program.step_eq_some.mp hstep
  have hsteps := Registrar.steps_of_act hact
  simp only [Function.update_self]
  generalize s.locals call = before at hsteps h
  rcases hdelivery with rfl | rfl
  · cases hsteps with
    | client => trivial
    | malformed => exact Ne.symm m.hardwareUUID_ne
    | receive request => exact hother request rfl
    | register => exact h
  · cases hsteps with
    | client | malformed | receive => exact h.elim
    | register => exact h

/-- The calls after a step of a client. -/
theorem Machine.Holds.calls_server (h : m.Holds valid s) {action : Action} {server : State}
    (hok : m.Orderly uuids tokens s (.server call action))
    (hdelivery : s.requests call = .unused ∨ s.requests call = .arrived)
    (hstep : m.registrar.program.step s.server (call, action) = some server) (i : ℕ) :
    m.CallKnown (s.requests i) (server.locals i) := by
  by_cases hi : i = call
  · subst hi
    exact (h.calls i).server hdelivery hok.2 hstep
  · have hlocals : server.locals i = s.server.locals i := by
      obtain ⟨sh, call', _, rfl⟩ := Program.step_eq_some.mp hstep
      exact Function.update_of_ne hi ..
    rw [hlocals]
    exact h.calls i

/-- The process learns from the step of the call that it waits for. -/
theorem Machine.Holds.awaits_server (h : m.Holds valid s)
    (htokens : ∀ token ∈ tokens, IsGenerated token)
    (hnew : ∀ fleet issued token, valid ⟨fleet, (m.workerID, token) :: issued⟩ token)
    {action : Action} {server : State} (hok : m.Orderly uuids tokens s (.server call action))
    (hdelivery : s.requests call = .unused ∨ s.requests call = .arrived)
    (hstep : m.registrar.program.step s.server (call, action) = some server)
    (hprocess : s.process = .registering config call) :
    Awaits valid server.shared config (s.requests call) (server.locals call) := by
  have hknown := h.process
  rw [hprocess] at hknown
  obtain ⟨_, haccepted, hawaits⟩ := hknown
  have hcall := h.calls call
  obtain ⟨sh, call', hact, rfl⟩ := Program.step_eq_some.mp hstep
  have hsteps := Registrar.steps_of_act hact
  rcases hdelivery with hunused | harrived
  · rw [hunused] at hawaits
    exact hawaits.elim
  · simp only [Function.update_self]
    rw [harrived] at hawaits hcall ⊢
    generalize s.server.locals call = before at hsteps hawaits hcall
    cases hsteps with
    | client | malformed | receive => exact hcall.elim
    | register hregisters =>
      obtain ⟨htoken, hphase⟩ := hawaits
      exact ⟨htoken,
        Machine.phaseKnown_step htokens hnew hok.1 haccepted htoken hcall hphase hregisters⟩

/-- The invariant survives a step of the server or of the network in which valid tokens
stay valid. -/
theorem Machine.Holds.quiet (h : m.Holds valid s) (hfile : t.file = s.file)
    (hinstalling : t.installing = s.installing) (hprocess : t.process = s.process)
    (hvalid : ∀ token, valid s.server.shared token → valid t.server.shared token)
    (hcalls : ∀ i, m.CallKnown (t.requests i) (t.server.locals i))
    (hawaits : ∀ config call, s.process = .registering config call →
      Awaits valid t.server.shared config (t.requests call) (t.server.locals call)) :
    m.Holds valid t := by
  refine ⟨hcalls, ?_, ?_, ?_, ?_⟩
  · rw [hprocess]
    have hknown := h.process
    match hp : s.process, hknown with
    | .down, _ | .running _ _, _ => trivial
    | .registering config call, ⟨hkeeps, haccepted, _⟩ =>
      exact ⟨hkeeps, haccepted.mono hvalid, hawaits config call hp⟩
    | .registered config none, haccepted => exact haccepted.mono hvalid
    | .registered config (some token), ⟨hkeeps, htoken, hheld⟩ =>
      exact ⟨hkeeps, htoken, hvalid token hheld⟩
  · rw [hfile, hinstalling, hprocess]
    intro text htext hne
    obtain ⟨config, hdescribes, haccepted, hrest⟩ := h.file text htext hne
    exact ⟨config, hdescribes, haccepted.mono hvalid, hrest⟩
  · rw [hinstalling, hprocess]
    intro v hv
    obtain ⟨hinstallable, haccepted, hrest⟩ := h.installing v hv
    exact ⟨hinstallable, haccepted.mono hvalid, hrest⟩
  · rw [hfile, hinstalling]
    exact h.written

/-- A step of a client keeps the invariant when valid tokens stay valid. -/
theorem Machine.Holds.server (h : m.Holds valid s) (htokens : ∀ token ∈ tokens, IsGenerated token)
    (hnew : ∀ fleet issued token, valid ⟨fleet, (m.workerID, token) :: issued⟩ token)
    {action : Action} {server : State} (hok : m.Orderly uuids tokens s (.server call action))
    (hdelivery : s.requests call = .unused ∨ s.requests call = .arrived)
    (hstep : m.registrar.program.step s.server (call, action) = some server)
    (hvalid : ∀ token, valid s.server.shared token → valid server.shared token) :
    m.Holds valid { s with server := server } := by
  refine h.quiet rfl rfl rfl hvalid (h.calls_server hok hdelivery hstep)
    fun config call' hprocess => ?_
  by_cases hcall : call' = call
  · subst hcall
    exact h.awaits_server htokens hnew hok hdelivery hstep hprocess
  · have hknown := h.process
    rw [hprocess] at hknown
    obtain ⟨_, _, hawaits⟩ := hknown
    have hlocals : server.locals call' = s.server.locals call' := by
      obtain ⟨sh, local', _, rfl⟩ := Program.step_eq_some.mp hstep
      exact Function.update_of_ne hcall ..
    simp only [hlocals]
    exact hawaits.mono hvalid

/-- A token is issued to the process that waits for it. There is no worker token in the
file that it could make invalid. -/
theorem Machine.Holds.issue (h : m.Holds valid s) {server : State}
    (hprocess : s.process = .registering config call) (hempty : config.workerToken = [])
    (hcalls : ∀ i, m.CallKnown (s.requests i) (server.locals i))
    (hawaits : Awaits valid server.shared config (s.requests call) (server.locals call)) :
    m.Holds valid { s with server := server } := by
  have hknown := h.process
  rw [hprocess] at hknown
  obtain ⟨hkeeps, haccepted, _⟩ := hknown
  have henrolling : s.process.Enrolling := by
    rw [hprocess]
    exact hempty
  refine ⟨hcalls, ?_, ?_, ?_, h.written⟩
  · rw [hprocess]
    exact ⟨hkeeps, haccepted.of_empty hempty, hawaits⟩
  · intro text htext hne
    obtain ⟨stored, hdescribes, hstored, hnone, hwrite⟩ := h.file text htext hne
    exact ⟨stored, hdescribes, hstored.of_empty (hnone henrolling), hnone, hwrite⟩
  · intro v hv
    obtain ⟨hinstallable, hstored, hnone⟩ := h.installing v hv
    exact ⟨hinstallable, hstored.of_empty (hnone henrolling), hnone⟩

/-- A step of a client keeps the invariant for the token issued last, when a token is
issued only to a process that waits for it. -/
theorem Machine.Holds.server_latest (h : m.Holds m.Latest s)
    (htokens : ∀ token ∈ tokens, IsGenerated token)
    (hids : Set.InjOn m.registrar.server.generateWorkerID uuids) (huuid : m.hardwareUUID ∈ uuids)
    (hreach : m.registrar.system.ReachableUnder (InUse uuids tokens) s.server) {action : Action}
    {server : State} (hok : m.Orderly uuids tokens s (.server call action))
    (htimely : m.Timely s (.server call action))
    (hdelivery : s.requests call = .unused ∨ s.requests call = .arrived)
    (hstep : m.registrar.program.step s.server (call, action) = some server) :
    m.Holds m.Latest { s with server := server } := by
  have hnew : ∀ fleet issued token, m.Latest ⟨fleet, (m.workerID, token) :: issued⟩ token := by
    intro fleet issued token
    rw [Machine.Latest, Shared.lastIssued_cons, if_pos rfl]
  rcases Machine.lastIssued_cases hids huuid hreach hstep with hsame | hissue
  · exact h.server htokens hnew hok hdelivery hstep fun token hlatest => hsame.trans hlatest
  · obtain ⟨now, token, request, rfl, hlocal, hmachine⟩ := hissue
    obtain ⟨config, hprocess⟩ := htimely request _ hlocal hmachine
    have hempty : config.workerToken = [] := by
      have hknown := h.process
      rw [hprocess] at hknown
      obtain ⟨_, _, hawaits⟩ := hknown
      rcases hdelivery with hunused | harrived
      · rw [hunused] at hawaits
        exact hawaits.elim
      · rw [harrived, hlocal] at hawaits
        exact hawaits.2 rfl
    exact h.issue hprocess hempty (h.calls_server hok hdelivery hstep)
      (h.awaits_server htokens hnew hok hdelivery hstep hprocess)

/-- The installer keeps a worker token of the file, or takes the enrollment token. -/
theorem Machine.resolveTokens_cases (m : Machine) (s : Site) (v : Variables) (reachable : Bool) :
    (readYamlSingleQuotedValue "worker_token" s.file ≠ [] ∧ m.resolveTokens s v reachable =
      { v with
        writeWorkerToken := readYamlSingleQuotedValue "worker_token" s.file
        writeEnrollmentToken := [] }) ∨
      m.resolveTokens s v reachable = { v with
        writeWorkerToken := []
        writeEnrollmentToken := m.registrar.enrollmentToken.toList } := by
  unfold Machine.resolveTokens
  dsimp only
  split
  next hvalid =>
    rw [Machine.workerTokenValid, decide_eq_true_eq] at hvalid
    exact .inl ⟨hvalid.1, rfl⟩
  · exact .inr rfl

/-- The installer is about to write tokens that are accepted. -/
theorem Machine.Holds.validate (h : m.Holds valid s) (hv : m.Installable v) (reachable : Bool) :
    m.Holds valid { s with installing := .resolved (m.resolveTokens s v reachable) } := by
  have hinstallable : m.Installable (m.resolveTokens s v reachable) := by
    rcases m.resolveTokens_cases s v reachable with ⟨_, hkept⟩ | hnew
    · rw [hkept]
      exact ⟨hv.port, hv.values⟩
    · rw [hnew]
      exact ⟨hv.port, hv.values⟩
  refine ⟨h.calls, h.process, ?_, ?_, trivial⟩
  · intro text htext hne
    obtain ⟨config, hdescribes, haccepted, hnone, _⟩ := h.file text htext hne
    refine ⟨config, hdescribes, haccepted, hnone, ?_⟩
    rintro _ ⟨rfl⟩ hwrite
    have hfile : s.file = some text := htext
    rcases m.resolveTokens_cases s v reachable with ⟨hexisting, _⟩ | hnew
    · rwa [hfile, hdescribes.token] at hexisting
    · rw [hnew] at hwrite
      exact absurd rfl hwrite
  · rintro _ ⟨rfl⟩
    refine ⟨hinstallable, ?_⟩
    rcases m.resolveTokens_cases s v reachable with ⟨hexisting, hkept⟩ | hnew
    · -- the file from which the token was read is not empty
      obtain ⟨text, hfile, hne⟩ : ∃ text, s.file = some text ∧ text ≠ [] := by
        cases hfile : s.file with
        | none =>
          rw [hfile] at hexisting
          exact absurd rfl hexisting
        | some text =>
          refine ⟨text, rfl, ?_⟩
          rintro rfl
          rw [hfile] at hexisting
          exact absurd rfl hexisting
      obtain ⟨config, hdescribes, haccepted, hnone, _⟩ := h.file text hfile hne
      rw [hfile, hdescribes.token] at hkept hexisting
      rw [hkept]
      refine ⟨?_, fun henrolling => hnone henrolling⟩
      rcases haccepted with ⟨hempty, _⟩ | ⟨_, hissued⟩
      · exact absurd hempty hexisting
      · exact .inr ⟨rfl, hissued⟩
    · rw [hnew]
      exact ⟨.inl ⟨rfl, rfl⟩, fun _ => rfl⟩

/-- The installer empties the file. -/
theorem Machine.Holds.empty (h : m.Holds valid s) (hresolved : s.installing = .resolved v) :
    m.Holds valid { s with file := some [], installing := .emptied v true } := by
  refine ⟨h.calls, h.process, ?_, ?_, rfl, rfl⟩
  · rintro _ ⟨rfl⟩ hne
    exact absurd rfl hne
  · rintro _ ⟨rfl⟩
    exact h.installing v (by rw [hresolved]; rfl)

/-- The values without the password. -/
def Variables.withoutPassword (v : Variables) : Variables := { v with hostPassword := [] }

/-- What `cat` writes is the file of an installation without a password. -/
theorem configYaml_withoutPassword (v : Variables) :
    (Variables.withoutPassword v).configYaml = unlines v.configLines :=
  List.append_nil _

/-- Without the password the other values remain. -/
theorem Machine.Installable.withoutPassword (h : m.Installable v) :
    m.Installable (Variables.withoutPassword v) := by
  refine ⟨h.port, ?_⟩
  have hvalues := h.values
  simp only [List.forall_mem_cons] at hvalues ⊢
  obtain ⟨hhost, himage, hfingerprint, _, hnil⟩ := hvalues
  exact ⟨hhost, himage, hfingerprint, Machine.savable_of_quoteless List.not_mem_nil rfl, hnil⟩

/-- The file that the installer has written holds the tokens that it has decided on. -/
theorem Machine.Holds.written_file {v v' : Variables} {installing : Installation}
    (hinstallable : m.Installable v')
    (haccepted : m.Accepted valid s.server.shared v'.writeWorkerToken v'.writeEnrollmentToken)
    (hnone : s.process.Enrolling → v'.writeWorkerToken = [])
    (hsame : v'.writeWorkerToken = v.writeWorkerToken)
    (hinstalling : ∀ w, installing.variables? = some w → w = v) :
    ∃ config, m.Describes v'.configYaml config ∧
      m.Accepted valid s.server.shared config.workerToken config.enrollmentToken ∧
      (s.process.Enrolling → config.workerToken = []) ∧
      ∀ w, installing.variables? = some w → w.writeWorkerToken ≠ [] → config.workerToken ≠ [] := by
  obtain ⟨hworker, henrollment, htoken⟩ := haccepted.printable
  obtain ⟨config, hdescribes, hconfig, hconfig', _⟩ :=
    Machine.describes_configYaml hinstallable hworker henrollment htoken
  refine ⟨config, hdescribes, ?_, ?_, ?_⟩
  · rw [hconfig, hconfig']
    exact haccepted
  · rw [hconfig]
    exact hnone
  · intro w hw hne
    rw [hconfig, hsame, ← hinstalling w hw]
    exact hne

/-- The installer fills the file. -/
theorem Machine.Holds.fill (h : m.Holds valid s) {linked : Bool}
    (hemptied : s.installing = .emptied v linked) :
    m.Holds valid { s with
      file := if linked then some (unlines v.configLines) else s.file
      installing := .filled v } := by
  have hwritten := h.written
  rw [hemptied] at hwritten
  obtain ⟨_, rfl⟩ := hwritten
  obtain ⟨hinstallable, haccepted, hnone⟩ := h.installing v (by rw [hemptied]; rfl)
  refine ⟨h.calls, h.process, ?_, ?_, rfl⟩
  · rintro _ ⟨rfl⟩ _
    rw [← configYaml_withoutPassword]
    exact Machine.Holds.written_file (v := v) hinstallable.withoutPassword haccepted hnone rfl
      fun w hw => (Option.some.inj hw).symm
  · rintro _ ⟨rfl⟩
    exact ⟨hinstallable, haccepted, hnone⟩

/-- The installer appends the password. -/
theorem Machine.Holds.append (h : m.Holds valid s) (hfilled : s.installing = .filled v) :
    m.Holds valid { s with
      file := s.file.map (· ++ unlines v.passwordLines)
      installing := .idle } := by
  have hwritten := h.written
  rw [hfilled] at hwritten
  have hfile : s.file = some (unlines v.configLines) := hwritten
  obtain ⟨hinstallable, haccepted, hnone⟩ := h.installing v (by rw [hfilled]; rfl)
  refine ⟨h.calls, h.process, ?_, fun w hw => (by cases hw), trivial⟩
  rw [hfile]
  rintro _ ⟨rfl⟩ _
  exact Machine.Holds.written_file hinstallable haccepted hnone rfl fun w hw => (by cases hw)

/-- The installer ends. -/
theorem Machine.Holds.abort (h : m.Holds valid s) :
    m.Holds valid { s with installing := .idle } := by
  refine ⟨h.calls, h.process, ?_, fun w hw => (by cases hw), trivial⟩
  intro text htext hne
  obtain ⟨config, hdescribes, haccepted, hnone, _⟩ := h.file text htext hne
  exact ⟨config, hdescribes, haccepted, hnone, fun w hw => (by cases hw)⟩

/-- An empty file is not loaded. -/
theorem Machine.load_nil (m : Machine) : m.load [] = .error .invalidFormat := by
  rw [Machine.load, WorkerConfig.load, m.followsYaml.empty]

/-- The process presents the token of the file. -/
theorem Machine.Holds.start (h : m.Holds valid s) {text : List Char} (info : SystemInfo)
    (hfile : s.file = some text) (hload : m.load text = .ok config)
    (hidle : s.server.locals call = .client .idle) :
    m.Holds valid { s with
      process := .registering config call
      requests := Function.update s.requests call (.sent (m.request info config)) } := by
  have hne : text ≠ [] := by
    rintro rfl
    rw [m.load_nil] at hload
    cases hload
  obtain ⟨stored, hdescribes, haccepted, _, hwrite⟩ := h.file text hfile hne
  obtain rfl : config = stored := by
    rw [hdescribes.load] at hload
    exact (Except.ok.inj hload).symm
  refine ⟨fun i => ?_, ?_, ?_, ?_, h.written⟩
  · by_cases hi : i = call
    · subst hi
      simp only [Function.update_self]
      exact ⟨rfl, hidle⟩
    · simp only [Function.update_of_ne hi]
      exact h.calls i
  · refine ⟨hdescribes.keeps, haccepted, ?_⟩
    simp only [Function.update_self]
    rfl
  · intro text' htext' _
    obtain rfl : text = text' := Option.some.inj (hfile.symm.trans htext')
    exact ⟨config, hdescribes, haccepted, id, hwrite⟩
  · intro v hv
    obtain ⟨hinstallable, hstored, _⟩ := h.installing v hv
    refine ⟨hinstallable, hstored, fun hempty => ?_⟩
    by_contra hworker
    exact hwrite v hv hworker hempty

/-- A request arrives. -/
theorem Machine.Holds.arrive (h : m.Holds valid s) {server : State}
    (hsent : s.requests call = .sent request)
    (hstep : m.registrar.program.step s.server (call, .receive (some request)) = some server) :
    m.Holds valid { s with
      server := server
      requests := Function.update s.requests call .arrived } := by
  have hcall := h.calls call
  rw [hsent] at hcall
  obtain ⟨hmachine, hidle⟩ := hcall
  obtain ⟨sh, call', hact, rfl⟩ := Program.step_eq_some.mp hstep
  have hsteps := Registrar.steps_of_act hact
  rw [hidle] at hsteps
  cases hsteps with
  | receive =>
    refine h.quiet rfl rfl rfl (fun _ => id) (fun i => ?_) fun config call' hprocess => ?_
    · by_cases hi : i = call
      · subst hi
        simp only [Function.update_self]
        exact hmachine
      · simp only [Function.update_of_ne hi]
        exact h.calls i
    · have hknown := h.process
      rw [hprocess] at hknown
      obtain ⟨_, _, hawaits⟩ := hknown
      by_cases hcall : call' = call
      · subst hcall
        rw [hsent] at hawaits
        simp only [Function.update_self]
        refine ⟨hawaits, ?_⟩
        unfold RegisterRequest.validate
        split_ifs <;> trivial
      · simp only [Function.update_of_ne hcall]
        exact hawaits

/-- A request is lost. -/
theorem Machine.Holds.lose (h : m.Holds valid s) (hsent : s.requests call = .sent request) :
    m.Holds valid { s with requests := Function.update s.requests call .lost } := by
  have hcall := h.calls call
  rw [hsent] at hcall
  refine h.quiet rfl rfl rfl (fun _ => id) (fun i => ?_) fun config call' hprocess => ?_
  · by_cases hi : i = call
    · subst hi
      simp only [Function.update_self]
      exact hcall.2
    · simp only [Function.update_of_ne hi]
      exact h.calls i
  · have hknown := h.process
    rw [hprocess] at hknown
    by_cases hcall : call' = call
    · subst hcall
      simp only [Function.update_self]
      trivial
    · simp only [Function.update_of_ne hcall]
      exact hknown.2.2

/-- The process goes on, and does not wait any more. -/
theorem Machine.Holds.process_step (h : m.Holds valid s) {process : Process}
    (hprocess : m.ProcessKnown valid s process) (hwaits : ¬process.Enrolling) :
    m.Holds valid { s with process := process } := by
  refine ⟨h.calls, hprocess, ?_, ?_, h.written⟩
  · intro text htext hne
    obtain ⟨config, hdescribes, haccepted, _, hwrite⟩ := h.file text htext hne
    exact ⟨config, hdescribes, haccepted, fun henrolling => absurd henrolling hwaits, hwrite⟩
  · intro v hv
    obtain ⟨hinstallable, haccepted, _⟩ := h.installing v hv
    exact ⟨hinstallable, haccepted, fun henrolling => absurd henrolling hwaits⟩

/-- The process receives the answer to its request. -/
theorem Machine.Holds.accepted (h : m.Holds valid s) {workerID : String} {poolSize : ℤ}
    {baseImage : String} (hprocess : s.process = .registering config call)
    (harrived : s.requests call = .arrived) (hreturned : s.server.locals call =
      .register request (.returned (.registered workerID poolSize baseImage issued))) :
    m.Holds valid { s with process := .registered config issued } := by
  have hknown := h.process
  rw [hprocess] at hknown
  obtain ⟨hkeeps, haccepted, hawaits⟩ := hknown
  rw [harrived, hreturned] at hawaits
  refine h.process_step ?_ id
  cases issued with
  | none => exact haccepted
  | some token => exact ⟨hkeeps, hawaits.2⟩

/-- What the process saves is its old configuration with the token that was issued to
it. -/
theorem Machine.Holds.persisted (h : m.Holds valid s)
    (hprocess : s.process = .registered config issued)
    (hsome : persistIssuedWorkerTokenIfNeeded config issued = some config') :
    ∃ token, issued = some token ∧ m.Keeps config ∧ IsGenerated token ∧
      valid s.server.shared token ∧
      config' = { config with workerToken := token.toList, enrollmentToken := [] } := by
  have hknown := h.process
  rw [hprocess] at hknown
  cases issued with
  | none => cases hsome
  | some token =>
    obtain ⟨hkeeps, htoken, hheld⟩ := hknown
    refine ⟨token, rfl, hkeeps, htoken, hheld, ?_⟩
    simp only [persistIssuedWorkerTokenIfNeeded, if_neg htoken.ne_empty] at hsome
    split_ifs at hsome
    exact (Option.some.inj hsome).symm

/-- The process saves the token that was issued to it. -/
theorem Machine.Holds.saved (h : m.Holds valid s) (hidle : s.installing.isWriting = false)
    (hprocess : s.process = .registered config issued)
    (hsome : persistIssuedWorkerTokenIfNeeded config issued = some config') :
    m.Holds valid { s with
      process := .running config' (authTokenAfter config issued)
      file := some (config'.save m.marks)
      installing := s.installing.unlink } := by
  obtain ⟨token, rfl, hkeeps, htoken, hheld, rfl⟩ := h.persisted hprocess hsome
  have hunlink : s.installing.unlink = s.installing := by
    cases hi : s.installing with
    | idle | resolved | filled => rfl
    | emptied =>
      rw [hi] at hidle
      cases hidle
  have hmatches : ∀ file, s.installing.Matches file := by
    intro file
    cases hi : s.installing with
    | idle | resolved => trivial
    | emptied | filled =>
      rw [hi] at hidle
      cases hidle
  rw [hunlink]
  -- a process that runs waits for no answer, whatever it runs with
  have hrunning : m.Holds valid { s with process := .running config "" } :=
    h.process_step trivial id
  refine ⟨hrunning.calls, trivial, ?_, hrunning.installing, hmatches _⟩
  rintro _ ⟨rfl⟩ _
  exact ⟨_, Machine.describes_save hkeeps htoken rfl rfl,
    .inr ⟨rfl, token, htoken, rfl, hheld⟩, False.elim, fun _ _ _ => htoken.toList_ne⟩

/-- The steps of the machine and of the network keep the invariant. So do those of the
server's clients, as far as this is known. -/
theorem Moves.holds (hmoves : Moves m s e t) (h : m.Holds valid s)
    (hok : m.Orderly uuids tokens s e) (hserver : ∀ call action server, e = .server call action →
      (s.requests call = .unused ∨ s.requests call = .arrived) →
      m.registrar.program.step s.server (call, action) = some server →
      m.Holds valid { s with server := server }) : m.Holds valid t := by
  cases hmoves with
  | server hdelivery hstep => exact hserver _ _ _ rfl hdelivery hstep
  | validate v reachable => exact h.validate hok reachable
  | empty hresolved => exact h.empty hresolved
  | fill hemptied => exact h.fill hemptied
  | append hfilled => exact h.append hfilled
  | abort => exact h.abort
  | @start info _ _ _ _ hfile hload _ hidle => exact h.start info hfile hload hidle
  | arrive hsent hstep => exact h.arrive hsent hstep
  | lose hsent => exact h.lose hsent
  | accepted hprocess harrived hreturned => exact h.accepted hprocess harrived hreturned
  | saved hprocess hsome => exact h.saved (hok rfl) hprocess hsome
  | refused | kept | unsaved | stop => exact h.process_step trivial id

/-- The server's part of a step is a step of the server, or none. -/
theorem Moves.server_reachable (hmoves : Moves m s e t) (h : m.Holds valid s)
    (huuid : m.hardwareUUID ∈ uuids)
    (hreach : m.registrar.system.ReachableUnder (InUse uuids tokens) s.server)
    (hok : m.Orderly uuids tokens s e) :
    m.registrar.system.ReachableUnder (InUse uuids tokens) t.server := by
  cases hmoves with
  | server _ hstep => exact hreach.take _ hok.1 hstep
  | @arrive call request _ hsent hstep =>
    have hcall := h.calls call
    rw [hsent] at hcall
    refine hreach.take (call, .receive (some request)) ?_ hstep
    change request.hardwareUUID ∈ uuids
    rw [hcall.1]
    exact huuid
  | validate | empty | fill | append | abort | start | lose | accepted | refused | kept | saved
  | unsaved | stop => exact hreach

end Preservation

section Runs

variable {m : Machine} {uuids tokens : Set String} {s : Site}

/-- Nothing is known about a machine on which nothing was installed. -/
theorem Machine.holds_initial (valid : Shared → String → Prop) :
    m.Holds valid Machine.initial :=
  ⟨fun _ => trivial, trivial, fun _ htext => (by cases htext), fun _ hv => (by cases hv), trivial⟩

/-- In every orderly run the tokens were issued to the machine. -/
theorem Machine.holds_issued (htokens : ∀ token ∈ tokens, IsGenerated token)
    (huuid : m.hardwareUUID ∈ uuids) (h : m.system.ReachableUnder (m.Orderly uuids tokens) s) :
    m.Holds m.Issued s ∧ m.registrar.system.ReachableUnder (InUse uuids tokens) s.server := by
  refine System.ReachableUnder.invariant (P := fun s => m.Holds m.Issued s ∧
    m.registrar.system.ReachableUnder (InUse uuids tokens) s.server) ?_ ?_ h
  · rintro s rfl
    exact ⟨Machine.holds_initial _, .init rfl⟩
  · rintro s e t _ hok hnext ⟨hs, hreach⟩
    have hmoves := Machine.moves_of_step hnext
    refine ⟨hmoves.holds hs hok ?_, hmoves.server_reachable hs huuid hreach hok⟩
    rintro call action server rfl hdelivery hstep
    exact hs.server htokens (fun _ _ _ => List.mem_cons_self) hok hdelivery hstep
      fun _ => Machine.Issued.step hstep

/-- In every timely run they are the ones issued last. -/
theorem Machine.holds_latest (htokens : ∀ token ∈ tokens, IsGenerated token)
    (hids : Set.InjOn m.registrar.server.generateWorkerID uuids) (huuid : m.hardwareUUID ∈ uuids)
    (h : m.system.ReachableUnder (fun s e => m.Orderly uuids tokens s e ∧ m.Timely s e) s) :
    m.Holds m.Latest s ∧ m.registrar.system.ReachableUnder (InUse uuids tokens) s.server := by
  refine System.ReachableUnder.invariant (P := fun s => m.Holds m.Latest s ∧
    m.registrar.system.ReachableUnder (InUse uuids tokens) s.server) ?_ ?_ h
  · rintro s rfl
    exact ⟨Machine.holds_initial _, .init rfl⟩
  · rintro s e t _ ⟨hok, htimely⟩ hnext ⟨hs, hreach⟩
    have hmoves := Machine.moves_of_step hnext
    refine ⟨hmoves.holds hs hok ?_, hmoves.server_reachable hs huuid hreach hok⟩
    rintro call action server rfl hdelivery hstep
    exact hs.server_latest htokens hids huuid hreach hok htimely hdelivery hstep

end Runs

end MiniControl.Enrollment
