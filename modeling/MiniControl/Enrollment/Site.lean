import MiniControl.Enrollment.Tokens
import MiniControl.Installer.ConfigFile
import MiniControl.Text.Hex

/-!
# A machine and its configuration file

A machine keeps its token in the configuration file. The installer writes the file
with the enrollment token, or with the worker token of an older file that the server
still accepts. The worker registers with the token of the file when it starts, and
saves the token that it is issued. Requests and answers are lost, the worker ends at
any time, and saving can fail.

The installer empties the file, fills it and appends the password to it, and can stop in
between. The worker replaces the file as a whole.
-/

namespace MiniControl.Enrollment

open Transition Fleet Installer Text

/-- `GenerateWorkerToken`, with the random bytes. -/
def generateWorkerToken (tokenBytes : List UInt8) : String :=
  String.ofList (tokenMark ++ encodeHex tokenBytes)

/-- `WorkerConfig.preferredAuthToken`. -/
def preferredAuthToken (config : WorkerConfig) : String :=
  if config.workerToken ≠ [] then String.ofList config.workerToken
  else String.ofList config.enrollmentToken

/-- The `authToken` of the client after `register` has decoded the answer. -/
def authTokenAfter (config : WorkerConfig) : Option String → String
  | some issued => if issued = "" then preferredAuthToken config else issued
  | none => preferredAuthToken config

/-- `persistIssuedWorkerTokenIfNeeded`: the configuration to be saved, if there is one. -/
def persistIssuedWorkerTokenIfNeeded (config : WorkerConfig) :
    Option String → Option WorkerConfig
  | none => none
  | some issued =>
    if issued = "" then none
    else if config.workerToken = issued.toList ∧ config.enrollmentToken = [] then none
    else some { config with workerToken := issued.toList, enrollmentToken := [] }

/-- The header with which requests carry a token. -/
def bearer (token : List Char) : String := String.ofList ("Bearer ".toList ++ token)

/-- What `run` gathers about the machine before it registers. -/
structure SystemInfo where
  hostname : String
  cpuCores : ℤ
  memoryBytes : ℤ
  currentVersion : String

/-- The worker process. -/
inductive Process
  | down
  /-- It has loaded the configuration and waits for the answer to a call. -/
  | registering (config : WorkerConfig) (call : ℕ)
  /-- It has the answer and has not saved the token in it. -/
  | registered (config : WorkerConfig) (issued : Option String)
  | running (config : WorkerConfig) (authToken : String)

/-- What has become of the request of a call. -/
inductive Delivery
  /-- The machine sent nothing with this call. -/
  | unused
  | sent (request : RegisterRequest)
  | arrived
  | lost

/-- Where the installer stands with the file. -/
inductive Installation
  | idle
  /-- It has validated the old token and knows what it is about to write. -/
  | resolved (v : Variables)
  /-- The shell has opened the file for `cat`, which has emptied it. What `cat` writes
  reaches the file as long as the worker has not replaced it. -/
  | emptied (v : Variables) (linked : Bool)
  /-- `cat` has written its lines. -/
  | filled (v : Variables)

namespace Installation

/-- What the installer is about to write. -/
def variables? : Installation → Option Variables
  | .idle => none
  | .resolved v | .emptied v _ | .filled v => some v

/-- The installer has begun to write and has not finished. -/
def isWriting : Installation → Bool
  | .idle | .resolved _ => false
  | .emptied _ _ | .filled _ => true

/-- The worker puts a file of its own in the place of the old one. -/
def unlink : Installation → Installation
  | .emptied v _ => .emptied v false
  | installation => installation

end Installation

/-- The server and the machine. -/
structure Site where
  server : State
  file : Option (List Char)
  installing : Installation
  process : Process
  requests : ℕ → Delivery

/-- The steps of the server and of the machine. -/
inductive Event
  /-- A step of a client of the server. -/
  | server (call : ℕ) (action : Action)
  /-- The installer reads the old token and asks the server for its validity. -/
  | validate (v : Variables) (reachable : Bool)
  /-- The installer opens the file for `cat`. -/
  | empty
  /-- `cat` writes the lines of the configuration. -/
  | fill
  /-- `echo` appends the line of the password, if there is one. -/
  | append
  /-- The installer ends before its time. -/
  | abort
  /-- `launchd` starts the worker, which loads the file and sends its request. -/
  | start (info : SystemInfo) (call : ℕ)
  | arrive (call : ℕ)
  | lose (call : ℕ)
  /-- The process receives its answer. -/
  | answer
  /-- `persistIssuedWorkerTokenIfNeeded`, which saves the file or fails to. -/
  | persist (saves : Bool)
  /-- The process ends: it gives up waiting, fails or is stopped. -/
  | stop

/-- A machine, with the programs that it shares with nobody. The enrollment token is not
taken for a worker token, and no hash is empty. -/
structure Machine where
  registrar : Registrar
  hardwareUUID : String
  marks : Marks
  yams : List Char → Except String Document
  hardwareUUID_ne : hardwareUUID ≠ ""
  followsYaml : FollowsYaml yams
  enrollment_ne : registrar.enrollmentToken ≠ ""
  enrollment_printable : IsPrintable registrar.enrollmentToken.toList
  enrollment_unmarked : ¬tokenMark <+: registrar.enrollmentToken.toList
  hash_ne : ∀ token, registrar.hashWorkerToken token ≠ ""

namespace Machine

variable (m : Machine)

/-- The id of the machine's row. -/
def workerID : String := m.registrar.server.generateWorkerID m.hardwareUUID

/-- What `load` makes of a file on this machine. -/
def load (text : List Char) : Except LoadError WorkerConfig :=
  WorkerConfig.load m.marks m.yams text

/-- The request that the worker sends. -/
def request (info : SystemInfo) (config : WorkerConfig) : RegisterRequest where
  hostname := info.hostname
  hardwareUUID := m.hardwareUUID
  cpuCores := info.cpuCores
  memoryBytes := info.memoryBytes
  tartVersion := ""
  workerVersion := info.currentVersion
  workerToken := preferredAuthToken config

/-- `worker_token_valid`: the server answers the poll of a worker with this token. -/
def workerTokenValid (workers : List Worker) (reachable : Bool) (token : List Char) : Bool :=
  token ≠ [] ∧ reachable ∧
    (m.registrar.requireWorkerAuth workers (bearer token)).isSome

/-- The tokens that the installer decides to write. -/
def resolveTokens (s : Site) (v : Variables) (reachable : Bool) : Variables :=
  let existing := readYamlSingleQuotedValue "worker_token" s.file
  if m.workerTokenValid s.server.shared.workers reachable existing then
    { v with writeWorkerToken := existing, writeEnrollmentToken := [] }
  else
    { v with
      writeWorkerToken := []
      writeEnrollmentToken := m.registrar.enrollmentToken.toList }

/-- A step of the server or of the machine. -/
def step (s : Site) : Event → Option Site
  | .server call action =>
    match s.requests call with
    | .unused | .arrived =>
      (m.registrar.program.step s.server (call, action)).map fun server =>
        { s with server := server }
    | .sent _ | .lost => none
  | .validate v reachable =>
    match s.installing with
    | .idle => some { s with installing := .resolved (m.resolveTokens s v reachable) }
    | _ => none
  | .empty =>
    match s.installing with
    | .resolved v => some { s with file := some [], installing := .emptied v true }
    | _ => none
  | .fill =>
    match s.installing with
    | .emptied v linked => some { s with
        file := if linked then some (unlines v.configLines) else s.file
        installing := .filled v }
    | _ => none
  | .append =>
    match s.installing with
    | .filled v => some { s with
        file := s.file.map (· ++ unlines v.passwordLines)
        installing := .idle }
    | _ => none
  | .abort => some { s with installing := .idle }
  | .start info call =>
    match s.process, s.file with
    | .down, some text =>
      match m.load text, s.requests call, s.server.locals call with
      | .ok config, .unused, .client .idle =>
        some { s with
          process := .registering config call
          requests := Function.update s.requests call (.sent (m.request info config)) }
      | _, _, _ => none
    | _, _ => none
  | .arrive call =>
    match s.requests call with
    | .sent request =>
      (m.registrar.program.step s.server (call, .receive (some request))).map fun server =>
        { s with server := server, requests := Function.update s.requests call .arrived }
    | _ => none
  | .lose call =>
    match s.requests call with
    | .sent _ => some { s with requests := Function.update s.requests call .lost }
    | _ => none
  | .answer =>
    match s.process with
    | .registering config call =>
      match s.requests call, s.server.locals call with
      | .arrived, .register _ (.returned (.registered _ _ _ issued)) =>
        some { s with process := .registered config issued }
      | .arrived, .register _ (.returned (.error _)) => some { s with process := .down }
      | _, _ => none
    | _ => none
  | .persist saves =>
    match s.process with
    | .registered config issued =>
      match persistIssuedWorkerTokenIfNeeded config issued with
      | none => some { s with process := .running config (authTokenAfter config issued) }
      | some config' =>
        let running := { s with process := .running config' (authTokenAfter config issued) }
        if saves then some { running with
          file := some (config'.save m.marks)
          installing := s.installing.unlink }
        else some running
    | _ => none
  | .stop => some { s with process := .down }

/-- A fresh server and a machine on which nothing was installed. -/
def initial : Site := ⟨State.initial, none, .idle, .down, fun _ => .unused⟩

/-- All runs of the server and of the machine. -/
def system : System Site Event := System.ofStep (· = initial) m.step

end Machine

/-- The tokens that the server generates, of 32 random bytes. -/
def IsGenerated (token : String) : Prop :=
  ∃ tokenBytes, tokenBytes.length = 32 ∧ token = generateWorkerToken tokenBytes

/-- The text is printable, and the worker quotes it as YAML wants it. -/
def Machine.Savable (m : Machine) (text : List Char) : Prop :=
  IsPrintable text ∧ m.marks.quotesAlone '\'' text = true

/-- The values of the installer's variables besides the tokens are savable, and the port
is a number. -/
structure Machine.Installable (m : Machine) (v : Variables) : Prop where
  port : ∃ port : Int64, v.serverPort = decimal port.toInt
  values : ∀ text ∈ [v.serverHost, v.localImageName, v.tlsFingerprint, v.hostPassword],
    m.Savable text

/-- The runs of the results. The hardware UUIDs and the tokens are those in use, no other
machine has this hardware UUID, and the worker does not save its file while the installer
is writing it. -/
def Machine.Orderly (m : Machine) (uuids tokens : Set String) (s : Site) : Event → Prop
  | .server call action => InUse uuids tokens s.server (call, action) ∧
      ∀ request, action = .receive (some request) → request.hardwareUUID ≠ m.hardwareUUID
  | .validate v _ => m.Installable v
  | .persist saves => saves = true → s.installing.isWriting = false
  | _ => True

/-- A token is issued to this machine only while its process waits for that answer. -/
def Machine.Timely (m : Machine) (s : Site) : Event → Prop
  | .server call (.issue _ _) => ∀ request phase, s.server.locals call = .register request phase →
      request.hardwareUUID = m.hardwareUUID → ∃ config, s.process = .registering config call
  | _ => True

section Tokens

variable {token : String}

/-- A generated token has the mark and hexadecimal digits. -/
theorem IsGenerated.mem_cases (h : IsGenerated token) {c : Char} (hc : c ∈ token.toList) :
    c ∈ tokenMark ∨ isHexDigit c = true := by
  obtain ⟨tokenBytes, _, rfl⟩ := h
  rw [generateWorkerToken, String.toList_ofList] at hc
  exact (List.mem_append.mp hc).imp id isHexDigit_of_mem_encodeHex

/-- What holds of the mark and of the digits holds of the characters of a generated
token. -/
theorem IsGenerated.forall_mem (h : IsGenerated token) {p : Char → Bool}
    (hp : (tokenMark ++ "0123456789abcdef".toList).all p = true) :
    ∀ c ∈ token.toList, p c = true := by
  intro c hc
  refine List.all_eq_true.mp hp c (List.mem_append.mpr ?_)
  exact (h.mem_cases hc).imp id List.contains_iff_mem.mp

/-- A generated token starts with the mark. -/
theorem IsGenerated.mark (h : IsGenerated token) : tokenMark <+: token.toList := by
  obtain ⟨tokenBytes, _, rfl⟩ := h
  rw [generateWorkerToken, String.toList_ofList]
  exact List.prefix_append _ _

/-- The worker takes it for the token of a registered worker. -/
theorem IsGenerated.isWorkerToken (h : IsGenerated token) (marks : Marks) :
    IsWorkerToken marks token.toList := by
  obtain ⟨tokenBytes, _, rfl⟩ := h
  rw [generateWorkerToken, String.toList_ofList]
  refine .inr (Marks.hasPrefix_append fun c hc => ?_)
  have hdigits : ("0123456789abcdef".toList.all fun c => c.toNat < 0x80) = true := by decide
  have hdigit := List.contains_iff_mem.mp (isHexDigit_of_mem_encodeHex hc)
  exact of_decide_eq_true (List.all_eq_true.mp hdigits c hdigit)

/-- A generated token is not empty. -/
theorem IsGenerated.toList_ne (h : IsGenerated token) : token.toList ≠ [] := by
  intro hempty
  have hmark := h.mark
  rw [hempty] at hmark
  exact absurd (List.prefix_nil.mp hmark) (List.cons_ne_nil _ _)

/-- A generated token is not the empty string. -/
theorem IsGenerated.ne_empty (h : IsGenerated token) : token ≠ "" := by
  rintro rfl
  exact h.toList_ne rfl

/-- The header of a request carries the token. -/
theorem IsGenerated.bearerToken (h : IsGenerated token) :
    Rest.bearerToken (bearer token.toList) = token := by
  have hspaces : ∀ c ∈ token.toList, isSpace c = false := by
    have hall := h.forall_mem (p := fun c => !isSpace c) (by decide)
    simpa using hall
  have hheader : (bearer token.toList).toList = "Bearer ".toList ++ token.toList :=
    String.toList_ofList
  have hdrop : ("Bearer ".toList ++ token.toList).drop 7 = token.toList := rfl
  rw [Rest.bearerToken, hheader, if_pos (List.prefix_append _ _), hdrop, String.ofList_toList,
    trimSpace_of_forall hspaces]

/-- A printable text without quotes is saved as it is. -/
theorem Machine.savable_of_quoteless {m : Machine} {text : List Char} (hquote : '\'' ∉ text)
    (hprintable : text.all isPrintable = true) : m.Savable text :=
  ⟨List.all_eq_true.mp hprintable, Marks.quotesAlone_of_not_mem hquote⟩

/-- A generated token is saved as it is. -/
theorem Machine.savable_of_isGenerated (m : Machine) (h : IsGenerated token) :
    m.Savable token.toList := by
  have hquotes := h.forall_mem (p := fun c => c != '\'') (by decide)
  have hquote : '\'' ∉ token.toList := by
    intro hmem
    exact absurd (hquotes _ hmem) (by decide)
  exact Machine.savable_of_quoteless hquote (List.all_eq_true.mpr (h.forall_mem (by decide)))

end Tokens

section File

/-- The values of a configuration besides the tokens can be saved. -/
def Machine.Keeps (m : Machine) (config : WorkerConfig) : Prop :=
  ∀ text ∈ [config.serverAddress, config.baseImage, config.sshUsername, config.sshPassword,
    config.logLevel, config.tlsCertFingerprint, config.hostKeychainPassword], m.Savable text

/-- The worker and the installer read this configuration from the file. -/
structure Machine.Describes (m : Machine) (text : List Char) (config : WorkerConfig) : Prop where
  load : m.load text = .ok config
  token : readYamlSingleQuotedValue "worker_token" (some text) = config.workerToken
  keeps : m.Keeps config

variable {m : Machine}

/-- The file of the worker describes the saved configuration. -/
theorem Machine.describes_save {config : WorkerConfig} (hkeeps : m.Keeps config) {token : String}
    (htoken : IsGenerated token) (hworker : config.workerToken = token.toList)
    (henrollment : config.enrollmentToken = []) :
    m.Describes (config.save m.marks) config := by
  have htexts : ∀ text ∈ config.texts, m.Savable text := by
    have hsaved := m.savable_of_isGenerated htoken
    rw [← hworker] at hsaved
    have hempty : m.Savable config.enrollmentToken := by
      rw [henrollment]
      exact Machine.savable_of_quoteless List.not_mem_nil rfl
    simp only [Machine.Keeps, WorkerConfig.texts, List.forall_mem_cons] at hkeeps ⊢
    tauto
  have hmapping := WorkerConfig.isMapping_fields fun text htext => (htexts text htext).1
  have hlines := WorkerConfig.lines_save_of_alone (fun text htext => (htexts text htext).1)
    fun text htext => (htexts text htext).2
  refine ⟨?_, ?_, hkeeps⟩
  · rw [Machine.load, WorkerConfig.load_of_lines m.followsYaml hmapping hlines,
      WorkerConfig.ofDictionary_fields (hworker ▸ htoken.isWorkerToken m.marks)]
  · exact readYamlSingleQuotedValue_of_lines hmapping.keys rfl rfl hlines

/-- The file of the installer describes its variables. -/
theorem Machine.describes_configYaml {v : Variables} (hv : m.Installable v)
    (hworker : IsPrintable v.writeWorkerToken) (henrollment : IsPrintable v.writeEnrollmentToken)
    (htoken : IsWorkerToken m.marks v.writeWorkerToken) :
    ∃ config, m.Describes v.configYaml config ∧ config.workerToken = v.writeWorkerToken ∧
      config.enrollmentToken = v.writeEnrollmentToken ∧
      config.tlsCertFingerprint = v.tlsFingerprint := by
  obtain ⟨⟨port, hport⟩, hvalues⟩ := hv
  have hprintable : ∀ text ∈ v.texts, IsPrintable text := by
    have hplain : ∀ text ∈ [v.serverHost, v.localImageName, v.tlsFingerprint, v.hostPassword],
        IsPrintable text := fun text htext => (hvalues text htext).1
    simp only [Variables.texts, List.forall_mem_cons] at hplain ⊢
    tauto
  have hmapping := Variables.isMapping_fields port hprintable
  have hlines : lines v.configYaml = (v.fields port).map writeField := by
    rw [Variables.configYaml_eq hprintable hport, hmapping.lines_unlines]
  refine ⟨v.config port, ⟨?_, ?_, ?_⟩, rfl, rfl, rfl⟩
  · exact Variables.load_configYaml m.followsYaml hport hprintable htoken
  · exact readYamlSingleQuotedValue_of_lines hmapping.keys rfl rfl hlines
  · have hadmin : m.Savable "admin".toList := Machine.savable_of_quoteless (by decide) (by decide)
    have hinfo : m.Savable "info".toList := Machine.savable_of_quoteless (by decide) (by decide)
    simp only [Machine.Keeps, List.forall_mem_cons] at hvalues ⊢
    obtain ⟨hhost, himage, hfingerprint, hpassword, hnil⟩ := hvalues
    exact ⟨hhost, himage, hadmin, hadmin, hinfo, hfingerprint, hpassword, hnil⟩

end File

/-- What a step does. -/
inductive Moves (m : Machine) (s : Site) : Event → Site → Prop
  | server {call : ℕ} {action : Action} {server : State} :
      s.requests call = .unused ∨ s.requests call = .arrived →
      m.registrar.program.step s.server (call, action) = some server →
      Moves m s (.server call action) { s with server := server }
  | validate (v : Variables) (reachable : Bool) : s.installing = .idle →
      Moves m s (.validate v reachable)
        { s with installing := .resolved (m.resolveTokens s v reachable) }
  | empty {v : Variables} : s.installing = .resolved v →
      Moves m s .empty { s with file := some [], installing := .emptied v true }
  | fill {v : Variables} {linked : Bool} : s.installing = .emptied v linked →
      Moves m s .fill { s with
        file := if linked then some (unlines v.configLines) else s.file
        installing := .filled v }
  | append {v : Variables} : s.installing = .filled v →
      Moves m s .append { s with
        file := s.file.map (· ++ unlines v.passwordLines)
        installing := .idle }
  | abort : Moves m s .abort { s with installing := .idle }
  | start {info : SystemInfo} {call : ℕ} {text : List Char} {config : WorkerConfig} :
      s.process = .down → s.file = some text → m.load text = .ok config →
      s.requests call = .unused → s.server.locals call = .client .idle →
      Moves m s (.start info call) { s with
        process := .registering config call
        requests := Function.update s.requests call (.sent (m.request info config)) }
  | arrive {call : ℕ} {request : RegisterRequest} {server : State} :
      s.requests call = .sent request →
      m.registrar.program.step s.server (call, .receive (some request)) = some server →
      Moves m s (.arrive call) { s with
        server := server
        requests := Function.update s.requests call .arrived }
  | lose {call : ℕ} {request : RegisterRequest} : s.requests call = .sent request →
      Moves m s (.lose call) { s with requests := Function.update s.requests call .lost }
  | accepted {config : WorkerConfig} {call : ℕ} {request : RegisterRequest} {workerID : String}
      {poolSize : ℤ} {baseImage : String} {issued : Option String} :
      s.process = .registering config call → s.requests call = .arrived →
      s.server.locals call =
        .register request (.returned (.registered workerID poolSize baseImage issued)) →
      Moves m s .answer { s with process := .registered config issued }
  | refused : Moves m s .answer { s with process := .down }
  | kept {config : WorkerConfig} {issued : Option String} {saves : Bool} :
      s.process = .registered config issued →
      persistIssuedWorkerTokenIfNeeded config issued = none →
      Moves m s (.persist saves)
        { s with process := .running config (authTokenAfter config issued) }
  | saved {config config' : WorkerConfig} {issued : Option String} :
      s.process = .registered config issued →
      persistIssuedWorkerTokenIfNeeded config issued = some config' →
      Moves m s (.persist true) { s with
        process := .running config' (authTokenAfter config issued)
        file := some (config'.save m.marks)
        installing := s.installing.unlink }
  | unsaved {config config' : WorkerConfig} {issued : Option String} :
      s.process = .registered config issued →
      persistIssuedWorkerTokenIfNeeded config issued = some config' →
      Moves m s (.persist false)
        { s with process := .running config' (authTokenAfter config issued) }
  | stop : Moves m s .stop { s with process := .down }

/-- Every step is one of these. -/
theorem Machine.moves_of_step {m : Machine} {s t : Site} {e : Event} (h : m.step s e = some t) :
    Moves m s e t := by
  cases e with
  | server call action =>
    simp only [step] at h
    split at h
    next hunused =>
      obtain ⟨server, hserver, rfl⟩ := Option.map_eq_some_iff.mp h
      exact .server (.inl hunused) hserver
    next harrived =>
      obtain ⟨server, hserver, rfl⟩ := Option.map_eq_some_iff.mp h
      exact .server (.inr harrived) hserver
    · cases h
    · cases h
  | validate v reachable =>
    simp only [step] at h
    split at h
    next hidle =>
      cases h
      exact .validate v reachable hidle
    · cases h
  | empty =>
    simp only [step] at h
    split at h
    next v hresolved =>
      cases h
      exact .empty hresolved
    · cases h
  | fill =>
    simp only [step] at h
    split at h
    next v linked hemptied =>
      cases h
      exact .fill hemptied
    · cases h
  | append =>
    simp only [step] at h
    split at h
    next v hfilled =>
      cases h
      exact .append hfilled
    · cases h
  | abort =>
    cases h
    exact .abort
  | start info call =>
    simp only [step] at h
    split at h
    next text hprocess hfile =>
      split at h
      next config hload hunused hidle =>
        cases h
        exact .start hprocess hfile hload hunused hidle
      · cases h
    · cases h
  | arrive call =>
    simp only [step] at h
    split at h
    next request hsent =>
      obtain ⟨server, hserver, rfl⟩ := Option.map_eq_some_iff.mp h
      exact .arrive hsent hserver
    · cases h
  | lose call =>
    simp only [step] at h
    split at h
    next request hsent =>
      cases h
      exact .lose hsent
    · cases h
  | answer =>
    simp only [step] at h
    split at h
    next config call hprocess =>
      split at h
      next harrived hreturned =>
        cases h
        exact .accepted hprocess harrived hreturned
      · cases h
        exact .refused
      · cases h
    · cases h
  | persist saves =>
    simp only [step] at h
    split at h
    next config issued hprocess =>
      split at h
      next hnone =>
        cases h
        exact .kept hprocess hnone
      next config' hsome =>
        cases saves with
        | true =>
          cases h
          exact .saved hprocess hsome
        | false =>
          cases h
          exact .unsaved hprocess hsome
    · cases h
  | stop =>
    cases h
    exact .stop

end MiniControl.Enrollment
