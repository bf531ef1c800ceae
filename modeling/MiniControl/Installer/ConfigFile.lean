import MiniControl.Text.Characters
import Mathlib.Data.List.DropRight

/-!
# The configuration file of the worker

The worker saves its configuration as a flat YAML mapping and loads it with a YAML
parser. The installer writes such a file, too, and reads two values of an older one
with `sed`. All strings are single-quoted, by doubling the quotes in them.

The worker doubles them with a search for characters, `sed` with one for scalars. They
differ on a quote that a combining mark follows: the worker does not double it, and the
file that it saves does not load.

The YAML parser is a parameter that agrees with the parser of flat mappings wherever
that one accepts; so is the table of the marks.
-/

namespace MiniControl.Installer

open Text

/-- `WorkerConfig`, with the defaults of its initialiser. -/
structure WorkerConfig where
  serverAddress : List Char := "localhost:9090".toList
  workerToken : List Char := []
  enrollmentToken : List Char := []
  baseImage : List Char := "minictl-tahoe-base".toList
  poolSize : Int64 := 2
  sshUsername : List Char := "admin".toList
  sshPassword : List Char := "admin".toList
  httpPort : Int64 := 8080
  logLevel : List Char := "info".toList
  useHTTPS : Bool := true
  tlsCertFingerprint : List Char := []
  hostKeychainPassword : List Char := []
  deriving DecidableEq

/-- What a YAML parser makes of a document, as far as it matters here. -/
inductive Document
  | mapping (dict : List (List Char × Scalar))
  | other

/-- The errors of `load`. -/
inductive LoadError
  | yaml (message : String)
  | invalidFormat
  deriving DecidableEq

/-- `dict[key] as? String`. -/
def stringAt (dict : List (List Char × Scalar)) (key : String) : Option (List Char) :=
  match dict.lookup key.toList with
  | some (.string text) => some text
  | _ => none

/-- `dict[key] as? Int`. -/
def intAt (dict : List (List Char × Scalar)) (key : String) : Option Int64 :=
  match dict.lookup key.toList with
  | some (.int n) => some (Int64.ofInt n)
  | _ => none

/-- `dict[key] as? Bool`. -/
def boolAt (dict : List (List Char × Scalar)) (key : String) : Option Bool :=
  match dict.lookup key.toList with
  | some (.bool b) => some b
  | _ => none

/-- What the tokens of registered workers start with. -/
def tokenMark : List Char := "wkt_".toList

/-- The configuration that `load` makes of a dictionary. -/
def WorkerConfig.ofDictionary (marks : Marks) (dict : List (List Char × Scalar)) :
    WorkerConfig :=
  let rawWorkerToken := (stringAt dict "worker_token").getD []
  { serverAddress := (stringAt dict "server_address").getD "localhost:9090".toList
    workerToken := if marks.hasPrefix tokenMark rawWorkerToken then rawWorkerToken else []
    enrollmentToken :=
      (stringAt dict "enrollment_token").getD
        (if marks.hasPrefix tokenMark rawWorkerToken then [] else rawWorkerToken)
    baseImage := (stringAt dict "base_image").getD "minictl-tahoe-base".toList
    poolSize := (intAt dict "pool_size").getD 2
    sshUsername := (stringAt dict "ssh_username").getD "admin".toList
    sshPassword := (stringAt dict "ssh_password").getD "admin".toList
    httpPort := (intAt dict "http_port").getD 8080
    logLevel := (stringAt dict "log_level").getD "info".toList
    useHTTPS := (boolAt dict "use_https").getD true
    tlsCertFingerprint := (stringAt dict "tls_cert_fingerprint").getD []
    hostKeychainPassword := (stringAt dict "host_keychain_password").getD [] }

/-- `load`, on the content of the file and with the parser of Yams. -/
def WorkerConfig.load (marks : Marks) (yams : List Char → Except String Document)
    (data : List Char) : Except LoadError WorkerConfig :=
  match yams data with
  | .error message => .error (.yaml message)
  | .ok (.mapping dict) => .ok (.ofDictionary marks dict)
  | .ok .other => .error .invalidFormat

/-- `key: text`. -/
def keyLine (key : String) (text : List Char) : List Char := key.toList ++ ':' :: ' ' :: text

/-- `WorkerConfig.yamlQuote`. Without the option `.literal`, `replacingOccurrences` looks for
the quote as a character. -/
def WorkerConfig.yamlQuote (marks : Marks) (value : List Char) : List Char :=
  '\'' :: (marks.doubleAlone '\'' value ++ ['\''])

/-- The content of the file that `save` writes. -/
def WorkerConfig.save (marks : Marks) (config : WorkerConfig) : List Char :=
  ['\n'].intercalate
    [keyLine "server_address" (yamlQuote marks config.serverAddress),
     keyLine "worker_token" (yamlQuote marks config.workerToken),
     keyLine "enrollment_token" (yamlQuote marks config.enrollmentToken),
     keyLine "base_image" (yamlQuote marks config.baseImage),
     keyLine "pool_size" (decimal config.poolSize.toInt),
     keyLine "ssh_username" (yamlQuote marks config.sshUsername),
     keyLine "ssh_password" (yamlQuote marks config.sshPassword),
     keyLine "http_port" (decimal config.httpPort.toInt),
     keyLine "log_level" (yamlQuote marks config.logLevel),
     keyLine "use_https" (if config.useHTTPS then "true".toList else "false".toList),
     keyLine "tls_cert_fingerprint" (yamlQuote marks config.tlsCertFingerprint),
     keyLine "host_keychain_password" (yamlQuote marks config.hostKeychainPassword)]

/-- The token of the command line, which overrides that of the file. -/
def WorkerConfig.overrideToken (marks : Marks) (config : WorkerConfig) :
    Option (List Char) → WorkerConfig
  | none => config
  | some token =>
    if marks.hasPrefix tokenMark token then
      { config with workerToken := token, enrollmentToken := [] }
    else { config with enrollmentToken := token, workerToken := [] }

section Shell

/-- `$(…)`: what a command prints, without the line feeds at its end. -/
def substituted (text : List Char) : List Char := text.rdropWhile (· == '\n')

/-- `yaml_quote`. -/
def yamlQuote (value : List Char) : List Char :=
  '\'' :: (substituted (double '\'' value) ++ ['\''])

/-- `s/^key: *'\(.*\)'/\1/p` on a line. The group reaches as far as the last quote, and
what stands after it stays. -/
def sedGroup (key line : List Char) : Option (List Char) :=
  if (key ++ [':']).isPrefixOf line then
    match (line.drop (key.length + 1)).dropWhile (· == ' ') with
    | '\'' :: rest =>
      if '\'' ∈ rest then
        some ((rest.rdropWhile (· != '\'')).dropLast ++ rest.rtakeWhile (· != '\''))
      else none
    | _ => none
  else none

/-- `read_yaml_single_quoted_value`; a file that is not readable gives nothing. -/
def readYamlSingleQuotedValue (key : String) (file : Option (List Char)) : List Char :=
  match file with
  | none => []
  | some text =>
    match (lines text).filterMap (sedGroup key.toList) with
    | [] => []
    | value :: _ => undouble '\'' value

/-- The variables that the installer writes to the file. -/
structure Variables where
  serverHost : List Char
  serverPort : List Char
  writeWorkerToken : List Char
  writeEnrollmentToken : List Char
  localImageName : List Char
  tlsFingerprint : List Char
  hostPassword : List Char

/-- The lines of `config.yaml`. -/
def Variables.configLines (v : Variables) : List (List Char) :=
  [keyLine "server_address" (yamlQuote v.serverHost),
   keyLine "worker_token" (yamlQuote v.writeWorkerToken),
   keyLine "enrollment_token" (yamlQuote v.writeEnrollmentToken),
   keyLine "base_image" (yamlQuote v.localImageName),
   keyLine "pool_size" "2".toList,
   keyLine "ssh_username" "'admin'".toList,
   keyLine "ssh_password" "'admin'".toList,
   keyLine "http_port" v.serverPort,
   keyLine "use_https" "true".toList,
   keyLine "tls_cert_fingerprint" (yamlQuote v.tlsFingerprint),
   keyLine "log_level" "'info'".toList]

/-- The line that is appended for a password. -/
def Variables.passwordLines (v : Variables) : List (List Char) :=
  if v.hostPassword = [] then []
  else [keyLine "host_keychain_password" (yamlQuote v.hostPassword)]

/-- The content of `config.yaml`. -/
def Variables.configYaml (v : Variables) : List Char :=
  unlines v.configLines ++ unlines v.passwordLines

end Shell

/-- The parser reads flat mappings as YAML has them. An empty document is no mapping, and
one in which text stands after the closing quote of a value, on the same line, is none
at all. -/
structure FollowsYaml (yams : List Char → Except String Document) : Prop where
  flat : ∀ text dict, parseMapping text = some dict → yams text = .ok (.mapping dict)
  empty : yams [] = .ok .other
  strict : ∀ {text key raw value after : List Char} {c : Char}
    {before : List (List Char × Scalar)} {rest : List (List Char)},
    (∀ field ∈ before, isKey field.1 = true ∧ field.2.IsFlat) → isKey key = true →
    lines text = before.map writeField ++ (key ++ ':' :: ' ' :: '\'' :: raw) :: rest →
    scanQuoted '\'' raw = some (value, c :: after) → isPrintable c = true → 0x80 ≤ c.toNat →
    ∃ message, yams text = .error message

/-- Printable text on one line. -/
def IsPrintable (text : List Char) : Prop := ∀ c ∈ text, isPrintable c = true

/-- The worker token is empty, or that of a registered worker. -/
def IsWorkerToken (marks : Marks) (token : List Char) : Prop :=
  token = [] ∨ marks.hasPrefix tokenMark token = true

namespace WorkerConfig

/-- The strings of a configuration. -/
def texts (config : WorkerConfig) : List (List Char) :=
  [config.serverAddress, config.workerToken, config.enrollmentToken, config.baseImage,
   config.sshUsername, config.sshPassword, config.logLevel, config.tlsCertFingerprint,
   config.hostKeychainPassword]

/-- The mapping of a configuration. -/
def fields (config : WorkerConfig) : List (List Char × Scalar) :=
  [("server_address".toList, .string config.serverAddress),
   ("worker_token".toList, .string config.workerToken),
   ("enrollment_token".toList, .string config.enrollmentToken),
   ("base_image".toList, .string config.baseImage),
   ("pool_size".toList, .int config.poolSize.toInt),
   ("ssh_username".toList, .string config.sshUsername),
   ("ssh_password".toList, .string config.sshPassword),
   ("http_port".toList, .int config.httpPort.toInt),
   ("log_level".toList, .string config.logLevel),
   ("use_https".toList, .bool config.useHTTPS),
   ("tls_cert_fingerprint".toList, .string config.tlsCertFingerprint),
   ("host_keychain_password".toList, .string config.hostKeychainPassword)]

end WorkerConfig

/-- Line feeds are not printable. -/
theorem IsPrintable.newline_not_mem {text : List Char} (h : IsPrintable text) : '\n' ∉ text :=
  fun hmem => absurd (h _ hmem) (by decide)

variable {value : List Char}

/-- `yaml_quote` writes a quoted scalar. -/
theorem yamlQuote_eq (h : IsPrintable value) :
    yamlQuote value = (Scalar.string value).write := by
  have hdouble : '\n' ∉ double '\'' value := fun hmem => h.newline_not_mem (mem_double.mp hmem)
  have hsubstituted : substituted (double '\'' value) = double '\'' value := by
    refine List.rdropWhile_eq_self_iff.mpr fun hne hlast => hdouble ?_
    rw [← eq_of_beq hlast]
    exact List.getLast_mem hne
  rw [yamlQuote, hsubstituted, Scalar.write]

section Sed

variable {key : List Char} {field : List Char × Scalar}

/-- The pattern matches the line of its own key only. -/
theorem isPrefixOf_writeField_iff (hkey : isKey key = true) (hfield : isKey field.1 = true) :
    (key ++ [':']).isPrefixOf (writeField field) = true ↔ field.1 = key := by
  -- a key is what stands before the first character that is none of a key
  have hread {name rest : List Char} (hname : isKey name = true) :
      (name ++ ':' :: rest).takeWhile isKeyChar = name := by
    rw [List.takeWhile_append_of_pos fun c => isKeyChar_of_isKey hname]
    exact List.append_nil _
  rw [List.isPrefixOf_iff_prefix]
  constructor
  · rintro ⟨rest, hrest⟩
    rw [List.append_assoc, List.singleton_append] at hrest
    rw [← hread hkey, hrest, writeField, hread hfield]
  · rintro rfl
    exact ⟨' ' :: field.2.write, by simp [writeField]⟩

/-- The line of another key does not match. -/
theorem sedGroup_of_ne (hkey : isKey key = true) (hfield : isKey field.1 = true)
    (hne : field.1 ≠ key) : sedGroup key (writeField field) = none :=
  if_neg (mt (isPrefixOf_writeField_iff hkey hfield).mp hne)

/-- The group of a quoted scalar is all between its outer quotes. -/
theorem sedGroup_string (hkey : isKey key = true) (text : List Char) :
    sedGroup key (writeField (key, .string text)) = some (double '\'' text) := by
  have hdrop : (writeField (key, .string text)).drop (key.length + 1) =
      ' ' :: '\'' :: (double '\'' text ++ ['\'']) := by
    simp [writeField, Scalar.write]
  have hquote : ¬('\'' != '\'') = true := by decide
  -- the last quote of the line is the closing one
  rw [sedGroup, if_pos ((isPrefixOf_writeField_iff hkey hkey).mpr rfl), hdrop]
  change (if _ then some (List.dropLast (List.rdropWhile _ _) ++ List.rtakeWhile _ _) else none) = _
  rw [if_pos (by simp), List.rdropWhile_concat_neg (· != '\'') _ _ hquote,
    List.rtakeWhile_concat_neg (· != '\'') _ _ hquote, List.dropLast_concat, List.append_nil]

/-- The installer reads the value of a key from the lines of a mapping. -/
theorem readYamlSingleQuotedValue_of_lines {key : String} {fields : List (List Char × Scalar)}
    (hfields : ∀ field ∈ fields, isKey field.1 = true) (hkey : isKey key.toList = true)
    {text file : List Char} (hlookup : fields.lookup key.toList = some (.string text))
    (hlines : lines file = fields.map writeField) :
    readYamlSingleQuotedValue key (some file) = text := by
  have hmatches : ∃ rest, (fields.map writeField).filterMap (sedGroup key.toList) =
      double '\'' text :: rest := by
    clear hlines
    induction fields with
    | nil => cases hlookup
    | cons field fields ih =>
      rw [List.forall_mem_cons] at hfields
      obtain ⟨name, scalar⟩ := field
      rw [List.lookup_cons] at hlookup
      by_cases hsame : name = key.toList
      · subst hsame
        rw [beq_self_eq_true] at hlookup
        cases hlookup
        exact ⟨_, by rw [List.map_cons, List.filterMap_cons, sedGroup_string hkey]⟩
      · rw [beq_false_of_ne (Ne.symm hsame)] at hlookup
        rw [List.map_cons, List.filterMap_cons, sedGroup_of_ne hkey hfields.1 hsame]
        exact ih hfields.2 hlookup
  obtain ⟨rest, hmatches⟩ := hmatches
  simp only [readYamlSingleQuotedValue, hlines, hmatches, undouble_double]

end Sed

namespace WorkerConfig

/-- The line that `save` writes for a field. -/
def saveField (marks : Marks) : List Char × Scalar → List Char
  | (key, .string text) => key ++ ':' :: ' ' :: yamlQuote marks text
  | field => writeField field

/-- No mark follows a quote in the value of the field. -/
def savesField (marks : Marks) : List Char × Scalar → Bool
  | (_, .string text) => marks.quotesAlone '\'' text
  | _ => true

variable {marks : Marks} {config : WorkerConfig}

/-- `save` writes the fields of the configuration. -/
theorem save_eq (marks : Marks) (config : WorkerConfig) :
    config.save marks = ['\n'].intercalate (config.fields.map (saveField marks)) := rfl

/-- A saved file is not empty. -/
theorem save_ne_nil (marks : Marks) (config : WorkerConfig) : config.save marks ≠ [] :=
  List.cons_ne_nil _ _

/-- The fields are saved as they are meant exactly when this holds of the strings. -/
theorem savesField_fields_iff : (∀ field ∈ config.fields, savesField marks field = true) ↔
    ∀ text ∈ config.texts, marks.quotesAlone '\'' text = true := by
  simp only [fields, texts, List.forall_mem_cons, savesField]
  tauto

/-- A field without such quotes is written as YAML has it. -/
theorem saveField_eq {field : List Char × Scalar} (h : savesField marks field = true) :
    saveField marks field = writeField field := by
  obtain ⟨key, scalar⟩ := field
  cases scalar with
  | string text => rw [saveField, yamlQuote, Marks.doubleAlone_eq h, writeField, Scalar.write]
  | int n => rfl
  | bool b => rfl

/-- The mapping of a configuration with printable strings. -/
theorem isMapping_fields {config : WorkerConfig} (h : ∀ text ∈ config.texts, IsPrintable text) :
    IsMapping config.fields := by
  simp only [texts, List.forall_mem_cons] at h
  obtain ⟨haddress, hworker, henrollment, himage, husername, hpassword, hlevel, hfingerprint,
    hkeychain, _⟩ := h
  have hint (n : Int64) : (Scalar.int n.toInt).IsFlat := ⟨n.le_toInt, n.toInt_lt⟩
  refine ⟨?_, ?_, ?_, List.cons_ne_nil _ _⟩
  · simp only [fields, List.forall_mem_cons]
    decide
  · simp only [fields, List.forall_mem_cons]
    exact ⟨haddress, hworker, henrollment, himage, hint _, husername, hpassword, hint _, hlevel,
      trivial, hfingerprint, hkeychain, nofun⟩
  · have hkeys : config.fields.map Prod.fst = (fields {}).map Prod.fst := rfl
    rw [hkeys]
    decide

end WorkerConfig

/-- Such a token is kept by `load`. -/
theorem IsWorkerToken.kept {marks : Marks} {token : List Char} (h : IsWorkerToken marks token) :
    (if marks.hasPrefix tokenMark token then token else []) = token := by
  rcases h with rfl | hmark
  · rfl
  · rw [if_pos hmark]

namespace WorkerConfig

variable {marks : Marks} {config : WorkerConfig} {yams : List Char → Except String Document}

/-- The mapping of a configuration is read as this configuration. -/
theorem ofDictionary_fields (h : IsWorkerToken marks config.workerToken) :
    ofDictionary marks config.fields = config := by
  have hfields : ofDictionary marks config.fields = { config with
      workerToken :=
        if marks.hasPrefix tokenMark config.workerToken then config.workerToken else []
      poolSize := Int64.ofInt config.poolSize.toInt
      httpPort := Int64.ofInt config.httpPort.toInt } := rfl
  rw [hfields, h.kept, Int64.ofInt_toInt, Int64.ofInt_toInt]

/-- A worker token that is loaded is empty or that of a registered worker. -/
theorem isWorkerToken_ofDictionary (marks : Marks) (dict : List (List Char × Scalar)) :
    IsWorkerToken marks (ofDictionary marks dict).workerToken := by
  unfold ofDictionary
  dsimp only
  split
  next hmark => exact .inr hmark
  · exact .inl rfl

/-- So is one of the command line. -/
theorem isWorkerToken_overrideToken (h : IsWorkerToken marks config.workerToken)
    (token : Option (List Char)) :
    IsWorkerToken marks (config.overrideToken marks token).workerToken := by
  cases token with
  | none => exact h
  | some token =>
    rw [overrideToken]
    split
    next hmark => exact .inr hmark
    · exact .inl rfl

/-- A file with the lines of a mapping is loaded from this mapping. -/
theorem load_of_lines (hyams : FollowsYaml yams) {fields : List (List Char × Scalar)}
    (hfields : IsMapping fields) {text : List Char} (hlines : lines text = fields.map writeField) :
    load marks yams text = .ok (ofDictionary marks fields) := by
  rw [load, hyams.flat text fields (hfields.parseMapping_of_lines hlines)]

/-- The lines of the saved file. -/
theorem lines_save (h : ∀ text ∈ config.texts, IsPrintable text) :
    lines (config.save marks) = config.fields.map (saveField marks) := by
  have hmapping := isMapping_fields h
  rw [save_eq]
  refine lines_intercalate (fun line hline => ?_) (List.cons_ne_nil _ _)
  obtain ⟨⟨key, scalar⟩, hfield, rfl⟩ := List.mem_map.mp hline
  have hwritten := hmapping.newline_not_mem _ (List.mem_map_of_mem hfield)
  cases scalar with
  | string text =>
    refine ⟨fun hmem => hwritten ?_, by simp [saveField]⟩
    -- quotes that are not doubled do not add a line feed either
    simp only [saveField, yamlQuote, List.mem_append, List.mem_cons, List.not_mem_nil] at hmem
    simp only [writeField, Scalar.write, List.mem_append, List.mem_cons, mem_double,
      List.not_mem_nil]
    rcases hmem with hkey | hcolon | hspace | hopen | htext | hclose
    · exact .inl hkey
    · exact .inr (.inl hcolon)
    · exact .inr (.inr (.inl hspace))
    · exact .inr (.inr (.inr (.inl hopen)))
    · exact .inr (.inr (.inr (.inr (.inl (Marks.mem_of_mem_doubleAlone htext)))))
    · exact .inr (.inr (.inr (.inr (.inr hclose))))
  | int n => exact ⟨hwritten, by simp [saveField, writeField]⟩
  | bool b => exact ⟨hwritten, by simp [saveField, writeField]⟩

/-- Without a quote that a mark follows, these are the lines of the mapping. -/
theorem lines_save_of_alone (h : ∀ text ∈ config.texts, IsPrintable text)
    (halone : ∀ text ∈ config.texts, marks.quotesAlone '\'' text = true) :
    lines (config.save marks) = config.fields.map writeField := by
  rw [lines_save h]
  exact List.map_congr_left fun field hfield =>
    saveField_eq (savesField_fields_iff.mpr halone field hfield)

/-- With such a quote, the file does not load. The first value that has one ends at the
quote, and the mark stands after it. -/
theorem load_save_of_marked (hyams : FollowsYaml yams) (h : ∀ text ∈ config.texts, IsPrintable text)
    (hmarked : ¬∀ text ∈ config.texts, marks.quotesAlone '\'' text = true) :
    ∃ message, load marks yams (config.save marks) = .error (.yaml message) := by
  have hmapping := isMapping_fields h
  rw [← savesField_fields_iff] at hmarked
  push Not at hmarked
  obtain ⟨bad, hbad, hfails⟩ := hmarked
  have hsome : (config.fields.find? fun field => !savesField marks field).isSome = true :=
    List.find?_isSome.mpr ⟨bad, hbad, by simpa using hfails⟩
  obtain ⟨⟨key, scalar⟩, hfirst⟩ := Option.isSome_iff_exists.mp hsome
  obtain ⟨hnot, before, after, hfields, hbefore⟩ := List.find?_eq_some_iff_append.mp hfirst
  have hmem : (key, scalar) ∈ config.fields := by
    rw [hfields]
    exact List.mem_append_right _ List.mem_cons_self
  cases scalar with
  | int n => cases hnot
  | bool b => cases hnot
  | string text =>
    have hquotes : marks.quotesAlone '\'' text = false := by simpa [savesField] using hnot
    obtain ⟨value, c, raw, hscan, hc, hmark⟩ :=
      Marks.scanQuoted_doubleAlone (by decide : '\''.toNat < 0x80) hquotes
    have hprintable : isPrintable c = true := hmapping.flat _ hmem c hc
    have hnonascii : 0x80 ≤ c.toNat := by
      by_contra hascii
      rw [marks.ascii c (not_le.mp hascii)] at hmark
      cases hmark
    have hlines : lines (config.save marks) =
        before.map writeField ++ (key ++ ':' :: ' ' :: '\'' ::
          (marks.doubleAlone '\'' text ++ ['\''])) :: after.map (saveField marks) := by
      rw [lines_save h, hfields, List.map_append, List.map_cons]
      congr 1
      refine List.map_congr_left fun field hfield => saveField_eq ?_
      simpa using hbefore field hfield
    obtain ⟨message, hmessage⟩ := hyams.strict (fun field hfield => by
      have hfield : field ∈ config.fields := by
        rw [hfields]
        exact List.mem_append_left _ hfield
      exact ⟨hmapping.keys field hfield, hmapping.flat field hfield⟩)
      (hmapping.keys _ hmem) hlines hscan hprintable hnonascii
    exact ⟨message, by rw [load, hmessage]⟩

end WorkerConfig

namespace Variables

/-- The strings that the installer quotes. -/
def texts (v : Variables) : List (List Char) :=
  [v.serverHost, v.writeWorkerToken, v.writeEnrollmentToken, v.localImageName, v.tlsFingerprint,
   v.hostPassword]

/-- The configuration with these values. -/
def config (v : Variables) (port : Int64) : WorkerConfig where
  serverAddress := v.serverHost
  workerToken := v.writeWorkerToken
  enrollmentToken := v.writeEnrollmentToken
  baseImage := v.localImageName
  httpPort := port
  tlsCertFingerprint := v.tlsFingerprint
  hostKeychainPassword := v.hostPassword

/-- The mapping of the lines, without the password. -/
def configFields (v : Variables) (port : Int64) : List (List Char × Scalar) :=
  [("server_address".toList, .string v.serverHost),
   ("worker_token".toList, .string v.writeWorkerToken),
   ("enrollment_token".toList, .string v.writeEnrollmentToken),
   ("base_image".toList, .string v.localImageName),
   ("pool_size".toList, .int 2),
   ("ssh_username".toList, .string "admin".toList),
   ("ssh_password".toList, .string "admin".toList),
   ("http_port".toList, .int port.toInt),
   ("use_https".toList, .bool true),
   ("tls_cert_fingerprint".toList, .string v.tlsFingerprint),
   ("log_level".toList, .string "info".toList)]

/-- The mapping of the file. -/
def fields (v : Variables) (port : Int64) : List (List Char × Scalar) :=
  v.configFields port ++
    if v.hostPassword = [] then []
    else [("host_keychain_password".toList, .string v.hostPassword)]

variable {marks : Marks} {v : Variables} {port : Int64}

/-- The installer writes this mapping. -/
theorem configYaml_eq (h : ∀ text ∈ v.texts, IsPrintable text)
    (hport : v.serverPort = decimal port.toInt) :
    v.configYaml = unlines ((v.fields port).map writeField) := by
  simp only [texts, List.forall_mem_cons] at h
  obtain ⟨hhost, hworker, henrollment, himage, hfingerprint, hpassword, _⟩ := h
  have hconfig : v.configLines = (v.configFields port).map writeField := by
    rw [configLines, yamlQuote_eq hhost, yamlQuote_eq hworker, yamlQuote_eq henrollment,
      yamlQuote_eq himage, yamlQuote_eq hfingerprint, hport]
    rfl
  have hlines : v.configLines ++ v.passwordLines = (v.fields port).map writeField := by
    rw [hconfig, fields, List.map_append, passwordLines, yamlQuote_eq hpassword]
    split <;> rfl
  rw [configYaml, ← hlines, unlines, unlines, unlines, List.flatMap_append]

/-- It is a mapping when the strings are printable. -/
theorem isMapping_fields (port : Int64) (h : ∀ text ∈ v.texts, IsPrintable text) :
    IsMapping (v.fields port) := by
  simp only [texts, List.forall_mem_cons] at h
  obtain ⟨hhost, hworker, henrollment, himage, hfingerprint, hpassword, _⟩ := h
  have hadmin : IsPrintable "admin".toList := List.all_eq_true.mp rfl
  have hinfo : IsPrintable "info".toList := List.all_eq_true.mp rfl
  refine ⟨List.forall_mem_append.mpr ⟨?_, ?_⟩, List.forall_mem_append.mpr ⟨?_, ?_⟩, ?_,
    List.cons_ne_nil _ _⟩
  · simp only [configFields, List.forall_mem_cons]
    decide
  · split
    · exact nofun
    · exact List.forall_mem_singleton.mpr rfl
  · simp only [configFields, List.forall_mem_cons]
    exact ⟨hhost, hworker, henrollment, himage, ⟨by decide, by decide⟩, hadmin, hadmin,
      ⟨port.le_toInt, port.toInt_lt⟩, trivial, hfingerprint, hinfo, nofun⟩
  · split
    · exact nofun
    · exact List.forall_mem_singleton.mpr hpassword
  · have hkeys : (v.configFields port).map Prod.fst =
        (configFields ⟨[], [], [], [], [], [], []⟩ 0).map Prod.fst := rfl
    rw [fields, List.map_append, hkeys]
    split <;> simp only [List.map_nil, List.map_cons] <;> decide

/-- The mapping of the file is read as the configuration. -/
theorem ofDictionary_fields (h : IsWorkerToken marks v.writeWorkerToken) :
    WorkerConfig.ofDictionary marks (v.fields port) = v.config port := by
  have hfields : WorkerConfig.ofDictionary marks (v.fields port) = { v.config port with
      workerToken :=
        if marks.hasPrefix tokenMark v.writeWorkerToken then v.writeWorkerToken else []
      httpPort := Int64.ofInt port.toInt } := by
    unfold fields
    split
    next hempty =>
      rw [config, hempty]
      rfl
    · rfl
  rw [hfields, h.kept, Int64.ofInt_toInt]
  rfl

/-- What the installer writes is loaded with the same values. -/
theorem load_configYaml {yams : List Char → Except String Document} (hyams : FollowsYaml yams)
    (hport : v.serverPort = decimal port.toInt) (hprintable : ∀ text ∈ v.texts, IsPrintable text)
    (htoken : IsWorkerToken marks v.writeWorkerToken) :
    WorkerConfig.load marks yams v.configYaml = .ok (v.config port) := by
  have hmapping := isMapping_fields port hprintable
  have hlines : lines v.configYaml = (v.fields port).map writeField := by
    rw [configYaml_eq hprintable hport, hmapping.lines_unlines]
  rw [WorkerConfig.load_of_lines hyams hmapping hlines, ofDictionary_fields htoken]

end Variables

/-- The three programs agree on the file. A configuration whose strings are printable,
each on one line, is loaded as it was saved, and the installer reads the token and the
password of the saved file, exactly when no string has a quote that a combining mark
follows. What the installer writes is always loaded with the same values. -/
theorem config_codec_iff (marks : Marks) {yams : List Char → Except String Document}
    (hyams : FollowsYaml yams) :
    (∀ config : WorkerConfig, (∀ text ∈ config.texts, IsPrintable text) →
      IsWorkerToken marks config.workerToken →
      ((WorkerConfig.load marks yams (config.save marks) = .ok config ∧
        readYamlSingleQuotedValue "worker_token" (some (config.save marks)) =
          config.workerToken ∧
        readYamlSingleQuotedValue "host_keychain_password" (some (config.save marks)) =
          config.hostKeychainPassword) ↔
      ∀ text ∈ config.texts, marks.quotesAlone '\'' text = true)) ∧
    ∀ (v : Variables) (port : Int64), v.serverPort = decimal port.toInt →
      (∀ text ∈ v.texts, IsPrintable text) → IsWorkerToken marks v.writeWorkerToken →
      WorkerConfig.load marks yams v.configYaml = .ok (v.config port) := by
  constructor
  · intro config hprintable htoken
    constructor
    · rintro ⟨hload, _⟩
      by_contra hmarked
      obtain ⟨message, herror⟩ := WorkerConfig.load_save_of_marked hyams hprintable hmarked
      cases hload.symm.trans herror
    · intro halone
      have hmapping := WorkerConfig.isMapping_fields hprintable
      have hlines := WorkerConfig.lines_save_of_alone hprintable halone
      refine ⟨?_, ?_, ?_⟩
      · rw [WorkerConfig.load_of_lines hyams hmapping hlines,
          WorkerConfig.ofDictionary_fields htoken]
      · exact readYamlSingleQuotedValue_of_lines hmapping.keys rfl rfl hlines
      · exact readYamlSingleQuotedValue_of_lines hmapping.keys rfl rfl hlines
  · intro v port hport hprintable htoken
    exact Variables.load_configYaml hyams hport hprintable htoken

/-- A parser of flat mappings only. -/
def flatYams (text : List Char) : Except String Document :=
  match parseMapping text with
  | some dict => .ok (.mapping dict)
  | none => if text = [] then .ok .other else .error "not a flat mapping"

/-- A line with text after the closing quote is none of a flat mapping. -/
theorem parseField_of_stray {key raw value after : List Char} {c : Char} (hkey : isKey key = true)
    (hscan : scanQuoted '\'' raw = some (value, c :: after)) :
    parseField (key ++ ':' :: ' ' :: '\'' :: raw) = none := by
  have hchars : ∀ d ∈ key, isKeyChar d = true := fun d => isKeyChar_of_isKey hkey
  have htake : (key ++ ':' :: ' ' :: '\'' :: raw).takeWhile isKeyChar = key := by
    rw [List.takeWhile_append_of_pos hchars]
    exact List.append_nil _
  have hdrop : (key ++ ':' :: ' ' :: '\'' :: raw).dropWhile isKeyChar =
      ':' :: ' ' :: '\'' :: raw := by
    rw [List.dropWhile_append_of_pos hchars]
    rfl
  simp only [parseField, htake, hdrop, hkey, if_true, parseScalar, hscan, Option.map_none]

/-- A line that is none of a flat mapping spoils the document. -/
theorem parseFields_of_stray {before rest : List (List Char)} {line : List Char}
    (h : parseField line = none) : parseFields (before ++ line :: rest) = none := by
  induction before with
  | nil => rw [List.nil_append, parseFields, h]
  | cons first before ih =>
    rw [List.cons_append, parseFields, ih]
    cases parseField first <;> rfl

/-- The parser of flat mappings follows YAML. -/
theorem flatYams_follows : FollowsYaml flatYams where
  flat := by
    intro text dict h
    rw [flatYams, h]
  empty := rfl
  strict := by
    intro text key raw value after c before rest _ hkey hlines hscan _ _
    have hnone : parseMapping text = none := by
      rw [parseMapping, hlines, parseFields_of_stray (parseField_of_stray hkey hscan)]
    refine ⟨"not a flat mapping", ?_⟩
    rw [flatYams, hnone]
    refine if_neg ?_
    rintro rfl
    exact absurd (congrArg List.length hlines) (by simp [lines])

/-- The combining diacritical marks. -/
def diacritics : Marks where
  isMark c := 0x300 ≤ c.toNat && c.toNat ≤ 0x36F
  ascii c hc := by
    rw [Bool.and_eq_false_iff]
    left
    rw [decide_eq_false_iff_not]
    omega

/-- Quotes at both ends of the values, in a row and between other characters, and a mark
that follows no quote. -/
def quotedConfig : WorkerConfig where
  serverAddress := "'".toList
  workerToken := "wkt_''1'".toList
  hostKeychainPassword := "'''it's: 'x' e\u0301 # '".toList

/-- The same values for the installer. -/
def quotedVariables : Variables where
  serverHost := "'".toList
  serverPort := "443".toList
  writeWorkerToken := "wkt_''1'".toList
  writeEnrollmentToken := []
  localImageName := "''".toList
  tlsFingerprint := []
  hostPassword := "'''it's: 'x' e\u0301 # '".toList

/-- The values are printable. -/
theorem isPrintable_quotedVariables : ∀ text ∈ quotedVariables.texts, IsPrintable text := by
  have hall : quotedVariables.texts.all (·.all isPrintable) = true := by decide
  simp only [List.all_eq_true] at hall
  exact hall

/-- The worker token has its mark. -/
theorem isWorkerToken_quotedVariables : IsWorkerToken diacritics quotedVariables.writeWorkerToken :=
  .inr (by decide)

/-- These values come through all three programs. -/
theorem config_codec_iff_quoted :
    (WorkerConfig.load diacritics flatYams (quotedConfig.save diacritics) = .ok quotedConfig ∧
      readYamlSingleQuotedValue "worker_token" (some (quotedConfig.save diacritics)) =
        "wkt_''1'".toList ∧
      readYamlSingleQuotedValue "host_keychain_password"
        (some (quotedConfig.save diacritics)) = "'''it's: 'x' e\u0301 # '".toList) ∧
    WorkerConfig.load diacritics flatYams quotedVariables.configYaml =
      .ok (quotedVariables.config 443) := by
  have hconfig : quotedConfig.texts.all (·.all isPrintable) = true := by decide
  simp only [List.all_eq_true] at hconfig
  obtain ⟨hsave, hinstall⟩ := config_codec_iff diacritics flatYams_follows
  exact ⟨(hsave quotedConfig hconfig isWorkerToken_quotedVariables).mpr (by decide),
    hinstall _ _ (by decide) isPrintable_quotedVariables isWorkerToken_quotedVariables⟩

/-- A password in which an acute accent follows an apostrophe. -/
def markedConfig : WorkerConfig where
  workerToken := "wkt_1".toList
  hostKeychainPassword := "it'\u0301s".toList

/-- The worker saves this configuration, and the next start cannot load it. -/
theorem marked_quote_breaks_file :
    (∀ text ∈ markedConfig.texts, IsPrintable text) ∧
    IsWorkerToken diacritics markedConfig.workerToken ∧
    WorkerConfig.load diacritics flatYams (markedConfig.save diacritics) =
      .error (.yaml "not a flat mapping") := by
  have hall : markedConfig.texts.all (·.all isPrintable) = true := by decide
  simp only [List.all_eq_true] at hall
  exact ⟨hall, .inr (by decide), rfl⟩

end MiniControl.Installer
