import MiniControl.Access.Verifier
import Mathlib.Data.List.Infix

/-!
# The email domain of the access verifier

`NewAccessVerifier` normalises the domain of its configuration, and every call of
`validateClaims` normalises it again together with the email. What it compares is
a suffix. The suffix test agrees with reading the domain behind the last `@`.
-/

namespace MiniControl.Access

/-- The fields of `HandlerConfig` that make the verifier. -/
structure HandlerConfig where
  accessAUD : String
  accessIssuerURL : String
  accessJWKSURL : String
  accessTeamDomain : String
  accessAllowedEmailDomain : String
  deriving DecidableEq

/-- What is read of a parsed URL: its host, and its text without path, query and fragment. -/
structure ParsedURL where
  host : String
  base : String
  deriving DecidableEq

/-- `strings.TrimRight` with a slash. -/
def trimRightSlash (text : String) : String :=
  String.ofList (text.toList.rdropWhile (· = '/'))

/-- The issuer that belongs to a team domain. -/
def teamIssuerURL (library : Library) (parseURL : String → Except String ParsedURL)
    (accessTeamDomain : String) : Except String String :=
  if accessTeamDomain = "" then
    .error "access_team_domain is required when access_aud is configured"
  else
    let raw := Text.trimSpace accessTeamDomain
    let raw := if "://".toList <:+: raw.toList then raw else "https://" ++ raw
    match parseURL raw with
    | .error _ => .error ("invalid access_team_domain: " ++ library.quote accessTeamDomain)
    | .ok parsed =>
      if parsed.host = "" then
        .error ("invalid access_team_domain: " ++ library.quote accessTeamDomain)
      else .ok (trimRightSlash parsed.base)

/-- The issuer of a configuration. -/
def issuerURLOf (library : Library) (parseURL : String → Except String ParsedURL)
    (cfg : HandlerConfig) : Except String String :=
  let issuerURL := trimRightSlash cfg.accessIssuerURL
  if issuerURL = "" then teamIssuerURL library parseURL cfg.accessTeamDomain else .ok issuerURL

/-- `NewAccessVerifier`: the verifier and the URL of its certs, if there is an audience. -/
def newAccessVerifier (library : Library) (parseURL : String → Except String ParsedURL)
    (cfg : HandlerConfig) : Except String (Option (Verifier × String)) :=
  if cfg.accessAUD = "" then .ok none
  else
    match issuerURLOf library parseURL cfg with
    | .error err => .error err
    | .ok issuerURL =>
      let certsURL := Text.trimSpace cfg.accessJWKSURL
      .ok (some (
        { library
          audience := cfg.accessAUD
          issuerURL
          allowedEmailDomain := library.normalizeAccessEmailDomain cfg.accessAllowedEmailDomain },
        if certsURL = "" then issuerURL ++ "/cdn-cgi/access/certs" else certsURL))

/-- The documented behaviour of `strings.ToLower`: every character is mapped to its
lower case, which has none other. White space has no case, and neither has `@`. -/
structure LowersCharacters (toLower : String → String) (lower : Char → Char) : Prop where
  map : ∀ text, (toLower text).toList = text.toList.map lower
  lower_lower : ∀ c, lower (lower c) = lower c
  isSpace : ∀ c, Text.isSpace (lower c) = Text.isSpace c
  at_iff : ∀ c, lower c = '@' ↔ c = '@'

/-- The part of a text behind the last separator, if there is one. -/
def afterLast (separator : Char) : List Char → Option (List Char)
  | [] => none
  | c :: rest => (afterLast separator rest).or (if c = separator then some rest else none)

variable {separator : Char} {text part : List Char}

/-- A text with a part behind a separator has the separator. -/
theorem mem_of_afterLast (h : afterLast separator text = some part) : separator ∈ text := by
  induction text with
  | nil => cases h
  | cons c rest ih =>
    rcases Option.or_eq_some_iff.mp h with hrest | ⟨_, hhere⟩
    · exact List.mem_cons_of_mem _ (ih hrest)
    · obtain ⟨rfl, _⟩ := Option.ite_none_right_eq_some.mp hhere
      exact List.mem_cons_self

/-- A part without the separator stands behind the last one exactly when the text
ends with the separator and the part. -/
theorem afterLast_eq_some_iff (hpart : separator ∉ part) :
    afterLast separator text = some part ↔ separator :: part <:+ text := by
  induction text with
  | nil => simp [afterLast]
  | cons c rest ih =>
    rw [afterLast, List.suffix_cons_iff, ← ih]
    cases hrest : afterLast separator rest with
    | none =>
      rw [Option.none_or, Option.ite_none_right_eq_some]
      simp [eq_comm]
    | some last =>
      rw [Option.some_or]
      refine (or_iff_right fun hwhole => hpart ?_).symm
      rw [(List.cons.inj hwhole).2]
      exact mem_of_afterLast hrest

/-- A domain as it may be configured: a text without `@` and white space. -/
structure IsDomain (domain : List Char) : Prop where
  nonempty : domain ≠ []
  no_at : '@' ∉ domain
  no_space : ∀ c ∈ domain, Text.isSpace c = false

section Normalised

variable {library : Library} {lower : Char → Char} {domain : List Char}

/-- The lower case of a domain is a domain. -/
theorem IsDomain.lowered (h : IsDomain domain) (hlower : LowersCharacters library.toLower lower) :
    IsDomain (domain.map lower) := by
  refine ⟨by simpa using h.nonempty, fun hmem => ?_, fun c hc => ?_⟩
  · obtain ⟨c, hc, heq⟩ := List.mem_map.mp hmem
    exact h.no_at ((hlower.at_iff c).mp heq ▸ hc)
  · obtain ⟨d, hd, rfl⟩ := List.mem_map.mp hc
    rw [hlower.isSpace, h.no_space d hd]

/-- Normalising leaves the lower case of the domain. -/
theorem normalizeAccessEmailDomain_eq (hlower : LowersCharacters library.toLower lower)
    (hdomain : IsDomain domain) {before sign after : List Char}
    (hbefore : ∀ c ∈ before, Text.isSpace c) (hsign : sign = [] ∨ sign = ['@'])
    (hafter : ∀ c ∈ after, Text.isSpace c) :
    library.normalizeAccessEmailDomain (String.ofList (before ++ (sign ++ domain) ++ after)) =
      String.ofList (domain.map lower) := by
  have hspaces : ∀ spaces : List Char, (∀ c ∈ spaces, Text.isSpace c) →
      ∀ c ∈ spaces.map lower, Text.isSpace c := by
    intro spaces hspaces c hc
    obtain ⟨d, hd, rfl⟩ := List.mem_map.mp hc
    rw [hlower.isSpace, hspaces d hd]
  have hcore : ∀ c ∈ (sign ++ domain).map lower, Text.isSpace c = false := by
    intro c hc
    obtain ⟨d, hd, rfl⟩ := List.mem_map.mp hc
    rw [hlower.isSpace]
    rcases List.mem_append.mp hd with hmem | hmem
    · rcases hsign with rfl | rfl
      · cases hmem
      · rw [List.mem_singleton.mp hmem]
        rfl
    · exact hdomain.no_space d hmem
  have htext : library.toLower (String.ofList (before ++ (sign ++ domain) ++ after)) =
      String.ofList (before.map lower ++ (sign ++ domain).map lower ++ after.map lower) := by
    rw [← String.toList_inj, hlower.map]
    simp
  unfold Library.normalizeAccessEmailDomain
  rw [htext, Text.trimSpace_surrounded (hspaces before hbefore) hcore (hspaces after hafter)]
  have hno := (hdomain.lowered hlower).no_at
  rcases hsign with rfl | rfl
  · dsimp only
    rw [List.nil_append, String.toList_ofList]
    split
    next rest hat =>
      rw [hat] at hno
      exact absurd List.mem_cons_self hno
    next => rfl
  · dsimp only
    rw [String.toList_ofList, List.map_append, List.map_singleton, (hlower.at_iff '@').mpr rfl]
    rfl

/-- The check of an email against a normalised domain. -/
theorem accessEmailMatchesDomain_iff (hlower : LowersCharacters library.toLower lower)
    (hdomain : IsDomain domain) (email : String) :
    library.accessEmailMatchesDomain email (String.ofList (domain.map lower)) = true ↔
      afterLast '@' (Text.trimSpace (library.toLower email)).toList = some (domain.map lower) := by
  have hlowered := hdomain.lowered hlower
  have hagain : library.normalizeAccessEmailDomain (String.ofList (domain.map lower)) =
      String.ofList (domain.map lower) := by
    have heq := normalizeAccessEmailDomain_eq hlower hlowered (List.forall_mem_nil _) (.inl rfl)
      (List.forall_mem_nil _)
    simpa [Function.comp_def, hlower.lower_lower] using heq
  have hne : String.ofList (domain.map lower) ≠ "" := by
    intro hempty
    exact hlowered.nonempty (by simpa using congrArg String.toList hempty)
  have hsigned : ("@" ++ String.ofList (domain.map lower)).toList = '@' :: domain.map lower := by
    simp
  unfold Library.accessEmailMatchesDomain
  dsimp only
  rw [hagain, afterLast_eq_some_iff hlowered.no_at, hsigned, ← List.isSuffixOf_iff_suffix]
  simp only [Bool.and_eq_true, decide_eq_true_eq, hne, ne_eq, not_false_eq_true, and_true,
    and_iff_right_iff_imp]
  intro hsuffix hempty
  rw [hempty] at hsuffix
  exact absurd (List.isSuffixOf_iff_suffix.mp hsuffix) (by simp)

/-- Trimming and lowering may be exchanged. -/
theorem trimSpace_toLower (hlower : LowersCharacters library.toLower lower) (text : String) :
    Text.trimSpace (library.toLower text) = library.toLower (Text.trimSpace text) := by
  have hspace : Text.isSpace ∘ lower = Text.isSpace := funext hlower.isSpace
  rw [← String.toList_inj, hlower.map, Text.trimSpace, Text.trimSpace, String.toList_ofList,
    String.toList_ofList, hlower.map, List.dropWhile_map, hspace, ← List.map_reverse,
    List.dropWhile_map, hspace, List.map_reverse]

/-- The domain that a new verifier keeps. -/
theorem allowedEmailDomain_of_new {parseURL : String → Except String ParsedURL}
    {cfg : HandlerConfig} {v : Verifier} {certsURL : String}
    (h : newAccessVerifier library parseURL cfg = .ok (some (v, certsURL))) :
    v.library = library ∧
      v.allowedEmailDomain = library.normalizeAccessEmailDomain cfg.accessAllowedEmailDomain := by
  unfold newAccessVerifier at h
  split_ifs at h
  · cases h
  · cases hissuer : issuerURLOf library parseURL cfg with
    | error err =>
      rw [hissuer] at h
      cases h
    | ok issuerURL =>
      rw [hissuer] at h
      have hpair := Prod.mk.inj (Option.some.inj (Except.ok.inj h))
      rw [← hpair.1]
      simp only [and_self]

/-- A check passes when its condition does not hold and the checks behind it pass. -/
private theorem ite_error_eq_ok_iff {p : Prop} [Decidable p] {err : String}
    {rest : Except String Unit} :
    (if p then .error err else rest) = Except.ok () ↔ ¬p ∧ rest = .ok () := by
  by_cases hp : p
  · simp [hp]
  · simp [hp]

/-- The last check of `validateClaims` is the one of the email domain. -/
theorem Verifier.validateClaims_eq_ok_iff (v : Verifier) (now : ℤ) (claims : AccessClaims) :
    v.validateClaims now claims = .ok () ↔
      { v with allowedEmailDomain := "" }.validateClaims now claims = .ok () ∧
      (v.allowedEmailDomain ≠ "" →
        v.library.accessEmailMatchesDomain claims.email v.allowedEmailDomain = true) := by
  have hopen : ¬("" ≠ "" ∧ (!v.library.accessEmailMatchesDomain claims.email "") = true) :=
    fun h => h.1 rfl
  simp only [Verifier.validateClaims, ite_error_eq_ok_iff, hopen, not_false_eq_true, and_true,
    and_assoc]
  simp only [Bool.not_eq_true', not_and, Bool.not_eq_false]

end Normalised

/-- The domain gate. For a configured domain in any letter case, with or without a
sign in front and with white space around it, the claims are accepted exactly when
all other checks pass and the lower case of the trimmed email has the lower case of
the domain behind its last `@`. -/
theorem email_domain_gate {library : Library} {lower : Char → Char}
    (hlower : LowersCharacters library.toLower lower) (before sign domain after : List Char)
    (hbefore : ∀ c ∈ before, Text.isSpace c) (hsign : sign = [] ∨ sign = ['@'])
    (hdomain : IsDomain domain) (hafter : ∀ c ∈ after, Text.isSpace c)
    {parseURL : String → Except String ParsedURL} {cfg : HandlerConfig} {v : Verifier}
    {certsURL : String}
    (hcfg : cfg.accessAllowedEmailDomain = String.ofList (before ++ (sign ++ domain) ++ after))
    (hnew : newAccessVerifier library parseURL cfg = .ok (some (v, certsURL)))
    (now : ℤ) (claims : AccessClaims) :
    v.validateClaims now claims = .ok () ↔
      { v with allowedEmailDomain := "" }.validateClaims now claims = .ok () ∧
      afterLast '@' (library.toLower (Text.trimSpace claims.email)).toList =
        some (library.toLower (String.ofList domain)).toList := by
  obtain ⟨hlibrary, hallowed⟩ := allowedEmailDomain_of_new hnew
  rw [hcfg, normalizeAccessEmailDomain_eq hlower hdomain hbefore hsign hafter] at hallowed
  have hne : v.allowedEmailDomain ≠ "" := by
    rw [hallowed]
    intro hempty
    exact (hdomain.lowered hlower).nonempty (by simpa using congrArg String.toList hempty)
  rw [v.validateClaims_eq_ok_iff, hlibrary, hallowed,
    accessEmailMatchesDomain_iff hlower hdomain, trimSpace_toLower hlower,
    hlower.map (String.ofList domain), String.toList_ofList, ← hallowed]
  exact and_congr_right fun _ => imp_iff_right hne

section Samples

/-- A library whose `ToLower` maps the letters of ASCII. -/
def asciiLibrary : Library where
  decodeBase64 _ := .error "unused"
  parseHeader _ := .error "unused"
  parsePayload _ := .error "unused"
  parseCertResponse _ := .error "unused"
  decodePEM _ := none
  parseCertificate _ := .error "unused"
  verifySignature _ _ _ := false
  toLower text := String.ofList (text.toList.map Char.toLower)
  quote text := "\"" ++ text ++ "\""

/-- It meets the assumptions. -/
theorem lowersCharacters_ascii : LowersCharacters asciiLibrary.toLower Char.toLower where
  map text := String.toList_ofList
  lower_lower c := by
    rcases Text.toLower_cases c with ⟨hsame, _⟩ | ⟨hnat, _, _⟩
    · rw [hsame, hsame]
    · rcases Text.toLower_cases c.toLower with ⟨hsame, _⟩ | ⟨_, _, _⟩
      · exact hsame
      · omega
  isSpace c := by
    rcases Text.toLower_cases c with ⟨hsame, _⟩ | ⟨hnat, _, _⟩
    · rw [hsame]
    · have hletter : ∀ d : Char, 65 ≤ d.toNat → d.toNat ≤ 122 → Text.isSpace d = false := by
        intro d _ _
        simp only [Text.isSpace, Bool.or_eq_false_iff, Bool.and_eq_false_iff,
          decide_eq_false_iff_not, beq_eq_false_iff_ne]
        omega
      rw [hletter c (by omega) (by omega), hletter c.toLower (by omega) (by omega)]
  at_iff c := by
    have hat : '@'.toNat = 64 := rfl
    rcases Text.toLower_cases c with ⟨hsame, _⟩ | ⟨hnat, _, _⟩
    · rw [hsame]
    · refine iff_of_false (fun h => ?_) (fun h => ?_)
      · rw [h] at hnat
        omega
      · subst h
        omega

/-- Claims with the given email. -/
def claimsOf (email : String) : AccessClaims :=
  ⟨["aud-1"], email, 200, 0, 0, "https://team.example", "app", "sub-1"⟩

/-- A configuration for `Example.com`, with a sign and white space. -/
def exampleConfig : HandlerConfig :=
  ⟨"aud-1", "https://team.example/", "", "", " @Example.com\n"⟩

/-- An email of the domain passes; neither a sub-domain nor a second sign does. -/
theorem email_domain_gate_example : ∃ v certsURL,
    newAccessVerifier asciiLibrary (fun _ => .error "unused") exampleConfig =
      .ok (some (v, certsURL)) ∧
    v.validateClaims 100 (claimsOf " User@EXAMPLE.com ") = .ok () ∧
    v.validateClaims 100 (claimsOf "user@sub.example.com") ≠ .ok () ∧
    v.validateClaims 100 (claimsOf "user@example.com@other.org") ≠ .ok () := by
  have hnew : ∃ v certsURL, newAccessVerifier asciiLibrary (fun _ => .error "unused")
      exampleConfig = .ok (some (v, certsURL)) ∧ v.issuerURL = "https://team.example" ∧
      v.audience = "aud-1" := ⟨_, _, rfl, by decide, rfl⟩
  obtain ⟨v, certsURL, hnew, hissuer, haudience⟩ := hnew
  have hspace : ∀ c ∈ "Example.com".toList, Text.isSpace c = false := by
    have hall : "Example.com".toList.all (!Text.isSpace ·) = true := rfl
    simpa using hall
  have hgate := email_domain_gate lowersCharacters_ascii [' '] ['@'] "Example.com".toList ['\n']
    (List.forall_mem_singleton.mpr rfl) (.inr rfl) ⟨by decide, by decide, hspace⟩
    (List.forall_mem_singleton.mpr rfl) rfl hnew 100
  have hother : ∀ email, email ≠ "" →
      { v with allowedEmailDomain := "" }.validateClaims 100 (claimsOf email) = .ok () := by
    intro email hemail
    simp [Verifier.validateClaims, claimsOf, hissuer, haudience, hemail]
  refine ⟨v, certsURL, hnew, ?_, ?_, ?_⟩
  · exact (hgate _).mpr ⟨hother _ (by decide), by decide⟩
  · exact fun h => absurd ((hgate _).mp h).2 (by decide)
  · exact fun h => absurd ((hgate _).mp h).2 (by decide)

end Samples

end MiniControl.Access
