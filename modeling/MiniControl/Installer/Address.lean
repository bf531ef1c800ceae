import MiniControl.Installer.ConfigFile
import MiniControl.Rest.HostSpelling

/-!
# The address of the server

The installer splits the address of the server into a host and a port by pattern
removal, and writes both to the configuration. The worker puts a scheme before the
host, parses the result as a URL and sets the port. The installer takes the brackets
from an IPv6 address, so that the worker has no authority to parse.
-/

namespace MiniControl.Installer

open Text Rest

section Addresses

/-- A DNS name or an IPv4 address. -/
structure HostName where
  text : List Char
  nonempty : text ≠ []
  chars : ∀ c ∈ text, isNameChar c.toLower = true

/-- An IPv6 address, in any letter case. -/
structure Address6 where
  text : List Char
  valid : IsIPv6 (text.map Char.toLower)

/-- A port. -/
structure Port where
  number : ℕ
  valid : 1 ≤ number ∧ number ≤ 65535

/-- The number of a port in decimal notation. -/
def Port.text (port : Port) : List Char := decimal port.number

/-- The addresses that the installer is called with. -/
inductive ServerAddress
  | host (name : HostName)
  | hostPort (name : HostName) (port : Port)
  | bracketed (address : Address6) (port : Port)

namespace ServerAddress

/-- The address as it is written. -/
def text : ServerAddress → List Char
  | host name => name.text
  | hostPort name port => name.text ++ ':' :: port.text
  | bracketed address port => '[' :: (address.text ++ ']' :: ':' :: port.text)

/-- The address has an IPv6 address in brackets. -/
def isBracketed : ServerAddress → Bool
  | bracketed _ _ => true
  | _ => false

/-- The host, without brackets. -/
def hostText : ServerAddress → List Char
  | host name | hostPort name _ => name.text
  | bracketed address _ => address.text

/-- The host in the authority of a URL. -/
def authorityHost : ServerAddress → List Char
  | host name | hostPort name _ => name.text
  | bracketed address _ => '[' :: (address.text ++ [']'])

/-- The port, which is that of HTTPS when none is given. -/
def port : ServerAddress → Port
  | host _ => ⟨443, by decide⟩
  | hostPort _ port | bracketed _ port => port

/-- The URL of the server at this address. -/
def url (address : ServerAddress) : List Char :=
  "https".toList ++ "://".toList ++ address.authorityHost ++ ':' :: address.port.text

end ServerAddress

end Addresses

section Splitting

/-- `${text%%c*}`: what stands before the first `c`. -/
def beforeFirst (c : Char) (text : List Char) : List Char := text.takeWhile (· != c)

/-- `${text##*c}`: what stands after the last `c`. -/
def afterLast (c : Char) (text : List Char) : List Char := text.rtakeWhile (· != c)

/-- `${text#[}`. -/
def dropBracket : List Char → List Char
  | '[' :: rest => rest
  | text => text

/-- The address matches `\[*\]:*`. -/
def hasBrackets : List Char → Bool
  | '[' :: rest => decide ([']', ':'] <:+: rest)
  | _ => false

/-- `SERVER_HOST` and `SERVER_PORT`. -/
def splitAddress (address : List Char) : List Char × List Char :=
  if hasBrackets address then
    (dropBracket (beforeFirst ']' address), afterLast ':' address)
  -- one colon, and not more
  else if ':' ∈ address ∧ address.count ':' < 2 then
    (beforeFirst ':' address, afterLast ':' address)
  else (address, "443".toList)

/-- The variables of an installation with the given address. -/
def Variables.withAddress (v : Variables) (address : List Char) : Variables :=
  { v with serverHost := (splitAddress address).1, serverPort := (splitAddress address).2 }

end Splitting

section Network

/-- `URLComponents`. -/
structure URLComponents where
  scheme : Option (List Char)
  host : Option (List Char)
  port : Option ℤ
  path : List Char
  query : Option (List Char)
  fragment : Option (List Char)
  deriving DecidableEq

/-- The functions of Foundation: `URLComponents(string:)`, and the text of `url`. -/
structure Foundation where
  components : List Char → Option URLComponents
  url : URLComponents → Option (List Char)

/-- `WorkerConfigNetworkError`. -/
inductive NetworkError
  | invalidServerAddress (address : List Char)
  deriving DecidableEq

namespace WorkerConfig

/-- `baseComponents`. -/
def baseComponents (f : Foundation) (config : WorkerConfig) (scheme : List Char) :
    Except NetworkError URLComponents :=
  let rawAddress :=
    if "://".toList <:+: config.serverAddress then config.serverAddress
    else scheme ++ "://".toList ++ config.serverAddress
  match f.components rawAddress with
  | none => .error (.invalidServerAddress config.serverAddress)
  | some components =>
    if components.host = none then .error (.invalidServerAddress config.serverAddress)
    else .ok { components with scheme := some scheme }

/-- `baseURL`. -/
def baseURL (f : Foundation) (config : WorkerConfig) (scheme : List Char)
    (explicitPort : Option ℤ) (defaultPort : ℤ) : Except NetworkError (List Char) :=
  match config.baseComponents f scheme with
  | .error e => .error e
  | .ok components =>
    let port := explicitPort.getD (components.port.getD defaultPort)
    match f.url
      { components with port := some port, path := [], query := none, fragment := none } with
    | none => .error (.invalidServerAddress config.serverAddress)
    | some url => .ok url

/-- `httpBaseURL`. -/
def httpBaseURL (f : Foundation) (config : WorkerConfig) : Except NetworkError (List Char) :=
  config.baseURL f (if config.useHTTPS then "https".toList else "http".toList)
    (if 0 < config.httpPort then some config.httpPort.toInt else none) 8080

end WorkerConfig

/-- A host of an authority: a name, or an IPv6 address in brackets. -/
inductive IsHost : List Char → Prop
  | name (name : HostName) : IsHost name.text
  | literal (address : Address6) : IsHost ('[' :: (address.text ++ [']']))

/-- The characters of a registered name in RFC 3986, with the percent sign. -/
def isRegNameChar (c : Char) : Bool := c.isAlphanum || c ∈ "-._~!$&'()*+,;=%".toList

/-- What RFC 3986 demands of an authority without user information: a registered name
or brackets, and then a port or nothing. -/
def IsAuthority (authority : List Char) : Prop :=
  ∃ host rest, authority = host ++ rest ∧
    (host.all isRegNameChar = true ∨ host.head? = some '[') ∧
    (rest = [] ∨ ∃ digits : List Char, rest = ':' :: digits ∧ digits.all Char.isDigit = true)

/-- Foundation parses and prints the authorities of RFC 3986. -/
structure Foundation.Standard (f : Foundation) : Prop where
  accepts : ∀ scheme ∈ ["http".toList, "https".toList], ∀ host, IsHost host →
    f.components (scheme ++ "://".toList ++ host) =
      some ⟨some scheme, some host, none, [], none, none⟩
  rejects : ∀ scheme ∈ ["http".toList, "https".toList], ∀ authority : List Char,
    (∀ c ∈ ['/', '?', '#', '@'], c ∉ authority) → ¬IsAuthority authority →
    f.components (scheme ++ "://".toList ++ authority) = none
  prints : ∀ scheme ∈ ["http".toList, "https".toList], ∀ host, IsHost host → ∀ port : ℕ,
    f.url ⟨some scheme, some host, some (port : ℤ), [], none, none⟩ =
      some (scheme ++ "://".toList ++ host ++ ':' :: decimal port)

end Network

section Characters

/-- A colon is in no letter case. -/
theorem toLower_eq_colon_iff {c : Char} : c.toLower = ':' ↔ c = ':' := by
  have hcolon : ':'.toNat = 58 := rfl
  rcases toLower_cases c with ⟨hsame, _⟩ | ⟨hnat, _, _⟩
  · rw [hsame]
  · refine iff_of_false (fun h => ?_) (fun h => ?_)
    · rw [h] at hnat
      omega
    · subst h
      omega

/-- The characters of hosts are printable. -/
theorem isPrintable_of_isNameChar {c : Char} (h : isNameChar c.toLower = true ∨ c = ':') :
    isPrintable c = true := by
  have hrange : 0x20 ≤ c.toNat ∧ c.toNat ≤ 0x7E := by
    rcases h with hname | rfl
    · have hplain := toNat_of_isPlainChar (isPlainChar_of_isNameChar hname)
      rcases toLower_cases c with ⟨hsame, _⟩ | ⟨_, _, _⟩
      · rw [hsame] at hplain
        omega
      · omega
    · decide
  simp [isPrintable, hrange.1, hrange.2]

/-- Other characters do not occur in names. -/
theorem HostName.not_mem (name : HostName) {c : Char} (hc : isNameChar c.toLower = false) :
    c ∉ name.text := by
  intro hmem
  rw [name.chars c hmem] at hc
  cases hc

/-- The characters of an IPv6 address. -/
theorem Address6.chars (address : Address6) :
    ∀ c ∈ address.text, isNameChar c.toLower = true ∨ c = ':' := by
  intro c hc
  rcases address.valid.chars _ (List.mem_map_of_mem hc) with hname | hcolon
  · exact .inl hname
  · exact .inr (toLower_eq_colon_iff.mp hcolon)

/-- Other characters do not occur in it. -/
theorem Address6.not_mem (address : Address6) {c : Char} (hc : isNameChar c.toLower = false)
    (hcolon : c ≠ ':') : c ∉ address.text := by
  intro hmem
  rcases address.chars c hmem with hname | heq
  · rw [hname] at hc
    cases hc
  · exact hcolon heq

/-- An IPv6 address has two colons or more. -/
theorem Address6.two_le_count (address : Address6) : 2 ≤ address.text.count ':' := by
  have hcount : (address.text.map Char.toLower).count ':' = address.text.count ':' := by
    rw [List.count_eq_countP, List.countP_map, List.count_eq_countP]
    refine List.countP_congr fun c _ => ?_
    simp [toLower_eq_colon_iff]
  rw [← hcount]
  exact address.valid.two_le_count

/-- Ports are written with digits. -/
theorem Port.isDigit_of_mem (port : Port) {c : Char} (hc : c ∈ port.text) : c.isDigit = true :=
  isDigit_of_mem_toDigits_ten hc

/-- There is no colon in a port. -/
theorem Port.colon_not_mem (port : Port) : ':' ∉ port.text := fun hc =>
  absurd (port.isDigit_of_mem hc) (by decide)

end Characters

section Splits

variable {c : Char} {before after : List Char}

/-- Everything before the first such character. -/
theorem beforeFirst_of_first (h : c ∉ before) : beforeFirst c (before ++ c :: after) = before := by
  have hbefore : ∀ d ∈ before, (d != c) = true := by
    intro d hd
    rw [bne_iff_ne]
    rintro rfl
    exact h hd
  rw [beforeFirst, List.takeWhile_append_of_pos hbefore, List.takeWhile_cons_of_neg (by simp),
    List.append_nil]

/-- Everything after the last such character. -/
theorem afterLast_of_last (h : c ∉ after) : afterLast c (before ++ c :: after) = after := by
  have hreverse : (before ++ c :: after).reverse = after.reverse ++ c :: before.reverse := by simp
  have hfirst : beforeFirst c (after.reverse ++ c :: before.reverse) = after.reverse :=
    beforeFirst_of_first (mt List.mem_reverse.mp h)
  rw [beforeFirst] at hfirst
  rw [afterLast, List.rtakeWhile, hreverse, hfirst, List.reverse_reverse]

/-- An address that does not start with a bracket has none. -/
theorem hasBrackets_eq_false {text : List Char} (h : text.head? ≠ some '[') :
    hasBrackets text = false := by
  unfold hasBrackets
  split
  · exact absurd rfl h
  · rfl

/-- The installer splits every address into its host, without brackets, and its port. -/
theorem splitAddress_text (address : ServerAddress) :
    splitAddress address.text = (address.hostText, address.port.text) := by
  -- a name starts with a character of a name
  have hfirst (name : HostName) (rest : List Char) : (name.text ++ rest).head? ≠ some '[' := by
    intro hhead
    rw [List.head?_append_of_ne_nil _ name.nonempty] at hhead
    exact name.not_mem (by decide) (List.mem_of_head? hhead)
  cases address with
  | host name =>
    have hbrackets : hasBrackets name.text = false :=
      hasBrackets_eq_false (by simpa using hfirst name [])
    have hcolon : ':' ∉ name.text := name.not_mem (by decide)
    have hport : "443".toList = decimal 443 := by decide
    rw [ServerAddress.text, splitAddress, hbrackets, if_neg Bool.false_ne_true,
      if_neg fun h => hcolon h.1, hport]
    rfl
  | hostPort name port =>
    have hcolon : ':' ∉ name.text := name.not_mem (by decide)
    have hcount : (name.text ++ ':' :: port.text).count ':' = 1 := by
      simp [List.count_append, List.count_eq_zero_of_not_mem hcolon,
        List.count_eq_zero_of_not_mem port.colon_not_mem]
    rw [ServerAddress.text, splitAddress, hasBrackets_eq_false (hfirst name _),
      if_neg Bool.false_ne_true, if_pos ⟨by simp, by omega⟩, beforeFirst_of_first hcolon,
      afterLast_of_last port.colon_not_mem]
    rfl
  | bracketed address port =>
    have hbrackets : hasBrackets ('[' :: (address.text ++ ']' :: ':' :: port.text)) = true :=
      decide_eq_true ⟨address.text, port.text, by simp⟩
    have hclosing : ']' ∉ '[' :: address.text := by
      simp [address.not_mem (show isNameChar ']'.toLower = false by decide) (by decide)]
    have hhost : beforeFirst ']' ('[' :: (address.text ++ ']' :: ':' :: port.text)) =
        '[' :: address.text := beforeFirst_of_first hclosing
    have hport : afterLast ':' ('[' :: (address.text ++ ']' :: ':' :: port.text)) = port.text := by
      have hsplit : '[' :: (address.text ++ ']' :: ':' :: port.text) =
          ('[' :: (address.text ++ [']'])) ++ ':' :: port.text := by simp
      rw [hsplit, afterLast_of_last port.colon_not_mem]
    rw [ServerAddress.text, splitAddress, if_pos hbrackets, hhost, hport]
    rfl

end Splits

section Installed

/-- The number of a port in the configuration of the worker. -/
def Port.int64 (port : Port) : Int64 := Int64.ofNat port.number

/-- A port fits into 64 bits. -/
theorem Port.toInt_int64 (port : Port) : port.int64.toInt = port.number := by
  have := port.valid
  exact Int64.toInt_ofNat_of_lt (by omega)

/-- The host of a server address can be written into a configuration file. -/
theorem ServerAddress.isPrintable_hostText (address : ServerAddress) :
    IsPrintable address.hostText := by
  cases address with
  | host name | hostPort name =>
    exact fun c hc => isPrintable_of_isNameChar (.inl (name.chars c hc))
  | bracketed address => exact fun c hc => isPrintable_of_isNameChar (address.chars c hc)

/-- The variables with the host and the port of an address. -/
theorem Variables.withAddress_text (v : Variables) (address : ServerAddress) :
    v.withAddress address.text =
      { v with serverHost := address.hostText, serverPort := address.port.text } := by
  rw [Variables.withAddress, splitAddress_text]

/-- The configuration of a worker that was installed with an address. -/
def Variables.installed (v : Variables) (address : ServerAddress) : WorkerConfig :=
  (v.withAddress address.text).config address.port.int64

variable {marks : Text.Marks} {v : Variables} {f : Foundation}

/-- The worker loads the host and the port. -/
theorem load_withAddress {yams : List Char → Except String Document} (hyams : FollowsYaml yams)
    (hprintable : ∀ text ∈ v.texts, IsPrintable text)
    (htoken : IsWorkerToken marks v.writeWorkerToken) (address : ServerAddress) :
    WorkerConfig.load marks yams (v.withAddress address.text).configYaml =
      .ok (v.installed address) := by
  have htexts : ∀ text ∈ (v.withAddress address.text).texts, IsPrintable text := by
    rw [v.withAddress_text]
    exact List.forall_mem_cons.mpr
      ⟨address.isPrintable_hostText, (List.forall_mem_cons.mp hprintable).2⟩
  have hport : (v.withAddress address.text).serverPort = decimal address.port.int64.toInt := by
    rw [v.withAddress_text, address.port.toInt_int64]
    rfl
  exact Variables.load_configYaml hyams hport htexts htoken

/-- The installed address of the server is the host that the installer was given. -/
theorem Variables.serverAddress_installed (v : Variables) (address : ServerAddress) :
    (v.installed address).serverAddress = address.hostText := by
  rw [Variables.installed, v.withAddress_text]
  rfl

/-- No host has a scheme. -/
theorem ServerAddress.scheme_not_infix (address : ServerAddress) :
    ¬"://".toList <:+: address.hostText := by
  intro hinfix
  have hslash : '/' ∈ address.hostText := hinfix.subset (by decide)
  cases address with
  | host name | hostPort name => exact name.not_mem (by decide) hslash
  | bracketed address => exact address.not_mem (by decide) (by decide) hslash

/-- The worker parses its host behind the scheme. -/
theorem baseComponents_installed (v : Variables) (f : Foundation) (address : ServerAddress) :
    (v.installed address).baseComponents f "https".toList =
      match f.components ("https".toList ++ "://".toList ++ address.hostText) with
      | none => .error (.invalidServerAddress address.hostText)
      | some components =>
        if components.host = none then .error (.invalidServerAddress address.hostText)
        else .ok { components with scheme := some "https".toList } := by
  rw [WorkerConfig.baseComponents, v.serverAddress_installed, if_neg address.scheme_not_infix]

/-- The worker sets the port of the address. -/
theorem httpBaseURL_installed (v : Variables) (f : Foundation) (address : ServerAddress) :
    (v.installed address).httpBaseURL f =
      (v.installed address).baseURL f "https".toList (some (address.port.number : ℤ)) 8080 := by
  have hport : (v.installed address).httpPort = address.port.int64 := rfl
  have hpositive : 0 < (v.installed address).httpPort := by
    have hzero : (0 : Int64).toInt = 0 := rfl
    rw [hport, Int64.lt_iff_toInt_lt, address.port.toInt_int64, hzero]
    have := address.port.valid
    omega
  rw [WorkerConfig.httpBaseURL, if_pos hpositive, hport, address.port.toInt_int64]
  rfl

/-- A host without brackets reaches the worker unchanged. -/
theorem httpBaseURL_of_name (hf : f.Standard) {address : ServerAddress} {name : HostName}
    (hhost : address.hostText = name.text) (hauthority : address.authorityHost = name.text) :
    (v.installed address).httpBaseURL f = .ok address.url := by
  have hscheme : "https".toList ∈ ["http".toList, "https".toList] := by decide
  have hname : IsHost name.text := .name name
  rw [httpBaseURL_installed, WorkerConfig.baseURL, baseComponents_installed, hhost,
    hf.accepts _ hscheme _ hname]
  simp only [reduceCtorEq, if_false, Option.getD_some]
  rw [hf.prints _ hscheme _ hname]
  delta ServerAddress.url
  rw [hauthority]
  rfl

/-- An IPv6 address without brackets is no authority. -/
theorem not_isAuthority (address : Address6) : ¬IsAuthority address.text := by
  rintro ⟨host, rest, htext, hhost | hhost, hrest⟩
  · -- a name has no colon, and a port has one before its digits
    have hcount := address.two_le_count
    have hname : ':' ∉ host := fun hc => absurd (List.all_eq_true.mp hhost _ hc) (by decide)
    rw [htext, List.count_append, List.count_eq_zero_of_not_mem hname] at hcount
    rcases hrest with rfl | ⟨digits, rfl, hdigits⟩
    · simp at hcount
    · have hport : ':' ∉ digits := fun hc => absurd (List.all_eq_true.mp hdigits _ hc) (by decide)
      simp [List.count_eq_zero_of_not_mem hport] at hcount
  · have hbracket : '[' ∈ address.text := by
      rw [htext]
      exact List.mem_append_left _ (List.mem_of_head? hhost)
    exact address.not_mem (by decide) (by decide) hbracket

/-- The worker rejects an IPv6 address. -/
theorem httpBaseURL_of_address6 (hf : f.Standard) (address : Address6) (port : Port) :
    (v.installed (.bracketed address port)).httpBaseURL f =
      .error (.invalidServerAddress address.text) := by
  have hscheme : "https".toList ∈ ["http".toList, "https".toList] := by decide
  have hchars : ∀ c ∈ ['/', '?', '#', '@'], c ∉ address.text := by
    simp only [List.forall_mem_cons]
    exact ⟨address.not_mem (by decide) (by decide), address.not_mem (by decide) (by decide),
      address.not_mem (by decide) (by decide), address.not_mem (by decide) (by decide), nofun⟩
  rw [httpBaseURL_installed, WorkerConfig.baseURL, baseComponents_installed,
    ServerAddress.hostText, hf.rejects _ hscheme _ hchars (not_isAuthority address)]

end Installed

/-- The worker reaches the server at the address that it was installed with exactly
when that is not an IPv6 address in brackets. -/
theorem installed_url_iff {f : Foundation} (hf : f.Standard) {marks : Text.Marks}
    {yams : List Char → Except String Document} (hyams : FollowsYaml yams) {v : Variables}
    (hprintable : ∀ text ∈ v.texts, IsPrintable text)
    (htoken : IsWorkerToken marks v.writeWorkerToken) (address : ServerAddress) :
    (∃ config, WorkerConfig.load marks yams (v.withAddress address.text).configYaml = .ok config ∧
      config.httpBaseURL f = .ok address.url) ↔ address.isBracketed = false := by
  rw [load_withAddress hyams hprintable htoken]
  cases address with
  | host name =>
    exact iff_of_true ⟨_, rfl, httpBaseURL_of_name hf rfl rfl⟩ rfl
  | hostPort name port =>
    exact iff_of_true ⟨_, rfl, httpBaseURL_of_name hf rfl rfl⟩ rfl
  | bracketed address port =>
    refine iff_of_false ?_ Bool.noConfusion
    rintro ⟨config, hload, hurl⟩
    cases hload
    cases (httpBaseURL_of_address6 hf address port).symm.trans hurl

section Samples

/-- The characters of names are those of registered names. -/
theorem isRegNameChar_of_isNameChar {c : Char} (h : isNameChar c.toLower = true) :
    isRegNameChar c = true := by
  rcases toLower_cases c with ⟨hsame, _⟩ | ⟨_, hlow, hhigh⟩
  · rw [hsame] at h
    simp only [isNameChar, Bool.or_eq_true, beq_iff_eq] at h
    rcases h with (((hlower | hdigit) | rfl) | rfl) | rfl
    · have halpha : (c.isUpper || c.isLower) = true := by rw [hlower, Bool.or_true]
      simp [isRegNameChar, Char.isAlphanum, show c.isAlpha = true from halpha]
    · simp [isRegNameChar, Char.isAlphanum, hdigit]
    all_goals decide
  · have hupper : c.isUpper = true := by
      delta Char.isUpper
      simpa [UInt32.le_iff_toNat_le, ← Char.toNat_val] using ⟨hlow, hhigh⟩
    have halpha : (c.isUpper || c.isLower) = true := by rw [hupper, Bool.true_or]
    simp [isRegNameChar, Char.isAlphanum, show c.isAlpha = true from halpha]

/-- The scheme and the authority of a URL. -/
def schemeAndAuthority (text : List Char) : Option (List Char × List Char) :=
  if "http://".toList.isPrefixOf text then some ("http".toList, text.drop 7)
  else if "https://".toList.isPrefixOf text then some ("https".toList, text.drop 8)
  else none

/-- A parser of URLs with a host alone, which are all that a worker gives it. -/
def hostFoundation : Foundation where
  components text :=
    match schemeAndAuthority text with
    | none => none
    | some (scheme, host) =>
      if host.all isRegNameChar ∨ host.head? = some '[' ∧ host.getLast? = some ']' then
        some ⟨some scheme, some host, none, [], none, none⟩
      else none
  url
    | ⟨some scheme, some host, some port, [], none, none⟩ =>
      some (scheme ++ "://".toList ++ host ++ ':' :: decimal port)
    | _ => none

/-- The scheme and the authority of a URL are found again. -/
theorem schemeAndAuthority_append {scheme : List Char}
    (h : scheme ∈ ["http".toList, "https".toList]) (authority : List Char) :
    schemeAndAuthority (scheme ++ "://".toList ++ authority) = some (scheme, authority) := by
  rcases List.mem_pair.mp h with rfl | rfl
  · rfl
  · rfl

/-- It follows RFC 3986. -/
theorem hostFoundation_standard : hostFoundation.Standard where
  accepts scheme hscheme host hhost := by
    simp only [hostFoundation, schemeAndAuthority_append hscheme]
    refine if_pos ?_
    cases hhost with
    | name name =>
      exact .inl (List.all_eq_true.mpr fun c hc => isRegNameChar_of_isNameChar (name.chars c hc))
    | literal address =>
      have hlast : (('[' :: address.text) ++ [']']).getLast? = some ']' := List.getLast?_concat
      exact .inr ⟨rfl, hlast⟩
  rejects scheme hscheme authority _ hnot := by
    simp only [hostFoundation, schemeAndAuthority_append hscheme]
    refine if_neg fun h => hnot ⟨authority, [], (List.append_nil _).symm, ?_, .inl rfl⟩
    exact h.imp id And.left
  prints scheme _ host _ port := rfl

/-- The address `example.com:8443`. -/
def exampleAddress : ServerAddress :=
  .hostPort ⟨"example.com".toList, by decide, List.all_eq_true.mp rfl⟩ ⟨8443, by decide⟩

/-- The address `[2001:db8::1]:8443`. -/
def bracketedAddress : ServerAddress :=
  .bracketed ⟨"2001:db8::1".toList, firstHost.valid.resolve_left (by decide)⟩ ⟨8443, by decide⟩

/-- A worker that is installed with `example.com:8443` reaches it. -/
theorem installed_url_example :
    ∃ config, WorkerConfig.load diacritics flatYams
        (quotedVariables.withAddress "example.com:8443".toList).configYaml = .ok config ∧
      config.httpBaseURL hostFoundation = .ok "https://example.com:8443".toList := by
  have htext : exampleAddress.text = "example.com:8443".toList := by decide
  have hurl : exampleAddress.url = "https://example.com:8443".toList := by decide
  have hreached := (installed_url_iff hostFoundation_standard flatYams_follows
    isPrintable_quotedVariables isWorkerToken_quotedVariables exampleAddress).mpr rfl
  rwa [htext, hurl] at hreached

/-- A worker that is installed with `[2001:db8::1]:8443` has no valid address. -/
theorem installed_url_bracketed :
    bracketedAddress.text = "[2001:db8::1]:8443".toList ∧
    ∃ config, WorkerConfig.load diacritics flatYams
        (quotedVariables.withAddress "[2001:db8::1]:8443".toList).configYaml = .ok config ∧
      config.serverAddress = "2001:db8::1".toList ∧ config.httpPort = 8443 ∧
      config.httpBaseURL hostFoundation =
        .error (.invalidServerAddress "2001:db8::1".toList) := by
  have htext : bracketedAddress.text = "[2001:db8::1]:8443".toList := by decide
  refine ⟨htext, quotedVariables.installed bracketedAddress, ?_, ?_, rfl, ?_⟩
  · rw [← htext]
    exact load_withAddress flatYams_follows isPrintable_quotedVariables
      isWorkerToken_quotedVariables bracketedAddress
  · exact quotedVariables.serverAddress_installed bracketedAddress
  · exact httpBaseURL_of_address6 hostFoundation_standard _ _

end Samples

end MiniControl.Installer
