import MiniControl.Rest.Routes

/-!
# The spellings of a host

A host can be written in upper or lower case, with white space around it, with a
scheme and with a port, and an IPv6 address with brackets or without. `normalizeHost`
takes every such spelling to the host itself, except that it cuts an IPv6 address
without brackets after its first group. The value of a request goes through it twice,
so that brackets do not help there.
-/

namespace MiniControl.Rest

open Text

section Hosts

/-- A character of a DNS name or an IPv4 address, in lower case. -/
def isNameChar (c : Char) : Bool :=
  c.isLower || c.isDigit || c == '-' || c == '.' || c == '_'

/-- A hexadecimal digit, in lower case. -/
def isHexDigit (c : Char) : Bool := c.isDigit || ('a' ≤ c && c ≤ 'f')

/-- A group of an IPv6 address. -/
def isGroup (group : List Char) : Bool :=
  1 ≤ group.length && group.length ≤ 4 && group.all isHexDigit

/-- A number from 0 to 255 without leading zeros. -/
def isOctet (octet : List Char) : Bool :=
  octet.all Char.isDigit && (octet.length == 1 || octet.length == 2 && octet.head? != some '0' ||
    octet.length == 3 && octet.head? != some '0' && String.ofList octet ≤ "255")

/-- An IPv4 address, as it can end an IPv6 address. -/
def isDotted (text : List Char) : Bool :=
  (text.splitOn '.').length == 4 && (text.splitOn '.').all isOctet

/-- Parts that stand for the given number of groups: each is a group, and the last one
can be an IPv4 address in the place of two. -/
inductive IsGroups : List (List Char) → ℕ → Prop
  | nil : IsGroups [] 0
  | dotted {text : List Char} : isDotted text = true → IsGroups [text] 2
  | cons {group : List Char} {parts : List (List Char)} {n : ℕ} : isGroup group = true →
      IsGroups parts n → IsGroups (group :: parts) (n + 1)

/-- The parts with colons between them. -/
def joinColon (parts : List (List Char)) : List Char := [':'].intercalate parts

/-- An IPv6 address in lower case: eight groups, or fewer around `::`. -/
inductive IsIPv6 : List Char → Prop
  | full {parts : List (List Char)} : IsGroups parts 8 → IsIPv6 (joinColon parts)
  | compressed {left right : List (List Char)} {n : ℕ} : left.all isGroup = true →
      IsGroups right n → left.length + n ≤ 7 →
      IsIPv6 (joinColon left ++ ':' :: ':' :: joinColon right)

/-- A DNS name, an IPv4 address or an IPv6 address, in lower case. -/
structure Host where
  text : String
  valid : text ≠ "" ∧ text.toList.all isNameChar = true ∨ IsIPv6 text.toList

end Hosts

namespace Host

/-- The address is an IPv6 address. -/
def isIPv6 (h : Host) : Bool := ':' ∈ h.text.toList

/-- A port, if there is one: digits after a colon. -/
def portText : Option (List Char) → String
  | none => ""
  | some digits => String.ofList (':' :: digits)

/-- The authority of a URL: an IPv6 address stands in brackets. -/
def authority (h : Host) (port : Option (List Char)) : String :=
  (if h.isIPv6 then "[" ++ h.text ++ "]" else h.text) ++ portText port

/-- The port consists of digits. -/
def IsPort (port : Option (List Char)) : Prop := ∀ digits ∈ port, digits.all Char.isDigit = true

/-- A URL scheme in lower case. -/
def IsScheme (scheme : String) : Prop :=
  (∃ c ∈ scheme.toList.head?, c.isLower = true) ∧
    scheme.toList.all (fun c => c.isLower || c.isDigit || c == '+' || c == '-' || c == '.') = true

/-- The spellings in lower case without white space around them. -/
inductive Plain (h : Host) : String → Prop
  /-- The host alone; an IPv6 address without brackets and port. -/
  | bare : Plain h h.text
  | authority {port : Option (List Char)} : IsPort port → Plain h (h.authority port)
  | url {scheme : String} {port : Option (List Char)} : IsScheme scheme → IsPort port →
      Plain h (scheme ++ "://" ++ h.authority port)

/-- The spellings of a host: in any letter case, with white space around them. -/
def Spells (h : Host) (value : String) : Prop :=
  ∃ before core after : List Char, value = String.ofList (before ++ core ++ after) ∧
    (∀ c ∈ before, isSpace c) ∧ (∀ c ∈ after, isSpace c) ∧ (∀ c ∈ core, c.toNat < 128) ∧
    h.Plain (String.ofList (core.map Char.toLower))

/-- The host is a name, or an IPv6 address that starts with `::`. -/
def Uncut (h : Host) : Prop := h.isIPv6 = true → h.text.toList.head? = some ':'

end Host

/-- What the functions of the standard library do to the spellings of hosts. -/
structure Library.Standard (library : Library) : Prop where
  /-- `strings.ToLower` maps the characters one by one. -/
  toLower : ∃ lower : Char → Char,
    (∀ text, library.toLower text = String.ofList (text.toList.map lower)) ∧
    (∀ c, c.toNat < 128 → lower c = c.toLower) ∧ ∀ c, isSpace c = true → lower c = c
  /-- `url.Parse` finds the authority behind the scheme. -/
  parseHost : ∀ (h : Host) (scheme : String) (port : Option (List Char)), Host.IsScheme scheme →
    Host.IsPort port →
    library.parseHost (scheme ++ "://" ++ h.authority port) = some (h.authority port)

/-- What `websocket.Dial` is told about the host; an empty text stands for none. -/
structure DialOptions where
  host : String
  forwardedHost : String

/-- `internalProxyDialOptions`. -/
def Handler.internalProxyDialOptions (h : Handler) : DialOptions :=
  let browserHost := h.library.normalizeHost h.config.browserPublicHost
  if browserHost ≠ "" then ⟨browserHost, browserHost⟩ else ⟨"", ""⟩

/-- The request is made with the given options. -/
def Request.MadeWith (r : Request) (options : DialOptions) : Prop :=
  (options.host ≠ "" → r.host = options.host) ∧
    r.header "X-Forwarded-Host" = options.forwardedHost

/-- Matching as equality of two hosts: every spelling is taken to its host, different
hosts differ afterwards, a configured and a requested spelling match exactly if they are
of one host, and the server accepts its own connections. -/
structure Library.MatchesHosts (library : Library) (h h' : Host) : Prop where
  normalizes : ∀ value, h.Spells value → library.normalizeHost value = h.text
  normalizes' : ∀ value, h'.Spells value → library.normalizeHost value = h'.text
  distinct : ∀ value value', h.Spells value → h'.Spells value' → h ≠ h' →
    library.normalizeHost value ≠ library.normalizeHost value'
  hostMatches : ∀ (configured : String) (r : Request), h.Spells configured →
    h'.Spells (namedHost (r.header "X-Forwarded-Host") r.host) →
    (library.hostMatches configured (library.requestHost r) = true ↔ h = h')
  dials : ∀ (handler : Handler) (r : Request), handler.library = library →
    h.Spells handler.config.browserPublicHost → r.MadeWith handler.internalProxyDialOptions →
    handler.matchesHost .browser r = true

section Characters

/-- The characters of the spellings in lower case. -/
def isPlainChar (c : Char) : Bool :=
  isNameChar c || c ∈ [':', '[', ']', '/', '+']

variable {c : Char}

/-- The code points of small letters. -/
theorem toNat_of_isLower (h : c.isLower = true) : 97 ≤ c.toNat ∧ c.toNat ≤ 122 := by
  delta Char.isLower at h
  simpa [UInt32.le_iff_toNat_le, ← Char.toNat_val] using h

/-- The code points of digits. -/
theorem toNat_of_isDigit (h : c.isDigit = true) : 48 ≤ c.toNat ∧ c.toNat ≤ 57 := by
  simpa [Char.isDigit, UInt32.le_iff_toNat_le, ← Char.toNat_val] using h

/-- The numbers of the characters of the spellings. -/
theorem toNat_of_isPlainChar (h : isPlainChar c = true) :
    33 ≤ c.toNat ∧ c.toNat ≤ 64 ∨ 91 ≤ c.toNat ∧ c.toNat ≤ 126 := by
  simp only [isPlainChar, isNameChar, Bool.or_eq_true, beq_iff_eq, decide_eq_true_eq,
    List.mem_cons, List.not_mem_nil, or_false] at h
  rcases h with ((((hlower | hdigit) | rfl) | rfl) | rfl) | rfl | rfl | rfl | rfl | rfl
  · have := toNat_of_isLower hlower
    omega
  · have := toNat_of_isDigit hdigit
    omega
  all_goals decide

/-- The characters of names are plain. -/
theorem isPlainChar_of_isNameChar (h : isNameChar c = true) : isPlainChar c = true := by
  simp [isPlainChar, h]

/-- They are no white space. -/
theorem isSpace_of_isPlainChar (h : isPlainChar c = true) : isSpace c = false := by
  have := toNat_of_isPlainChar h
  simp only [isSpace, Bool.or_eq_false_iff, Bool.and_eq_false_iff, decide_eq_false_iff_not,
    beq_eq_false_iff_ne]
  omega

/-- A character outside `A` to `Z` stays as it is. -/
theorem toLower_of_toNat (h : c.toNat < 65 ∨ 90 < c.toNat) : c.toLower = c := by
  rcases toLower_cases c with ⟨hsame, _⟩ | ⟨_, _, _⟩
  · exact hsame
  · omega

/-- The characters of the spellings are in lower case. -/
theorem toLower_of_isPlainChar (h : isPlainChar c = true) : c.toLower = c := by
  have := toNat_of_isPlainChar h
  exact toLower_of_toNat (by omega)

/-- White space is in no letter case. -/
theorem toLower_of_isSpace (h : isSpace c = true) : c.toLower = c := by
  simp only [isSpace, Bool.or_eq_true, Bool.and_eq_true, decide_eq_true_eq, beq_iff_eq] at h
  exact toLower_of_toNat (by omega)

end Characters

section Texts

variable {parts : List (List Char)} {text : List Char}

/-- What holds of the separator and of the parts holds of what is joined of them. -/
theorem forall_mem_intercalate {P : Char → Prop} {separator : Char} (hseparator : P separator)
    (hparts : ∀ part ∈ parts, ∀ c ∈ part, P c) :
    ∀ c ∈ [separator].intercalate parts, P c := by
  induction parts with
  | nil => simp [List.intercalate]
  | cons part parts ih =>
    have hpart := hparts part List.mem_cons_self
    have hrest := ih fun part hpart => hparts part (List.mem_cons_of_mem _ hpart)
    cases parts with
    | nil => simpa [List.intercalate] using hpart
    | cons next parts =>
      have hjoin : [separator].intercalate (part :: next :: parts) =
          part ++ separator :: [separator].intercalate (next :: parts) := by
        simp [List.intercalate]
      rw [hjoin]
      intro c hc
      rcases List.mem_append.mp hc with hleft | hright
      · exact hpart c hleft
      · rcases List.mem_cons.mp hright with rfl | hlater
        · exact hseparator
        · exact hrest c hlater

/-- Digits are characters of names. -/
theorem isNameChar_of_isDigit {c : Char} (h : c.isDigit = true) : isNameChar c = true := by
  simp [isNameChar, h]

/-- Hexadecimal digits in small letters are characters of names. -/
theorem isNameChar_of_isHexDigit {c : Char} (h : isHexDigit c = true) : isNameChar c = true := by
  simp only [isHexDigit, Bool.or_eq_true, Bool.and_eq_true, decide_eq_true_eq] at h
  rcases h with hdigit | ⟨hlow, hhigh⟩
  · exact isNameChar_of_isDigit hdigit
  · have hlower : c.isLower = true := by
      delta Char.isLower
      rw [Bool.and_eq_true, decide_eq_true_eq, decide_eq_true_eq]
      exact ⟨hlow, UInt32.le_trans hhigh (by decide : 'f'.val ≤ 'z'.val)⟩
    simp [isNameChar, hlower]

/-- A group of an IPv6 address has characters of names only. -/
theorem isNameChar_of_isGroup {group : List Char} (h : isGroup group = true) :
    ∀ c ∈ group, isNameChar c = true := by
  rw [isGroup, Bool.and_eq_true] at h
  exact fun c hc => isNameChar_of_isHexDigit (List.all_eq_true.mp h.2 c hc)

/-- An IPv4 address has characters of names only. -/
theorem isNameChar_of_isDotted (h : isDotted text = true) :
    ∀ c ∈ text, isNameChar c = true := by
  rw [isDotted, Bool.and_eq_true] at h
  have hjoin : ['.'].intercalate (text.splitOn '.') = text := List.intercalate_splitOn '.'
  rw [← hjoin]
  refine forall_mem_intercalate (by decide) fun octet hoctet c hc => ?_
  have hdigits := List.all_eq_true.mp h.2 octet hoctet
  rw [isOctet, Bool.and_eq_true] at hdigits
  exact isNameChar_of_isDigit (List.all_eq_true.mp hdigits.1 c hc)

/-- The groups of an IPv6 address have characters of names only. -/
theorem IsGroups.isNameChar {n : ℕ} (h : IsGroups parts n) :
    ∀ part ∈ parts, ∀ c ∈ part, isNameChar c = true := by
  induction h with
  | nil => simp
  | dotted hdotted => simpa using isNameChar_of_isDotted hdotted
  | cons hgroup _ ih => simpa using ⟨isNameChar_of_isGroup hgroup, ih⟩

/-- Parts for `n` groups are at least half as many. -/
theorem IsGroups.le_length {n : ℕ} (h : IsGroups parts n) :
    n ≤ parts.length + 1 := by
  induction h with
  | nil => simp
  | dotted => simp
  | cons _ _ ih => simpa using ih

/-- The characters of an IPv6 address. -/
theorem IsIPv6.chars (h : IsIPv6 text) :
    ∀ c ∈ text, isNameChar c = true ∨ c = ':' := by
  have hjoin : ∀ parts : List (List Char), (∀ part ∈ parts, ∀ c ∈ part, isNameChar c = true) →
      ∀ c ∈ joinColon parts, isNameChar c = true ∨ c = ':' := fun parts hparts =>
    forall_mem_intercalate (.inr rfl) fun part hpart c hc => .inl (hparts part hpart c hc)
  cases h with
  | full hgroups => exact hjoin _ hgroups.isNameChar
  | compressed hleft hright _ =>
    have hleft := hjoin _ fun part hpart =>
      isNameChar_of_isGroup (List.all_eq_true.mp hleft part hpart)
    have hright := hjoin _ hright.isNameChar
    intro c hc
    simp only [List.mem_append, List.mem_cons] at hc
    rcases hc with hc | rfl | rfl | hc
    · exact hleft c hc
    · exact .inr rfl
    · exact .inr rfl
    · exact hright c hc

/-- An IPv6 address has two colons or more. -/
theorem IsIPv6.two_le_count (h : IsIPv6 text) : 2 ≤ text.count ':' := by
  cases h with
  | full hgroups =>
    rename_i parts
    have hlength := hgroups.le_length
    match parts, hlength with
    | a :: b :: c :: rest, _ =>
      rw [joinColon, List.intercalate_cons_cons, List.intercalate_cons_cons]
      simp only [List.count_append, List.count_singleton_self]
      omega
  | compressed =>
    rw [List.count_append, List.count_cons_self, List.count_cons_self]
    omega

/-- An IPv6 address has a colon. -/
theorem IsIPv6.colon_mem (h : IsIPv6 text) : ':' ∈ text :=
  List.count_pos_iff.mp (Nat.lt_of_lt_of_le (by decide) h.two_le_count)

namespace Host

variable {h : Host} {port : Option (List Char)} {value : String}

/-- A host is written with characters of names and colons. -/
theorem text_chars (h : Host) : ∀ c ∈ h.text.toList, isNameChar c = true ∨ c = ':' := by
  rcases h.valid with ⟨_, hname⟩ | haddress
  · exact fun c hc => .inl (List.all_eq_true.mp hname c hc)
  · exact haddress.chars

/-- No host is written as the empty text. -/
theorem text_ne_empty (h : Host) : h.text ≠ "" := by
  rcases h.valid with ⟨hne, _⟩ | haddress
  · exact hne
  · intro hempty
    have hcolon := haddress.colon_mem
    rw [hempty] at hcolon
    cases hcolon

/-- Any other character does not occur in a host. -/
theorem not_mem_text {c : Char} (hname : isNameChar c = false) (hcolon : c ≠ ':') :
    c ∉ h.text.toList := by
  intro hc
  rcases h.text_chars c hc with htrue | heq
  · rw [hname] at htrue
    cases htrue
  · exact hcolon heq

/-- A host is written with plain characters. -/
theorem text_isPlainChar (h : Host) : ∀ c ∈ h.text.toList, isPlainChar c = true := by
  intro c hc
  rcases h.text_chars c hc with hname | rfl
  · exact isPlainChar_of_isNameChar hname
  · decide

/-- The characters of an authority. -/
theorem authority_chars (hport : IsPort port) :
    ∀ c ∈ (h.authority port).toList, isNameChar c = true ∨ c ∈ [':', '[', ']'] := by
  have hporttext : ∀ c ∈ (portText port).toList, isNameChar c = true ∨ c = ':' := by
    cases port with
    | none => simp [portText]
    | some digits =>
      simp only [portText, String.toList_ofList, List.mem_cons]
      rintro c (rfl | hc)
      · exact .inr rfl
      · exact .inl (isNameChar_of_isDigit (List.all_eq_true.mp (hport digits rfl) c hc))
  have hcolon : ∀ c, isNameChar c = true ∨ c = ':' → isNameChar c = true ∨ c ∈ [':', '[', ']'] :=
    fun c hc => hc.imp_right fun heq => by simp [heq]
  intro c hc
  rw [authority, String.toList_append, List.mem_append] at hc
  rcases hc with hc | hc
  · split_ifs at hc
    · simp only [String.toList_append, List.mem_append] at hc
      rcases hc with (hc | hc) | hc
      · have hopen : c = '[' := by simpa using hc
        exact .inr (by simp [hopen])
      · exact hcolon c (h.text_chars c hc)
      · have hclose : c = ']' := by simpa using hc
        exact .inr (by simp [hclose])
    · exact hcolon c (h.text_chars c hc)
  · exact hcolon c (hporttext c hc)

/-- A host with a port is written with plain characters, the brackets of an address
included. -/
theorem authority_isPlainChar (hport : IsPort port) :
    ∀ c ∈ (h.authority port).toList, isPlainChar c = true := by
  intro c hc
  rcases authority_chars hport c hc with hname | hother
  · exact isPlainChar_of_isNameChar hname
  · revert hother
    simp only [List.mem_cons, List.not_mem_nil, or_false]
    rintro (rfl | rfl | rfl) <;> decide

/-- A host with a port has no slash, so that it is not taken for a path. -/
theorem slash_not_mem_authority (hport : IsPort port) :
    '/' ∉ (h.authority port).toList := fun hslash => by
  rcases authority_chars hport '/' hslash with hname | hother
  · exact absurd hname (by decide)
  · exact absurd hother (by decide)

/-- The characters of every spelling in lower case. -/
theorem Plain.isPlainChar (hplain : h.Plain value) :
    ∀ c ∈ value.toList, isPlainChar c = true := by
  cases hplain with
  | bare => exact h.text_isPlainChar
  | authority hport => exact authority_isPlainChar hport
  | url hscheme hport =>
    intro c hc
    simp only [String.toList_append, List.mem_append] at hc
    rcases hc with (hc | hc) | hc
    · have hall := List.all_eq_true.mp hscheme.2 c hc
      simp only [Bool.or_eq_true, beq_iff_eq] at hall
      rcases hall with (((hlower | hdigit) | rfl) | rfl) | rfl
      · simp [Rest.isPlainChar, isNameChar, hlower]
      · simp [Rest.isPlainChar, isNameChar, hdigit]
      all_goals decide
    · have hseparator : c = ':' ∨ c = '/' := by simpa using hc
      rcases hseparator with rfl | rfl <;> decide
    · exact authority_isPlainChar hport c hc

/-- No spelling is empty. -/
theorem Plain.ne_empty (hplain : h.Plain value) : value ≠ "" := by
  have hauthority : ∀ port, h.authority port ≠ "" := by
    intro port hempty
    have htext := h.text_ne_empty
    rw [Host.authority, String.append_eq_empty_iff] at hempty
    split_ifs at hempty
    · simp at hempty
    · exact htext hempty.1
  cases hplain with
  | bare => exact h.text_ne_empty
  | authority _ => exact hauthority _
  | url _ _ => simp

/-- The plain spellings of a host are in ASCII. -/
theorem Plain.toNat_lt (hplain : h.Plain value) :
    ∀ c ∈ value.toList, c.toNat < 128 := by
  intro c hc
  have := toNat_of_isPlainChar (hplain.isPlainChar c hc)
  omega

/-- The plain spellings of a host have no capitals. -/
theorem Plain.map_toLower (hplain : h.Plain value) :
    String.ofList (value.toList.map Char.toLower) = value := by
  rw [List.map_congr_left fun c hc => toLower_of_isPlainChar (hplain.isPlainChar c hc),
    List.map_id', String.ofList_toList]

/-- A spelling in lower case is a spelling. -/
theorem Plain.spells (hplain : h.Plain value) : h.Spells value := by
  refine ⟨[], value.toList, [], by simp, by simp, by simp, hplain.toNat_lt, ?_⟩
  rw [hplain.map_toLower]
  exact hplain

end Host

end Texts

section Normalising

variable {library : Library} {h h' : Host} {before after : List Char} {value : String}

/-- The first separator cuts. -/
theorem cut_of_first {separator : Char} {text : String}
    (htext : text.toList = before ++ separator :: after) (hbefore : separator ∉ before) :
    cut separator text = some (String.ofList before, String.ofList after) := by
  have hall : ∀ c ∈ before, decide (c ≠ separator) = true := by
    intro c hc
    simpa using fun heq : c = separator => hbefore (heq ▸ hc)
  have hspan : text.toList.span (· ≠ separator) = (before, separator :: after) := by
    rw [htext, List.span_eq_takeWhile_dropWhile, List.takeWhile_append_of_pos hall,
      List.dropWhile_append_of_pos hall]
    simp
  rw [cut, hspan]

/-- What is left of a value with a colon: the part before the first one, unless that is
empty. -/
theorem stripPort_of_colon (hvalue : value.toList = before ++ ':' :: after) (hcolon : ':' ∉ before)
    (hbracket : value.toList.head? ≠ some '[') :
    stripPort value = if before = [] then value else String.ofList before := by
  unfold stripPort
  split
  next rest heq => simp [heq] at hbracket
  next =>
    rw [cut_of_first hvalue hcolon]
    by_cases hempty : before = []
    · simp [hempty]
    · simp [hempty, hcolon]

/-- The bracket belongs to the authority, not to the host. -/
theorem Host.head_text_ne (h : Host) : h.text.toList.head? ≠ some '[' := fun hhead =>
  Host.not_mem_text (by decide) (by decide) (List.mem_of_mem_head? hhead)

/-- The authority is stripped to the host. -/
theorem stripPort_authority (h : Host) (port : Option (List Char)) :
    stripPort (h.authority port) = h.text := by
  by_cases hsix : h.isIPv6 = true
  · have hlist : (h.authority port).toList =
        ('[' :: h.text.toList) ++ ']' :: (Host.portText port).toList := by
      simp [Host.authority, hsix]
    have hcut : cut ']' (h.authority port) =
        some (String.ofList ('[' :: h.text.toList), Host.portText port) := by
      rw [cut_of_first hlist, String.ofList_toList]
      simpa using Host.not_mem_text (by decide) (by decide)
    rw [stripPort, hcut]
    simp [hlist]
  · have hcolon : ':' ∉ h.text.toList := by simpa [Host.isIPv6] using hsix
    have hne : h.text.toList ≠ [] := fun hnil =>
      h.text_ne_empty (String.toList_eq_nil_iff.mp hnil)
    cases port with
    | none =>
      have hplain : h.authority none = h.text := by simp [Host.authority, hsix, Host.portText]
      rw [hplain, stripPort_of_plain hcolon h.head_text_ne]
    | some digits =>
      have hlist : (h.authority (some digits)).toList = h.text.toList ++ ':' :: digits := by
        simp [Host.authority, hsix, Host.portText]
      have hbracket : (h.authority (some digits)).toList.head? ≠ some '[' := by
        rw [hlist, List.head?_append_of_ne_nil _ hne]
        exact h.head_text_ne
      rw [stripPort_of_colon hlist hcolon hbracket, if_neg hne, String.ofList_toList]

/-- A host alone is left alone exactly if it is a name, or an address that starts with
`::`: of any other address the first group is left. -/
theorem stripPort_text (h : Host) : stripPort h.text = h.text ↔ h.Uncut := by
  by_cases hcolon : ':' ∈ h.text.toList
  · obtain ⟨before, after, hlist, hbefore⟩ := List.eq_append_cons_of_mem hcolon
    have huncut : h.Uncut ↔ before = [] := by
      rw [Host.Uncut, hlist, Host.isIPv6, decide_eq_true hcolon]
      cases before with
      | nil => simp
      | cons c before => simpa using fun heq : c = ':' => hbefore (heq ▸ List.mem_cons_self)
    rw [stripPort_of_colon hlist hbefore h.head_text_ne, huncut]
    split_ifs with hempty
    · simp [hempty]
    · simp only [hempty, iff_false]
      intro heq
      rw [← heq, String.toList_ofList] at hcolon
      exact hbefore hcolon
  · have huncut : h.Uncut := fun hsix => absurd (of_decide_eq_true hsix) hcolon
    simp [stripPort_of_plain hcolon h.head_text_ne, huncut]

/-- What is normalised is the spelling in lower case without the white space. -/
theorem normalizeHost_surrounded (hstd : library.Standard) {before core after : List Char}
    (hbefore : ∀ c ∈ before, isSpace c) (hafter : ∀ c ∈ after, isSpace c)
    (hascii : ∀ c ∈ core, c.toNat < 128) (hvalue : String.ofList (core.map Char.toLower) = value)
    (hplain : h.Plain value) :
    library.normalizeHost (String.ofList (before ++ core ++ after)) =
      stripPort (if hasScheme value then (library.parseHost value).elim value trimSpace
        else value) := by
  obtain ⟨lower, hlower, hletters, hspaces⟩ := hstd.toLower
  have hkeep : ∀ spaces : List Char, (∀ c ∈ spaces, isSpace c) → spaces.map lower = spaces := by
    intro spaces hall
    rw [List.map_congr_left fun c hc => hspaces c (hall c hc), List.map_id']
  have htrim : trimSpace (library.toLower (String.ofList (before ++ core ++ after))) = value := by
    rw [hlower, String.toList_ofList, List.map_append, List.map_append, hkeep before hbefore,
      hkeep after hafter, List.map_congr_left fun c hc => hletters c (hascii c hc), ← hvalue]
    refine trimSpace_surrounded hbefore (fun c hc => ?_) hafter
    exact isSpace_of_isPlainChar (hplain.isPlainChar c (by rw [← hvalue]; simpa using hc))
  rw [Library.normalizeHost, htrim, if_neg hplain.ne_empty]
  cases library.parseHost value <;> split_ifs <;> rfl

/-- A value without a slash is not taken for a URL. -/
theorem hasScheme_eq_false (hslash : '/' ∉ value.toList) :
    hasScheme value = false := by
  refine decide_eq_false fun hinfix => hslash ?_
  exact hinfix.subset (by decide)

/-- Every spelling is taken to the host, or to what is left of the host alone. -/
theorem normalizeHost_of_spells (hstd : library.Standard) (hspells : h.Spells value) :
    library.normalizeHost value = h.text ∨ library.normalizeHost value = stripPort h.text := by
  obtain ⟨before, core, after, rfl, hbefore, hafter, hascii, hplain⟩ := hspells
  rw [normalizeHost_surrounded hstd hbefore hafter hascii rfl hplain]
  generalize String.ofList (core.map Char.toLower) = value at hplain
  cases hplain with
  | bare =>
    rw [hasScheme_eq_false (Host.not_mem_text (by decide) (by decide))]
    exact .inr rfl
  | authority hport =>
    rw [hasScheme_eq_false (Host.slash_not_mem_authority hport)]
    exact .inl (stripPort_authority h _)
  | url hscheme hport =>
    rename_i scheme port
    have htrim : trimSpace (h.authority port) = h.authority port :=
      trimSpace_of_forall fun c hc => isSpace_of_isPlainChar (Host.authority_isPlainChar hport c hc)
    have hhas : hasScheme (scheme ++ "://" ++ h.authority port) = true := by
      refine decide_eq_true ⟨scheme.toList, (h.authority port).toList, ?_⟩
      simp
    rw [hhas, if_pos rfl, hstd.parseHost h scheme port hscheme hport, Option.elim_some, htrim]
    exact .inl (stripPort_authority h port)

/-- The host alone is stripped like a value with a port. -/
theorem normalizeHost_text (hstd : library.Standard) (h : Host) :
    library.normalizeHost h.text = stripPort h.text := by
  have hplain : h.Plain h.text := .bare
  have hnormal := normalizeHost_surrounded hstd (List.forall_mem_nil _) (List.forall_mem_nil _)
    hplain.toNat_lt hplain.map_toLower hplain
  rw [hasScheme_eq_false (Host.not_mem_text (by decide) (by decide))] at hnormal
  simpa using hnormal

/-- A host is determined by the way it is written. -/
theorem Host.ext_text (heq : h.text = h'.text) : h = h' := by
  cases h
  cases h'
  cases heq
  rfl

/-- Every spelling of a host that is not cut is taken to the host. -/
theorem normalizeHost_of_uncut (hstd : library.Standard) (huncut : h.Uncut)
    (hspells : h.Spells value) : library.normalizeHost value = h.text := by
  rcases normalizeHost_of_spells hstd hspells with htext | hstrip
  · exact htext
  · exact hstrip.trans ((stripPort_text h).mpr huncut)

/-- A request that names the host is taken for it, also when its host is normalised
once more. -/
theorem normalizeHost_requestHost (hstd : library.Standard) (huncut : h.Uncut) {r : Request}
    (hspells : h.Spells (namedHost (r.header "X-Forwarded-Host") r.host)) :
    library.normalizeHost (library.requestHost r) = h.text := by
  rw [Library.requestHost, normalizeHost_of_uncut hstd huncut hspells]
  exact normalizeHost_of_uncut hstd huncut Host.Plain.bare.spells

/-- A forwarded host without white space and commas is the one that is named. -/
theorem namedHost_text (h : Host) (host : String) : namedHost h.text host = h.text := by
  have htrim : trimSpace h.text = h.text :=
    trimSpace_of_forall fun c hc => isSpace_of_isPlainChar (h.text_isPlainChar c hc)
  have hcut : cut ',' h.text = none := cut_eq_none (Host.not_mem_text (by decide) (by decide))
  rw [namedHost, htrim, if_neg h.text_ne_empty, hcut]

/-- Matching is equality for two hosts exactly when neither is an IPv6 address whose
first group is spelled out. -/
theorem Library.matchesHosts_iff (library : Library) (hstd : library.Standard) (h h' : Host) :
    library.MatchesHosts h h' ↔ h.Uncut ∧ h'.Uncut := by
  constructor
  · intro hmatches
    have huncut : ∀ host : Host, (∀ value, host.Spells value →
        library.normalizeHost value = host.text) → host.Uncut := by
      intro host hnormalizes
      rw [← stripPort_text, ← normalizeHost_text hstd host]
      exact hnormalizes host.text Host.Plain.bare.spells
    exact ⟨huncut h hmatches.normalizes, huncut h' hmatches.normalizes'⟩
  · rintro ⟨huncut, huncut'⟩
    have hnormalizes : ∀ value, h.Spells value → library.normalizeHost value = h.text :=
      fun _ => normalizeHost_of_uncut hstd huncut
    have hnormalizes' : ∀ value, h'.Spells value → library.normalizeHost value = h'.text :=
      fun _ => normalizeHost_of_uncut hstd huncut'
    refine ⟨hnormalizes, hnormalizes', ?_, ?_, ?_⟩
    · intro value value' hspells hspells' hne heq
      rw [hnormalizes value hspells, hnormalizes' value' hspells'] at heq
      exact hne (Host.ext_text heq)
    · intro configured r hspells hspells'
      have hactual := normalizeHost_requestHost hstd huncut' hspells'
      rw [Library.hostMatches, hnormalizes configured hspells, hactual, if_neg h.text_ne_empty,
        decide_eq_true_eq]
      exact ⟨Host.ext_text, congrArg Host.text⟩
    · rintro handler r rfl hspells ⟨_, hforwarded⟩
      have hoptions : handler.internalProxyDialOptions = ⟨h.text, h.text⟩ := by
        rw [Handler.internalProxyDialOptions, hnormalizes _ hspells, if_pos h.text_ne_empty]
      rw [hoptions] at hforwarded
      have hnamed : h.Spells (namedHost (r.header "X-Forwarded-Host") r.host) := by
        rw [hforwarded, namedHost_text]
        exact Host.Plain.bare.spells
      rw [Handler.matchesHost, HandlerConfig.publicHost, Library.hostMatches,
        hnormalizes _ hspells, normalizeHost_requestHost hstd huncut hnamed]
      simp

end Normalising

section Samples

/-- A library for hosts: it takes what stands behind the scheme for the authority. -/
def plainLibrary : Library where
  toLower text := String.ofList (text.toList.map Char.toLower)
  parseHost value := (cut ':' value).map fun parts => String.ofList (parts.2.toList.drop 2)

/-- It does to the spellings of hosts what the standard library does. -/
theorem plainLibrary_standard : plainLibrary.Standard where
  toLower := ⟨Char.toLower, fun _ => rfl, fun _ _ => rfl, fun _ => toLower_of_isSpace⟩
  parseHost h scheme port hscheme _ := by
    have hcolon : ':' ∉ scheme.toList := fun hc =>
      absurd (List.all_eq_true.mp hscheme.2 ':' hc) (by decide)
    have hlist : (scheme ++ "://" ++ h.authority port).toList =
        scheme.toList ++ ':' :: '/' :: '/' :: (h.authority port).toList := by
      simp
    simp [plainLibrary, cut_of_first hlist hcolon]

/-- The host `example.com`. -/
def exampleHost : Host := ⟨"example.com", .inl (by decide)⟩

/-- An address of some groups, `::` and one group more. -/
theorem isIPv6_sample {left : List (List Char)} {group : List Char}
    (hleft : left.all isGroup = true) (hgroup : isGroup group = true) (hlength : left.length ≤ 6) :
    IsIPv6 (joinColon left ++ ':' :: ':' :: joinColon [group]) :=
  .compressed hleft (.cons hgroup .nil) (by omega)

/-- The host `::1`. -/
def loopbackHost : Host :=
  ⟨"::1", .inr (@isIPv6_sample [] ['1'] (by decide) (by decide) (by decide))⟩

/-- The host `2001:db8::1`. -/
def firstHost : Host :=
  ⟨"2001:db8::1", .inr (@isIPv6_sample ["2001".toList, "db8".toList] ['1'] (by decide) (by decide)
    (by decide))⟩

/-- The host `2001:db8::2`. -/
def secondHost : Host :=
  ⟨"2001:db8::2", .inr (@isIPv6_sample ["2001".toList, "db8".toList] ['2'] (by decide) (by decide)
    (by decide))⟩

/-- A request with the given host headers. -/
def requestFor (host forwarded : String) : Request where
  method := "GET"
  path := []
  host := host
  header name := if name = "X-Forwarded-Host" then forwarded else ""
  query _ := ""

/-- A server with the given public host for browsers. -/
def serverFor (browserPublicHost : String) : Handler where
  library := plainLibrary
  config := ⟨"", "", "", browserPublicHost⟩
  accessError _ := none
  authenticatesWorker _ := false

/-- Spellings of `example.com` and `::1` are matched as these hosts. -/
theorem matchesHosts_loopback : plainLibrary.Standard ∧
    plainLibrary.MatchesHosts exampleHost loopbackHost :=
  ⟨plainLibrary_standard, (plainLibrary.matchesHosts_iff plainLibrary_standard _ _).mpr
    ⟨fun hsix => absurd hsix (by decide), fun _ => rfl⟩⟩

/-- Two IPv6 addresses without brackets match by their first groups. With brackets, an
address does not match itself, and the server refuses its own connections. -/
theorem ipv6_hosts_cut :
    (firstHost.Spells "2001:db8::1" ∧ secondHost.Spells "2001:db8::2" ∧
      plainLibrary.normalizeHost "2001:db8::1" = "2001" ∧
      plainLibrary.hostMatches "2001:db8::1"
        (plainLibrary.requestHost (requestFor "2001:db8::2" "")) = true) ∧
    (firstHost.Spells "[2001:db8::1]" ∧
      plainLibrary.hostMatches "[2001:db8::1]"
        (plainLibrary.requestHost (requestFor "[2001:db8::1]" "")) = false) ∧
    (serverFor "[2001:db8::1]").internalProxyDialOptions = ⟨"2001:db8::1", "2001:db8::1"⟩ ∧
    (serverFor "[2001:db8::1]").matchesHost .browser
      (requestFor "2001:db8::1" "2001:db8::1") = false := by
  have hbrackets : firstHost.Plain "[2001:db8::1]" :=
    (.authority nofun : firstHost.Plain (firstHost.authority none))
  refine ⟨⟨Host.Plain.bare.spells, Host.Plain.bare.spells, ?_, ?_⟩, ⟨hbrackets.spells, ?_⟩, ?_, ?_⟩
  · decide
  · decide
  · decide
  · rfl
  · decide

end Samples

end MiniControl.Rest
