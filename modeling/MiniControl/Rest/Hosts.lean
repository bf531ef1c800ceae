import MiniControl.Text.Space
import MiniControl.Proxy.Manager
import Mathlib.Data.List.Infix
import Mathlib.Data.List.TakeWhile

/-!
# Which host a request is for

The server answers on two public hosts and decides by the host of the request
which routes it serves. The host is taken from `X-Forwarded-Host` when that header
is present, and from `Host` otherwise, and it is normalised before it is compared
with the configured one.
-/

namespace MiniControl.Rest

open Text

/-- The functions of the standard library that a host goes through. -/
structure Library where
  /-- `strings.ToLower`. -/
  toLower : String → String
  /-- The `Host` of `url.Parse`, unless the text is not a URL. -/
  parseHost : String → Option String

/-- `strings.Cut` at one character. -/
def cut (separator : Char) (text : String) : Option (String × String) :=
  match text.toList.span (· ≠ separator) with
  | (_, []) => none
  | (before, _ :: after) => some (String.ofList before, String.ofList after)

/-- `strings.Contains(value, "://")`. -/
def hasScheme (value : String) : Bool :=
  "://".toList <:+: value.toList

/-- The last part of `normalizeHost`, which strips a port and IPv6 brackets. -/
def stripPort (value : String) : String :=
  match value.toList with
  | '[' :: _ =>
    match cut ']' value with
    | some (address, _) => String.ofList (address.toList.drop 1)
    | none => value
  | _ =>
    match cut ':' value with
    | some (host, _) => if ':' ∉ host.toList ∧ host ≠ "" then host else value
    | none => value

/-- `normalizeHost`. -/
def Library.normalizeHost (library : Library) (value : String) : String :=
  let value := trimSpace (library.toLower value)
  if value = "" then ""
  else if hasScheme value then
    match library.parseHost value with
    | some host => stripPort (trimSpace host)
    | none => stripPort value
  else stripPort value

/-- What of `http.Request` the routing reads. The path stands as its segments after
the multiplexer has cleaned it, an absent header or parameter as the empty text. -/
structure Request where
  method : String
  path : List String
  host : String
  header : String → String
  query : String → String

/-- The value whose normalisation is the host of a request with the given
`X-Forwarded-Host`: its first element, or the `Host` header when it is blank. -/
def namedHost (forwarded host : String) : String :=
  if trimSpace forwarded = "" then host
  else match cut ',' (trimSpace forwarded) with
    | some (first, _) => first
    | none => trimSpace forwarded

/-- `requestHost`. -/
def Library.requestHost (library : Library) (r : Request) : String :=
  library.normalizeHost (namedHost (r.header "X-Forwarded-Host") r.host)

/-- `hostMatches`. -/
def Library.hostMatches (library : Library) (configuredHost actualHost : String) : Bool :=
  let configured := library.normalizeHost configuredHost
  let actual := library.normalizeHost actualHost
  if configured = "" then true else configured = actual

/-- The two sides of the server, each with a public host of its own. -/
inductive Side
  | browser
  | worker
  deriving DecidableEq

/-- The other side. -/
def Side.other : Side → Side
  | .browser => .worker
  | .worker => .browser

/-- The role in which a side joins a proxy session. -/
def Side.role : Side → String
  | .browser => "client"
  | .worker => "worker"

/-- The fields of `HandlerConfig` that the guards read. -/
structure HandlerConfig where
  adminToken : String
  enrollmentToken : String
  workerPublicHost : String
  browserPublicHost : String

/-- The public host of a side. -/
def HandlerConfig.publicHost (config : HandlerConfig) : Side → String
  | .browser => config.browserPublicHost
  | .worker => config.workerPublicHost

section

variable {library : Library}

/-- A separator that does not occur does not cut. -/
theorem cut_eq_none {separator : Char} {text : String} (h : separator ∉ text.toList) :
    cut separator text = none := by
  have hspan : text.toList.span (· ≠ separator) = (text.toList, []) := by
    have hall : ∀ c ∈ text.toList, decide (c ≠ separator) = true := by
      intro c hc
      simpa using fun heq : c = separator => h (heq ▸ hc)
    rw [List.span_eq_takeWhile_dropWhile, List.takeWhile_eq_self_iff.mpr hall,
      List.dropWhile_eq_nil_iff.mpr hall]
  rw [cut, hspan]

/-- A host without a port and brackets is left alone. -/
theorem stripPort_of_plain {value : String} (hcolon : ':' ∉ value.toList)
    (hbracket : value.toList.head? ≠ some '[') : stripPort value = value := by
  unfold stripPort
  split
  next rest heq => simp [heq] at hbracket
  next => rw [cut_eq_none hcolon]

/-- A configured host is matched exactly by the hosts that normalise to it. -/
theorem hostMatches_eq_false {configured actual : String} :
    library.hostMatches configured actual = false ↔
      library.normalizeHost configured ≠ "" ∧
        library.normalizeHost configured ≠ library.normalizeHost actual := by
  by_cases hempty : library.normalizeHost configured = ""
  · simp [Library.hostMatches, hempty]
  · simp [Library.hostMatches, hempty]

end

end MiniControl.Rest
