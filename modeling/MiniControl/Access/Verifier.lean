import MiniControl.Text.Space
import MiniControl.Transition.Interleaving
import Mathlib.Data.Int.Notation
import Mathlib.Algebra.Group.Nat.Defs

/-!
# The access verifier

`AccessVerifier.Verify` checks the claims of a token, looks its signing key up in
a cache, and checks the signature. The cache is read under a read lock, refreshed
without one, stored under the write lock and read again; each of these sections
is a step of its own, so that any number of calls interleave. Decoding, parsing
and signatures are functions of the library that the verifier is given.
-/

namespace MiniControl.Access

open Transition

/-- A text or file as a sequence of bytes. -/
abbrev Bytes := List UInt8

/-- A point in time, in nanoseconds. -/
abbrev Time := ℕ

/-- `rsa.PublicKey`. -/
structure PublicKey where
  modulus : ℕ
  exponent : ℕ
  deriving DecidableEq

/-- `accessJWTHeaderFields`, with the fields that are read. -/
structure Header where
  alg : String
  kid : String
  deriving DecidableEq

/-- `AccessClaims`. -/
structure AccessClaims where
  audience : List String
  email : String
  expires : ℤ
  issuedAt : ℤ
  notBefore : ℤ
  issuer : String
  type : String
  subject : String
  deriving DecidableEq

/-- An entry of `public_certs`. -/
structure PublicCert where
  kid : String
  cert : String
  deriving DecidableEq

/-- An entry of `keys`, with the fields that are read. -/
structure JWK where
  kid : String
  kty : String
  n : String
  e : String
  deriving DecidableEq

/-- The document at the certs URL. -/
structure CertResponse where
  publicCerts : List PublicCert
  keys : List JWK
  deriving DecidableEq

/-- The library functions that the verifier calls. -/
structure Library where
  /-- `base64.RawURLEncoding.DecodeString`. -/
  decodeBase64 : String → Except String Bytes
  parseHeader : Bytes → Except String Header
  parsePayload : Bytes → Except String AccessClaims
  parseCertResponse : Bytes → Except String CertResponse
  decodePEM : String → Option Bytes
  /-- `x509.ParseCertificate`; `none` when the key is not an RSA key. -/
  parseCertificate : Bytes → Except String (Option PublicKey)
  /-- `rsa.VerifyPKCS1v15` on the SHA-256 digest of a text. -/
  verifySignature : PublicKey → String → Bytes → Bool
  toLower : String → String
  /-- The verb `%q` of `fmt`: a text in quotes, with escapes where it needs them. -/
  quote : String → String

/-- An `AccessVerifier` without its cache. -/
structure Verifier where
  library : Library
  audience : String
  issuerURL : String
  /-- Every domain is allowed when this is empty. -/
  allowedEmailDomain : String

/-- `normalizeAccessEmailDomain`. -/
def Library.normalizeAccessEmailDomain (library : Library) (domain : String) : String :=
  let domain := Text.trimSpace (library.toLower domain)
  match domain.toList with
  | '@' :: rest => String.ofList rest
  | _ => domain

/-- `accessEmailMatchesDomain`. -/
def Library.accessEmailMatchesDomain (library : Library) (email domain : String) : Bool :=
  let email := Text.trimSpace (library.toLower email)
  let domain := library.normalizeAccessEmailDomain domain
  email ≠ "" && domain ≠ "" && ("@" ++ domain).toList.isSuffixOf email.toList

/-- `validateClaims` at the given Unix time. -/
def Verifier.validateClaims (v : Verifier) (now : ℤ) (claims : AccessClaims) :
    Except String Unit :=
  if claims.issuer ≠ v.issuerURL then .error ("unexpected issuer " ++ v.library.quote claims.issuer)
  else if claims.type ≠ "app" then .error ("unexpected token type " ++ v.library.quote claims.type)
  else if v.audience ∉ claims.audience then .error "audience mismatch"
  else if claims.expires = 0 ∨ claims.expires ≤ now then .error "token expired"
  else if claims.notBefore ≠ 0 ∧ now + 60 < claims.notBefore then .error "token not valid yet"
  else if claims.subject = "" then .error "missing subject"
  else if claims.email = "" then .error "missing email"
  else if v.allowedEmailDomain ≠ "" ∧
      !v.library.accessEmailMatchesDomain claims.email v.allowedEmailDomain then
    .error "email domain not allowed"
  else .ok ()

/-- What the first part of `Verify` takes from a token. -/
structure Token where
  kid : String
  claims : AccessClaims
  /-- The text under the signature. -/
  signed : String
  signature : String
  deriving DecidableEq

/-- `Verify` up to the lookup of the key. -/
def Verifier.parseToken (v : Verifier) (now : ℤ) (token : String) : Except String Token :=
  match (token.toList.splitOn '.').map String.ofList with
  | [header, payload, signature] => do
    let headerBytes ← (v.library.decodeBase64 header).mapError ("decode header: " ++ ·)
    let fields ← (v.library.parseHeader headerBytes).mapError ("parse header: " ++ ·)
    if fields.alg ≠ "RS256" then throw ("unsupported jwt alg " ++ v.library.quote fields.alg)
    if fields.kid = "" then throw "missing key id"
    let payloadBytes ← (v.library.decodeBase64 payload).mapError ("decode payload: " ++ ·)
    let claims ← (v.library.parsePayload payloadBytes).mapError ("parse payload: " ++ ·)
    v.validateClaims now claims
    return ⟨fields.kid, claims, header ++ "." ++ payload, signature⟩
  | _ => .error "invalid token format"

/-- The keys by their ids. -/
abbrev KeySet := List (String × PublicKey)

/-- Set the key of an id. -/
def KeySet.insert (keys : KeySet) (kid : String) (key : PublicKey) : KeySet :=
  (kid, key) :: keys.filter (·.1 ≠ kid)

/-- `parsePEMPublicKey`. -/
def Library.parsePEMPublicKey (library : Library) (raw : String) : Except String PublicKey :=
  match library.decodePEM raw with
  | none => .error "invalid PEM certificate"
  | some block =>
    match library.parseCertificate block with
    | .error error => .error ("parse certificate: " ++ error)
    | .ok none => .error "certificate did not contain RSA public key"
    | .ok (some key) => .ok key

/-- `SetBytes`: the bytes as a number, most significant first. -/
def natOfBytes (bytes : Bytes) : ℕ := bytes.foldl (fun n b => 256 * n + b.toNat) 0

/-- `parseJWKPublicKey`. -/
def Library.parseJWKPublicKey (library : Library) (n e : String) : Except String PublicKey := do
  let nBytes ← (library.decodeBase64 n).mapError ("decode rsa modulus: " ++ ·)
  let eBytes ← (library.decodeBase64 e).mapError ("decode rsa exponent: " ++ ·)
  if natOfBytes eBytes < 2 ^ 63 then return ⟨natOfBytes nBytes, natOfBytes eBytes⟩
  else throw "invalid rsa exponent"

/-- The loop over `public_certs`. -/
def Library.addPublicCerts (library : Library) (keys : KeySet) :
    List PublicCert → Except String KeySet
  | [] => .ok keys
  | cert :: rest => do
    let key ← library.parsePEMPublicKey cert.cert
    library.addPublicCerts (keys.insert cert.kid key) rest

/-- The loop over `keys`. -/
def Library.addKeys (library : Library) (keys : KeySet) : List JWK → Except String KeySet
  | [] => .ok keys
  | jwk :: rest =>
    if jwk.kty ≠ "RSA" ∨ jwk.kid = "" then library.addKeys keys rest
    else do
      let key ← library.parseJWKPublicKey jwk.n jwk.e
      library.addKeys (keys.insert jwk.kid key) rest

/-- `parseAccessCerts`. -/
def Library.parseAccessCerts (library : Library) (body : Bytes) : Except String KeySet := do
  let payload ← (library.parseCertResponse body).mapError ("parse access certs: " ++ ·)
  let keys ← library.addPublicCerts [] payload.publicCerts
  let keys ← library.addKeys keys payload.keys
  if keys = [] then throw "access cert response contained no usable keys"
  return keys

/-- What comes back from the certs URL. -/
inductive Fetch
  /-- The request could not be built. -/
  | unsent (error : String)
  | failed (error : String)
  /-- A response with its status and the result of reading its body. -/
  | answered (status : ℕ) (body : Except String Bytes)

/-- The most bytes that are read of a response. -/
def maxCertBytes : ℕ := 1 <<< 20

/-- `refreshKeys` up to the write lock. -/
def Library.fetchKeys (library : Library) : Fetch → Except String KeySet
  | .unsent error => .error error
  | .failed error => .error ("fetch access certs: " ++ error)
  | .answered status body =>
    if status ≠ 200 then .error ("fetch access certs: status " ++ toString status)
    else match body with
      | .error error => .error ("read access certs: " ++ error)
      | .ok body => library.parseAccessCerts (body.take maxCertBytes)

/-- The cache of the verifier, with the time and a record of everything that was
ever stored in it, in this order. -/
structure Shared where
  clock : Time
  keys : KeySet
  fetchedAt : Option Time
  stored : List (Time × KeySet)

/-- The age at which cached keys are no longer used: five minutes. -/
def maxKeyAge : Time := 5 * 60 * 1000000000

/-- The cached keys are too old. -/
def Shared.stale (sh : Shared) : Bool :=
  match sh.fetchedAt with
  | none => true
  | some fetchedAt => maxKeyAge < sh.clock - fetchedAt

/-- When the key lookup of a call began, and how often keys had been stored by then. -/
structure Lookup where
  began : Time
  seen : ℕ
  deriving DecidableEq

/-- The position of a `Verify` call. -/
inductive Phase
  | idle
  | looking (token : Token)
  | fetching (token : Token) (lookup : Lookup)
  | storing (token : Token) (lookup : Lookup) (keys : KeySet)
  | rereading (token : Token) (lookup : Lookup)
  | checking (token : Token) (lookup : Lookup) (key : PublicKey)
  | accepted (token : Token) (lookup : Lookup) (key : PublicKey)
  | rejected (error : String)

/-- The steps of a call, and the passing of time. -/
inductive Action
  | verify (now : ℤ) (token : String)
  | readCache
  | fetch (outcome : Fetch)
  | store
  | rereadCache
  | checkSignature
  | wait (clock : Time)

/-- `Verify` after the lookup of the key. -/
def Verifier.checkSignature (v : Verifier) (token : Token) (key : PublicKey) : Except String Unit :=
  match v.library.decodeBase64 token.signature with
  | .error error => .error ("decode signature: " ++ error)
  | .ok signature =>
    if v.library.verifySignature key token.signed signature then .ok ()
    else .error "invalid token signature"

/-- One step of one call. -/
def Verifier.act (v : Verifier) (sh : Shared) (_ : ℕ) : Phase → Action → Option (Shared × Phase)
  | .idle, .verify now token =>
    match v.parseToken now token with
    | .error error => some (sh, .rejected error)
    | .ok token => some (sh, .looking token)
  | .looking token, .readCache =>
    let lookup := ⟨sh.clock, sh.stored.length⟩
    match sh.keys.lookup token.kid with
    | some key =>
      if sh.stale then some (sh, .fetching token lookup) else some (sh, .checking token lookup key)
    | none => some (sh, .fetching token lookup)
  | .fetching token lookup, .fetch outcome =>
    match v.library.fetchKeys outcome with
    | .error error => some (sh, .rejected error)
    | .ok keys => some (sh, .storing token lookup keys)
  | .storing token lookup keys, .store =>
    some ({ sh with
      keys
      fetchedAt := some sh.clock
      stored := sh.stored ++ [(sh.clock, keys)] }, .rereading token lookup)
  | .rereading token lookup, .rereadCache =>
    match sh.keys.lookup token.kid with
    | some key => some (sh, .checking token lookup key)
    | none => some (sh, .rejected ("unknown key id " ++ v.library.quote token.kid))
  | .checking token lookup key, .checkSignature =>
    match v.checkSignature token key with
    | .ok () => some (sh, .accepted token lookup key)
    | .error error => some (sh, .rejected error)
  | phase, .wait clock => if sh.clock ≤ clock then some ({ sh with clock }, phase) else none
  | _, _ => none

/-- The cache with its callers. -/
abbrev State := Threads Shared Phase

/-- A verifier that has stored no keys. -/
def State.Initial (s : State) : Prop :=
  s.shared.keys = [] ∧ s.shared.fetchedAt = none ∧ s.shared.stored = [] ∧ ∀ i, s.locals i = .idle

/-- The calls as a program. -/
def Verifier.program (v : Verifier) : Program Shared Phase Action := ⟨v.act⟩

/-- Any number of calls, in any interleaving of their steps. -/
def Verifier.system (v : Verifier) : System State (ℕ × Action) := v.program.system State.Initial

end MiniControl.Access
