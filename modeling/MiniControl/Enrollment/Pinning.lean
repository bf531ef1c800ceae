import MiniControl.Enrollment.Lockout

/-!
# The pinned certificate

The installer takes the SHA-256 digest of the certificate that the server presents to it
and writes the digits to the configuration file. The worker keeps them when it saves the
file, and compares them with the digest of the certificate that a server presents to any
connection that it opens.
-/

namespace MiniControl.Enrollment

open Transition Installer Text

/-- A certificate in DER. -/
abbrev Certificate := List UInt8

/-- The functions that the two programs apply to certificates and to the digits. -/
structure Digests where
  sha256 : Certificate → List UInt8
  /-- `lowercased()`. -/
  lowercased : List Char → List Char
  length_sha256 : ∀ certificate, (sha256 certificate).length = 32
  lowercased_eq : ∀ text, (∀ c ∈ text, isHexDigit c = true) → lowercased text = text

/-- What a connection asks its delegate. -/
inductive Challenge
  /-- Another method of authentication, or no trust object. -/
  | other
  /-- The certificates of the server, the leaf first. -/
  | serverTrust (chain : List Certificate)

/-- `URLSession.AuthChallengeDisposition`, as far as it is used. -/
inductive Disposition
  | performDefaultHandling
  | useCredential
  | cancelAuthenticationChallenge
  deriving DecidableEq

/-- `CertPinningDelegate`. -/
structure CertPinningDelegate where
  fingerprint : List Char

namespace Digests

variable (d : Digests)

/-- `shasum -a 256` of a certificate, without the name of the file. -/
def fingerprint (certificate : Certificate) : List Char := encodeHex (d.sha256 certificate)

/-- `CertPinningDelegate.init`. -/
def pin (fingerprint : List Char) : CertPinningDelegate :=
  ⟨(d.lowercased fingerprint).filter (· ≠ ':')⟩

/-- `urlSession(_:didReceive:completionHandler:)`. -/
def urlSession (delegate : CertPinningDelegate) : Challenge → Disposition
  | .other => .performDefaultHandling
  | .serverTrust chain =>
    if delegate.fingerprint = [] then .performDefaultHandling
    else match chain with
      | [] => .cancelAuthenticationChallenge
      | leaf :: _ =>
        if d.fingerprint leaf = delegate.fingerprint then .useCredential
        else .cancelAuthenticationChallenge

variable {d}

/-- A fingerprint has digits only. -/
theorem isHexDigit_of_mem_fingerprint {certificate : Certificate} {c : Char}
    (hc : c ∈ d.fingerprint certificate) : isHexDigit c = true :=
  isHexDigit_of_mem_encodeHex hc

/-- A fingerprint is not empty. -/
theorem fingerprint_ne (certificate : Certificate) : d.fingerprint certificate ≠ [] := by
  intro hempty
  have hbytes : d.sha256 certificate = [] := encodeHex_injective hempty
  have hlength := d.length_sha256 certificate
  rw [hbytes] at hlength
  cases hlength

/-- The delegate compares with a fingerprint as it is. -/
theorem pin_fingerprint (certificate : Certificate) :
    (d.pin (d.fingerprint certificate)).fingerprint = d.fingerprint certificate := by
  have hlower := d.lowercased_eq (d.fingerprint certificate)
    fun c hc => isHexDigit_of_mem_fingerprint hc
  rw [pin, hlower, List.filter_eq_self]
  intro c hc
  have hdigit := isHexDigit_of_mem_fingerprint hc
  simp only [ne_eq, decide_not, Bool.not_eq_true', decide_eq_false_iff_not]
  rintro rfl
  exact absurd hdigit (by decide)

/-- A delegate with the fingerprint of a certificate accepts the chains whose leaf has the
same digest, and refuses all others. -/
theorem urlSession_pin (certificate : Certificate) (chain : List Certificate) :
    d.urlSession (d.pin (d.fingerprint certificate)) (.serverTrust chain) =
      if chain.head?.any (d.sha256 · = d.sha256 certificate) then .useCredential
      else .cancelAuthenticationChallenge := by
  have hne : d.fingerprint certificate ≠ [] := fingerprint_ne certificate
  cases chain with
  | nil => simp [urlSession, pin_fingerprint, hne]
  | cons leaf rest =>
    have hsame : d.fingerprint leaf = d.fingerprint certificate ↔
        d.sha256 leaf = d.sha256 certificate := encodeHex_injective.eq_iff
    simp [urlSession, pin_fingerprint, hne, hsame]

end Digests

/-- The configuration with which a process runs. -/
def Process.config? : Process → Option WorkerConfig
  | .down => none
  | .registering config _ | .registered config _ | .running config _ => some config

/-- The installer sees one of the given certificates. -/
def Digests.Presents (d : Digests) (presented : Set Certificate) : Event → Prop
  | .validate v _ => ∃ certificate ∈ presented, v.tlsFingerprint = d.fingerprint certificate
  | _ => True

/-- The fingerprint is one of the given certificates. -/
def Digests.Pins (d : Digests) (presented : Set Certificate) (fingerprint : List Char) : Prop :=
  ∃ certificate ∈ presented, fingerprint = d.fingerprint certificate

/-- Whatever is or will be loaded has the fingerprint of a certificate that an installer
has seen. -/
structure Machine.Pinned (m : Machine) (d : Digests) (presented : Set Certificate) (s : Site) :
    Prop where
  file : ∀ text config, s.file = some text → m.load text = .ok config →
    d.Pins presented config.tlsCertFingerprint
  installing : ∀ v, s.installing.variables? = some v → d.Pins presented v.tlsFingerprint
  process : ∀ config, s.process.config? = some config →
    d.Pins presented config.tlsCertFingerprint

section Preservation

variable {m : Machine} {valid : Shared → String → Prop} {d : Digests}
  {presented : Set Certificate} {s t : Site}

/-- The process goes on with a configuration that has the same fingerprint. -/
theorem Machine.Pinned.process_step (h : m.Pinned d presented s) {process : Process}
    (hprocess : ∀ config, process.config? = some config →
      d.Pins presented config.tlsCertFingerprint) :
    m.Pinned d presented { s with process := process } :=
  ⟨h.file, h.installing, hprocess⟩

/-- A file of the installer is loaded with the fingerprint that was written to it. -/
theorem Machine.fingerprint_of_load {sh : Shared} {v : Variables} {config : WorkerConfig}
    (hinstallable : m.Installable v)
    (haccepted : m.Accepted valid sh v.writeWorkerToken v.writeEnrollmentToken)
    (hload : m.load v.configYaml = .ok config) : config.tlsCertFingerprint = v.tlsFingerprint := by
  obtain ⟨hworker, henrollment, htoken⟩ := haccepted.printable
  obtain ⟨written, hdescribes, _, _, hfingerprint⟩ :=
    Machine.describes_configYaml hinstallable hworker henrollment htoken
  rw [← Except.ok.inj (hdescribes.load.symm.trans hload), hfingerprint]

/-- The installer fills the file with the fingerprint that it has seen. -/
theorem Machine.Pinned.fill (h : m.Pinned d presented s) (hs : m.Holds valid s) {v : Variables}
    {linked : Bool} (hemptied : s.installing = .emptied v linked) :
    m.Pinned d presented { s with
      file := if linked then some (unlines v.configLines) else s.file
      installing := .filled v } := by
  have hpins : d.Pins presented v.tlsFingerprint := h.installing v (by rw [hemptied]; rfl)
  obtain ⟨hinstallable, haccepted, _⟩ := hs.installing v (by rw [hemptied]; rfl)
  refine ⟨?_, ?_, h.process⟩
  · intro text config hfile hload
    cases linked with
    | false => exact h.file text config hfile hload
    | true =>
      obtain rfl : unlines v.configLines = text := Option.some.inj hfile
      rw [← configYaml_withoutPassword] at hload
      rw [Machine.fingerprint_of_load hinstallable.withoutPassword haccepted hload]
      exact hpins
  · rintro _ ⟨rfl⟩
    exact hpins

/-- The installer appends the password, and leaves the fingerprint. -/
theorem Machine.Pinned.append (h : m.Pinned d presented s) (hs : m.Holds valid s) {v : Variables}
    (hfilled : s.installing = .filled v) :
    m.Pinned d presented { s with
      file := s.file.map (· ++ unlines v.passwordLines)
      installing := .idle } := by
  have hpins : d.Pins presented v.tlsFingerprint := h.installing v (by rw [hfilled]; rfl)
  obtain ⟨hinstallable, haccepted, _⟩ := hs.installing v (by rw [hfilled]; rfl)
  have hwritten := hs.written
  rw [hfilled] at hwritten
  have hfile : s.file = some (unlines v.configLines) := hwritten
  refine ⟨?_, fun w hw => (by cases hw), h.process⟩
  rw [hfile]
  rintro _ config ⟨rfl⟩ hload
  rw [Machine.fingerprint_of_load hinstallable haccepted hload]
  exact hpins

/-- The process saves the fingerprint that it has loaded. -/
theorem Machine.Pinned.saved (h : m.Pinned d presented s) (hs : m.Holds valid s)
    {config config' : WorkerConfig} {issued : Option String}
    (hprocess : s.process = .registered config issued)
    (hsome : persistIssuedWorkerTokenIfNeeded config issued = some config') :
    (∀ loaded, m.load (config'.save m.marks) = .ok loaded →
      d.Pins presented loaded.tlsCertFingerprint) ∧
    d.Pins presented config'.tlsCertFingerprint := by
  have hpins : d.Pins presented config.tlsCertFingerprint :=
    h.process config (by rw [hprocess]; rfl)
  obtain ⟨token, rfl, hkeeps, htoken, _, rfl⟩ := hs.persisted hprocess hsome
  refine ⟨fun loaded hload => ?_, hpins⟩
  have hdescribes : m.Describes _ { config with
      workerToken := token.toList
      enrollmentToken := [] } := Machine.describes_save hkeeps htoken rfl rfl
  rw [← Except.ok.inj (hdescribes.load.symm.trans hload)]
  exact hpins

/-- Every step keeps the fingerprints. -/
theorem Moves.pinned {e : Event} (hmoves : Moves m s e t) (h : m.Pinned d presented s)
    (hs : m.Holds valid s) (hpresents : d.Presents presented e) : m.Pinned d presented t := by
  cases hmoves with
  | server | arrive | lose => exact ⟨h.file, h.installing, h.process⟩
  | validate v reachable =>
    refine ⟨h.file, ?_, h.process⟩
    rintro _ ⟨rfl⟩
    -- the tokens are decided here, and nothing else
    have hsame : (m.resolveTokens s v reachable).tlsFingerprint = v.tlsFingerprint := by
      unfold Machine.resolveTokens
      dsimp only
      split <;> rfl
    rw [hsame]
    exact hpresents
  | @empty v hresolved =>
    refine ⟨?_, ?_, h.process⟩
    · rintro _ config ⟨rfl⟩ hload
      rw [m.load_nil] at hload
      cases hload
    · rintro _ ⟨rfl⟩
      exact h.installing v (by rw [hresolved]; rfl)
  | fill hemptied => exact h.fill hs hemptied
  | append hfilled => exact h.append hs hfilled
  | abort => exact ⟨h.file, fun w hw => (by cases hw), h.process⟩
  | start _ hfile hload =>
    refine ⟨h.file, h.installing, ?_⟩
    rintro _ ⟨rfl⟩
    exact h.file _ _ hfile hload
  | accepted hprocess =>
    refine h.process_step ?_
    rintro _ ⟨rfl⟩
    exact h.process _ (by rw [hprocess]; rfl)
  | kept hprocess =>
    refine h.process_step ?_
    rintro _ ⟨rfl⟩
    exact h.process _ (by rw [hprocess]; rfl)
  | saved hprocess hsome =>
    obtain ⟨hfile, hconfig⟩ := h.saved hs hprocess hsome
    refine ⟨?_, ?_, ?_⟩
    · rintro _ loaded ⟨rfl⟩ hload
      exact hfile loaded hload
    · intro v hv
      refine h.installing v ?_
      rw [← hv]
      cases s.installing <;> rfl
    · rintro _ ⟨rfl⟩
      exact hconfig
  | unsaved hprocess hsome =>
    refine h.process_step ?_
    rintro _ ⟨rfl⟩
    exact (h.saved hs hprocess hsome).2
  | refused | stop =>
    refine h.process_step ?_
    rintro _ ⟨⟩

end Preservation

/-- A worker talks to the server that was there when it was installed. In every run of the
server, the installer and the worker, every connection that the worker opens is accepted
exactly when the leaf of the server has the digest of a certificate that the server has
presented to the installer, and is cancelled otherwise. -/
theorem Machine.connects_to_installed (m : Machine) (d : Digests) {presented : Set Certificate}
    {s : Site} (h : m.system.ReachableUnder (fun s e =>
      m.Orderly Set.univ {token | IsGenerated token} s e ∧ d.Presents presented e) s)
    {config : WorkerConfig} (hconfig : s.process.config? = some config) :
    ∃ certificate ∈ presented, ∀ chain,
      d.urlSession (d.pin config.tlsCertFingerprint) (.serverTrust chain) =
        if chain.head?.any (d.sha256 · = d.sha256 certificate) then .useCredential
        else .cancelAuthenticationChallenge := by
  have hpinned : m.Pinned d presented s := by
    refine System.ReachableUnder.invariant (P := m.Pinned d presented) ?_ ?_ h
    · rintro s rfl
      refine ⟨?_, ?_, ?_⟩
      · rintro _ _ ⟨⟩
      · rintro _ ⟨⟩
      · rintro _ ⟨⟩
    · intro s e t hreach hok hnext hs
      have horderly : m.system.ReachableUnder
          (m.Orderly Set.univ {token | IsGenerated token}) s :=
        hreach.mono fun _ _ hallowed => hallowed.1
      obtain ⟨hholds, _⟩ := Machine.holds_issued (fun _ => id) (Set.mem_univ _) horderly
      exact (Machine.moves_of_step hnext).pinned hs hholds hok.2
  obtain ⟨certificate, hpresented, hfingerprint⟩ := hpinned.process config hconfig
  refine ⟨certificate, hpresented, fun chain => ?_⟩
  rw [hfingerprint]
  exact Digests.urlSession_pin certificate chain

/-- Digests that keep the first bytes. -/
def plainDigests : Digests where
  sha256 certificate := (certificate ++ List.replicate 32 0).take 32
  lowercased text := text.map Char.toLower
  length_sha256 certificate := by simp
  lowercased_eq text h := by
    have hdigits : ("0123456789abcdef".toList.all fun c => c.toLower == c) = true := by decide
    have hsame : ∀ c ∈ text, c.toLower = c := by
      intro c hc
      exact beq_iff_eq.mp (List.all_eq_true.mp hdigits c (List.contains_iff_mem.mp (h c hc)))
    rw [List.map_congr_left hsame, List.map_id']

/-- The installer of this machine sees a certificate of one byte. -/
def pinnedVariables : Variables :=
  { plainVariables with tlsFingerprint := plainDigests.fingerprint [171] }

/-- The runs in which the installer sees this certificate. -/
abbrev pinnedRuns (s : Site) (e : Event) : Prop :=
  plainMachine.Orderly Set.univ {token | IsGenerated token} s e ∧ plainDigests.Presents {[171]} e

/-- The worker has enrolled, has saved its file and was started again: it accepts the
certificate that the installer saw. -/
theorem connects_to_installed_restarted : ∃ s config,
    plainMachine.system.ReachableUnder pinnedRuns s ∧ s.process.config? = some config ∧
    config.workerToken = (repeatedToken 1).toList ∧
    plainDigests.urlSession (plainDigests.pin config.tlsCertFingerprint) (.serverTrust [[171]]) =
      .useCredential := by
  have hinitial : plainMachine.system.ReachableUnder pinnedRuns Machine.initial := .init rfl
  have hvalidated := hinitial.take (.validate pinnedVariables true)
    ⟨installable_of_quoteless rfl (by decide), [171], rfl, rfl⟩ rfl
  have hemptied := hvalidated.take .empty ⟨trivial, trivial⟩ rfl
  have hfilled := hemptied.take .fill ⟨trivial, trivial⟩ rfl
  have happended := hfilled.take .append ⟨trivial, trivial⟩ rfl
  have hstarted := happended.take (.start ⟨"mac", 8, 16, "1"⟩ 0) ⟨trivial, trivial⟩ rfl
  have harrived := hstarted.take (.arrive 0) ⟨trivial, trivial⟩ rfl
  have hchecked := harrived.take (.server 0 .check) ⟨⟨trivial, by simp⟩, trivial⟩ rfl
  have hupserted := hchecked.take (.server 0 (.upsert 100)) ⟨⟨trivial, by simp⟩, trivial⟩ rfl
  have hissued := hupserted.take (.server 0 (.issue 110 (repeatedToken 1)))
    ⟨⟨⟨isGenerated_repeatedToken 1, List.not_mem_nil⟩, by simp⟩, trivial⟩ rfl
  have hanswered := hissued.take .answer ⟨trivial, trivial⟩ rfl
  have hsaved := hanswered.take (.persist true) ⟨fun _ => rfl, trivial⟩ rfl
  have hstopped := hsaved.take .stop ⟨trivial, trivial⟩ rfl
  have hrestarted := hstopped.take (.start ⟨"mac", 8, 16, "1"⟩ 1) ⟨trivial, trivial⟩ rfl
  obtain ⟨certificate, rfl, haccepts⟩ :=
    plainMachine.connects_to_installed plainDigests hrestarted rfl
  exact ⟨_, _, hrestarted, rfl, rfl, haccepts [[171]]⟩

end MiniControl.Enrollment
