import MiniControl.Releases.Download

/-!
# The signature gate of uploads

`Upload` accepts a binary when the identity that it extracts from the code
signature is the required one. It reads the first slice of a universal binary
only, and where the CMS blob cannot be parsed it takes an identity made of fields
that nobody has signed. An accepted binary has the required signature in every
slice exactly when neither of the two happens.
-/

namespace MiniControl.Releases

open Transition

/-- The fields of a code directory that are read. -/
structure CodeDirectory where
  id : String
  teamID : String
  cdHash : String
  deriving DecidableEq

/-- The code signature of a slice: its code directories and its CMS blob. -/
structure CodeSignature where
  codeDirectories : List CodeDirectory
  cmsSignature : Bytes
  deriving DecidableEq

/-- The fields of a certificate that are read. -/
structure Certificate where
  isCA : Bool
  commonName : String
  deriving DecidableEq

/-- A slice, as far as it is read: its code signature, if it has one. -/
abbrev Slice := Option CodeSignature

/-- The parsers that the gate rests on: of a thin and of a universal Mach-O file, of
the two layers of a CMS blob, and of a sequence of certificates. -/
structure Parsers where
  openThin : Bytes → Except String Slice
  openFat : Bytes → Except String (List Slice)
  /-- The content of a `ContentInfo`. -/
  contentInfo : Bytes → Except String Bytes
  /-- The certificates of a `SignedData`, not yet parsed. -/
  signedData : Bytes → Except String Bytes
  parseCertificates : Bytes → Except String (List Certificate)

/-- Put a text in front of an error. -/
def wrapError {α : Type} (text : String) : Except String α → Except String α
  | .ok value => .ok value
  | .error error => .error (text ++ ": " ++ error)

namespace Parsers

variable (parsers : Parsers)

/-- The certificates of a CMS blob. -/
def certificates (cmsData : Bytes) : Except String (List Certificate) := do
  let content ← wrapError "parse CMS ContentInfo" (parsers.contentInfo cmsData)
  let raw ← wrapError "parse CMS SignedData" (parsers.signedData content)
  wrapError "parse certificates from CMS" (parsers.parseCertificates raw)

/-- The certificate of the signer: the first one that is not of a CA, or the first one. -/
def leaf (certificates : List Certificate) : Option Certificate :=
  (certificates.find? (!·.isCA)).or certificates.head?

/-- `extractCNFromCMS`. -/
def extractCNFromCMS (cmsData : Bytes) : Except String String := do
  match leaf (← parsers.certificates cmsData) with
  | some certificate => return certificate.commonName
  | none => throw "no certificates found in CMS signature"

/-- The identity that is made of the fields of the code directory. -/
def fallbackName (teamID id : String) : String := "(team: " ++ teamID ++ ", id: " ++ id ++ ")"

/-- The common name of a signature with the given code directory fields. -/
def commonName (signature : CodeSignature) (teamID id : String) : String :=
  if signature.cmsSignature = [] then ""
  else
    match parsers.extractCNFromCMS signature.cmsSignature with
    | .ok name => name
    | .error _ => if teamID ≠ "" then fallbackName teamID id else ""

/-- `extractFromFile`. -/
def extractFromFile : Slice → Except String SigningInfo
  | none => .error "binary has no code signature (LC_CODE_SIGNATURE not found)"
  | some signature =>
    let directory := signature.codeDirectories.head?.getD ⟨"", "", ""⟩
    let name := parsers.commonName signature directory.teamID directory.id
    if directory.teamID = "" ∧ name = "" then
      .error "binary is ad-hoc signed (no Developer ID)"
    else .ok ⟨directory.id, directory.teamID, name, directory.cdHash⟩

/-- `ExtractSigningInfo` on the content of a file. -/
def extractSigningInfo (content : Bytes) : Except String SigningInfo :=
  match parsers.openThin content with
  | .ok slice => parsers.extractFromFile slice
  | .error error =>
    match parsers.openFat content with
    | .error fatError =>
      .error ("not a valid Mach-O binary: " ++ error ++ " (fat: " ++ fatError ++ ")")
    | .ok [] => .error "fat binary contains no architectures"
    | .ok (slice :: _) => parsers.extractFromFile slice

/-- The slices of a file: one for a thin file, any number for a universal one. -/
def slices (content : Bytes) : List Slice :=
  match parsers.openThin content with
  | .ok slice => [slice]
  | .error _ =>
    match parsers.openFat content with
    | .ok slices => slices
    | .error _ => []

/-- The store that reads signatures with these parsers. -/
def store (storagePath : AbsPath) (requiredSigningID : String) (sha256 : Bytes → String) : Store :=
  ⟨storagePath, requiredSigningID, sha256, parsers.extractSigningInfo⟩

/-- The slice carries a code signature whose CMS blob parses and yields a certificate
of the given name. -/
def SignedBy (name : String) (slice : Slice) : Prop :=
  ∃ signature certificates certificate, slice = some signature ∧ signature.cmsSignature ≠ [] ∧
    parsers.certificates signature.cmsSignature = .ok certificates ∧
    leaf certificates = some certificate ∧ certificate.commonName = name

/-- The slice has a CMS blob that yields no certificate, and the fields of its first
code directory spell the given name. -/
def FallsBackTo (name : String) (slice : Slice) : Prop :=
  ∃ signature error directory, slice = some signature ∧ signature.cmsSignature ≠ [] ∧
    parsers.extractCNFromCMS signature.cmsSignature = .error error ∧
    signature.codeDirectories.head? = some directory ∧ directory.teamID ≠ "" ∧
    fallbackName directory.teamID directory.id = name

variable {parsers}

/-- The name that is extracted is the one of the signer's certificate. -/
theorem extractCNFromCMS_ok {cmsData : Bytes} {name : String} :
    parsers.extractCNFromCMS cmsData = .ok name ↔ ∃ certificates certificate,
      parsers.certificates cmsData = .ok certificates ∧ leaf certificates = some certificate ∧
      certificate.commonName = name := by
  rw [extractCNFromCMS]
  cases hparse : parsers.certificates cmsData with
  | error error =>
    constructor
    · intro h
      cases h
    · rintro ⟨_, _, h, _⟩
      cases h
  | ok certificates =>
    cases hleaf : leaf certificates with
    | none =>
      constructor
      · intro h
        simp [bind, Except.bind, hleaf, throw, throwThe, MonadExceptOf.throw] at h
      · rintro ⟨_, _, h, hsome, _⟩
        cases h
        rw [hleaf] at hsome
        cases hsome
    | some certificate =>
      simp [bind, Except.bind, hleaf, pure, Except.pure]

/-- A slice that yields the certificate does not fall back. -/
theorem SignedBy.not_fallsBackTo {name other : String} {slice : Slice}
    (h : parsers.SignedBy name slice) : ¬parsers.FallsBackTo other slice := by
  rintro ⟨signature, error, directory, hsome, _, herror, _⟩
  obtain ⟨signature', certificates, certificate, hsome', _, hleaf⟩ := h
  cases hsome.symm.trans hsome'
  cases herror.symm.trans (extractCNFromCMS_ok.mpr ⟨certificates, certificate, hleaf⟩)

/-- A non-empty common name comes from a certificate, or from the fields of the code
directory after a CMS blob without one. -/
theorem commonName_eq {name teamID id : String} (hname : name ≠ "") (signature : CodeSignature) :
    parsers.commonName signature teamID id = name ↔ signature.cmsSignature ≠ [] ∧
      (parsers.extractCNFromCMS signature.cmsSignature = .ok name ∨
        (∃ error, parsers.extractCNFromCMS signature.cmsSignature = .error error) ∧
          teamID ≠ "" ∧ fallbackName teamID id = name) := by
  rw [commonName]
  by_cases hcms : signature.cmsSignature = []
  · simp [hcms, hname.symm]
  · cases hextract : parsers.extractCNFromCMS signature.cmsSignature with
    | ok found => simp [hcms]
    | error error =>
      by_cases hteam : teamID = ""
      · simp [hcms, hteam, hname.symm]
      · simp [hcms, hteam]

/-- The identities that a slice is taken for. -/
theorem extractFromFile_commonName {name : String} (hname : name ≠ "") (slice : Slice) :
    (∃ info, parsers.extractFromFile slice = .ok info ∧ info.commonName = name) ↔
      parsers.SignedBy name slice ∨ parsers.FallsBackTo name slice := by
  cases slice with
  | none =>
    constructor
    · rintro ⟨_, h, _⟩
      cases h
    · rintro (⟨_, _, _, h, _⟩ | ⟨_, _, _, h, _⟩) <;> cases h
  | some signature =>
    have hfile : (∃ info, parsers.extractFromFile (some signature) = .ok info ∧
        info.commonName = name) ↔
          parsers.commonName signature (signature.codeDirectories.head?.getD ⟨"", "", ""⟩).teamID
            (signature.codeDirectories.head?.getD ⟨"", "", ""⟩).id = name := by
      simp only [extractFromFile]
      split_ifs with hadhoc
      · simp [hadhoc.2, hname.symm]
      · simp
    rw [hfile, commonName_eq hname, extractCNFromCMS_ok]
    constructor
    · rintro ⟨hcms, ⟨certificates, certificate, hcert⟩ | ⟨⟨error, herror⟩, hteam, hfallback⟩⟩
      · exact .inl ⟨signature, certificates, certificate, rfl, hcms, hcert⟩
      · cases hhead : signature.codeDirectories.head? with
        | none => simp [hhead] at hteam
        | some directory =>
          rw [hhead] at hteam hfallback
          exact .inr ⟨signature, error, directory, rfl, hcms, herror, hhead, hteam, hfallback⟩
    · rintro (⟨_, certificates, certificate, hsome, hcms, hcert⟩ |
        ⟨_, error, directory, hsome, hcms, herror, hhead, hfallback⟩)
      · cases hsome
        exact ⟨hcms, .inl ⟨certificates, certificate, hcert⟩⟩
      · cases hsome
        rw [hhead]
        exact ⟨hcms, .inr ⟨⟨error, herror⟩, hfallback⟩⟩

/-- The gate reads the first slice. -/
theorem extractSigningInfo_ok {content : Bytes} {info : SigningInfo} :
    parsers.extractSigningInfo content = .ok info ↔
      ∃ slice, (parsers.slices content).head? = some slice ∧
        parsers.extractFromFile slice = .ok info := by
  rw [extractSigningInfo, slices]
  cases parsers.openThin content with
  | ok slice => simp
  | error error =>
    cases parsers.openFat content with
    | error fatError => simp
    | ok slices =>
      cases slices with
      | nil => simp
      | cons slice rest => simp

/-- A file passes the gate exactly when its first slice is taken for the required
identity. -/
theorem validateSigningIdentity_iff {storagePath : AbsPath} {required : String}
    {sha256 : Bytes → String} (hrequired : required ≠ "") (content : Bytes) :
    (parsers.store storagePath required sha256).validateSigningIdentity content = true ↔
      ∃ slice, (parsers.slices content).head? = some slice ∧
        (parsers.SignedBy required slice ∨ parsers.FallsBackTo required slice) := by
  have hgate : (parsers.store storagePath required sha256).validateSigningIdentity content = true ↔
      ∃ info, parsers.extractSigningInfo content = .ok info ∧ info.commonName = required := by
    simp only [Store.validateSigningIdentity, store]
    cases parsers.extractSigningInfo content with
    | error error => simp
    | ok info => simp
  rw [hgate]
  constructor
  · rintro ⟨info, hinfo, hname⟩
    obtain ⟨slice, hhead, hfile⟩ := extractSigningInfo_ok.mp hinfo
    exact ⟨slice, hhead, (extractFromFile_commonName hrequired slice).mp ⟨info, hfile, hname⟩⟩
  · rintro ⟨slice, hhead, htaken⟩
    obtain ⟨info, hfile, hname⟩ := (extractFromFile_commonName hrequired slice).mpr htaken
    exact ⟨info, extractSigningInfo_ok.mpr ⟨slice, hhead, hfile⟩, hname⟩

end Parsers

section Runs

variable {store : Store} {s t u : State} {e : Event} {id : ℕ} {content : Bytes}

/-- In some run an upload of the content succeeds. -/
def Store.Accepts (store : Store) (content : Bytes) : Prop :=
  ∃ s t u id version ok r, store.system.Reachable s ∧
    store.system.next s (.look id version content ok) t ∧ store.system.Leads t u ∧
    u.uploads id = .returned (.ok r)

/-- The call has got past the signature check. -/
def Phase.passed : Phase → Bool
  | .validated _ _ | .identified _ _ _ | .dirMade _ _ _ | .renamed _ _ _ => true
  | .executable _ _ _ | .insertFailed _ _ _ | .cleanup _ (.ok _) | .returned (.ok _) => true
  | _ => false

/-- A call gets past the signature check only by a file that passes the gate. -/
theorem Store.passes_gate (hrequired : store.requiredSigningID ≠ "")
    (h : store.step s e = some t) (hnew : (t.uploads e.id).passed = true) :
    (s.uploads e.id).passed = true ∨ ∃ call tmp, s.uploads e.id = .written call tmp ∧
      (s.files tmp).any store.validateSigningIdentity = true := by
  cases Store.step_takes h with
  | refuses => simp [Phase.passed] at hnew
  | looksUp id call ok => simp [Event.id, Phase.passed] at hnew
  | opens => simp [Phase.passed] at hnew
  | copies => simp [Phase.passed] at hnew
  | stops => simp [Phase.passed] at hnew
  | proceeds hstarts hphase hproceeds =>
    cases hproceeds with
    | validated call tmp =>
      refine .inr ⟨call, tmp, hphase, ?_⟩
      -- only the check itself moves a call on from here
      cases e with
      | validate id =>
        by_contra hgate
        simp only [Event.id] at hphase
        simp only [Store.step, Event.id, hphase, hrequired, hgate, or_self, if_false,
          Option.some.injEq] at h
        have hsame := congrArg (fun s => s.uploads id) h
        simp at hsame
      | _ =>
        simp only [Event.id] at hphase
        simp [Store.step, hphase] at h
    | _ => exact .inl (by rw [hphase]; rfl)
  | fails => simp [Phase.passed] at hnew
  | renames id call tmp identity content hphase => exact .inl (by rw [Event.id, hphase]; rfl)
  | inserts call tmp identity _ hphase => exact .inl (by rw [hphase]; rfl)
  | removesFinal => simp [Phase.passed] at hnew
  | returns id ok tmp result files hphase =>
    refine .inl ?_
    simp only [Event.id, State.goto_uploads_self] at hnew
    rw [Event.id, hphase]
    cases result with
    | ok r => rfl
    | error error => cases hnew

/-- An upload of the content: it works for nothing else, and has got past the signature
check only if the content passes the gate. -/
structure Store.Uploads (store : Store) (id : ℕ) (content : Bytes) (s : State) : Prop where
  inv : store.Inv s
  started : s.uploads id ≠ .idle
  binary : ∀ call, (s.uploads id).call? = some call → call.binary = content
  gate : (s.uploads id).passed = true → store.validateSigningIdentity content = true

/-- The upload goes on as one of the content. -/
theorem Store.Uploads.step (hrequired : store.requiredSigningID ≠ "")
    (hup : store.Uploads id content s) (h : store.step s e = some t) :
    store.Uploads id content t := by
  have hacts := Store.step_acts h
  by_cases hid : id = e.id
  · subst hid
    refine ⟨hup.inv.step h, hacts.started, fun call hcall => ?_, fun hpassed => ?_⟩
    · rcases hacts.call call hcall with hold | ⟨⟨ok, hlook⟩, _⟩
      · exact hup.binary call hold
      · exact absurd (hacts.starts (by rw [hlook]; rfl)) hup.started
    · rcases Store.passes_gate hrequired h hpassed with hold | ⟨call, tmp, hphase, hany⟩
      · exact hup.gate hold
      · rw [hup.inv.content e.id call tmp (by rw [hphase]; rfl)] at hany
        rw [← hup.binary call (by rw [hphase]; rfl)]
        exact hany
  · have hsame := hacts.others id hid
    exact ⟨hup.inv.step h, hsame ▸ hup.started, hsame ▸ hup.binary, hsame ▸ hup.gate⟩

/-- What is accepted has passed the gate. -/
theorem Store.Accepts.validateSigningIdentity (hrequired : store.requiredSigningID ≠ "")
    (h : store.Accepts content) : store.validateSigningIdentity content = true := by
  obtain ⟨s, t, u, id, version, ok, r, hreach, hlook, hrun, hreturned⟩ := h
  have hinv : store.Inv s :=
    hreach.invariant (fun _ => Store.inv_initial) fun _ _ _ _ _ hnext hinv => hinv.step hnext
  have hstart : store.Uploads id content t := by
    have hacts := Store.step_acts hlook
    have hidle : s.uploads id = .idle := hacts.starts rfl
    refine ⟨hinv.step hlook, hacts.started, fun call hcall => ?_, fun hpassed => ?_⟩
    · rcases hacts.call call hcall with hold | ⟨⟨_, heq⟩, _⟩
      · rw [Event.id, hidle] at hold
        cases hold
      · cases heq
        rfl
    · rcases Store.passes_gate hrequired hlook hpassed with hold | ⟨_, _, hphase, _⟩
      · rw [Event.id, hidle] at hold
        cases hold
      · rw [Event.id, hidle] at hphase
        cases hphase
  have hend : store.Uploads id content u :=
    System.Leads.invariant (fun _ _ _ _ hnext hup => hup.step hrequired hnext) hrun
      (hreach.next hlook) hstart
  exact hend.gate (by rw [hreturned]; rfl)

/-- What passes the gate is accepted, for instance as the first upload. -/
theorem Store.accepts_of_validateSigningIdentity
    (h : store.validateSigningIdentity content = true) : store.Accepts content := by
  obtain ⟨info, hinfo⟩ : ∃ info, store.extractSigningInfo content = .ok info := by
    rw [Store.validateSigningIdentity] at h
    split at h
    next info hinfo => exact ⟨info, hinfo⟩
    next => cases h
  have hpaths := releasePaths_of_validateVersion store.storagePath
    (by decide : validateVersion "v1" = true)
  have hlook : ∃ t, store.step emptyState (.look 0 "v1" content true) = some t ∧
      ∃ u r, runEvents store.step t uploadSteps = some u ∧ u.uploads 0 = .returned (.ok r) := by
    refine ⟨_, by simp only [Store.step, emptyState, hpaths]; rfl, ?_⟩
    rw [uploadSteps]
    -- the temp file is created and written
    rw [runEvents_cons (by
      simp only [Store.step, State.goto, Function.update_self]
      exact if_pos (by simp))]
    rw [runEvents_cons (by
      simp only [Store.step, State.goto, State.write, Function.update_self]
      rfl)]
    -- its content passes the gate and has an identity
    rw [runEvents_cons (by
      simp only [Store.step, State.goto, Function.update_self]
      exact if_pos (.inr (by simp [h])))]
    rw [runEvents_cons (by
      simp only [Store.step, State.goto, Function.update_self, Option.map_some, hinfo]
      rfl)]
    -- it becomes the binary of the version, and the row is inserted
    rw [runEvents_cons (by
      simp only [Store.step, State.goto, Function.update_self]
      rfl)]
    rw [runEvents_cons (by
      simp only [Store.step, State.goto, State.write, Function.update_self]
      rfl)]
    rw [runEvents_cons (by
      simp only [Store.step, State.goto, Function.update_self]
      exact if_pos ⟨trivial, rfl⟩)]
    rw [runEvents_cons (by
      simp only [Store.step, State.goto, Function.update_self]
      rfl)]
    rw [runEvents_cons (by
      simp only [Store.step, State.goto, State.write, Function.update_self]
      rfl)]
    exact ⟨_, _, rfl, rfl⟩
  obtain ⟨t, hlook, u, r, hrun, hreturned⟩ := hlook
  exact ⟨emptyState, t, u, 0, "v1", true, r, .init ⟨rfl, rfl, fun _ => rfl⟩, hlook,
    leads_of_runEvents hrun, hreturned⟩

end Runs

/-- An upload of a file is accepted only if every slice is signed by the required
identity, exactly when the first slice does not fall back to that identity and, if it
is signed by it, so are the slices after it. -/
theorem Parsers.signature_gate_iff (parsers : Parsers) (storagePath : AbsPath) (required : String)
    (sha256 : Bytes → String) (hrequired : required ≠ "") (content : Bytes) :
    ((parsers.store storagePath required sha256).Accepts content →
      ∀ slice ∈ parsers.slices content, parsers.SignedBy required slice) ↔
    ∀ first rest, parsers.slices content = first :: rest →
      ¬parsers.FallsBackTo required first ∧
      (parsers.SignedBy required first → ∀ slice ∈ rest, parsers.SignedBy required slice) := by
  have haccepts : (parsers.store storagePath required sha256).Accepts content ↔
      ∃ slice, (parsers.slices content).head? = some slice ∧
        (parsers.SignedBy required slice ∨ parsers.FallsBackTo required slice) := by
    rw [← validateSigningIdentity_iff hrequired content]
    exact ⟨fun h => h.validateSigningIdentity hrequired,
      Store.accepts_of_validateSigningIdentity⟩
  rw [haccepts]
  constructor
  · intro hall first rest hslices
    rw [hslices] at hall
    refine ⟨fun hfalls => ?_, fun hsigned slice hslice => ?_⟩
    · exact (hall ⟨first, rfl, .inr hfalls⟩ first List.mem_cons_self).not_fallsBackTo hfalls
    · exact hall ⟨first, rfl, .inl hsigned⟩ slice (List.mem_cons_of_mem first hslice)
  · rintro hcond ⟨first, hhead, htaken⟩
    obtain ⟨rest, hslices⟩ := List.head?_eq_some_iff.mp hhead
    obtain ⟨hfalls, hrest⟩ := hcond first rest hslices
    have hsigned := htaken.resolve_right hfalls
    rw [hslices]
    intro slice hslice
    rcases List.mem_cons.mp hslice with rfl | hlater
    · exact hsigned
    · exact hrest hsigned slice hlater

/-- The slices of small files: `0` is not signed, `1` is signed with a certificate, and
the CMS blob of `2` is damaged. -/
def sampleSlice (k : UInt8) : Slice :=
  if k = 0 then none else some ⟨[⟨"com.example.app", "TEAMID", "00"⟩], [k]⟩

/-- Parsers of small files: a thin file is `254` and a slice, a universal one `202` and
any number of slices. -/
def sampleParsers : Parsers where
  openThin
    | [254, k] => .ok (sampleSlice k)
    | _ => .error "invalid magic number"
  openFat
    | 202 :: ks => .ok (ks.map sampleSlice)
    | _ => .error "not a fat file"
  contentInfo cmsData := if cmsData = [1] then .ok [1] else .error "asn1: syntax error"
  signedData := .ok
  parseCertificates _ := .ok [⟨true, "Developer ID Certification Authority"⟩,
    ⟨false, "Developer ID Application: Example Developer (TEAMID)"⟩]

/-- The directory of the sample store is a path component. -/
theorem isComponent_of_mem_srv : ∀ c ∈ ["srv"], IsComponent c := by decide

/-- The store of small files that requires the given identity. -/
def sampleStore (required : String) : Store :=
  sampleParsers.store ⟨["srv"], isComponent_of_mem_srv⟩ required fun _ => "00"

/-- A universal file with two signed slices is accepted, and both are signed. -/
theorem signature_gate_two :
    (sampleStore "Developer ID Application: Example Developer (TEAMID)").Accepts [202, 1, 1] ∧
      ∀ slice ∈ sampleParsers.slices [202, 1, 1],
        sampleParsers.SignedBy "Developer ID Application: Example Developer (TEAMID)" slice := by
  have haccepts :
      (sampleStore "Developer ID Application: Example Developer (TEAMID)").Accepts [202, 1, 1] :=
    Store.accepts_of_validateSigningIdentity (by decide)
  refine ⟨haccepts, (sampleParsers.signature_gate_iff _ _ _ (by decide) _).mpr ?_ haccepts⟩
  intro first rest hslices
  cases hslices
  have hsigned : sampleParsers.SignedBy "Developer ID Application: Example Developer (TEAMID)"
      (sampleSlice 1) :=
    ⟨_, _, _, rfl, by decide, rfl, rfl, rfl⟩
  refine ⟨hsigned.not_fallsBackTo, fun _ slice hslice => ?_⟩
  cases List.mem_singleton.mp hslice
  exact hsigned

/-- A universal file is accepted with an unsigned slice behind a signed one. And where
the required identity is spelled like the fields of a code directory, a thin file that
is refused as it is signed is accepted with a damaged CMS blob. -/
theorem unsigned_code_accepted :
    ((sampleStore "Developer ID Application: Example Developer (TEAMID)").Accepts [202, 1, 0] ∧
      ∃ slice ∈ sampleParsers.slices [202, 1, 0],
        ¬sampleParsers.SignedBy "Developer ID Application: Example Developer (TEAMID)" slice) ∧
    ¬(sampleStore "(team: TEAMID, id: com.example.app)").Accepts [254, 1] ∧
    (sampleStore "(team: TEAMID, id: com.example.app)").Accepts [254, 2] := by
  refine ⟨⟨Store.accepts_of_validateSigningIdentity (by decide), none, by decide, ?_⟩, ?_,
    Store.accepts_of_validateSigningIdentity (by decide)⟩
  · rintro ⟨_, _, _, hnone, _⟩
    cases hnone
  · intro haccepts
    have hgate := haccepts.validateSigningIdentity (by decide)
    revert hgate
    decide

end MiniControl.Releases
