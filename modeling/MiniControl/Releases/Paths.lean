import Mathlib.Tactic.Common

/-!
# Paths of the release store

The store keeps every binary below its storage root, at a path computed from
the version alone. An absolute path is represented by its components, which is
what `filepath.Abs` and `filepath.Join` return up to the separating slashes.
`releasePaths` accepts a version only after two containment checks.
-/

namespace MiniControl.Releases

/-- A component of a cleaned path: not empty, no reference to the directory
itself or its parent, and no separator inside. -/
def IsComponent (name : String) : Prop :=
  name ≠ "" ∧ name ≠ "." ∧ name ≠ ".." ∧ '/' ∉ name.toList

instance (name : String) : Decidable (IsComponent name) :=
  inferInstanceAs (Decidable (_ ∧ _ ∧ _ ∧ _))

/-- An absolute path as `filepath.Clean` leaves it. -/
@[ext] structure AbsPath where
  /-- The components below the root directory, outermost first. -/
  components : List String
  clean : ∀ c ∈ components, IsComponent c
  deriving DecidableEq

/-- The segments of a text between its slashes. -/
def splitPath (text : String) : List String :=
  (text.toList.splitOn '/').map String.ofList

/-- One step of `filepath.Clean` on a rooted path, with the components so far
innermost first: empty and `.` segments vanish, and `..` removes one component. -/
def cleanSegment (acc : List String) (segment : String) : List String :=
  if segment = "" ∨ segment = "." then acc
  else if segment = ".." then acc.tail
  else segment :: acc

/-- `filepath.Clean` on the segments of a rooted path. -/
def cleanSegments (segments : List String) : List String :=
  (segments.foldl cleanSegment []).reverse

/-- The separator is in none of the pieces. -/
private theorem not_mem_of_mem_splitOn {a : Char} {xs piece : List Char}
    (h : piece ∈ xs.splitOn a) : a ∉ piece := by
  induction xs generalizing piece with
  | nil =>
    have hpiece : piece = [] := by simpa using h
    simp [hpiece]
  | cons x xs ih =>
    rw [List.splitOn_cons_eq_if_modifyHead] at h
    by_cases hx : x = a
    · subst x
      rcases List.mem_cons.mp (by simpa using h) with rfl | h
      · simp
      · exact ih h
    · obtain ⟨first, rest, hsplit⟩ := List.exists_cons_of_ne_nil (List.splitOn_ne_nil a xs)
      have hmem : piece = x :: first ∨ piece ∈ rest := by simpa [hx, hsplit] using h
      rcases hmem with rfl | hrest
      · have hfirst : a ∉ first := ih (by simp [hsplit])
        simpa [hfirst] using Ne.symm hx
      · exact ih (by simp [hsplit, hrest])

variable {text segment version : String} {segments : List String} {storagePath path : AbsPath}
  {c : Char}

/-- No segment of a split text contains a separator. -/
theorem slash_not_mem_of_mem_splitPath (h : segment ∈ splitPath text) :
    '/' ∉ segment.toList := by
  obtain ⟨chars, hchars, rfl⟩ := List.mem_map.mp h
  rw [String.toList_ofList]
  exact not_mem_of_mem_splitOn hchars

/-- A text without a separator is its only segment. -/
theorem splitPath_eq_singleton (h : '/' ∉ text.toList) :
    splitPath text = [text] := by
  simp [splitPath, List.splitOn_eq_singleton h]

/-- Cleaning one segment after another leaves components. -/
private theorem cleanSegment_component {acc : List String} (hacc : ∀ c ∈ acc, IsComponent c)
    (hsegment : '/' ∉ segment.toList) :
    ∀ c ∈ cleanSegment acc segment, IsComponent c := by
  intro c hc
  unfold cleanSegment at hc
  split_ifs at hc with hskip hparent
  · exact hacc c hc
  · exact hacc c (List.mem_of_mem_tail hc)
  · rcases List.mem_cons.mp hc with rfl | hc
    · rw [not_or] at hskip
      exact ⟨hskip.1, hskip.2, hparent, hsegment⟩
    · exact hacc c hc

/-- Cleaning separator-free segments leaves components only. -/
theorem cleanSegments_component (h : ∀ segment ∈ segments, '/' ∉ segment.toList) :
    ∀ c ∈ cleanSegments segments, IsComponent c := by
  have key : ∀ (segments acc : List String), (∀ segment ∈ segments, '/' ∉ segment.toList) →
      (∀ c ∈ acc, IsComponent c) → ∀ c ∈ segments.foldl cleanSegment acc, IsComponent c := by
    intro segments
    induction segments with
    | nil => exact fun acc _ hacc => hacc
    | cons segment segments ih =>
      intro acc hsegments hacc
      exact ih _ (fun s hs => hsegments s (List.mem_cons_of_mem _ hs))
        (cleanSegment_component hacc (hsegments segment List.mem_cons_self))
  intro c hc
  exact key segments [] h (by simp) c (List.mem_reverse.mp hc)

/-- Components are left as they are by cleaning. -/
theorem cleanSegments_of_components (h : ∀ c ∈ segments, IsComponent c) :
    cleanSegments segments = segments := by
  have key : ∀ (segments acc : List String), (∀ c ∈ segments, IsComponent c) →
      segments.foldl cleanSegment acc = segments.reverse ++ acc := by
    intro segments
    induction segments with
    | nil => intro acc _; rfl
    | cons segment segments ih =>
      intro acc hsegments
      obtain ⟨hempty, hdot, hparent, _⟩ := hsegments segment List.mem_cons_self
      have hstep : cleanSegment acc segment = segment :: acc := by
        simp [cleanSegment, hempty, hdot, hparent]
      rw [List.foldl_cons, hstep, ih _ fun c hc => hsegments c (List.mem_cons_of_mem _ hc)]
      simp
  simp [cleanSegments, key segments [] h]

/-- `filepath.Join` of an absolute path with one more element. -/
def AbsPath.join (base : AbsPath) (element : String) : AbsPath where
  components := cleanSegments (base.components ++ splitPath element)
  clean := by
    apply cleanSegments_component
    intro segment hsegment
    rcases List.mem_append.mp hsegment with h | h
    · exact (base.clean segment h).2.2.2
    · exact slash_not_mem_of_mem_splitPath h

/-- Joining a component appends it. -/
theorem AbsPath.join_components (base : AbsPath) {name : String} (h : IsComponent name) :
    (base.join name).components = base.components ++ [name] := by
  have hall : ∀ c ∈ base.components ++ [name], IsComponent c := by
    intro c hc
    rcases List.mem_append.mp hc with hc | hc
    · exact base.clean c hc
    · rwa [List.mem_singleton.mp hc]
  unfold AbsPath.join
  simp only [splitPath_eq_singleton h.2.2.2, cleanSegments_of_components hall]

/-- `filepath.Rel` between absolute paths: below the common prefix, one `..`
for each remaining component of the base and then the rest of the target. -/
def rel : List String → List String → List String
  | b :: base, t :: target =>
    if b = t then rel base target else (b :: base).map (fun _ => "..") ++ t :: target
  | base, target => base.map (fun _ => "..") ++ target

/-- A path below its base is reached by its remaining components. -/
theorem rel_append (base rest : List String) : rel base (base ++ rest) = rest := by
  induction base with
  | nil => cases rest <;> rfl
  | cons b base ih => simp [rel, ih]

/-- `Store.isWithinStorage`: the relative path does not start with `..`. -/
def isWithinStorage (storagePath path : AbsPath) : Bool :=
  (rel storagePath.components path.components).head? != some ".."

/-- Paths below the storage root pass the containment check. -/
theorem isWithinStorage_of_components {rest : List String}
    (hpath : path.components = storagePath.components ++ rest) :
    isWithinStorage storagePath path = true := by
  have hrest : rest.head? ≠ some ".." := by
    intro h
    have hmem : ".." ∈ path.components := by
      rw [hpath]
      exact List.mem_append_right _ (List.mem_of_mem_head? h)
    exact (path.clean _ hmem).2.2.1 rfl
  simpa [isWithinStorage, hpath, rel_append] using hrest

/-- The first character class of `releaseVersionPattern`. -/
def isVersionStart (c : Char) : Bool :=
  ('A' ≤ c && c ≤ 'Z') || ('a' ≤ c && c ≤ 'z') || ('0' ≤ c && c ≤ '9')

/-- The second character class of `releaseVersionPattern`. -/
def isVersionChar (c : Char) : Bool :=
  isVersionStart c || c == '.' || c == '_' || c == '-'

/-- `ValidateVersion`: one starting character and at most 63 further ones. -/
def validateVersion (version : String) : Bool :=
  match version.toList with
  | [] => false
  | c :: rest => isVersionStart c && rest.all isVersionChar && rest.length ≤ 63

/-- A version has no slash. -/
private theorem isVersionChar_ne_slash (h : isVersionChar c = true) : c ≠ '/' := by
  rintro rfl
  exact absurd h (by decide)

/-- The first character of an accepted version and the others. -/
theorem exists_of_validateVersion (h : validateVersion version = true) :
    ∃ c rest, version.toList = c :: rest ∧ isVersionStart c = true ∧
      ∀ d ∈ rest, isVersionChar d = true := by
  unfold validateVersion at h
  cases hchars : version.toList with
  | nil => simp [hchars] at h
  | cons c rest =>
    have hvalid : (isVersionStart c = true ∧ ∀ d ∈ rest, isVersionChar d = true) ∧
        rest.length ≤ 63 := by simpa [hchars] using h
    exact ⟨c, rest, rfl, hvalid.1⟩

/-- The characters of an accepted version. -/
theorem isVersionChar_of_mem (h : validateVersion version = true) (hc : c ∈ version.toList) :
    isVersionChar c = true := by
  obtain ⟨first, rest, hchars, hstart, hrest⟩ := exists_of_validateVersion h
  rw [hchars] at hc
  rcases List.mem_cons.mp hc with rfl | hmem
  · simp [isVersionChar, hstart]
  · exact hrest c hmem

/-- An accepted version is a path component. -/
theorem isComponent_of_validateVersion (h : validateVersion version = true) :
    IsComponent version := by
  obtain ⟨c, rest, hchars, hstart, _⟩ := exists_of_validateVersion h
  have hdot : c ≠ '.' := by rintro rfl; exact absurd hstart (by decide)
  refine ⟨?_, ?_, ?_, ?_⟩
  · rintro rfl
    simp at hchars
  · rintro rfl
    exact hdot (List.head_eq_of_cons_eq hchars).symm
  · rintro rfl
    exact hdot (List.head_eq_of_cons_eq hchars).symm
  · exact fun hslash => isVersionChar_ne_slash (isVersionChar_of_mem h hslash) rfl

/-- The name of the binary inside its version directory. -/
def binaryName : String := "minicontrol-worker"

/-- The error of `releasePaths`. -/
inductive PathError
  | invalidVersion
  | versionEscapes
  | binaryEscapes
  deriving DecidableEq

/-- The text of each path error. -/
def PathError.message : PathError → String
  | .invalidVersion => "invalid version"
  | .versionEscapes => "release version escapes storage root"
  | .binaryEscapes => "release binary path escapes storage root"

/-- `Store.releasePaths`: the version directory and the final path of the binary. -/
def releasePaths (storagePath : AbsPath) (version : String) :
    Except PathError (AbsPath × AbsPath) :=
  if validateVersion version then
    let versionDir := storagePath.join version
    if isWithinStorage storagePath versionDir then
      let finalPath := versionDir.join binaryName
      if isWithinStorage storagePath finalPath then .ok (versionDir, finalPath)
      else .error .binaryEscapes
    else .error .versionEscapes
  else .error .invalidVersion

/-- The final path of an accepted version has two components below the root. -/
theorem finalPath_components (storagePath : AbsPath) (h : validateVersion version = true) :
    ((storagePath.join version).join binaryName).components =
      storagePath.components ++ [version, binaryName] := by
  rw [AbsPath.join_components _ (by decide : IsComponent binaryName),
    AbsPath.join_components _ (isComponent_of_validateVersion h)]
  simp

/-- Accepted versions always get their two paths: the containment checks never
refuse one. -/
theorem releasePaths_of_validateVersion (storagePath : AbsPath)
    (h : validateVersion version = true) :
    releasePaths storagePath version =
      .ok (storagePath.join version, (storagePath.join version).join binaryName) := by
  have hdir := isWithinStorage_of_components
    (storagePath.join_components (isComponent_of_validateVersion h))
  have hfinal := isWithinStorage_of_components (finalPath_components storagePath h)
  simp [releasePaths, h, hdir, hfinal]

/-- Whatever `releasePaths` returns is the pair of paths of an accepted version. -/
theorem releasePaths_ok {storagePath versionDir finalPath : AbsPath}
    (h : releasePaths storagePath version = .ok (versionDir, finalPath)) :
    validateVersion version = true ∧
      finalPath.components = storagePath.components ++ [version, binaryName] := by
  by_cases hvalid : validateVersion version = true
  · rw [releasePaths_of_validateVersion storagePath hvalid] at h
    have hfinal : (storagePath.join version).join binaryName = finalPath :=
      congrArg Prod.snd (Except.ok.inj h)
    exact ⟨hvalid, hfinal ▸ finalPath_components storagePath hvalid⟩
  · simp [releasePaths, hvalid] at h

/-- Versions with the same final path are equal. -/
theorem version_eq_of_finalPath_eq {storagePath dir dir' path : AbsPath} {version version' : String}
    (h : releasePaths storagePath version = .ok (dir, path))
    (h' : releasePaths storagePath version' = .ok (dir', path)) : version = version' := by
  have heq := (releasePaths_ok h).2.symm.trans (releasePaths_ok h').2
  simpa using heq

end MiniControl.Releases
