import MiniControl.Releases.Download

/-!
# Containment of release paths in the texts

The store decides containment by looking at the text of a relative path. The
texts of `path/filepath` are modelled here over the components: `Abs` cleans any
text, `Rel` joins components with slashes. The test on the text agrees with the
order of prefixes on components, for every text that a row may hold.
-/

namespace MiniControl.Releases

/-- The text of an absolute path. -/
def AbsPath.text (path : AbsPath) : String :=
  String.ofList ('/' :: ['/'].intercalate (path.components.map String.toList))

/-- `filepath.Clean` of a rooted text. -/
def AbsPath.ofText (text : String) : AbsPath where
  components := cleanSegments (splitPath text)
  clean := cleanSegments_component fun _ h => slash_not_mem_of_mem_splitPath h

/-- `filepath.Abs`, with the answer of `os.Getwd`. -/
def absPath (wd : Except String AbsPath) (path : String) : Except String AbsPath :=
  if path.toList.head? = some '/' then .ok (.ofText path) else wd.map (·.join path)

/-- The text that `filepath.Rel` returns for two absolute paths. -/
def relPath (base target : AbsPath) : String :=
  if base = target then "."
  else String.ofList (['/'].intercalate ((rel base.components target.components).map String.toList))

/-- `Store.isWithinStorage` on the text of the relative path. -/
def isWithinStorageText (storagePath path : AbsPath) : Bool :=
  let relPath := relPath storagePath path
  if relPath = ".." then false else !"../".toList.isPrefixOf relPath.toList

/-- `Store.BinaryPath`, for a row that may be missing and holds any text. -/
def binaryPath (wd : Except String AbsPath) (storagePath : AbsPath) (filePath : Option String) :
    Except String String :=
  match filePath with
  | none => .error "release binary path is empty"
  | some filePath =>
    if filePath = "" then .error "release binary path is empty"
    else
      match absPath wd filePath with
      | .error err => .error ("resolve release binary path: " ++ err)
      | .ok path =>
        if isWithinStorageText storagePath path then .ok path.text
        else .error "release binary path escapes storage root"

/-- A cleaned path is read back from its text. -/
theorem AbsPath.ofText_text (path : AbsPath) : AbsPath.ofText path.text = path := by
  have hslash : ∀ chars ∈ path.components.map String.toList, '/' ∉ chars := by
    intro chars hchars
    obtain ⟨c, hc, rfl⟩ := List.mem_map.mp hchars
    exact (path.clean c hc).2.2.2
  have hclean : cleanSegments (splitPath path.text) = path.components := by
    rw [splitPath, AbsPath.text, String.toList_ofList, List.splitOn_cons_eq_if_modifyHead,
      if_pos (beq_self_eq_true _), List.map_cons]
    -- The empty segment before the first slash vanishes.
    change cleanSegments (List.map String.ofList _) = _
    by_cases hempty : path.components = []
    · rw [hempty]
      rfl
    · rw [List.splitOn_intercalate _ hslash (by simpa using hempty), List.map_map]
      simpa using cleanSegments_of_components path.clean
  exact AbsPath.ext hclean

/-- Different paths have different texts. -/
theorem AbsPath.text_injective : Function.Injective AbsPath.text := by
  intro a b h
  rw [← a.ofText_text, h, b.ofText_text]

/-- The text of a cleaned absolute path is its own absolute form. -/
theorem absPath_text (wd : Except String AbsPath) (path : AbsPath) :
    absPath wd path.text = .ok path := by
  rw [absPath, if_pos (by simp [AbsPath.text]), AbsPath.ofText_text]

/-- A text is a segment or starts with it and a slash exactly when the segment is
its first one. -/
theorem eq_or_starts_iff {segment : List Char} (hsegment : '/' ∉ segment) (text : List Char) :
    (text = segment ∨ segment ++ ['/'] <+: text) ↔
      (text.splitOn '/').head? = some segment := by
  constructor
  · rintro (rfl | ⟨rest, rfl⟩)
    · rw [List.splitOn_eq_singleton hsegment]
      rfl
    · rw [List.append_assoc, List.singleton_append, List.splitOn_append_cons_self,
        List.splitOn_eq_singleton hsegment]
      rfl
  · intro hfirst
    obtain ⟨rest, hsplit⟩ := List.head?_eq_some_iff.mp hfirst
    have htext : ['/'].intercalate (text.splitOn '/') = text := List.intercalate_splitOn '/'
    rw [hsplit] at htext
    cases rest with
    | nil => exact .inl (by simpa using htext.symm)
    | cons second rest =>
      refine .inr ⟨['/'].intercalate (second :: rest), ?_⟩
      rw [← htext, List.intercalate_cons_cons]

/-- The parts of a relative path are parents or components of the target. -/
theorem mem_rel {base target : List String} {c : String} (h : c ∈ rel base target) :
    c = ".." ∨ c ∈ target := by
  induction base generalizing target with
  | nil =>
    have hrel : rel [] target = target := by cases target <;> rfl
    exact .inr (hrel ▸ h)
  | cons b base ih =>
    have hparents : c ∈ (b :: base).map (fun _ => "..") ++ target → c = ".." ∨ c ∈ target := by
      intro hc
      rcases List.mem_append.mp hc with hup | htarget
      · exact .inl (List.eq_of_mem_replicate (List.map_const' .. ▸ hup))
      · exact .inr htarget
    cases target with
    | nil => exact hparents h
    | cons t target =>
      rw [rel] at h
      split_ifs at h with hbt
      · exact (ih h).imp_right (List.mem_cons_of_mem _)
      · exact hparents h

/-- A relative path goes up first exactly when the base is no initial part of the target. -/
theorem head?_rel_eq_parent_iff {base target : List String} (htarget : ".." ∉ target) :
    (rel base target).head? = some ".." ↔ ¬base <+: target := by
  induction base generalizing target with
  | nil =>
    have hrel : rel [] target = target := by cases target <;> rfl
    rw [hrel]
    refine iff_of_false (fun h => htarget (List.mem_of_mem_head? h)) ?_
    exact not_not.mpr List.nil_prefix
  | cons b base ih =>
    cases target with
    | nil => simp [rel]
    | cons t target =>
      by_cases hbt : b = t
      · subst b
        rw [rel, if_pos rfl, ih fun hmem => htarget (List.mem_cons_of_mem _ hmem)]
        simp [List.cons_prefix_cons]
      · simp [rel, hbt, List.cons_prefix_cons]

/-- The test on components is the order of prefixes. -/
theorem isWithinStorage_iff (storagePath path : AbsPath) :
    isWithinStorage storagePath path = true ↔ storagePath.components <+: path.components := by
  have hparent : ".." ∉ path.components := fun hmem => (path.clean _ hmem).2.2.1 rfl
  rw [isWithinStorage, bne_iff_ne, ne_eq, head?_rel_eq_parent_iff hparent, not_not]

/-- The text of a relative path starts with the parent exactly when the path goes up. -/
theorem relPath_starts_iff (base target : AbsPath) :
    (relPath base target = ".." ∨ "../".toList <+: (relPath base target).toList) ↔
      (rel base.components target.components).head? = some ".." := by
  by_cases hsame : base = target
  · subst hsame
    have hrel : rel base.components base.components = [] := by
      simpa using rel_append base.components []
    rw [relPath, if_pos rfl, hrel]
    decide
  · have hparts : ∀ chars ∈ (rel base.components target.components).map String.toList,
        '/' ∉ chars := by
      intro chars hchars
      obtain ⟨c, hc, rfl⟩ := List.mem_map.mp hchars
      rcases mem_rel hc with rfl | hmem
      · decide
      · exact (target.clean c hmem).2.2.2
    rw [relPath, if_neg hsame, ← String.toList_inj, String.toList_ofList]
    have hparent : '/' ∉ "..".toList := by decide
    refine (eq_or_starts_iff hparent _).trans ?_
    cases hrel : rel base.components target.components with
    | nil => decide
    | cons part parts =>
      rw [hrel] at hparts
      rw [List.splitOn_intercalate _ hparts (by simp), List.map_cons, List.head?_cons,
        List.head?_cons, Option.some_inj, Option.some_inj, String.toList_inj]

/-- The test on the text is the test on components. -/
theorem isWithinStorageText_eq (storagePath path : AbsPath) :
    isWithinStorageText storagePath path = isWithinStorage storagePath path := by
  rw [Bool.eq_iff_iff, isWithinStorage, bne_iff_ne, ne_eq, ← relPath_starts_iff, not_or,
    ← List.isPrefixOf_iff_prefix, Bool.not_eq_true]
  unfold isWithinStorageText
  by_cases hparent : relPath storagePath path = ".."
  · simp [hparent]
  · simp [hparent]

/-- The path of a row, for every text that the row may hold. -/
theorem binaryPath_eq_ok_iff (wd : Except String AbsPath) (storagePath : AbsPath)
    (row : Option String) (result : String) :
    binaryPath wd storagePath row = .ok result ↔
      ∃ filePath path, row = some filePath ∧ filePath ≠ "" ∧ absPath wd filePath = .ok path ∧
        storagePath.components <+: path.components ∧ result = path.text := by
  unfold binaryPath
  cases row with
  | none => simp
  | some filePath =>
    by_cases hempty : filePath = ""
    · simp [hempty]
    · cases habs : absPath wd filePath with
      | error err => simp [hempty, habs]
      | ok path =>
        simp only [hempty, if_false, habs, isWithinStorageText_eq, isWithinStorage_iff]
        by_cases hwithin : storagePath.components <+: path.components
        · simp [hwithin, hempty, habs, eq_comm]
        · simp [hwithin, habs]

/-- For a path that an upload has stored this is the path of the release. -/
theorem Store.binaryPath_text (store : Store) (wd : Except String AbsPath) (r : Release) :
    Releases.binaryPath wd store.storagePath (some r.filePath.text) =
      (store.binaryPath r).map AbsPath.text := by
  have hne : r.filePath.text ≠ "" := by
    intro hempty
    have hchars := congrArg String.toList hempty
    simp [AbsPath.text] at hchars
  simp only [Releases.binaryPath, hne, if_false, absPath_text, isWithinStorageText_eq,
    Store.binaryPath]
  split_ifs <;> rfl

/-- Both paths of a version lie at or below its directory. -/
theorem components_of_releasePaths {storagePath dir final path : AbsPath} {version : String}
    (h : releasePaths storagePath version = .ok (dir, final)) (hpath : path ∈ [dir, final]) :
    ∃ rest, path.components = storagePath.components ++ version :: rest := by
  have hvalid := (releasePaths_ok h).1
  have hpaths := Except.ok.inj ((releasePaths_of_validateVersion storagePath hvalid).symm.trans h)
  obtain ⟨rfl, rfl⟩ := Prod.mk.inj hpaths
  rcases List.mem_pair.mp hpath with rfl | rfl
  · exact ⟨[], storagePath.join_components (isComponent_of_validateVersion hvalid)⟩
  · exact ⟨[binaryName], finalPath_components storagePath hvalid⟩

/-- Release paths are contained and distinct. An accepted version gets its
directory and its binary below the root, and no path of a version lies at or below
a path of another one. The path of a row is returned exactly when its cleaned
absolute form is the root or lies below it, component by component. -/
theorem release_paths_contained (wd : Except String AbsPath) (storagePath : AbsPath) :
    (∀ version, validateVersion version = true → ∃ versionDir finalPath,
      releasePaths storagePath version = .ok (versionDir, finalPath) ∧
      versionDir.components = storagePath.components ++ [version] ∧
      finalPath.components = storagePath.components ++ [version, "minicontrol-worker"]) ∧
    (∀ version version' dir final dir' final',
      releasePaths storagePath version = .ok (dir, final) →
      releasePaths storagePath version' = .ok (dir', final') → version ≠ version' →
      ∀ path ∈ [dir, final], ∀ path' ∈ [dir', final'],
        path.text ≠ path'.text ∧ ¬path.components <+: path'.components) ∧
    ∀ row result, binaryPath wd storagePath row = .ok result ↔
      ∃ filePath path, row = some filePath ∧ filePath ≠ "" ∧ absPath wd filePath = .ok path ∧
        storagePath.components <+: path.components ∧ result = path.text := by
  refine ⟨fun version hvalid => ?_, ?_, binaryPath_eq_ok_iff wd storagePath⟩
  · exact ⟨_, _, releasePaths_of_validateVersion storagePath hvalid,
      storagePath.join_components (isComponent_of_validateVersion hvalid),
      finalPath_components storagePath hvalid⟩
  · intro version version' dir final dir' final' h h' hne path hpath path' hpath'
    have hapart : ¬path.components <+: path'.components := by
      obtain ⟨rest, hrest⟩ := components_of_releasePaths h hpath
      obtain ⟨rest', hrest'⟩ := components_of_releasePaths h' hpath'
      rw [hrest, hrest', List.prefix_append_right_inj, List.cons_prefix_cons]
      exact fun hboth => hne hboth.1
    refine ⟨fun htext => hapart ?_, hapart⟩
    rw [AbsPath.text_injective htext]

/-- A store at `/srv/releases`. -/
def srvReleases : AbsPath := ⟨["srv", "releases"], by decide⟩

/-- A name that only starts with two dots is allowed below the root. A path to the
parent is not, and neither is a sibling whose name continues that of the root. -/
theorem release_paths_contained_srv :
    binaryPath (.error "no directory") srvReleases (some "/srv//releases/./..foo") =
      .ok "/srv/releases/..foo" ∧
    (∀ result, binaryPath (.ok srvReleases) srvReleases (some "../foo") ≠ .ok result) ∧
    ∀ result, binaryPath (.ok srvReleases) srvReleases (some "/srv/releases-evil/x") ≠
      .ok result := by
  refine ⟨?_, fun result h => ?_, fun result h => ?_⟩
  · exact ((release_paths_contained _ _).2.2 _ _).mpr
      ⟨_, ⟨["srv", "releases", "..foo"], by decide⟩, rfl, by decide, by decide, by decide,
        by decide⟩
  · obtain ⟨_, path, hrow, _, habs, hbelow, _⟩ := ((release_paths_contained _ _).2.2 _ _).mp h
    cases hrow
    have hpath : absPath (.ok srvReleases) "../foo" = .ok ⟨["srv", "foo"], by decide⟩ := by decide
    cases habs.symm.trans hpath
    revert hbelow
    decide
  · obtain ⟨_, path, hrow, _, habs, hbelow, _⟩ := ((release_paths_contained _ _).2.2 _ _).mp h
    cases hrow
    have hpath : absPath (.ok srvReleases) "/srv/releases-evil/x" =
        .ok ⟨["srv", "releases-evil", "x"], by decide⟩ := by decide
    cases habs.symm.trans hpath
    revert hbelow
    decide

end MiniControl.Releases
