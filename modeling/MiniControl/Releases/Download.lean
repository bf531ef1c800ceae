import MiniControl.Releases.Integrity
import MiniControl.Tables.Keyed
import MiniControl.Text.Space

/-!
# Uploaded binaries and their downloads

When uploads do not overlap, a binary that was uploaded stays where its row says,
and an upload that fails leaves nothing behind but possibly a file without a row.
What a download makes of the binary depends on the request path as well: the file
server redirects every path that ends in `/index.html`, and `index.html` is an
acceptable version.
-/

namespace MiniControl.Releases

open Transition

/-- The body of an answer. -/
inductive Body
  | empty
  /-- The JSON object of `writeError`. -/
  | error (message : String)
  /-- The line of `http.Error`. -/
  | text (line : String)
  | file (content : Bytes)
  deriving DecidableEq

/-- An answer, with the headers that the handler sets. -/
structure Response where
  status : ℕ
  headers : List (String × String)
  body : Body
  deriving DecidableEq

/-- `writeError`. -/
def writeError (status : ℕ) (message : String) : Response :=
  ⟨status, [("Content-Type", "application/json")], .error message⟩

/-- `containsDotDot` of the file server: an element of the path is `..`. -/
def containsDotDot (path : String) : Bool :=
  ".." ∈ Text.fields (fun c => c = '/' || c = '\\') path

/-- `http.Error`: whatever the handler has set as the type, the answer is plain text. -/
def httpError (headers : List (String × String)) (status : ℕ) (line : String) : Response :=
  ⟨status, headers.filter (·.1 ≠ "Content-Type") ++
    [("Content-Type", "text/plain; charset=utf-8"), ("X-Content-Type-Options", "nosniff")],
    .text line⟩

/-- `http.ServeFile` for a `GET` request without conditions and ranges. -/
def serveFile (files : AbsPath → Option Bytes) (headers : List (String × String))
    (requestPath : String) (path : AbsPath) : Response :=
  if containsDotDot requestPath then httpError headers 400 "invalid URL path"
  else if "/index.html".toList <:+ requestPath.toList then
    ⟨301, headers ++ [("Location", "./")], .empty⟩
  else match files path with
    | none => httpError headers 404 "404 page not found"
    | some content => ⟨200, headers, .file content⟩

/-- The request path of a download. -/
def downloadPath (version : String) : String := "/api/v1/releases/download" ++ "/" ++ version

/-- `GetByVersion`; any failure of the query counts as no row. -/
def State.getByVersion (s : State) (ok : Bool) (version : String) : Option Release :=
  if ok then s.rows.find? (·.version = version) else none

/-- `BinaryPath`. -/
def Store.binaryPath (store : Store) (r : Release) : Except String AbsPath :=
  if isWithinStorage store.storagePath r.filePath then .ok r.filePath
  else .error "release binary path escapes storage root"

/-- `handleReleaseDownload`; `ok` says whether the query succeeds. -/
def handleReleaseDownload (releases : Option Store) (s : State) (ok : Bool) (version : String) :
    Response :=
  match releases with
  | none => ⟨404, [], .empty⟩
  | some store =>
    if !validateVersion version then writeError 400 "invalid version"
    else match s.getByVersion ok version with
      | none => writeError 404 "version not found"
      | some r =>
        match store.binaryPath r with
        | .error _ => writeError 500 "release unavailable"
        | .ok path =>
          let headers := [("Content-Type", "application/octet-stream"),
            ("Content-Disposition", "attachment; filename=minicontrol-worker"),
            ("X-Release-SHA256", r.sha256), ("X-Release-Version", r.version)]
          serveFile s.files headers (downloadPath version) path

/-- The answer delivers the given bytes with the given digest. -/
structure Response.Delivers (response : Response) (content : Bytes) (digest : String) : Prop where
  status : response.status = 200
  body : response.body = .file content
  digest : response.headers.lookup "X-Release-SHA256" = some digest

section RequestPaths

variable {version : String}

/-- The segments behind the last separators of equal texts are equal. -/
theorem eq_of_append_slash_eq {a b x y : List Char} (hx : '/' ∉ x) (hy : '/' ∉ y)
    (h : a ++ '/' :: x = b ++ '/' :: y) : x = y := by
  have hsplit := congrArg (List.splitOn '/') h
  rw [List.splitOn_append_cons_self, List.splitOn_append_cons_self, List.splitOn_eq_singleton hx,
    List.splitOn_eq_singleton hy] at hsplit
  exact List.singleton_inj.mp (List.append_inj' hsplit rfl).2

/-- A download path is a fixed text, a separator and the version. -/
theorem toList_downloadPath (version : String) :
    (downloadPath version).toList =
      "/api/v1/releases/download".toList ++ '/' :: version.toList := by
  have happend : ∀ a b c : String, (a ++ b ++ c).toList = a.toList ++ (b.toList ++ c.toList) := by
    simp [String.toList_append]
  exact happend _ "/" version

/-- The file server redirects the download of one accepted version only. -/
theorem redirects_iff (h : validateVersion version = true) :
    "/index.html".toList <:+ (downloadPath version).toList ↔ version = "index.html" := by
  have hslash := (isComponent_of_validateVersion h).2.2.2
  rw [toList_downloadPath]
  constructor
  · rintro ⟨before, heq⟩
    have hindex : '/' ∉ "index.html".toList := by decide
    exact String.toList_inj.mp (eq_of_append_slash_eq hslash hindex heq.symm)
  · rintro rfl
    exact ⟨"/api/v1/releases/download".toList, rfl⟩

/-- No element of the path of an accepted version is `..`. -/
theorem containsDotDot_downloadPath (h : validateVersion version = true) :
    containsDotDot (downloadPath version) = false := by
  have hcomponent := isComponent_of_validateVersion h
  have hplain : ∀ c ∈ version.toList, (decide (c = '/') || decide (c = '\\')) = false := by
    intro c hc
    have hchar := isVersionChar_of_mem h hc
    have hslash : c ≠ '/' := by rintro rfl; exact absurd hchar (by decide)
    have hbackslash : c ≠ '\\' := by rintro rfl; exact absurd hchar (by decide)
    simp [hslash, hbackslash]
  have hprefix : ∀ segment ∈ "/api/v1/releases/download".toList.splitOnP
      (fun c => c = '/' || c = '\\'), segment ≠ "..".toList := by decide
  rw [containsDotDot, decide_eq_false_iff_not]
  intro hmem
  obtain ⟨segment, hsegment, heq⟩ := List.mem_map.mp hmem
  have hdots : segment = "..".toList := by rw [← heq, String.toList_ofList]
  have hsegment := (List.mem_filter.mp hsegment).1
  rw [toList_downloadPath, List.splitOnP_append_cons _ _ (by rfl),
    List.splitOnP_eq_singleton hplain] at hsegment
  rcases List.mem_append.mp hsegment with hfixed | hversion
  · exact hprefix segment hfixed hdots
  · rw [List.mem_singleton.mp hversion] at hdots
    exact hcomponent.2.2.1 (String.toList_inj.mp hdots)

end RequestPaths

/-- Uploads do not overlap: one starts only when no other is in flight. -/
def OneAtATime (s : State) (e : Event) : Prop := e.starts = true → s.Quiescent

/-- A call in flight works for an upload or owns a temp file. -/
theorem Phase.inFlight_iff (p : Phase) :
    p.InFlight ↔ (∃ call, p.call? = some call) ∨ ∃ tmp, p.tmp? = some tmp := by
  cases p <;> simp [InFlight, call?, tmp?]

section Steps

variable {store : Store} {s t : State} {e : Event}

/-- The row that a call has inserted. -/
def Phase.inserted? : Phase → Option Release
  | .cleanup _ (.ok r) | .returned (.ok r) => some r
  | _ => none

/-- What a step does, seen from the call that takes it. -/
structure Store.Acts (store : Store) (s : State) (e : Event) (t : State) : Prop where
  others : ∀ id ≠ e.id, t.uploads id = s.uploads id
  starts : e.starts = true → s.uploads e.id = .idle
  inFlight : e.starts = false → (s.uploads e.id).InFlight
  started : t.uploads e.id ≠ .idle
  /-- The call works for the upload that it was started for, and was started only
  when the table had no row of its version. -/
  call : ∀ call, (t.uploads e.id).call? = some call → (s.uploads e.id).call? = some call ∨
    (∃ ok, e = .look e.id call.version call.binary ok) ∧ s.hasVersion call.version = false
  /-- The call leaves the table, or inserts its row. -/
  rows : (t.rows = s.rows ∧ (t.uploads e.id).inserted? = (s.uploads e.id).inserted?) ∨
    ∃ call tmp identity, s.uploads e.id = .executable call tmp identity ∧
      s.hasVersion call.version = false ∧ t.files = s.files ∧
      t.rows = s.rows ++ [store.release call identity] ∧
      t.uploads e.id = .cleanup tmp (.ok (store.release call identity))
  /-- The call keeps its temp file, or has created it at a free path. -/
  tmp : ∀ tmp, (t.uploads e.id).tmp? = some tmp → (s.uploads e.id).tmp? = some tmp ∨
    (s.uploads e.id).tmp? = none ∧ s.files tmp = none ∧ e.starts = false
  /-- Nothing but the temp file and the final path of the call changes. -/
  files : ∀ path, t.files path = s.files path ∨ (t.uploads e.id).tmp? = some path ∨
    (s.uploads e.id).tmp? = some path ∨
    ∃ call, (s.uploads e.id).call? = some call ∧ call.finalPath = path
  /-- A call that no longer has its temp file has tried to remove it. -/
  removes : ∀ tmp, (s.uploads e.id).tmp? = some tmp → (t.uploads e.id).tmp? = none →
    ¬(t.uploads e.id).InFlight ∧ ∃ ok, e = .removeTemp e.id ok ∧ (ok = true → t.files tmp = none)

/-- Writing to one path changes nothing elsewhere. -/
theorem State.write_files (s : State) (path : AbsPath) (content : Option Bytes) (other : AbsPath) :
    (s.write path content).files other = s.files other ∨ path = other := by
  by_cases heq : other = path
  · exact .inr heq.symm
  · exact .inl (Function.update_of_ne heq _ _)

section Moves

variable {q p : Phase} {tmp : AbsPath} {files : AbsPath → Option Bytes} {call : Call}
  {temps : List AbsPath}

/-- A call that fails before it has a temp file returns. -/
theorem Store.Acts.refuses (error : UploadError) (hphase : s.uploads e.id = q)
    (hq : e.starts = true ∧ q = .idle ∨ e.starts = false ∧ ∃ call, q = .lookedUp call) :
    store.Acts s e (s.goto e.id (.returned (.error error))) := by
  have hbare : q.tmp? = none ∧ q.inserted? = none := by
    rcases hq with ⟨_, rfl⟩ | ⟨_, _, rfl⟩ <;> exact ⟨rfl, rfl⟩
  subst hphase
  constructor <;> try rw [State.goto_uploads_self]
  case others => exact fun id hne => State.goto_uploads_of_ne hne
  case starts =>
    intro hstarts
    rcases hq with ⟨_, hidle⟩ | ⟨hlater, _⟩
    · exact hidle
    · cases hstarts.symm.trans hlater
  case inFlight =>
    intro hlater
    rcases hq with ⟨hstarts, _⟩ | ⟨_, call, hcall⟩
    · cases hstarts.symm.trans hlater
    · exact (Phase.inFlight_iff _).mpr (.inl ⟨call, by rw [hcall]; rfl⟩)
  case started => simp
  case call => exact fun call hcall => nomatch hcall
  case rows => exact .inl ⟨rfl, hbare.2.symm⟩
  case tmp => exact fun tmp htmp => nomatch htmp
  case files => exact fun path => .inl rfl
  case removes =>
    intro tmp htmp
    cases hbare.1.symm.trans htmp

/-- A call with a temp file goes on with it and touches no path but the temp file
and its final path. -/
theorem Store.Acts.moves (hphase : s.uploads e.id = q) (hstarts : e.starts = false)
    (hq : q.tmp? = some tmp) (hp : p.tmp? = some tmp) (hcall : p.call? = none ∨ p.call? = q.call?)
    (hinserted : p.inserted? = q.inserted?)
    (hfiles : ∀ path, files path = s.files path ∨ tmp = path ∨
      ∃ call, q.call? = some call ∧ call.finalPath = path) :
    store.Acts s e ({ s with files := files }.goto e.id p) := by
  subst hphase
  constructor <;> try rw [State.goto_uploads_self]
  case others => exact fun id hne => State.goto_uploads_of_ne hne
  case starts => simp [hstarts]
  case inFlight => exact fun _ => (Phase.inFlight_iff _).mpr (.inr ⟨tmp, hq⟩)
  case started =>
    rintro rfl
    cases hp
  case call =>
    intro call hsome
    rcases hcall with hnone | hsame
    · rw [hnone] at hsome
      cases hsome
    · exact .inl (hsame.symm.trans hsome)
  case rows => exact .inl ⟨rfl, hinserted⟩
  case tmp => exact fun path hpath => .inl (hq.trans (hp.symm.trans hpath))
  case files =>
    intro path
    rcases hfiles path with hsame | rfl | hfinal
    · exact .inl hsame
    · exact .inr (.inl hp)
    · exact .inr (.inr (.inr hfinal))
  case removes =>
    intro path _ hnone
    rw [hp] at hnone
    cases hnone

/-- A call starts for a version without a row. -/
theorem Store.Acts.looksUp (he : ∃ ok, e = .look e.id call.version call.binary ok)
    (hphase : s.uploads e.id = .idle) (hversion : s.hasVersion call.version = false) :
    store.Acts s e (s.goto e.id (.lookedUp call)) := by
  have hstarts : e.starts = true := by
    obtain ⟨ok, heq⟩ := he
    rw [heq]
    rfl
  constructor <;> try rw [State.goto_uploads_self]
  case others => exact fun id hne => State.goto_uploads_of_ne hne
  case starts => exact fun _ => hphase
  case inFlight => simp [hstarts]
  case started => simp
  case call =>
    rintro call' ⟨⟩
    exact .inr ⟨he, hversion⟩
  case rows => exact .inl ⟨rfl, by rw [hphase]; rfl⟩
  case tmp => exact fun tmp htmp => nomatch htmp
  case files => exact fun path => .inl rfl
  case removes =>
    intro tmp hsome
    rw [hphase] at hsome
    cases hsome

/-- A call creates its temp file at a free path. -/
theorem Store.Acts.opens (hstarts : e.starts = false) (hphase : s.uploads e.id = .lookedUp call)
    (hfree : s.files tmp = none) :
    store.Acts s e (({ s with temps := temps }.write tmp (some [])).goto e.id
      (.tempOpen call tmp)) := by
  constructor <;> try rw [State.goto_uploads_self]
  case others => exact fun id hne => State.goto_uploads_of_ne hne
  case starts => simp [hstarts]
  case inFlight => exact fun _ => (Phase.inFlight_iff _).mpr (.inl ⟨call, by rw [hphase]; rfl⟩)
  case started => simp
  case call =>
    rintro call' ⟨⟩
    exact .inl (by rw [hphase]; rfl)
  case rows => exact .inl ⟨rfl, by rw [hphase]; rfl⟩
  case tmp =>
    rintro tmp' ⟨⟩
    exact .inr ⟨by rw [hphase]; rfl, hfree, hstarts⟩
  case files =>
    intro path
    rcases s.write_files tmp (some []) path with hsame | rfl
    · exact .inl hsame
    · exact .inr (.inl rfl)
  case removes => exact fun tmp _ hnone => nomatch hnone

/-- A call inserts its row. -/
theorem Store.Acts.inserts {identity : String} (hstarts : e.starts = false)
    (hphase : s.uploads e.id = .executable call tmp identity)
    (hversion : s.hasVersion call.version = false) :
    store.Acts s e ({ s with rows := s.rows ++ [store.release call identity] }.goto e.id
      (.cleanup tmp (.ok (store.release call identity)))) := by
  constructor <;> try rw [State.goto_uploads_self]
  case others => exact fun id hne => State.goto_uploads_of_ne hne
  case starts => simp [hstarts]
  case inFlight => exact fun _ => (Phase.inFlight_iff _).mpr (.inl ⟨call, by rw [hphase]; rfl⟩)
  case started => simp
  case call => exact fun call hcall => nomatch hcall
  case rows => exact .inr ⟨call, tmp, identity, hphase, hversion, rfl, rfl, rfl⟩
  case tmp =>
    rintro tmp' ⟨⟩
    exact .inl (by rw [hphase]; rfl)
  case files => exact fun path => .inl rfl
  case removes => exact fun tmp _ hnone => nomatch hnone

/-- A call tries to remove its temp file and returns. -/
theorem Store.Acts.returns {result : Except UploadError Release} {ok : Bool}
    (he : e = .removeTemp e.id ok) (hphase : s.uploads e.id = .cleanup tmp result)
    (hremoved : ok = true → files tmp = none) (hfiles : ∀ path ≠ tmp, files path = s.files path) :
    store.Acts s e ({ s with files := files, temps := temps }.goto e.id (.returned result)) := by
  have hstarts : e.starts = false := by
    rw [he]
    rfl
  have htmp : (s.uploads e.id).tmp? = some tmp := by
    rw [hphase]
    rfl
  constructor <;> try rw [State.goto_uploads_self]
  case others => exact fun id hne => State.goto_uploads_of_ne hne
  case starts => simp [hstarts]
  case inFlight => exact fun _ => (Phase.inFlight_iff _).mpr (.inr ⟨tmp, htmp⟩)
  case started => simp
  case call => exact fun call hcall => nomatch hcall
  case rows => exact .inl ⟨rfl, by rw [hphase]; cases result <;> rfl⟩
  case tmp => exact fun tmp htmp => nomatch htmp
  case files =>
    intro path
    by_cases heq : path = tmp
    · exact .inr (.inr (.inl (heq ▸ htmp)))
    · exact .inl (hfiles path heq)
  case removes =>
    intro tmp' htmp' _
    obtain rfl : tmp = tmp' := Option.some.inj (htmp.symm.trans htmp')
    exact ⟨id, ok, he, hremoved⟩

end Moves

/-- A call that still works for an upload has inserted no row. -/
theorem Phase.inserted_of_call {p : Phase} {call : Call} (h : p.call? = some call) :
    p.inserted? = none := by
  cases p with
  | cleanup => cases h
  | returned => cases h
  | _ => rfl

/-- Every step acts so. -/
theorem Store.step_acts (h : store.step s e = some t) : store.Acts s e t := by
  cases Store.step_takes h with
  | refuses error hphase hq => exact .refuses error hphase hq
  | looksUp id call ok hphase _ hversion => exact .looksUp ⟨ok, rfl⟩ hphase hversion
  | opens call tmp name hstarts hphase _ hfree _ => exact .opens hstarts hphase hfree
  | copies call tmp hstarts hphase =>
    exact .moves hphase hstarts rfl rfl (.inr rfl) rfl
      fun path => (s.write_files tmp _ path).imp_right .inl
  | stops call tmp content hstarts hphase =>
    exact .moves hphase hstarts rfl rfl (.inl rfl) rfl
      fun path => (s.write_files tmp _ path).imp_right .inl
  | proceeds hstarts hphase hproceeds =>
    cases hproceeds <;> exact .moves hphase hstarts rfl rfl (.inr rfl) rfl fun _ => .inl rfl
  | fails error hstarts hphase hcall htmp =>
    exact .moves hphase hstarts htmp rfl (.inl rfl) (Phase.inserted_of_call hcall).symm
      fun _ => .inl rfl
  | renames id call tmp identity content hphase hcontent =>
    refine .moves hphase rfl rfl rfl (.inr rfl) rfl fun path => ?_
    rcases (s.write tmp none).write_files call.finalPath (some content) path with hsame | hfinal
    · exact (s.write_files tmp none path).imp hsame.trans .inl
    · exact .inr (.inr ⟨call, rfl, hfinal⟩)
  | inserts call tmp identity hstarts hphase hversion => exact .inserts hstarts hphase hversion
  | removesFinal call tmp error hstarts hphase =>
    exact .moves hphase hstarts rfl rfl (.inl rfl) rfl fun path =>
      (s.write_files call.finalPath none path).imp_right fun hfinal => .inr ⟨call, rfl, hfinal⟩
  | returns id ok tmp result files hphase hfiles hremoved =>
    exact .returns rfl hphase hremoved hfiles

/-- What holds as long as uploads do not overlap: one call at most is in flight,
and its version has no row until the call inserts it. -/
structure State.Sequential (s : State) : Prop where
  single : ∀ id other, (s.uploads id).InFlight → (s.uploads other).InFlight → id = other
  unlisted : ∀ id call, (s.uploads id).call? = some call → ∀ r ∈ s.rows, r.version ≠ call.version
  versions : (s.rows.map Release.version).Nodup

/-- The lookup finds no row of the version. -/
theorem State.hasVersion_eq_false {version : String} :
    s.hasVersion version = false ↔ ∀ r ∈ s.rows, r.version ≠ version := by
  simp [State.hasVersion]

/-- Uploads that do not overlap rename alone. -/
theorem State.Sequential.renamesAlone (h : s.Sequential) (e : Event) : RenamesAlone s e := by
  unfold RenamesAlone
  split
  next id =>
    intro call tmp identity hphase
    have hcall : (s.uploads id).call? = some call := by rw [hphase]; rfl
    refine ⟨h.unlisted id call hcall, fun other call' hholds => ?_⟩
    have heq : id = other := h.single id other
      ((Phase.inFlight_iff _).mpr (.inl ⟨call, hcall⟩))
      ((Phase.inFlight_iff _).mpr (.inl ⟨call', Phase.call_of_holds hholds⟩))
    rw [← heq, hphase] at hholds
    cases hholds
  next => trivial

/-- A step of uploads that do not overlap. -/
theorem State.Sequential.step (h : s.Sequential) (hone : OneAtATime s e)
    (hstep : store.step s e = some t) : t.Sequential := by
  have hacts := Store.step_acts hstep
  have hother : ∀ id ≠ e.id, ¬(t.uploads id).InFlight := by
    intro id hne hflight
    rw [hacts.others id hne] at hflight
    cases hstarts : e.starts with
    | true => exact hone hstarts id hflight
    | false => exact hne (h.single id e.id hflight (hacts.inFlight hstarts))
  refine ⟨fun id other hid hother' => ?_, fun id call hcall r hr => ?_, ?_⟩
  · have hid' : id = e.id := by_contra fun hne => hother id hne hid
    have hother'' : other = e.id := by_contra fun hne => hother other hne hother'
    rw [hid', hother'']
  · have hid : id = e.id := by_contra fun hne =>
      hother id hne ((Phase.inFlight_iff _).mpr (.inl ⟨call, hcall⟩))
    subst hid
    rcases hacts.rows with ⟨hrows, _⟩ | ⟨_, _, _, _, _, _, _, hcleanup⟩
    · rw [hrows] at hr
      rcases hacts.call call hcall with hold | ⟨_, hnone⟩
      · exact h.unlisted e.id call hold r hr
      · exact State.hasVersion_eq_false.mp hnone r hr
    · rw [hcleanup] at hcall
      cases hcall
  · rcases hacts.rows with ⟨hrows, _⟩ | ⟨call, _, identity, _, hnone, _, hrows, _⟩
    · rw [hrows]
      exact h.versions
    · rw [hrows]
      exact Tables.nodup_map_append h.versions (State.hasVersion_eq_false.mp hnone)

/-- In every run of uploads that do not overlap. -/
theorem Store.sequential_of_reachable (h : store.system.ReachableUnder OneAtATime s) :
    s.Sequential ∧ store.Inv s ∧ store.Held s := by
  induction h with
  | init hs =>
    refine ⟨⟨fun id _ hid => ?_, fun id call hcall => ?_, ?_⟩, Store.inv_initial hs,
      Store.held_initial hs⟩
    · rw [hs.2.2 id] at hid
      exact hid.elim
    · rw [hs.2.2 id] at hcall
      cases hcall
    · rw [hs.1]
      exact .nil
  | step _ hone hnext ih =>
    obtain ⟨hseq, hinv, hheld⟩ := ih
    exact ⟨hseq.step hone hnext, hinv.step hnext, hheld.step hinv (hseq.renamesAlone _) hnext⟩

/-- Rows stay, and their files stay as they are. -/
theorem Store.step_keeps_rows (hseq : s.Sequential) (hinv : store.Inv s) (hheld : store.Held s)
    (hstep : store.step s e = some t) {r : Release} (hr : r ∈ s.rows) :
    r ∈ t.rows ∧ t.files r.filePath = s.files r.filePath := by
  have hacts := Store.step_acts hstep
  have hinv' := hinv.step hstep
  obtain ⟨dir, hdir⟩ := hheld.rowPaths r hr
  constructor
  · rcases hacts.rows with ⟨hrows, _⟩ | ⟨_, _, _, _, _, _, hrows, _⟩
    · rwa [hrows]
    · rw [hrows]
      exact List.mem_append_left _ hr
  · rcases hacts.files r.filePath with hsame | htmp | htmp | ⟨call, hcall, hfinal⟩
    · exact hsame
    · exact absurd rfl (ne_finalPath_of_shape (hinv'.shape_of_tmp htmp) hdir)
    · exact absurd rfl (ne_finalPath_of_shape (hinv.shape_of_tmp htmp) hdir)
    · have hpaths := hinv.paths e.id call hcall
      rw [hfinal] at hpaths
      exact absurd (version_eq_of_finalPath_eq hdir hpaths) (hseq.unlisted e.id call hcall r hr)

end Steps

/-- What an upload that was started in the state `start` has changed while it runs. -/
structure Store.Progress (store : Store) (start : State) (version : String) (binary : Bytes)
    (id : ℕ) (u : State) : Prop where
  call : ∀ call, (u.uploads id).call? = some call → call.version = version ∧ call.binary = binary
  fresh : ∀ tmp, (u.uploads id).tmp? = some tmp → start.files tmp = none
  rows : (u.uploads id).inserted? = none → u.rows = start.rows
  files : ∀ path, (u.uploads id).tmp? ≠ some path → u.files path = start.files path ∨
    ∃ dir, releasePaths store.storagePath version = .ok (dir, path)

/-- What an upload leaves behind from the insertion of its row on. -/
def Store.Stored (store : Store) (version : String) (binary : Bytes) (id : ℕ) (u : State) : Prop :=
  ∀ r, (u.uploads id).inserted? = some r → r ∈ u.rows ∧ r.version = version ∧
    r.sha256 = store.sha256 binary ∧ u.files r.filePath = some binary

/-- The state of an upload at any time after its start. -/
structure Store.Upload (store : Store) (start : State) (version : String) (binary : Bytes)
    (id : ℕ) (u : State) : Prop where
  started : u.uploads id ≠ .idle
  progress : (u.uploads id).InFlight → store.Progress start version binary id u
  stored : store.Stored version binary id u

section Uploads

variable {store : Store} {start s t : State} {version : String} {binary : Bytes} {id : ℕ}
  {e : Event} {r : Release}

/-- A path directly below the root is no final path. -/
theorem Store.Inv.tmp_not_final (hinv : store.Inv s) {tmp : AbsPath}
    (htmp : (s.uploads id).tmp? = some tmp) :
    ¬∃ dir, releasePaths store.storagePath version = .ok (dir, tmp) := by
  rintro ⟨dir, hdir⟩
  exact ne_finalPath_of_shape (hinv.shape_of_tmp htmp) hdir rfl

/-- A step of the upload changes no path but its temp file and its final path. -/
theorem Store.Progress.files_step (h : store.Progress start version binary e.id s)
    (hinv : store.Inv s) (hstep : store.step s e = some t) {path : AbsPath}
    (hold : (s.uploads e.id).tmp? ≠ some path) (hnew : (t.uploads e.id).tmp? ≠ some path) :
    t.files path = start.files path ∨
      ∃ dir, releasePaths store.storagePath version = .ok (dir, path) := by
  rcases (Store.step_acts hstep).files path with hsame | htmp | htmp | ⟨call, hcall, hfinal⟩
  · rw [hsame]
    exact h.files path hold
  · exact absurd htmp hnew
  · exact absurd htmp hold
  · have hpaths := hinv.paths e.id call hcall
    rw [(h.call call hcall).1, hfinal] at hpaths
    exact .inr ⟨_, hpaths⟩

/-- A step of the upload itself that does not end it. -/
theorem Store.Progress.step (h : store.Progress start version binary e.id s) (hinv : store.Inv s)
    (hstarts : e.starts = false) (hstep : store.step s e = some t)
    (hflight : (t.uploads e.id).InFlight) : store.Progress start version binary e.id t := by
  have hacts := Store.step_acts hstep
  have hinv' := hinv.step hstep
  refine ⟨fun call hcall => ?_, fun tmp htmp => ?_, fun hnone => ?_, fun path hpath => ?_⟩
  · rcases hacts.call call hcall with hold | ⟨⟨ok, hlook⟩, _⟩
    · exact h.call call hold
    · rw [hlook] at hstarts
      cases hstarts
  · rcases hacts.tmp tmp htmp with hold | ⟨hnone, hfree, _⟩
    · exact h.fresh tmp hold
    · rcases h.files tmp (by simp [hnone]) with hsame | hfinal
      · rw [← hsame]
        exact hfree
      · exact absurd hfinal (hinv'.tmp_not_final htmp)
  · rcases hacts.rows with ⟨hrows, hinserted⟩ | ⟨_, _, _, _, _, _, _, hcleanup⟩
    · rw [hrows]
      exact h.rows (hinserted.symm.trans hnone)
    · rw [hcleanup] at hnone
      cases hnone
  · refine h.files_step hinv hstep (fun htmp => ?_) hpath
    cases hnew : (t.uploads e.id).tmp? with
    | none => exact (hacts.removes path htmp hnew).1 hflight
    | some tmp =>
      rcases hacts.tmp tmp hnew with hold | ⟨hnone, _⟩
      · exact hpath (hnew.trans (hold.symm.trans htmp))
      · rw [hnone] at htmp
        cases htmp

/-- A row that was inserted stays with its file. -/
theorem Store.Stored.step (h : store.Stored version binary id s) (hseq : s.Sequential)
    (hinv : store.Inv s) (hheld : store.Held s) (hstep : store.step s e = some t)
    (hinserted : (t.uploads id).inserted? = (s.uploads id).inserted?) :
    store.Stored version binary id t := by
  intro r hr
  obtain ⟨hmem, hversion, hdigest, hfile⟩ := h r (hinserted.symm.trans hr)
  obtain ⟨hmem', hsame⟩ := Store.step_keeps_rows hseq hinv hheld hstep hmem
  exact ⟨hmem', hversion, hdigest, hsame.trans hfile⟩

/-- Every step keeps the description of the upload. -/
theorem Store.Upload.step (h : store.Upload start version binary id s) (hseq : s.Sequential)
    (hinv : store.Inv s) (hheld : store.Held s) (hone : OneAtATime s e)
    (hstep : store.step s e = some t) : store.Upload start version binary id t := by
  have hacts := Store.step_acts hstep
  by_cases hid : id = e.id
  · subst hid
    have hstarts : e.starts = false := by
      by_contra hstarts
      exact h.started (hacts.starts (by simpa using hstarts))
    have hprogress := h.progress (hacts.inFlight hstarts)
    refine ⟨hacts.started, hprogress.step hinv hstarts hstep, ?_⟩
    rcases hacts.rows with ⟨_, hinserted⟩ | ⟨call, tmp, identity, hphase, _, hfiles, hrows, hnew⟩
    · exact h.stored.step hseq hinv hheld hstep hinserted
    · intro r hr
      rw [hnew] at hr
      cases hr
      obtain ⟨hversion, hbinary⟩ := hprogress.call call (by rw [hphase]; rfl)
      have hfile := hheld.filed e.id call (by rw [hphase]; rfl)
      rw [hrows, hfiles, ← hbinary]
      exact ⟨List.mem_append_right _ (List.mem_singleton_self _), hversion, rfl, hfile⟩
  · have hsame := hacts.others id hid
    refine ⟨hsame ▸ h.started, fun hflight => ?_, ?_⟩
    · -- another call takes a step only when this one is not in flight
      rw [hsame] at hflight
      cases hstarts : e.starts with
      | true => exact absurd hflight (hone hstarts id)
      | false => exact absurd (hseq.single id e.id hflight (hacts.inFlight hstarts)) hid
    · exact h.stored.step hseq hinv hheld hstep (by rw [hsame])

/-- The start of an upload. -/
theorem Store.upload_of_look {ok : Bool}
    (hstep : store.step s (.look id version binary ok) = some t) :
    store.Upload s version binary id t ∧ t.rows = s.rows ∧ t.files = s.files := by
  have hacts := Store.step_acts hstep
  have hidle : s.uploads id = .idle := hacts.starts rfl
  have hrows : t.rows = s.rows ∧ (t.uploads id).inserted? = none := by
    rcases hacts.rows with ⟨hrows, hinserted⟩ | ⟨_, _, _, hphase, _⟩
    · exact ⟨hrows, hinserted.trans (by rw [Event.id, hidle]; rfl)⟩
    · exact absurd (hidle.symm.trans hphase) nofun
  have htmp : ∀ tmp, (t.uploads id).tmp? ≠ some tmp := by
    intro tmp htmp
    rcases hacts.tmp tmp htmp with hold | ⟨_, _, hstarts⟩
    · rw [Event.id, hidle] at hold
      cases hold
    · cases hstarts
  have hfiles : ∀ path, t.files path = s.files path := by
    intro path
    rcases hacts.files path with hsame | hnew | hold | ⟨_, hcall, _⟩
    · exact hsame
    · exact absurd hnew (htmp path)
    · rw [Event.id, hidle] at hold
      cases hold
    · rw [Event.id, hidle] at hcall
      cases hcall
  refine ⟨⟨hacts.started, fun _ => ⟨fun call hcall => ?_, fun tmp h => absurd h (htmp tmp),
    fun _ => hrows.1, fun path _ => .inl (hfiles path)⟩, fun r hr => ?_⟩, hrows.1, funext hfiles⟩
  · rcases hacts.call call hcall with hold | ⟨⟨_, hlook⟩, _⟩
    · rw [Event.id, hidle] at hold
      cases hold
    · cases hlook
      exact ⟨rfl, rfl⟩
  · rw [hrows.2] at hr
    cases hr

/-- A run of uploads that do not overlap keeps the description of an upload. -/
theorem Store.Upload.leads (hrun : store.system.LeadsUnder OneAtATime s t)
    (h : store.Upload start version binary id s)
    (hreach : store.system.ReachableUnder OneAtATime s) :
    store.Upload start version binary id t := by
  induction hrun with
  | refl => exact h
  | tail hpre hone hnext ih =>
    obtain ⟨hseq, hinv, hheld⟩ := Store.sequential_of_reachable (hpre.reachable hreach)
    exact ih.step hseq hinv hheld hone hnext

/-- Rows stay with their files along runs of uploads that do not overlap. -/
theorem Store.leads_keeps_rows (hrun : store.system.LeadsUnder OneAtATime s t)
    (hreach : store.system.ReachableUnder OneAtATime s) (hr : r ∈ s.rows) :
    r ∈ t.rows ∧ t.files r.filePath = s.files r.filePath := by
  induction hrun with
  | refl => exact ⟨hr, rfl⟩
  | tail hpre hone hnext ih =>
    obtain ⟨hseq, hinv, hheld⟩ := Store.sequential_of_reachable (hpre.reachable hreach)
    obtain ⟨hmem, hsame⟩ := Store.step_keeps_rows hseq hinv hheld hnext ih.1
    exact ⟨hmem, hsame.trans ih.2⟩

/-- The download of a row whose file is there. -/
theorem Store.download_of_row (hseq : s.Sequential) (hheld : store.Held s) (hr : r ∈ s.rows)
    (hversion : r.version = version) (hdigest : r.sha256 = store.sha256 binary)
    (hfile : s.files r.filePath = some binary) :
    (handleReleaseDownload (some store) s true version).Delivers binary (store.sha256 binary) ↔
      version ≠ "index.html" := by
  obtain ⟨dir, hdir⟩ := hheld.rowPaths r hr
  obtain ⟨hvalid, hcomponents⟩ := releasePaths_ok hdir
  rw [hversion] at hvalid
  have hfind : s.getByVersion true version = some r :=
    Tables.find?_eq_some hseq.versions hr (by simpa using hversion)
      fun r' _ hr' => by simpa [hversion] using hr'
  have hpath : store.binaryPath r = .ok r.filePath :=
    if_pos (isWithinStorage_of_components hcomponents)
  simp only [handleReleaseDownload, hvalid, Bool.not_true, Bool.false_eq_true, if_false, hfind,
    hpath, serveFile, containsDotDot_downloadPath hvalid, redirects_iff hvalid, hfile]
  split_ifs with hindex
  · exact iff_of_false (fun hdelivers => absurd hdelivers.status (by simp)) (not_not.mpr hindex)
  · refine iff_of_true ⟨rfl, rfl, ?_⟩ hindex
    rw [← hdigest]
    rfl

/-- The step in which an upload fails. -/
theorem Store.Progress.fails (h : store.Progress start version binary id s) (hinv : store.Inv s)
    (hflight : (s.uploads id).InFlight) (hstep : store.step s e = some t) {error : UploadError}
    (herror : t.uploads id = .returned (.error error)) :
    t.rows = start.rows ∧ (e ≠ .removeTemp id false → ∀ path, t.files path = start.files path ∨
      ∃ dir, releasePaths store.storagePath version = .ok (dir, path)) := by
  have hacts := Store.step_acts hstep
  have hid : id = e.id := by
    by_contra hne
    rw [hacts.others id hne] at herror
    rw [herror] at hflight
    exact hflight
  subst hid
  have hnone : (t.uploads e.id).tmp? = none := by rw [herror]; rfl
  constructor
  · rcases hacts.rows with ⟨hrows, hinserted⟩ | ⟨_, _, _, _, _, _, _, hnew⟩
    · rw [hrows]
      exact h.rows (hinserted.symm.trans (by rw [herror]; rfl))
    · rw [herror] at hnew
      cases hnew
  · intro hremoved path
    by_cases htmp : (s.uploads e.id).tmp? = some path
    · obtain ⟨_, ok, hevent, hgone⟩ := hacts.removes path htmp hnone
      cases ok with
      | false => exact absurd hevent hremoved
      | true => exact .inl ((hgone rfl).trans (h.fresh path htmp).symm)
    · exact h.files_step hinv hstep htmp (by simp [hnone])

end Uploads

/-- When uploads do not overlap, a version whose upload succeeded is delivered by
every later download exactly when it is not `index.html`. An upload that fails
leaves the table and the files of its rows as they were; and when the removal of
its temp file succeeds, every file is as before but possibly the one at the
final path of its version, which has no row. -/
theorem Store.download_of_upload (store : Store) {s t : State} {id : ℕ} {version : String}
    {binary : Bytes} {ok : Bool} (h : store.system.ReachableUnder OneAtATime s)
    (hone : OneAtATime s (.look id version binary ok))
    (hlook : store.system.next s (.look id version binary ok) t) :
    (∀ u r, store.system.LeadsUnder OneAtATime t u → u.uploads id = .returned (.ok r) →
      ((handleReleaseDownload (some store) u true version).Delivers binary (store.sha256 binary) ↔
        version ≠ "index.html")) ∧
    (∀ error, t.uploads id = .returned (.error error) → t.rows = s.rows ∧ t.files = s.files) ∧
    (∀ u e w error, store.system.LeadsUnder OneAtATime t u → store.system.next u e w →
      (u.uploads id).InFlight → w.uploads id = .returned (.error error) →
      w.rows = s.rows ∧ (∀ r ∈ s.rows, w.files r.filePath = s.files r.filePath) ∧
      (e ≠ .removeTemp id false → ∀ path, w.files path = s.files path ∨
        ∃ dir, releasePaths store.storagePath version = .ok (dir, path))) := by
  obtain ⟨hupload, hrows, hfiles⟩ := Store.upload_of_look hlook
  have hreach : store.system.ReachableUnder OneAtATime t := .step h hone hlook
  refine ⟨fun u r hrun hreturned => ?_, fun _ _ => ⟨hrows, hfiles⟩,
    fun u e w error hrun hnext hflight herror => ?_⟩
  · obtain ⟨hseq, _, hheld⟩ := Store.sequential_of_reachable (hrun.reachable hreach)
    obtain ⟨hr, hversion, hdigest, hfile⟩ :=
      (hupload.leads hrun hreach).stored r (by rw [hreturned]; rfl)
    exact Store.download_of_row hseq hheld hr hversion hdigest hfile
  · obtain ⟨hseq, hinv, hheld⟩ := Store.sequential_of_reachable (hrun.reachable hreach)
    have hprogress := (hupload.leads hrun hreach).progress hflight
    obtain ⟨hrows', hfiles'⟩ := hprogress.fails hinv hflight hnext herror
    refine ⟨hrows', fun r hr => ?_, hfiles'⟩
    rw [← hrows] at hr
    obtain ⟨hmem, hsame⟩ := Store.leads_keeps_rows hrun hreach hr
    rw [(Store.step_keeps_rows hseq hinv hheld hnext hmem).2, hsame, hfiles]

/-- The steps of an upload after its lookup, when all of them succeed. -/
def uploadSteps : List Event :=
  [.createTemp 0 (some "1"), .copy 0 none, .validate 0, .identify 0, .mkdirAll 0 true,
    .rename 0 true, .chmod 0 true, .insert 0 true, .removeTemp 0 true]

/-- Evaluated steps that start no upload do not overlap with one. -/
theorem leadsUnder_of_not_starts {store : Store} {t u : State} {es : List Event}
    (h : runEvents (fun s e => if e.starts = false then store.step s e else none) t es = some u) :
    store.system.LeadsUnder OneAtATime t u := by
  have hleads : store.system.LeadsUnder (fun _ e => e.starts = false) t u :=
    leadsUnder_of_runEvents h
  refine hleads.mono fun s e hstarts hstarts' => ?_
  rw [hstarts] at hstarts'
  cases hstarts'

/-- The empty store is quiet. -/
theorem emptyState_quiescent : emptyState.Quiescent := fun _ h => h

/-- A download of `v1` after its upload. -/
theorem download_of_upload_v1 : ∃ t u : State,
    (unsignedStore fun _ => "00").system.ReachableUnder OneAtATime emptyState ∧
    (unsignedStore fun _ => "00").system.next emptyState (.look 0 "v1" [1] true) t ∧
    (unsignedStore fun _ => "00").system.LeadsUnder OneAtATime t u ∧
    (handleReleaseDownload (some (unsignedStore fun _ => "00")) u true "v1").Delivers [1] "00" := by
  have hrun : ∃ t u r, (unsignedStore fun _ => "00").step emptyState (.look 0 "v1" [1] true) =
        some t ∧
      runEvents (fun s e => if e.starts = false then (unsignedStore fun _ => "00").step s e
        else none) t uploadSteps = some u ∧ u.uploads 0 = .returned (.ok r) :=
    ⟨_, _, _, rfl, rfl, rfl⟩
  obtain ⟨t, u, r, hlook, hsteps, hreturned⟩ := hrun
  have hleads := leadsUnder_of_not_starts hsteps
  have hempty : (unsignedStore fun _ => "00").system.ReachableUnder OneAtATime emptyState :=
    .init ⟨rfl, rfl, fun _ => rfl⟩
  refine ⟨t, u, hempty, hlook, hleads, ?_⟩
  exact ((Store.download_of_upload _ hempty (fun _ => emptyState_quiescent) hlook).1 u r
    hleads hreturned).mpr (by decide)

/-- The version `index.html` is accepted, uploaded and answered with a redirect. -/
theorem download_redirects_index :
    ¬∀ (store : Store) (s t u : State) (id : ℕ) (version : String) (binary : Bytes) (ok : Bool)
      (r : Release), store.system.ReachableUnder OneAtATime s → s.Quiescent →
      store.system.next s (.look id version binary ok) t →
      store.system.LeadsUnder OneAtATime t u → u.uploads id = .returned (.ok r) →
      (handleReleaseDownload (some store) u true version).Delivers binary
        (store.sha256 binary) := by
  intro hclaim
  have hrun : ∃ t u r, (unsignedStore fun _ => "00").step emptyState
        (.look 0 "index.html" [1] true) = some t ∧
      runEvents (fun s e => if e.starts = false then (unsignedStore fun _ => "00").step s e
        else none) t uploadSteps = some u ∧ u.uploads 0 = .returned (.ok r) ∧
      (handleReleaseDownload (some (unsignedStore fun _ => "00")) u true "index.html").status =
        301 :=
    ⟨_, _, _, rfl, rfl, rfl, by decide⟩
  obtain ⟨t, u, r, hlook, hsteps, hreturned, hredirect⟩ := hrun
  have hdelivers := hclaim _ emptyState t u 0 "index.html" [1] true r
    (.init ⟨rfl, rfl, fun _ => rfl⟩) emptyState_quiescent hlook (leadsUnder_of_not_starts hsteps)
    hreturned
  rw [hdelivers.status] at hredirect
  cases hredirect

end MiniControl.Releases
