import MiniControl.Releases.Store
import Mathlib.Tactic.Common

/-!
# Integrity of the releases table

The version lookup, the rename, the insert and the compensating removal of one
upload are separate steps, so two uploads of one version can take each other's
binary away. This file shows such a run, and proves that a table whose renames
never meet another holder of the same path is intact in every state.
-/

namespace MiniControl.Releases

open Transition

/-- The temp file a call has to remove. -/
def Phase.tmp? : Phase → Option AbsPath
  | .tempOpen _ tmp | .written _ tmp | .validated _ tmp => some tmp
  | .identified _ tmp _ | .dirMade _ tmp _ | .renamed _ tmp _ | .executable _ tmp _ => some tmp
  | .insertFailed _ tmp _ | .cleanup tmp _ => some tmp
  | .idle | .lookedUp _ | .returned _ => none

/-- The arguments of a call that can still reach the table. -/
def Phase.call? : Phase → Option Call
  | .lookedUp call | .tempOpen call _ | .written call _ | .validated call _ => some call
  | .identified call _ _ | .dirMade call _ _ | .renamed call _ _ | .executable call _ _ => some call
  | .insertFailed call _ _ => some call
  | .idle | .cleanup _ _ | .returned _ => none

/-- A call whose temp file holds the whole binary. -/
def Phase.complete? : Phase → Option (Call × AbsPath)
  | .written call tmp | .validated call tmp => some (call, tmp)
  | .identified call tmp _ | .dirMade call tmp _ => some (call, tmp)
  | _ => none

/-- A call whose binary is at the final path and not yet in the table. -/
def Phase.filed? : Phase → Option Call
  | .renamed call _ _ | .executable call _ _ => some call
  | _ => none

/-- A call between its rename and its return to `cleanup`: it relies on the
final path, or is about to remove what is there. -/
def Phase.holds? : Phase → Option Call
  | .renamed call _ _ | .executable call _ _ | .insertFailed call _ _ => some call
  | _ => none

/-- Position `p` owns no temp file and works for no call that `q` does not. -/
structure Phase.Owns (q p : Phase) : Prop where
  tmp : ∀ tmp, p.tmp? = some tmp → q.tmp? = some tmp
  call : ∀ call, p.call? = some call → q.call? = some call
  complete : ∀ x, p.complete? = some x → q.complete? = some x

/-- Position `p` relies on no final path that `q` does not rely on. -/
structure Phase.Keeps (q p : Phase) : Prop where
  filed : ∀ call, p.filed? = some call → q.filed? = some call
  holds : ∀ call, p.holds? = some call → q.holds? = some call

/-- What holds in every run: calls work on the paths of their versions, temp
files lie directly below the root and belong to one call each, and a temp file
that has been written holds the binary of its call. -/
structure Store.Inv (store : Store) (s : State) : Prop where
  paths : ∀ id call, (s.uploads id).call? = some call →
    releasePaths store.storagePath call.version = .ok (call.versionDir, call.finalPath)
  listed : ∀ id tmp, (s.uploads id).tmp? = some tmp → tmp ∈ s.temps
  shape : ∀ tmp ∈ s.temps, ∃ name, tmp.components = store.storagePath.components ++ [name]
  unique : ∀ id other tmp, (s.uploads id).tmp? = some tmp → (s.uploads other).tmp? = some tmp →
    id = other
  content : ∀ id call tmp, (s.uploads id).complete? = some (call, tmp) →
    s.files tmp = some call.binary

/-- What holds as long as no rename meets another holder of its path. -/
structure Store.Held (store : Store) (s : State) : Prop where
  intact : store.Intact s
  rowPaths : ∀ r ∈ s.rows, ∃ dir, releasePaths store.storagePath r.version = .ok (dir, r.filePath)
  alone : ∀ id other call call', (s.uploads id).holds? = some call →
    (s.uploads other).holds? = some call' → call.version = call'.version → id = other
  unlisted : ∀ id call, (s.uploads id).holds? = some call → ∀ r ∈ s.rows, r.version ≠ call.version
  filed : ∀ id call, (s.uploads id).filed? = some call → s.files call.finalPath = some call.binary

/-- A successful rename meets no row of its version and no other call of its
version between its own rename and its return. -/
def RenamesAlone (s : State) : Event → Prop
  | .rename id true => ∀ call tmp identity, s.uploads id = .dirMade call tmp identity →
      (∀ r ∈ s.rows, r.version ≠ call.version) ∧
      ∀ other call', (s.uploads other).holds? = some call' → call'.version ≠ call.version
  | _ => True

section Frames

variable {store : Store} {s : State} {id other : ℕ} {p : Phase} {α : Type}

/-- The call that moves is where it has moved to. -/
@[simp] theorem State.goto_uploads_self : (s.goto id p).uploads id = p := by
  simp [State.goto]

/-- The other calls stay where they are. -/
theorem State.goto_uploads_of_ne (h : other ≠ id) :
    (s.goto id p).uploads other = s.uploads other := by
  simp [State.goto, h]

/-- What a call owns after a move is owned at the new position of the moved
call, or was owned before by another call. -/
theorem State.owned_goto {get : Phase → Option α} {x : α}
    (h : get ((s.goto id p).uploads other) = some x) :
    (other = id ∧ get p = some x) ∨ (other ≠ id ∧ get (s.uploads other) = some x) := by
  by_cases heq : other = id
  · subst other
    rw [goto_uploads_self] at h
    exact .inl ⟨rfl, h⟩
  · rw [goto_uploads_of_ne heq] at h
    exact .inr ⟨heq, h⟩

/-- What a call owns after a move to a poorer position it owned before. -/
theorem State.owned_of_goto {get : Phase → Option α} {x : α}
    (hget : ∀ x, get p = some x → get (s.uploads id) = some x)
    (h : get ((s.goto id p).uploads other) = some x) : get (s.uploads other) = some x := by
  rcases State.owned_goto h with ⟨rfl, hnew⟩ | ⟨_, hold⟩
  · exact hget x hnew
  · exact hold

/-- Moving to a poorer position keeps the unconditional invariant, whatever
happens to the table and to files that no complete call has written. -/
theorem Store.Inv.touch (hinv : store.Inv s) (hp : (s.uploads id).Owns p)
    (files : AbsPath → Option Bytes) (rows : List Release)
    (hfiles : ∀ other call tmp, ((s.goto id p).uploads other).complete? = some (call, tmp) →
      files tmp = s.files tmp) :
    store.Inv { s.goto id p with files := files, rows := rows } where
  paths other call h := hinv.paths other call (State.owned_of_goto hp.call h)
  listed other tmp h := hinv.listed other tmp (State.owned_of_goto hp.tmp h)
  shape := hinv.shape
  unique a b tmp ha hb :=
    hinv.unique a b tmp (State.owned_of_goto hp.tmp ha) (State.owned_of_goto hp.tmp hb)
  content other call tmp h := (hfiles other call tmp h).trans
    (hinv.content other call tmp (State.owned_of_goto hp.complete h))

/-- Moving to a poorer position keeps the integrity invariant, whatever happens
to files at other places than the final paths in use. -/
theorem Store.Held.touch (hheld : store.Held s) (hp : (s.uploads id).Keeps p)
    (files : AbsPath → Option Bytes) (temps : List AbsPath)
    (hrows : ∀ r ∈ s.rows, files r.filePath = s.files r.filePath)
    (hfiled : ∀ other call, ((s.goto id p).uploads other).filed? = some call →
      files call.finalPath = s.files call.finalPath) :
    store.Held { s.goto id p with files := files, temps := temps } where
  intact r hr := by
    obtain ⟨content, hcontent, hdigest⟩ := hheld.intact r hr
    exact ⟨content, (hrows r hr).trans hcontent, hdigest⟩
  rowPaths := hheld.rowPaths
  alone a b call call' ha hb :=
    hheld.alone a b call call' (State.owned_of_goto hp.holds ha) (State.owned_of_goto hp.holds hb)
  unlisted other call h := hheld.unlisted other call (State.owned_of_goto hp.holds h)
  filed other call h := (hfiled other call h).trans
    (hheld.filed other call (State.owned_of_goto hp.filed h))

end Frames

/-- The call that takes a step. -/
def Event.id : Event → ℕ
  | .look id _ _ _ | .createTemp id _ | .copy id _ | .validate id | .identify id | .mkdirAll id _
  | .rename id _ | .chmod id _ | .insert id _ | .removeFinal id _ | .removeTemp id _ => id

/-- The step starts an upload. -/
def Event.starts : Event → Bool
  | .look _ _ _ _ => true
  | _ => false

/-- The positions that a call passes without touching the disk. -/
inductive Phase.Proceeds : Phase → Phase → Prop
  | validated (call : Call) (tmp : AbsPath) : Proceeds (.written call tmp) (.validated call tmp)
  | identified (call : Call) (tmp : AbsPath) (identity : String) :
      Proceeds (.validated call tmp) (.identified call tmp identity)
  | dirMade (call : Call) (tmp : AbsPath) (identity : String) :
      Proceeds (.identified call tmp identity) (.dirMade call tmp identity)
  | executable (call : Call) (tmp : AbsPath) (identity : String) :
      Proceeds (.renamed call tmp identity) (.executable call tmp identity)
  | insertFailed (call : Call) (tmp : AbsPath) (identity : String) (error : UploadError) :
      Proceeds (.executable call tmp identity) (.insertFailed call tmp error)

/-- Everything a step can do, with the position that the call is in. -/
inductive Store.Takes (store : Store) (s : State) : Event → State → Prop
  | refuses {e : Event} {q : Phase} (error : UploadError) : s.uploads e.id = q →
      (e.starts = true ∧ q = .idle ∨ e.starts = false ∧ ∃ call, q = .lookedUp call) →
      Takes store s e (s.goto e.id (.returned (.error error)))
  | looksUp (id : ℕ) (call : Call) (ok : Bool) : s.uploads id = .idle →
      releasePaths store.storagePath call.version = .ok (call.versionDir, call.finalPath) →
      s.hasVersion call.version = false →
      Takes store s (.look id call.version call.binary ok) (s.goto id (.lookedUp call))
  | opens {e : Event} (call : Call) (tmp : AbsPath) (name : String) : e.starts = false →
      s.uploads e.id = .lookedUp call → tmp ∉ s.temps → s.files tmp = none →
      tmp.components = store.storagePath.components ++ [name] →
      Takes store s e (({ s with temps := tmp :: s.temps }.write tmp (some [])).goto e.id
        (.tempOpen call tmp))
  | copies {e : Event} (call : Call) (tmp : AbsPath) : e.starts = false →
      s.uploads e.id = .tempOpen call tmp →
      Takes store s e ((s.write tmp (some call.binary)).goto e.id (.written call tmp))
  | stops {e : Event} (call : Call) (tmp : AbsPath) (content : Bytes) : e.starts = false →
      s.uploads e.id = .tempOpen call tmp →
      Takes store s e ((s.write tmp (some content)).goto e.id (.cleanup tmp (.error .write)))
  | proceeds {e : Event} {q p : Phase} : e.starts = false → s.uploads e.id = q → q.Proceeds p →
      Takes store s e (s.goto e.id p)
  | fails {e : Event} {q : Phase} {call : Call} {tmp : AbsPath} (error : UploadError) :
      e.starts = false → s.uploads e.id = q → q.call? = some call → q.tmp? = some tmp →
      Takes store s e (s.goto e.id (.cleanup tmp (.error error)))
  | renames (id : ℕ) (call : Call) (tmp : AbsPath) (identity : String) (content : Bytes) :
      s.uploads id = .dirMade call tmp identity → s.files tmp = some content →
      Takes store s (.rename id true) (((s.write tmp none).write call.finalPath
        (some content)).goto id (.renamed call tmp identity))
  | inserts {e : Event} (call : Call) (tmp : AbsPath) (identity : String) : e.starts = false →
      s.uploads e.id = .executable call tmp identity → s.hasVersion call.version = false →
      Takes store s e ({ s with rows := s.rows ++ [store.release call identity] }.goto e.id
        (.cleanup tmp (.ok (store.release call identity))))
  | removesFinal {e : Event} (call : Call) (tmp : AbsPath) (error : UploadError) :
      e.starts = false → s.uploads e.id = .insertFailed call tmp error →
      Takes store s e ((s.write call.finalPath none).goto e.id (.cleanup tmp (.error error)))
  | returns (id : ℕ) (ok : Bool) (tmp : AbsPath) (result : Except UploadError Release)
      (files : AbsPath → Option Bytes) : s.uploads id = .cleanup tmp result →
      (∀ path ≠ tmp, files path = s.files path) → (ok = true → files tmp = none) →
      Takes store s (.removeTemp id ok)
        ({ s with files := files, temps := s.temps.erase tmp }.goto id (.returned result))

/-- What is kept or given up was there before. -/
private theorem carry {α : Type} {x y : Option α} (h : x = none ∨ x = y) (a : α)
    (hx : x = some a) : y = some a := by
  rcases h with rfl | rfl
  · cases hx
  · exact hx

variable {q p : Phase}

/-- Positions with the same belongings, up to some that are given up. -/
theorem Phase.owns_of_eq (htmp : p.tmp? = none ∨ p.tmp? = q.tmp?)
    (hcall : p.call? = none ∨ p.call? = q.call?)
    (hcomplete : p.complete? = none ∨ p.complete? = q.complete?) : q.Owns p :=
  ⟨carry htmp, carry hcall, carry hcomplete⟩

/-- Positions that rely on the same final path, or on none any more. -/
theorem Phase.keeps_of_eq (hfiled : p.filed? = none ∨ p.filed? = q.filed?)
    (hholds : p.holds? = none ∨ p.holds? = q.holds?) : q.Keeps p :=
  ⟨carry hfiled, carry hholds⟩

/-- A call that has returned owns nothing. -/
theorem Phase.owns_returned (q : Phase) (result : Except UploadError Release) :
    q.Owns (.returned result) :=
  owns_of_eq (.inl rfl) (.inl rfl) (.inl rfl)

/-- A call in `cleanup` owns its temp file only. -/
theorem Phase.owns_cleanup {tmp : AbsPath} (result : Except UploadError Release)
    (h : q.tmp? = some tmp) : q.Owns (.cleanup tmp result) :=
  owns_of_eq (.inr h.symm) (.inl rfl) (.inl rfl)

/-- Outside the window after a rename, no final path is relied on. -/
theorem Phase.keeps_of_none (hfiled : p.filed? = none) (hholds : p.holds? = none) :
    q.Keeps p :=
  keeps_of_eq (.inl hfiled) (.inl hholds)

/-- A call that proceeds owns no more than before. -/
theorem Phase.Proceeds.owns (h : q.Proceeds p) : q.Owns p := by
  cases h with
  | insertFailed => exact owns_of_eq (.inr rfl) (.inr rfl) (.inl rfl)
  | _ => exact owns_of_eq (.inr rfl) (.inr rfl) (.inr rfl)

/-- And it relies on no other final path. -/
theorem Phase.Proceeds.keeps (h : q.Proceeds p) : q.Keeps p := by
  cases h with
  | insertFailed => exact keeps_of_eq (.inl rfl) (.inr rfl)
  | _ => exact keeps_of_eq (.inr rfl) (.inr rfl)

/-- The name of a temp file is a path component. -/
theorem tempPath_components (storagePath : AbsPath) {random : String}
    (h : random.toList.all Char.isDigit = true) :
    (tempPath storagePath random).components =
      storagePath.components ++ ["upload-" ++ random ++ ".tmp"] := by
  apply storagePath.join_components
  have hchars : ("upload-" ++ random ++ ".tmp").toList =
      'u' :: (['p', 'l', 'o', 'a', 'd', '-'] ++ random.toList ++ ['.', 't', 'm', 'p']) := by
    simp [String.toList_append]
  refine ⟨?_, ?_, ?_, ?_⟩
  · intro heq
    simp [heq] at hchars
  · intro heq
    simp [heq] at hchars
  · intro heq
    simp [heq] at hchars
  · rw [hchars]
    intro hslash
    have hmem : '/' ∈ random.toList := by simpa using hslash
    exact absurd (List.all_eq_true.mp h _ hmem) (by decide)

section Takes

variable {store : Store} {s t : State} {id : ℕ} {e : Event} {ok : Bool}

/-- A call that passes a test goes on, and one that does not goes on to remove its temp
file. -/
theorem Store.Takes.of_test {q p : Phase} {call : Call} {tmp : AbsPath} {error : UploadError}
    {test : Prop} [Decidable test] (hstarts : e.starts = false) (hphase : s.uploads e.id = q)
    (hcall : q.call? = some call) (htmp : q.tmp? = some tmp) (hproceeds : q.Proceeds p)
    (h : (if test then some (s.goto e.id p)
      else some (s.goto e.id (.cleanup tmp (.error error)))) = some t) : store.Takes s e t := by
  split_ifs at h
  · cases h
    exact .proceeds hstarts hphase hproceeds
  · cases h
    exact .fails error hstarts hphase hcall htmp

/-- The lookup refuses the version or finds it free. -/
theorem Store.takes_look {version : String} {binary : Bytes}
    (h : store.step s (.look id version binary ok) = some t) :
    store.Takes s (.look id version binary ok) t := by
  unfold Store.step at h
  dsimp only at h
  split at h
  next hphase =>
    have hidle : ∀ error, store.Takes s (.look id version binary ok)
        (s.goto id (.returned (.error error))) :=
      fun error => .refuses error hphase (.inl ⟨rfl, rfl⟩)
    split at h
    next =>
      cases h
      exact hidle _
    next versionDir finalPath hpaths =>
      split_ifs at h with hok hversion
      · cases h
        exact hidle _
      · cases h
        exact hidle _
      · cases h
        exact .looksUp id ⟨version, binary, versionDir, finalPath⟩ ok hphase hpaths
          (by simpa using hversion)
  next => cases h

/-- A temp file is created under a free name, or not at all. -/
theorem Store.takes_createTemp {random : Option String}
    (h : store.step s (.createTemp id random) = some t) :
    store.Takes s (.createTemp id random) t := by
  unfold Store.step at h
  dsimp only at h
  split at h
  next call hphase =>
    cases h
    exact .refuses _ hphase (.inr ⟨rfl, call, rfl⟩)
  next call random hphase =>
    split_ifs at h with hguard
    cases h
    exact .opens call _ _ rfl hphase hguard.2.1 hguard.2.2 (tempPath_components _ hguard.1)
  next => cases h

/-- The temp file gets the binary, or a part of it when the copy breaks off. -/
theorem Store.takes_copy {stopped : Option ℕ} (h : store.step s (.copy id stopped) = some t) :
    store.Takes s (.copy id stopped) t := by
  unfold Store.step at h
  dsimp only at h
  split at h
  next call tmp hphase =>
    cases stopped with
    | none =>
      cases h
      exact .copies call tmp rfl hphase
    | some n =>
      cases h
      exact .stops call tmp _ rfl hphase
  next => cases h

/-- The signature is accepted or not. -/
theorem Store.takes_validate (h : store.step s (.validate id) = some t) :
    store.Takes s (.validate id) t := by
  unfold Store.step at h
  dsimp only at h
  split at h
  next call tmp hphase => exact .of_test rfl hphase rfl rfl (.validated call tmp) h
  next => cases h

/-- The signing identity is read, and only a store that requires none goes on without it. -/
theorem Store.takes_identify (h : store.step s (.identify id) = some t) :
    store.Takes s (.identify id) t := by
  unfold Store.step at h
  dsimp only at h
  split at h
  next call tmp hphase =>
    split at h
    next =>
      cases h
      exact .proceeds rfl hphase (.identified call tmp _)
    next => exact .of_test rfl hphase rfl rfl (.identified call tmp _) h
  next => cases h

/-- The directory of the version is made. -/
theorem Store.takes_mkdirAll (h : store.step s (.mkdirAll id ok) = some t) :
    store.Takes s (.mkdirAll id ok) t := by
  unfold Store.step at h
  dsimp only at h
  split at h
  next call tmp identity hphase =>
    exact .of_test rfl hphase rfl rfl (.dirMade call tmp identity) h
  next => cases h

/-- The temp file becomes the file of the version, if it is still there. -/
theorem Store.takes_rename (h : store.step s (.rename id ok) = some t) :
    store.Takes s (.rename id ok) t := by
  unfold Store.step at h
  dsimp only at h
  split at h
  next call tmp identity hphase =>
    split at h
    next content hcontent =>
      cases h
      exact .renames id call tmp identity content hphase hcontent
    next =>
      cases h
      exact .fails _ rfl hphase rfl rfl
  next => cases h

/-- The file of the version is made executable. -/
theorem Store.takes_chmod (h : store.step s (.chmod id ok) = some t) :
    store.Takes s (.chmod id ok) t := by
  unfold Store.step at h
  dsimp only at h
  split at h
  next call tmp identity hphase =>
    exact .of_test rfl hphase rfl rfl (.executable call tmp identity) h
  next => cases h

/-- The row is inserted, unless the query fails or the version has a row. -/
theorem Store.takes_insert (h : store.step s (.insert id ok) = some t) :
    store.Takes s (.insert id ok) t := by
  unfold Store.step at h
  dsimp only at h
  split at h
  next call tmp identity hphase =>
    split_ifs at h with hok hversion
    · cases h
      exact .proceeds rfl hphase (.insertFailed call tmp identity _)
    · cases h
      exact .proceeds rfl hphase (.insertFailed call tmp identity _)
    · cases h
      exact .inserts call tmp identity rfl hphase (by simpa using hversion)
  next => cases h

/-- The file of the version is removed after a failed insert, if that succeeds. -/
theorem Store.takes_removeFinal (h : store.step s (.removeFinal id ok) = some t) :
    store.Takes s (.removeFinal id ok) t := by
  unfold Store.step at h
  dsimp only at h
  split at h
  next call tmp error hphase =>
    cases ok with
    | false =>
      cases h
      exact .fails _ rfl hphase rfl rfl
    | true =>
      cases h
      exact .removesFinal call tmp error rfl hphase
  next => cases h

/-- The call returns, and its temp file is gone if its removal succeeds. -/
theorem Store.takes_removeTemp (h : store.step s (.removeTemp id ok) = some t) :
    store.Takes s (.removeTemp id ok) t := by
  unfold Store.step at h
  dsimp only at h
  split at h
  next tmp result hphase =>
    cases ok with
    | false =>
      cases h
      exact .returns id false tmp result s.files hphase (fun _ _ => rfl) nofun
    | true =>
      cases h
      refine .returns id true tmp result (Function.update s.files tmp none) hphase ?_ ?_
      · exact fun path hpath => Function.update_of_ne hpath _ _
      · exact fun _ => Function.update_self _ _ _
  next => cases h

/-- Every step is one of those listed. -/
theorem Store.step_takes (h : store.step s e = some t) : store.Takes s e t := by
  cases e with
  | look => exact Store.takes_look h
  | createTemp => exact Store.takes_createTemp h
  | copy => exact Store.takes_copy h
  | validate => exact Store.takes_validate h
  | identify => exact Store.takes_identify h
  | mkdirAll => exact Store.takes_mkdirAll h
  | rename => exact Store.takes_rename h
  | chmod => exact Store.takes_chmod h
  | insert => exact Store.takes_insert h
  | removeFinal => exact Store.takes_removeFinal h
  | removeTemp => exact Store.takes_removeTemp h

end Takes

section Runs

variable {store : Store} {s t : State} {e : Event} {version identity : String} {tmp : AbsPath}
  {p : Phase} {call : Call}

/-- A file directly below the root is not the final path of a version. -/
theorem ne_finalPath_of_shape {storagePath tmp versionDir finalPath : AbsPath}
    (hshape : ∃ name, tmp.components = storagePath.components ++ [name])
    (hpaths : releasePaths storagePath version = .ok (versionDir, finalPath)) :
    finalPath ≠ tmp := by
  rintro rfl
  obtain ⟨name, hname⟩ := hshape
  have heq := hname.symm.trans (releasePaths_ok hpaths).2
  have hlength := congrArg List.length heq
  simp at hlength

/-- The temp file of a call in flight lies directly below the root. -/
theorem Store.Inv.shape_of_tmp (hinv : store.Inv s) {id : ℕ} (h : (s.uploads id).tmp? = some tmp) :
    ∃ name, tmp.components = store.storagePath.components ++ [name] :=
  hinv.shape tmp (hinv.listed id tmp h)

/-- A complete call owns the temp file it has written. -/
theorem Phase.tmp_of_complete (h : p.complete? = some (call, tmp)) : p.tmp? = some tmp := by
  cases p <;> simp_all [Phase.complete?, Phase.tmp?]

/-- A call that has filed its binary holds the final path. -/
theorem Phase.holds_of_filed (h : p.filed? = some call) :
    p.holds? = some call := by
  cases p <;> simp_all [Phase.filed?, Phase.holds?]

/-- A call that holds a final path works for its version. -/
theorem Phase.call_of_holds (h : p.holds? = some call) :
    p.call? = some call := by
  cases p <;> simp_all [Phase.holds?, Phase.call?]

/-- Other calls have written other temp files. -/
theorem Store.Inv.complete_ne (hinv : store.Inv s) {id other : ℕ} {tmp tmp' : AbsPath}
    (hne : other ≠ id) (htmp : (s.uploads id).tmp? = some tmp)
    (h : (s.uploads other).complete? = some (call, tmp')) : tmp' ≠ tmp := by
  rintro rfl
  exact hne (hinv.unique other id tmp' (Phase.tmp_of_complete h) htmp)

/-- A call that has no complete temp file at its new position changes files that no
other call has completed. -/
theorem Store.Inv.touch_own (hinv : store.Inv s) {id : ℕ} (hp : (s.uploads id).Owns p)
    (hnone : p.complete? = none) (files : AbsPath → Option Bytes) (rows : List Release)
    (hfiles : ∀ other call tmp, other ≠ id → (s.uploads other).complete? = some (call, tmp) →
      files tmp = s.files tmp) :
    store.Inv { s.goto id p with files := files, rows := rows } := by
  refine hinv.touch hp files rows ?_
  intro other call tmp hcomplete
  rcases State.owned_goto hcomplete with ⟨_, hnew⟩ | ⟨hne, hold⟩
  · rw [hnone] at hnew
    cases hnew
  · exact hfiles other call tmp hne hold

/-- A call opens a temp file under a name that no call in flight has. -/
theorem Store.Inv.opens (hinv : store.Inv s) {id : ℕ} {name : String}
    (hphase : s.uploads id = .lookedUp call) (hfresh : tmp ∉ s.temps)
    (hshape : tmp.components = store.storagePath.components ++ [name]) :
    store.Inv (({ s with temps := tmp :: s.temps }.write tmp (some [])).goto id
      (.tempOpen call tmp)) := by
  have hother : ∀ other, (s.uploads other).tmp? ≠ some tmp :=
    fun other htmp => hfresh (hinv.listed other tmp htmp)
  refine ⟨?_, ?_, ?_, ?_, ?_⟩
  · intro other call' hcall
    have hcalls : ∀ x, (Phase.tempOpen call tmp).call? = some x →
        (s.uploads id).call? = some x := by
      rw [hphase]
      exact fun x hx => hx
    exact hinv.paths other call' (State.owned_of_goto hcalls hcall)
  · intro other tmp' htmp'
    rcases State.owned_goto htmp' with ⟨_, htmp'⟩ | ⟨_, htmp'⟩
    · cases htmp'
      exact List.mem_cons_self
    · exact List.mem_cons_of_mem _ (hinv.listed other tmp' htmp')
  · intro tmp' htmp'
    rcases List.mem_cons.mp htmp' with rfl | htmp'
    · exact ⟨name, hshape⟩
    · exact hinv.shape tmp' htmp'
  · intro a b tmp' ha hb
    rcases State.owned_goto ha with ⟨hida, hnewa⟩ | ⟨_, holda⟩ <;>
      rcases State.owned_goto hb with ⟨hidb, hnewb⟩ | ⟨_, holdb⟩
    · exact hida.trans hidb.symm
    · cases hnewa
      exact absurd holdb (hother b)
    · cases hnewb
      exact absurd holda (hother a)
    · exact hinv.unique a b tmp' holda holdb
  · intro other call' tmp' hcomplete
    rcases State.owned_goto hcomplete with ⟨_, hnone⟩ | ⟨_, hcomplete⟩
    · cases hnone
    · have hne : tmp' ≠ tmp := by
        rintro rfl
        exact hother other (Phase.tmp_of_complete hcomplete)
      exact (Function.update_of_ne hne _ _).trans (hinv.content other call' tmp' hcomplete)

/-- A call writes its whole binary to its temp file. -/
theorem Store.Inv.copies (hinv : store.Inv s) {id : ℕ}
    (hphase : s.uploads id = .tempOpen call tmp) :
    store.Inv ((s.write tmp (some call.binary)).goto id (.written call tmp)) := by
  have htmp : (s.uploads id).tmp? = some tmp := by rw [hphase]; rfl
  have htmps : ∀ x, (Phase.written call tmp).tmp? = some x → (s.uploads id).tmp? = some x := by
    rw [hphase]
    exact fun x hx => hx
  refine ⟨?_, ?_, hinv.shape, ?_, ?_⟩
  · intro other call' hcall
    have hcalls : ∀ x, (Phase.written call tmp).call? = some x →
        (s.uploads id).call? = some x := by
      rw [hphase]
      exact fun x hx => hx
    exact hinv.paths other call' (State.owned_of_goto hcalls hcall)
  · intro other tmp' htmp'
    exact hinv.listed other tmp' (State.owned_of_goto htmps htmp')
  · intro a b tmp' ha hb
    exact hinv.unique a b tmp' (State.owned_of_goto htmps ha) (State.owned_of_goto htmps hb)
  · intro other call' tmp' hcomplete
    rcases State.owned_goto hcomplete with ⟨_, hself⟩ | ⟨hne, hcomplete⟩
    · cases hself
      exact Function.update_self ..
    · exact (Function.update_of_ne (hinv.complete_ne hne htmp hcomplete) _ _).trans
        (hinv.content other call' tmp' hcomplete)

/-- The unconditional invariant holds initially. -/
theorem Store.inv_initial (hs : Initial s) : store.Inv s := by
  obtain ⟨_, htemps, hidle⟩ := hs
  constructor <;> simp [htemps, hidle, Phase.call?, Phase.tmp?, Phase.complete?]

/-- Every step keeps the unconditional invariant. -/
theorem Store.Inv.step (hinv : store.Inv s) (h : store.step s e = some t) : store.Inv t := by
  cases Store.step_takes h with
  | refuses =>
    exact hinv.touch (Phase.owns_returned _ _) s.files s.rows fun _ _ _ _ => rfl
  | proceeds _ hphase hproceeds =>
    exact hinv.touch (hphase ▸ hproceeds.owns) s.files s.rows fun _ _ _ _ => rfl
  | fails error _ hphase _ htmp =>
    exact hinv.touch (Phase.owns_cleanup _ (hphase ▸ htmp)) s.files s.rows fun _ _ _ _ => rfl
  | looksUp id call _ _ hpaths _ =>
    refine ⟨?_, ?_, hinv.shape, ?_, ?_⟩
    · intro other call' hcall
      rcases State.owned_goto hcall with ⟨_, hcall⟩ | ⟨_, hcall⟩
      · cases hcall
        exact hpaths
      · exact hinv.paths other call' hcall
    · intro other tmp htmp
      exact hinv.listed other tmp (State.owned_of_goto (by simp [Phase.tmp?]) htmp)
    · intro a b tmp ha hb
      exact hinv.unique a b tmp (State.owned_of_goto (by simp [Phase.tmp?]) ha)
        (State.owned_of_goto (by simp [Phase.tmp?]) hb)
    · intro other call' tmp hcomplete
      exact hinv.content other call' tmp
        (State.owned_of_goto (by simp [Phase.complete?]) hcomplete)
  | opens call tmp name _ hphase hfresh _ hshape => exact hinv.opens hphase hfresh hshape
  | copies call tmp _ hphase => exact hinv.copies hphase
  | stops call tmp content _ hphase =>
    have htmp : (s.uploads e.id).tmp? = some tmp := by rw [hphase]; rfl
    refine hinv.touch_own (Phase.owns_cleanup _ htmp) rfl
      (Function.update s.files tmp (some content)) s.rows ?_
    intro other call' tmp' hne hcomplete
    exact Function.update_of_ne (hinv.complete_ne hne htmp hcomplete) _ _
  | renames id call tmp identity content hphase hcontent =>
    have htmp : (s.uploads id).tmp? = some tmp := by rw [hphase]; rfl
    have hpaths := hinv.paths id call (by rw [hphase]; rfl)
    have howns : (s.uploads id).Owns (.renamed call tmp identity) := by
      rw [hphase]
      exact Phase.owns_of_eq (.inr rfl) (.inr rfl) (.inl rfl)
    refine hinv.touch_own howns rfl (Function.update (Function.update s.files tmp none)
      call.finalPath (some content)) s.rows ?_
    intro other call' tmp' hne hcomplete
    have hfinal := ne_finalPath_of_shape
      (hinv.shape_of_tmp (Phase.tmp_of_complete hcomplete)) hpaths
    rw [Function.update_of_ne hfinal.symm,
      Function.update_of_ne (hinv.complete_ne hne htmp hcomplete)]
  | inserts call tmp identity _ hphase _ =>
    exact hinv.touch (Phase.owns_cleanup _ (by rw [hphase]; rfl)) s.files
      (s.rows ++ [store.release call identity]) fun _ _ _ _ => rfl
  | removesFinal call tmp error _ hphase =>
    have hpaths := hinv.paths e.id call (by rw [hphase]; rfl)
    refine hinv.touch_own (Phase.owns_cleanup _ (by rw [hphase]; rfl)) rfl
      (Function.update s.files call.finalPath none) s.rows ?_
    intro other call' tmp' _ hcomplete
    have hfinal := ne_finalPath_of_shape
      (hinv.shape_of_tmp (Phase.tmp_of_complete hcomplete)) hpaths
    exact Function.update_of_ne hfinal.symm _ _
  | returns id _ tmp result files hphase hfiles _ =>
    have htmp : (s.uploads id).tmp? = some tmp := by rw [hphase]; rfl
    have htouch := hinv.touch_own (Phase.owns_returned (s.uploads id) result) rfl files s.rows
      fun other call' tmp' hne hcomplete => hfiles tmp' (hinv.complete_ne hne htmp hcomplete)
    refine ⟨htouch.paths, ?_, ?_, htouch.unique, htouch.content⟩
    · intro other tmp' htmp'
      rcases State.owned_goto htmp' with ⟨_, hnone⟩ | ⟨hne, htmp'⟩
      · cases hnone
      · have hdiff : tmp' ≠ tmp := by
          rintro rfl
          exact hne (hinv.unique other id tmp' htmp' htmp)
        exact (List.mem_erase_of_ne hdiff).mpr (hinv.listed other tmp' htmp')
    · intro tmp' htmp'
      exact hinv.shape tmp' (List.mem_of_mem_erase htmp')

/-- The integrity invariant holds initially. -/
theorem Store.held_initial (hs : Initial s) : store.Held s := by
  obtain ⟨hrows, _, hidle⟩ := hs
  constructor <;> simp [Store.Intact, hrows, hidle, Phase.holds?, Phase.filed?]

/-- Files outside the final paths of versions may change freely. -/
theorem Store.Held.touch_tmp (hheld : store.Held s) (hinv : store.Inv s) {id : ℕ}
    (hp : (s.uploads id).Keeps p)
    (hshape : ∃ name, tmp.components = store.storagePath.components ++ [name])
    {files : AbsPath → Option Bytes} (hfiles : ∀ path ≠ tmp, files path = s.files path)
    (temps : List AbsPath) : store.Held { s.goto id p with files := files, temps := temps } := by
  refine hheld.touch hp files temps ?_ ?_
  · intro r hr
    obtain ⟨dir, hdir⟩ := hheld.rowPaths r hr
    exact hfiles _ (ne_finalPath_of_shape hshape hdir)
  · intro other call hfiled
    have hcall := Phase.call_of_holds (Phase.holds_of_filed (State.owned_of_goto hp.filed hfiled))
    exact hfiles _ (ne_finalPath_of_shape hshape (hinv.paths other call hcall))

/-- Writing to the final path of one version leaves those of the others. -/
theorem update_finalPath_of_ne {storagePath dir dir' path path' : AbsPath}
    {version version' : String} (hpath : releasePaths storagePath version = .ok (dir, path))
    (hpath' : releasePaths storagePath version' = .ok (dir', path')) (hne : version ≠ version')
    (files : AbsPath → Option Bytes) (content : Option Bytes) :
    Function.update files path' content path = files path := by
  refine Function.update_of_ne ?_ _ _
  rintro rfl
  exact hne (version_eq_of_finalPath_eq hpath hpath')

/-- A rename that meets no row and no other holder of its version. -/
theorem Store.Held.renames (hheld : store.Held s) (hinv : store.Inv s) {id : ℕ} {content : Bytes}
    (hphase : s.uploads id = .dirMade call tmp identity) (hcontent : s.files tmp = some content)
    (hnoRow : ∀ r ∈ s.rows, r.version ≠ call.version)
    (hnoHolder : ∀ other call', (s.uploads other).holds? = some call' →
      call'.version ≠ call.version) :
    store.Held (((s.write tmp none).write call.finalPath (some content)).goto id
      (.renamed call tmp identity)) := by
  have htmp : (s.uploads id).tmp? = some tmp := by rw [hphase]; rfl
  have hpaths := hinv.paths id call (by rw [hphase]; rfl)
  have hbinary : content = call.binary := by
    have hold := hinv.content id call tmp (by rw [hphase]; rfl)
    rw [hcontent] at hold
    exact Option.some.inj hold
  -- other final paths are neither the temp file nor the renamed path
  have hother : ∀ version dir path, releasePaths store.storagePath version = .ok (dir, path) →
      version ≠ call.version →
      Function.update (Function.update s.files tmp none) call.finalPath (some content) path =
        s.files path := by
    intro version dir path hpath hne
    rw [update_finalPath_of_ne hpath hpaths hne,
      Function.update_of_ne (ne_finalPath_of_shape (hinv.shape_of_tmp htmp) hpath)]
  refine ⟨?_, hheld.rowPaths, ?_, ?_, ?_⟩
  · intro r hr
    obtain ⟨dir, hdir⟩ := hheld.rowPaths r hr
    obtain ⟨old, hold, hdigest⟩ := hheld.intact r hr
    exact ⟨old, (hother _ _ _ hdir (hnoRow r hr)).trans hold, hdigest⟩
  · intro a b call₁ call₂ ha hb hversion
    rcases State.owned_goto ha with ⟨hida, hnewa⟩ | ⟨_, holda⟩ <;>
      rcases State.owned_goto hb with ⟨hidb, hnewb⟩ | ⟨_, holdb⟩
    · exact hida.trans hidb.symm
    · cases hnewa
      exact absurd hversion.symm (hnoHolder b call₂ holdb)
    · cases hnewb
      exact absurd hversion (hnoHolder a call₁ holda)
    · exact hheld.alone a b call₁ call₂ holda holdb hversion
  · intro other call' hholds r hr
    rcases State.owned_goto hholds with ⟨_, hnew⟩ | ⟨_, hold⟩
    · cases hnew
      exact hnoRow r hr
    · exact hheld.unlisted other call' hold r hr
  · intro other call' hfiled
    rcases State.owned_goto hfiled with ⟨_, hnew⟩ | ⟨_, hold⟩
    · cases hnew
      rw [← hbinary]
      exact Function.update_self ..
    · have hholds := Phase.holds_of_filed hold
      exact (hother _ _ _ (hinv.paths other call' (Phase.call_of_holds hholds))
        (hnoHolder other call' hholds)).trans (hheld.filed other call' hold)

/-- The call that holds a final path inserts the row of its version. -/
theorem Store.Held.inserts (hheld : store.Held s) (hinv : store.Inv s) {id : ℕ}
    (hphase : s.uploads id = .executable call tmp identity) :
    store.Held ({ s with rows := s.rows ++ [store.release call identity] }.goto id
      (.cleanup tmp (.ok (store.release call identity)))) := by
  have hholds : (s.uploads id).holds? = some call := by rw [hphase]; rfl
  have hpaths := hinv.paths id call (by rw [hphase]; rfl)
  have hfile := hheld.filed id call (by rw [hphase]; rfl)
  refine ⟨?_, ?_, ?_, ?_, ?_⟩
  · intro r hr
    rcases List.mem_append.mp hr with hr | hr
    · exact hheld.intact r hr
    · rw [List.mem_singleton.mp hr]
      exact ⟨call.binary, hfile, rfl, rfl⟩
  · intro r hr
    rcases List.mem_append.mp hr with hr | hr
    · exact hheld.rowPaths r hr
    · rw [List.mem_singleton.mp hr]
      exact ⟨call.versionDir, hpaths⟩
  · intro a b call₁ call₂ ha hb
    exact hheld.alone a b call₁ call₂ (State.owned_of_goto (by simp [Phase.holds?]) ha)
      (State.owned_of_goto (by simp [Phase.holds?]) hb)
  · intro other call' hother r hr
    rcases State.owned_goto hother with ⟨_, hnone⟩ | ⟨hne, hold⟩
    · cases hnone
    · rcases List.mem_append.mp hr with hr | hr
      · exact hheld.unlisted other call' hold r hr
      · rw [List.mem_singleton.mp hr]
        exact fun heq => hne (hheld.alone other id call' call hold hholds heq.symm)
  · intro other call' hfiled
    exact hheld.filed other call' (State.owned_of_goto (by simp [Phase.filed?]) hfiled)

/-- The call that holds a final path removes what is there. -/
theorem Store.Held.removesFinal (hheld : store.Held s) (hinv : store.Inv s) {id : ℕ}
    {error : UploadError} (hphase : s.uploads id = .insertFailed call tmp error) :
    store.Held ((s.write call.finalPath none).goto id (.cleanup tmp (.error error))) := by
  have hholds : (s.uploads id).holds? = some call := by rw [hphase]; rfl
  have hpaths := hinv.paths id call (by rw [hphase]; rfl)
  refine hheld.touch (Phase.keeps_of_none rfl rfl)
    (Function.update s.files call.finalPath none) s.temps ?_ ?_
  · intro r hr
    obtain ⟨dir, hdir⟩ := hheld.rowPaths r hr
    exact update_finalPath_of_ne hdir hpaths (hheld.unlisted id call hholds r hr) _ _
  · intro other call' hfiled
    rcases State.owned_goto hfiled with ⟨_, hnone⟩ | ⟨hne, hold⟩
    · cases hnone
    · have hold' := Phase.holds_of_filed hold
      have hpath := hinv.paths other call' (Phase.call_of_holds hold')
      exact update_finalPath_of_ne hpath hpaths
        (fun heq => hne (hheld.alone other id call' call hold' hholds heq)) _ _

/-- A step whose rename is alone keeps the integrity invariant. -/
theorem Store.Held.step (hheld : store.Held s) (hinv : store.Inv s) (hok : RenamesAlone s e)
    (h : store.step s e = some t) : store.Held t := by
  cases Store.step_takes h with
  | proceeds _ hphase hproceeds =>
    exact hheld.touch (hphase ▸ hproceeds.keeps) s.files s.temps (fun _ _ => rfl)
      fun _ _ _ => rfl
  | refuses | fails | looksUp =>
    exact hheld.touch (Phase.keeps_of_none rfl rfl) s.files s.temps (fun _ _ => rfl)
      fun _ _ _ => rfl
  | opens call tmp name _ _ _ _ hshape =>
    exact hheld.touch_tmp hinv (Phase.keeps_of_none rfl rfl) ⟨name, hshape⟩
      (fun path hpath => Function.update_of_ne hpath _ _) (tmp :: s.temps)
  | copies call tmp _ hphase =>
    exact hheld.touch_tmp hinv (Phase.keeps_of_none rfl rfl)
      (hinv.shape_of_tmp (by rw [hphase]; rfl))
      (fun path hpath => Function.update_of_ne hpath _ _) s.temps
  | stops call tmp content _ hphase =>
    exact hheld.touch_tmp hinv (Phase.keeps_of_none rfl rfl)
      (hinv.shape_of_tmp (by rw [hphase]; rfl))
      (fun path hpath => Function.update_of_ne hpath _ _) s.temps
  | renames id call tmp identity content hphase hcontent =>
    obtain ⟨hnoRow, hnoHolder⟩ := hok call tmp identity hphase
    exact hheld.renames hinv hphase hcontent hnoRow hnoHolder
  | inserts call tmp identity _ hphase _ => exact hheld.inserts hinv hphase
  | removesFinal call tmp error _ hphase => exact hheld.removesFinal hinv hphase
  | returns id _ tmp result files hphase hfiles _ =>
    exact hheld.touch_tmp hinv (Phase.keeps_of_none rfl rfl)
      (hinv.shape_of_tmp (by rw [hphase]; rfl)) hfiles (s.temps.erase tmp)

/-- Both invariants hold in every state of a run whose renames are alone. -/
theorem Store.inv_and_held (h : store.system.ReachableUnder RenamesAlone s) :
    store.Inv s ∧ store.Held s := by
  induction h with
  | init hs => exact ⟨Store.inv_initial hs, Store.held_initial hs⟩
  | step _ hok hnext ih => exact ⟨ih.1.step hnext, ih.2.step ih.1 hok hnext⟩

/-- In every run in which each rename meets neither a row of its version nor
another upload of that version between its rename and its return, every row is
intact in every state, and so in every state without an upload in flight. -/
theorem Store.intact_of_renamesAlone (store : Store) (s : State)
    (h : store.system.ReachableUnder RenamesAlone s) : store.Intact s :=
  (Store.inv_and_held h).2.intact

end Runs

/-- A store below `/srv` that requires no signature; its files carry none. -/
def unsignedStore (sha256 : Bytes → String) : Store where
  storagePath := ⟨["srv"], by decide⟩
  requiredSigningID := ""
  sha256 := sha256
  extractSigningInfo _ := .error "not a valid Mach-O binary"

/-- An empty disk and an empty table. -/
def emptyState : State := ⟨fun _ => none, [], [], fun _ => .idle⟩

/-- One upload of `v1` that nothing overlaps ends with an intact row. -/
theorem intact_after_single_upload : ∃ s : State,
    (unsignedStore fun _ => "00").system.ReachableUnder RenamesAlone s ∧ s.rows ≠ [] ∧
    (unsignedStore fun _ => "00").Intact s := by
  have h : (unsignedStore fun _ => "00").system.ReachableUnder RenamesAlone emptyState :=
    .init ⟨rfl, rfl, fun _ => rfl⟩
  have hlook := h.take (.look 0 "v1" [1] true) trivial rfl
  have hopen := hlook.take (.createTemp 0 (some "1")) trivial rfl
  have hcopy := hopen.take (.copy 0 none) trivial rfl
  have hvalid := hcopy.take (.validate 0) trivial rfl
  have hdir := (hvalid.take (.identify 0) trivial rfl).take (.mkdirAll 0 true) trivial rfl
  have hrename := hdir.take (.rename 0 true) (by
    intro call tmp identity _
    constructor
    · intro r hr
      cases hr
    · rintro (_ | other) call' hholds
      · cases hholds
      · cases hholds) rfl
  have hinsert := (hrename.take (.chmod 0 true) trivial rfl).take (.insert 0 true) trivial rfl
  exact ⟨_, hinsert, List.cons_ne_nil _ _, Store.intact_of_renamesAlone _ _ hinsert⟩

/-- Both uploads of `v1` pass the lookup and rename their binaries; the first
inserts its row, and the second takes the file of that row away. -/
def collidingUploads : List Event :=
  [.look 0 "v1" [1] true, .look 1 "v1" [2] true, .createTemp 0 (some "1"), .createTemp 1 (some "2"),
    .copy 0 none, .copy 1 none, .validate 0, .validate 1, .identify 0, .identify 1,
    .mkdirAll 0 true, .mkdirAll 1 true, .rename 0 true, .rename 1 true, .chmod 0 true,
    .chmod 1 true, .insert 0 true, .insert 1 true, .removeFinal 1 true, .removeTemp 0 true,
    .removeTemp 1 true]

/-- Two overlapping uploads of one version leave a row without its binary,
whatever the digest function is. -/
theorem concurrent_uploads_lose_binary :
    ¬∃ sha256 : Bytes → String, ∀ s, (unsignedStore sha256).system.Reachable s → s.Quiescent →
      (unsignedStore sha256).Intact s := by
  rintro ⟨sha256, hall⟩
  obtain ⟨s, hrun, hquiet, hrow⟩ : ∃ s,
      runEvents (unsignedStore sha256).step emptyState collidingUploads = some s ∧ s.Quiescent ∧
      ∃ r ∈ s.rows, s.files r.filePath = none := by
    refine ⟨_, rfl, ?_, _, List.mem_singleton.mpr rfl, rfl⟩
    rintro (_ | _ | id) hflight
    · exact hflight
    · exact hflight
    · exact hflight
  have hinit : Initial emptyState := ⟨rfl, rfl, fun _ => rfl⟩
  have hreach := reachable_of_runEvents hinit hrun
  obtain ⟨r, hr, hnone⟩ := hrow
  obtain ⟨content, hcontent, _⟩ := hall s hreach hquiet r hr
  rw [hnone] at hcontent
  cases hcontent

end MiniControl.Releases
