import MiniControl.Releases.Paths
import MiniControl.Transition.System
import Mathlib.Logic.Function.Basic

/-!
# Concurrent uploads to the release store

`Store.Upload` works on two stores without a lock: the files below the storage
root and the `releases` table. Every access to one of them is a step of its own
here, so that any number of calls interleave freely. The digest of a binary and
the reader of its code signature are parameters of the store.
-/

namespace MiniControl.Releases

open Transition

/-- The bytes of an uploaded file. -/
abbrev Bytes := List UInt8

/-- The signing metadata that `ExtractSigningInfo` reads from a Mach-O file. -/
structure SigningInfo where
  id : String
  teamID : String
  commonName : String
  cdHash : String
  deriving DecidableEq

/-- A release store with the functions it applies to the bytes of a file. -/
structure Store where
  storagePath : AbsPath
  /-- No signature is required when this is empty. -/
  requiredSigningID : String
  /-- The digest in hexadecimal. -/
  sha256 : Bytes → String
  extractSigningInfo : Bytes → Except String SigningInfo

/-- A row of the `releases` table. -/
structure Release where
  version : String
  sha256 : String
  sizeBytes : ℕ
  signingIdentity : String
  filePath : AbsPath
  deriving DecidableEq

/-- The ways in which `Upload` fails. -/
inductive UploadError
  | path (error : PathError)
  | versionExists
  | lookup
  | createTemp
  | write
  | signature
  | signingInfo
  | mkdir
  | rename
  | chmod
  | insert
  deriving DecidableEq

/-- The text with which each error starts. -/
def UploadError.message : UploadError → String
  | .path error => error.message
  | .versionExists => "release version already exists"
  | .lookup => "check existing release"
  | .createTemp => "create temp file"
  | .write => "write binary"
  | .signature => "signature validation failed"
  | .signingInfo => "extract signing info"
  | .mkdir => "create version dir"
  | .rename => "move binary to final location"
  | .chmod => "chmod binary"
  | .insert => "insert release record"

/-- The arguments of one `Upload` call and the paths computed from them. The
binary is what the reader delivers when it is read to the end. -/
structure Call where
  version : String
  binary : Bytes
  versionDir : AbsPath
  finalPath : AbsPath
  deriving DecidableEq

/-- The position of one `Upload` call. From `tempOpen` on the call owns a temp
file, which its deferred function removes in `cleanup`. -/
inductive Phase
  | idle
  | lookedUp (call : Call)
  | tempOpen (call : Call) (tmp : AbsPath)
  | written (call : Call) (tmp : AbsPath)
  | validated (call : Call) (tmp : AbsPath)
  | identified (call : Call) (tmp : AbsPath) (signingIdentity : String)
  | dirMade (call : Call) (tmp : AbsPath) (signingIdentity : String)
  | renamed (call : Call) (tmp : AbsPath) (signingIdentity : String)
  | executable (call : Call) (tmp : AbsPath) (signingIdentity : String)
  | insertFailed (call : Call) (tmp : AbsPath) (error : UploadError)
  | cleanup (tmp : AbsPath) (result : Except UploadError Release)
  | returned (result : Except UploadError Release)

/-- The state of the disk, the table and the calls. -/
structure State where
  /-- The content of the file at each path. -/
  files : AbsPath → Option Bytes
  rows : List Release
  /-- The names of the temp files of the calls that have not returned. -/
  temps : List AbsPath
  uploads : ℕ → Phase

/-- The steps of an upload. A Boolean argument says whether the system call or
the query succeeds. -/
inductive Event
  /-- Compute the paths and look the version up. -/
  | look (id : ℕ) (version : String) (binary : Bytes) (ok : Bool)
  /-- `os.CreateTemp` with the random part of the name, or its failure. -/
  | createTemp (id : ℕ) (random : Option String)
  /-- `io.Copy`, complete or broken off after some bytes. -/
  | copy (id : ℕ) (stopped : Option ℕ)
  | validate (id : ℕ)
  | identify (id : ℕ)
  | mkdirAll (id : ℕ) (ok : Bool)
  | rename (id : ℕ) (ok : Bool)
  | chmod (id : ℕ) (ok : Bool)
  | insert (id : ℕ) (ok : Bool)
  /-- `os.Remove` of the final path after a failed insert. -/
  | removeFinal (id : ℕ) (ok : Bool)
  /-- The deferred `os.Remove` of the temp file, and the return. -/
  | removeTemp (id : ℕ) (ok : Bool)

/-- Move one call to a new position. -/
def State.goto (s : State) (id : ℕ) (phase : Phase) : State :=
  { s with uploads := Function.update s.uploads id phase }

/-- Change the content of one path. -/
def State.write (s : State) (path : AbsPath) (content : Option Bytes) : State :=
  { s with files := Function.update s.files path content }

/-- The path of a temp file with the given random part. -/
def tempPath (storagePath : AbsPath) (random : String) : AbsPath :=
  storagePath.join ("upload-" ++ random ++ ".tmp")

/-- `ValidateSigningIdentity` on the content of a file. -/
def Store.validateSigningIdentity (store : Store) (content : Bytes) : Bool :=
  match store.extractSigningInfo content with
  | .ok info => info.commonName == store.requiredSigningID
  | .error _ => false

/-- The row that a call inserts. -/
def Store.release (store : Store) (call : Call) (signingIdentity : String) : Release where
  version := call.version
  sha256 := store.sha256 call.binary
  sizeBytes := call.binary.length
  signingIdentity := signingIdentity
  filePath := call.finalPath

/-- `DB.GetReleaseByVersion` finds a row. -/
def State.hasVersion (s : State) (version : String) : Bool :=
  s.rows.any fun r => r.version == version

/-- The steps of `Store.Upload`. -/
def Store.step (store : Store) (s : State) : Event → Option State
  | .look id version binary ok =>
    match s.uploads id with
    | .idle =>
      match releasePaths store.storagePath version with
      | .error error => some (s.goto id (.returned (.error (.path error))))
      | .ok (versionDir, finalPath) =>
        if !ok then some (s.goto id (.returned (.error .lookup)))
        else if s.hasVersion version then some (s.goto id (.returned (.error .versionExists)))
        else some (s.goto id (.lookedUp ⟨version, binary, versionDir, finalPath⟩))
    | _ => none
  | .createTemp id random =>
    match s.uploads id, random with
    | .lookedUp _, none => some (s.goto id (.returned (.error .createTemp)))
    | .lookedUp call, some random =>
      let tmp := tempPath store.storagePath random
      -- exclusive creation; random names do not repeat while the call that got one is in
      -- flight, although after its rename the name is free on the disk
      if random.toList.all Char.isDigit ∧ tmp ∉ s.temps ∧ s.files tmp = none then
        some (({ s with temps := tmp :: s.temps }.write tmp (some [])).goto id (.tempOpen call tmp))
      else none
    | _, _ => none
  | .copy id stopped =>
    match s.uploads id with
    | .tempOpen call tmp =>
      match stopped with
      | none => some ((s.write tmp (some call.binary)).goto id (.written call tmp))
      | some n =>
        some ((s.write tmp (some (call.binary.take n))).goto id (.cleanup tmp (.error .write)))
    | _ => none
  | .validate id =>
    match s.uploads id with
    | .written call tmp =>
      if store.requiredSigningID = "" ∨
          (s.files tmp).any store.validateSigningIdentity then
        some (s.goto id (.validated call tmp))
      else some (s.goto id (.cleanup tmp (.error .signature)))
    | _ => none
  | .identify id =>
    match s.uploads id with
    | .validated call tmp =>
      match (s.files tmp).map store.extractSigningInfo with
      | some (.ok info) => some (s.goto id (.identified call tmp info.commonName))
      | _ =>
        if store.requiredSigningID = "" then some (s.goto id (.identified call tmp ""))
        else some (s.goto id (.cleanup tmp (.error .signingInfo)))
    | _ => none
  | .mkdirAll id ok =>
    match s.uploads id with
    | .identified call tmp identity =>
      if ok then some (s.goto id (.dirMade call tmp identity))
      else some (s.goto id (.cleanup tmp (.error .mkdir)))
    | _ => none
  | .rename id ok =>
    match s.uploads id with
    | .dirMade call tmp identity =>
      match s.files tmp, ok with
      | some content, true =>
        some (((s.write tmp none).write call.finalPath (some content)).goto id
          (.renamed call tmp identity))
      | _, _ => some (s.goto id (.cleanup tmp (.error .rename)))
    | _ => none
  | .chmod id ok =>
    match s.uploads id with
    | .renamed call tmp identity =>
      -- the file can have been removed by another call in the meantime
      if ok ∧ (s.files call.finalPath).isSome then
        some (s.goto id (.executable call tmp identity))
      else some (s.goto id (.cleanup tmp (.error .chmod)))
    | _ => none
  | .insert id ok =>
    match s.uploads id with
    | .executable call tmp identity =>
      if !ok then some (s.goto id (.insertFailed call tmp .insert))
      else if s.hasVersion call.version then
        some (s.goto id (.insertFailed call tmp .versionExists))
      else
        let release := store.release call identity
        some ({ s with rows := s.rows ++ [release] }.goto id (.cleanup tmp (.ok release)))
    | _ => none
  | .removeFinal id ok =>
    match s.uploads id with
    | .insertFailed call tmp error =>
      let removed := if ok then s.write call.finalPath none else s
      some (removed.goto id (.cleanup tmp (.error error)))
    | _ => none
  | .removeTemp id ok =>
    match s.uploads id with
    | .cleanup tmp result =>
      let removed := if ok then s.write tmp none else s
      some ({ removed with temps := s.temps.erase tmp }.goto id (.returned result))
    | _ => none

/-- A fresh table, no call in flight, and any files on the disk. -/
def Initial (s : State) : Prop :=
  s.rows = [] ∧ s.temps = [] ∧ ∀ id, s.uploads id = .idle

/-- Any number of uploads to one store, in any interleaving of their steps. -/
def Store.system (store : Store) : System State Event := System.ofStep Initial store.step

/-- A call that has started and has not returned. -/
def Phase.InFlight : Phase → Prop
  | .idle => False
  | .returned _ => False
  | _ => True

/-- No `Upload` is in flight. -/
def State.Quiescent (s : State) : Prop := ∀ id, ¬(s.uploads id).InFlight

/-- Every row names a file with the digest and the size of the row. -/
def Store.Intact (store : Store) (s : State) : Prop :=
  ∀ r ∈ s.rows, ∃ content, s.files r.filePath = some content ∧
    store.sha256 content = r.sha256 ∧ content.length = r.sizeBytes

end MiniControl.Releases
