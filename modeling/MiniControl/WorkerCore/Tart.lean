import MiniControl.Tables.Keyed
import MiniControl.Text.Space
import MiniControl.Transition.Interaction

/-!
# The Tart driver and its host

The driver runs the Tart command line and a few file operations on the host. Each
of them is a command whose reply comes from the host; any command may fail at any
time, and a command that fails may have done its work all the same.
-/

namespace MiniControl.WorkerCore

open Transition

/-- What the driver asks the host to do. -/
inductive Command
  | get (name : String)
  | clone (source name : String)
  /-- Read the disk size in GiB from the local configuration of a VM. -/
  | readDiskSize (name : String)
  | list
  | set (name : String) (cpuCount : ℤ) (diskSizeGiB : Option ℤ)
  /-- Rewrite the local configuration of a VM. -/
  | updateLocalConfig (name : String) (cpuCount : ℤ)
  | start (name : String)
  | ip (name : String)
  | stop (name : String)
  | delete (name : String)
  /-- Whether the deadline of a wait has not yet passed. -/
  | beforeDeadline
  | sleep
  deriving DecidableEq

/-- The result of a process: its exit, or the failure to launch it. -/
inductive Reply
  | exited (status : ℤ) (stdout stderr : String)
  | notLaunched (text : String)
  deriving DecidableEq

/-- The process ran and reported success. -/
def Reply.Ok : Reply → Prop
  | exited status _ _ => status = 0
  | notLaunched _ => False

instance (reply : Reply) : Decidable reply.Ok := by
  cases reply <;> unfold Reply.Ok <;> infer_instance

/-- The errors that the driver throws. -/
inductive TartError
  | commandFailed (args : List String) (status : ℤ) (output : String)
  | ipTimeout (name : String)
  | notLaunched (text : String)
  deriving DecidableEq

/-- The text of an error. -/
def TartError.description : TartError → String
  | .commandFailed args status output =>
    "tart command failed (" ++ " ".intercalate args ++ "): exit " ++ toString status ++ " - " ++
      output
  | .ipTimeout name => "timeout waiting for IP of VM '" ++ name ++ "'"
  | .notLaunched text => text

/-- `outputContains`, without regard to case. -/
def TartError.outputContains (error : TartError) (needle : String) : Bool :=
  match error with
  | .commandFailed _ _ output =>
    needle.toList.map Char.toLower <:+: output.toList.map Char.toLower
  | .ipTimeout _ => false
  | .notLaunched _ => false

/-- The memory of a clone in MiB. -/
def cloneProfileMemoryMiB : ℤ := 6144

/-- The display of a clone. -/
def cloneProfileDisplay : String := "1920x1080"

/-- Disk space in GiB that is not given to VMs. -/
def reservedDiskGiB : ℤ := 64

/-- `configureArguments`. -/
def configureArguments (name : String) (targetCPUCount : ℤ) (targetDiskSizeGiB : Option ℤ) :
    List String :=
  ["tart", "set", name, "--cpu", toString (max 1 targetCPUCount),
    "--memory", toString cloneProfileMemoryMiB, "--display", cloneProfileDisplay] ++
  match targetDiskSizeGiB with
  | none => []
  | some size => ["--disk-size", toString (max 1 size)]

/-- The command line of a command, where it has one. -/
def Command.args : Command → List String
  | .get name => ["tart", "get", name]
  | .clone source name => ["tart", "clone", source, name]
  | .list => ["tart", "list"]
  | .set name cpuCount diskSizeGiB => configureArguments name cpuCount diskSizeGiB
  | .start name => ["tart", "run", name, "--no-graphics"]
  | .ip name => ["tart", "ip", name, "--wait", "10"]
  | .stop name => ["tart", "stop", name]
  | .delete name => ["tart", "delete", name]
  | .readDiskSize _ | .updateLocalConfig _ _ | .beforeDeadline | .sleep => []

/-- Driver code that may throw. -/
abbrev TartM := ExceptT TartError (Prog Command Reply)

/-- The standard output of a process that succeeded, or an error. -/
def Reply.result (c : Command) : Reply → Except TartError String
  | exited status stdout stderr =>
    if status = 0 then .ok stdout else .error (.commandFailed c.args status stderr)
  | notLaunched text => .error (.notLaunched text)

/-- `exec`: the standard output, or an error. -/
def exec (c : Command) : TartM String := ExceptT.mk do
  let reply ← Prog.issue c
  pure (reply.result c)

/-- The result or the error of code that may throw, as a value. -/
def attempt {α : Type} (code : TartM α) : TartM (Except TartError α) := ExceptT.mk do
  let result ← code.run
  pure (.ok result)

/-- `exists`: any failure of the command counts as "no". -/
def existsVM (name : String) : Prog Command Reply Bool := do
  match ← (exec (.get name)).run with
  | .ok _ => pure true
  | .error _ => pure false

/-- `targetCPUCount`. -/
def targetCPUCount (physicalCoreCount vmCount : ℤ) : ℤ :=
  max 1 ((max 1 physicalCoreCount - 1).tdiv (max 1 vmCount))

/-- `targetDiskSizeGiB`. -/
def targetDiskSizeGiB (totalDiskGiB vmCount : ℤ) : ℤ :=
  max 1 ((max 0 totalDiskGiB - reservedDiskGiB).tdiv (max 1 vmCount))

/-- The number that decimal digits denote; there is at least one of them. -/
def decimal? (digits : List Char) : Option ℕ :=
  if digits ≠ [] ∧ digits.all Char.isDigit then
    some (digits.foldl (fun n c => 10 * n + (c.toNat - '0'.toNat)) 0)
  else none

/-- `Int.init`: decimal digits after an optional sign, for a number of 64 bits. -/
def parseInt (text : String) : Option ℤ :=
  let number : Option ℤ := match text.toList with
    | '+' :: digits => (decimal? digits).map Int.ofNat
    | '-' :: digits => (decimal? digits).map fun n => -Int.ofNat n
    | digits => (decimal? digits).map Int.ofNat
  number.filter fun n => -2 ^ 63 ≤ n ∧ n < 2 ^ 63

/-- `parseDiskSizeGiBFromList`: the third field of the first line of the VM. -/
def parseDiskSizeGiBFromList (output name : String) : Option ℤ :=
  ((Text.fields Text.isNewline output).findSome? fun line =>
    match Text.fields Text.isSpace line with
    | "local" :: n :: size :: _ :: _ => if n = name then some (parseInt size) else none
    | _ => none).join

/-- What the driver knows about the host and the configuration of the worker. -/
structure Config where
  baseImage : String
  poolSize : ℤ
  physicalCoreCount : ℤ
  totalDiskGiB : ℤ

/-- `currentDiskSizeGiB`: the local configuration first, then `tart list`. -/
def currentDiskSizeGiB (name : String) : TartM (Option ℤ) := do
  match (← attempt (exec (.readDiskSize name))).toOption.bind parseInt with
  | some size => return some size
  | none => return parseDiskSizeGiBFromList (← exec .list) name

/-- `configure`. -/
def configure (config : Config) (name : String) : TartM Unit := do
  let cpuCount := targetCPUCount config.physicalCoreCount config.poolSize
  let target := targetDiskSizeGiB config.totalDiskGiB config.poolSize
  let current ← currentDiskSizeGiB name
  let argument := (current.map (max · target)).getD target
  let diskSizeToSet := if current = some argument then none else some argument
  let _ ← exec (.set name cpuCount diskSizeToSet)
  let _ ← exec (.updateLocalConfig name cpuCount)

/-- `start`: only the launch of the process can fail. -/
def start (name : String) : TartM Unit := ExceptT.mk do
  match ← Prog.issue (.start name) with
  | .exited _ _ _ => pure (.ok ())
  | .notLaunched text => pure (.error (.notLaunched text))

/-- `stopIfRunning`: a VM that is not running is no error. -/
def stopIfRunning (name : String) : TartM Unit := ExceptT.mk do
  match ← (exec (.stop name)).run with
  | .ok _ => pure (.ok ())
  | .error error =>
    if error.outputContains "is not running" || error.outputContains "not running" then
      pure (.ok ())
    else pure (.error error)

/-- `deleteIfExists`. -/
def deleteIfExists (name : String) : TartM Unit := do
  if ← existsVM name then
    let _ ← exec (.delete name)

/-- The address in the output of `tart ip`, if the command succeeded with one. -/
def foundAddress (result : Except TartError String) : Option String :=
  match result with
  | .ok output => if Text.trimSpace output ≠ "" then some (Text.trimSpace output) else none
  | .error _ => none

/-- An address that was found is found again. -/
theorem foundAddress_ok {result : Except TartError String} {address : String}
    (h : foundAddress result = some address) : foundAddress (.ok address) = some address := by
  cases result with
  | error error => cases h
  | ok output =>
    simp only [foundAddress, Option.ite_none_right_eq_some, Option.some.injEq] at h
    obtain ⟨hne, rfl⟩ := h
    rw [foundAddress, Text.trimSpace_trimSpace, if_pos hne]

/-- The loop of `ip`, with a bound on the rounds that fit before the deadline. -/
def ipLoop (name : String) : ℕ → TartM String
  | 0 => throw (.ipTimeout name)
  | rounds + 1 => do
    match ← attempt (exec .beforeDeadline) with
    | .error _ => throw (.ipTimeout name)
    | .ok _ =>
      match foundAddress (← attempt (exec (.ip name))) with
      | some address => return address
      | none =>
        let _ ← exec .sleep
        ipLoop name rounds

/-- `ip`: every round sleeps two seconds, so that at most half as many rounds as
seconds start before the deadline. -/
def ip (name : String) (timeoutSeconds : ℕ) : TartM String :=
  ipLoop name ((timeoutSeconds + 1) / 2)

/-- Whatever the replies are, the code only runs commands that meet `P`, and what
it returns meets `Q`. -/
def Only {α : Type} (P : Command → Prop) (Q : α → Prop) (code : TartM α) : Prop :=
  code.run.Issues P fun result => ∀ value, result = .ok value → Q value

namespace Only

variable {α β : Type} {P : Command → Prop} {Q : α → Prop} {R : β → Prop}

/-- Code that returns. -/
theorem pure {value : α} (h : Q value) : Only P Q (Pure.pure value : TartM α) := by
  rintro _ ⟨⟩
  exact h

/-- Code that throws. -/
theorem throw (error : TartError) : Only P Q (MonadExcept.throw error : TartM α) :=
  nofun

/-- Code run one after the other; an error skips what follows. -/
theorem bind {code : TartM α} {f : α → TartM β} (h : Only P Q code)
    (hf : ∀ value, Q value → Only P R (f value)) : Only P R (code >>= f) := by
  refine Prog.Issues.bind h fun result hresult => ?_
  cases result with
  | ok value => exact hf value (hresult value rfl)
  | error error => exact nofun

/-- Code that does not throw. -/
theorem lift {code : Prog Command Reply α} (h : code.Issues P Q) :
    Only P Q (liftM code : TartM α) := by
  refine Prog.Issues.bind h fun value hvalue => ?_
  rintro _ ⟨⟩
  exact hvalue

/-- A command of the driver. -/
theorem exec {c : Command} (h : P c) : Only P (fun _ => True) (WorkerCore.exec c) :=
  Prog.Issues.bind (.issue h) fun _ _ _ _ => trivial

/-- Errors turned into values. -/
theorem attempt {code : TartM α} (h : Only P (fun _ => True) code) :
    Only P (fun _ => True) (WorkerCore.attempt code) :=
  Prog.Issues.bind h fun _ _ _ _ => trivial

end Only

variable {P : Command → Prop} {name : String} {c : Command} {reply : Reply}
  {before after : List String}

/-- A test for existence only runs `tart get`. -/
theorem existsVM_issues (h : P (.get name)) :
    (existsVM name).Issues P fun _ => True := by
  refine Prog.Issues.bind (Only.exec h) fun result _ => ?_
  cases result <;> trivial

/-- `configure` only runs commands that change no VM. -/
theorem configure_only {config : Config} (hread : P (.readDiskSize name)) (hlist : P .list)
    (hset : ∀ cpu disk, P (.set name cpu disk)) (hupdate : ∀ cpu, P (.updateLocalConfig name cpu)) :
    Only P (fun _ => True) (configure config name) := by
  have hsize : Only P (fun _ => True) (currentDiskSizeGiB name) := by
    refine .bind (.attempt (.exec hread)) fun result _ => ?_
    cases result.toOption.bind parseInt with
    | some size => exact .pure trivial
    | none => exact .bind (.exec hlist) fun _ _ => .pure trivial
  refine .bind hsize fun _ _ => ?_
  exact .bind (.exec (hset _ _)) fun _ _ => .bind (.exec (hupdate _)) fun _ _ => .pure trivial

/-- `ip` only runs `tart ip` and waits. -/
theorem ip_only {timeoutSeconds : ℕ} (hip : P (.ip name)) (hdeadline : P .beforeDeadline)
    (hsleep : P .sleep) :
    Only P (fun _ => True) (ip name timeoutSeconds) := by
  have hloop : ∀ rounds, Only P (fun _ => True) (ipLoop name rounds) := by
    intro rounds
    induction rounds with
    | zero => exact .throw _
    | succ rounds ih =>
      refine .bind (.attempt (.exec hdeadline)) fun result _ => ?_
      cases result with
      | error error => exact .throw _
      | ok text =>
        refine .bind (.attempt (.exec hip)) fun result _ => ?_
        cases foundAddress result with
        | some address => exact .pure trivial
        | none => exact .bind (.exec hsleep) fun _ _ => ih
  exact hloop _

/-- `stopIfRunning` only runs `tart stop`. -/
theorem stopIfRunning_only (h : P (.stop name)) :
    Only P (fun _ => True) (stopIfRunning name) := by
  refine Prog.Issues.bind (Only.exec h) fun result _ => ?_
  cases result with
  | ok output => exact fun _ _ => trivial
  | error error =>
    dsimp only
    split_ifs
    · exact fun _ _ => trivial
    · exact fun _ _ => trivial

/-- `start` only runs the VM. -/
theorem start_only (h : P (.start name)) :
    Only P (fun _ => True) (start name) := by
  refine Prog.Issues.bind (.issue h) fun reply _ => ?_
  cases reply <;> exact fun _ _ => trivial

/-- A VM on the host, with its address while it runs. -/
structure VM where
  name : String
  address : Option String
  deriving DecidableEq

/-- The workstation VMs on the host. -/
abbrev Host := List VM

/-- The names of the VMs on the host. -/
def Host.names (host : Host) : List String := host.map VM.name

/-- Change the address of a VM. -/
def Host.setAddress (host : Host) (name : String) (address : Option String) : Host :=
  Tables.update VM.name name (fun vm => { vm with address }) host

/-- What a command does to the host, given its reply. A failed command may or may
not have had its effect. `none` means that the reply is impossible: `get`, `ip`,
`stop` and `delete` succeed only on a VM that exists. -/
def Host.exec (host : Host) (c : Command) (reply : Reply) (effect : Bool) : Option Host :=
  match c with
  | .get name => if reply.Ok → name ∈ host.names then some host else none
  | .clone _ name =>
    if (reply.Ok ∨ effect) ∧ name ∉ host.names then some (host ++ [⟨name, none⟩]) else some host
  | .start name =>
    match reply with
    | .exited _ stdout _ => some (if effect then host.setAddress name (some stdout) else host)
    | .notLaunched _ => some host
  | .ip name =>
    match reply with
    | .exited 0 stdout _ =>
      if host.any (fun vm => vm.name = name && vm.address = some (Text.trimSpace stdout)) then
        some host
      else none
    | _ => some host
  | .stop name =>
    if reply.Ok → host.any (fun vm => vm.name = name && vm.address.isSome) then
      some (if reply.Ok ∨ effect then host.setAddress name none else host)
    else none
  | .delete name =>
    if reply.Ok → name ∈ host.names then
      some (if reply.Ok ∨ effect then Tables.delete VM.name name host else host)
    else none
  | _ => some host

/-- What the reply to a command says about the names of the VMs before and after it. -/
def Command.Renames (c : Command) (reply : Reply) (before after : List String) : Prop :=
  match c with
  | .get name => after = before ∧ (reply.Ok → name ∈ before)
  | .clone _ name => after = before ∨ (name ∉ before ∧ after = before ++ [name])
  | .delete name => after = before.filter (· ≠ name) ∨ (¬reply.Ok ∧ after = before)
  | _ => after = before

/-- Changing an address changes no name. -/
theorem Host.names_setAddress (host : Host) (name : String) (address : Option String) :
    (host.setAddress name address).names = host.names :=
  Tables.map_update fun _ _ _ => rfl

/-- Commands change the names on the host as their replies say. -/
theorem Host.exec_names {host host' : Host} {effect : Bool}
    (h : host.exec c reply effect = some host') : c.Renames reply host.names host'.names := by
  cases c with
  | get name =>
    simp only [Host.exec] at h
    split_ifs at h with hget
    cases h
    exact ⟨rfl, hget⟩
  | clone source name =>
    simp only [Host.exec] at h
    split_ifs at h with hclone
    · cases h
      exact .inr ⟨hclone.2, by simp [Host.names]⟩
    · cases h
      exact .inl rfl
  | start name =>
    simp only [Host.exec] at h
    split at h
    · cases h
      simp only [Command.Renames]
      split_ifs
      · exact host.names_setAddress _ _
      · rfl
    · cases h
      rfl
  | ip name =>
    simp only [Host.exec] at h
    split at h
    · split_ifs at h
      cases h
      rfl
    · cases h
      rfl
  | stop name =>
    simp only [Host.exec] at h
    split_ifs at h
    · cases h
      exact host.names_setAddress _ _
    · cases h
      rfl
  | delete name =>
    simp only [Host.exec] at h
    split_ifs at h with hget hdelete
    · cases h
      left
      simp [Host.names, Tables.delete, List.filter_map, Function.comp_def]
    · cases h
      exact .inr ⟨fun hok => hdelete (.inl hok), rfl⟩
  | readDiskSize | list | set | updateLocalConfig | beforeDeadline | sleep =>
    cases h
    rfl

/-- A name that was not there before was cloned. -/
theorem Command.Renames.mem (h : c.Renames reply before after) (hname : name ∈ after) :
    name ∈ before ∨ ∃ source, c = .clone source name := by
  cases c with
  | get =>
    rw [h.1] at hname
    exact .inl hname
  | clone source =>
    rcases h with heq | ⟨_, heq⟩
    · rw [heq] at hname
      exact .inl hname
    · rw [heq] at hname
      rcases List.mem_append.mp hname with hold | hnew
      · exact .inl hold
      · rw [List.mem_singleton.mp hnew]
        exact .inr ⟨source, rfl⟩
  | delete =>
    rcases h with heq | ⟨_, heq⟩
    · rw [heq] at hname
      exact .inl (List.mem_of_mem_filter hname)
    · rw [heq] at hname
      exact .inl hname
  | _ => exact .inl (h ▸ hname)

/-- Distinct names stay distinct. -/
theorem Command.Renames.nodup (h : c.Renames reply before after) (hnodup : before.Nodup) :
    after.Nodup := by
  cases c with
  | get =>
    rw [h.1]
    exact hnodup
  | clone source =>
    rcases h with heq | ⟨hfresh, heq⟩
    · rwa [heq]
    · rw [heq]
      exact hnodup.append (List.nodup_singleton _) (List.disjoint_singleton.mpr hfresh)
  | delete =>
    rcases h with heq | ⟨_, heq⟩
    · rw [heq]
      exact hnodup.filter _
    · rwa [heq]
  | _ => exact h ▸ hnodup

end MiniControl.WorkerCore
