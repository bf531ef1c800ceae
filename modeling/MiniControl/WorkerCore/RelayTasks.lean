import MiniControl.WorkerCore.Relays

/-!
# The tasks of the relays

`pollProxySessions` runs on the actor of the worker, which other calls enter while
it waits for the pending sessions, for the information on a VM or for the base
address. A relay runs in a task of its own and then records on the actor that it
has finished; the management loop forgets the recorded relays after each poll. The
steps here are the parts of these functions between two suspension points.

Between the guard on `activeRelays` and the new entry only completions are
recorded, and these leave `activeRelays` as it is.
-/

namespace MiniControl.WorkerCore.RelayTasks

open Transition Fleet Proxy Relays

/-- How far the task of a relay is: inside `relay.start`, before `markRelayFinished`,
or done. -/
inductive Phase
  | running
  | returned
  | finished
  deriving DecidableEq

/-- The task of a relay, with the arguments of `relay.start`. -/
structure RelayTask where
  relay : Relay
  serverBaseURL : String
  phase : Phase
  deriving DecidableEq

/-- The session of a task. -/
def RelayTask.sessionID (task : RelayTask) : String := task.relay.session.sessionID

/-- Where the management loop is. -/
inductive Loop
  /-- Outside `pollProxySessions`, before the next poll. -/
  | idle
  /-- In `apiClient.pollForProxySessions`. -/
  | polling
  /-- In `workstations.findVM`, for a session that has passed the guard. -/
  | findingVM (session : PendingProxySession) (vmID : String) (rest : List PendingProxySession)
  /-- In `apiClient.getBaseURL`, with the address of the target. -/
  | gettingBaseURL (session : PendingProxySession) (targetIP : String)
    (rest : List PendingProxySession)
  /-- After `pollProxySessions`, before the clean-up. -/
  | polled
  deriving DecidableEq

/-- The worker with every task that it has started, in order; `activeRelays` has
their positions. -/
structure State where
  activeRelays : String → Option ℕ
  finishedRelayIDs : List String
  tasks : List RelayTask
  loop : Loop

/-- The steps between the suspension points, with what the awaited calls return. -/
inductive Event
  | beginPoll
  | received (sessions : List PendingProxySession)
  | foundVM (info : Option VMInfo)
  | gotBaseURL (baseURL : String)
  | cleanUp
  /-- `relay.start` returns in a task. -/
  | relayReturned (task : ℕ)
  /-- A task calls `markRelayFinished`. -/
  | markRelayFinished (task : ℕ)
  deriving DecidableEq

/-- The loop of `pollProxySessions` up to its next suspension point. -/
def scan (activeRelays : String → Option ℕ) : List PendingProxySession → Loop
  | [] => .polled
  | session :: rest =>
    if activeRelays session.sessionID ≠ none then scan activeRelays rest
    else
      match session.target, session.vmID with
      | .value .host, _ => .gettingBaseURL session "127.0.0.1" rest
      | .value .vm, some vmID => .findingVM session vmID rest
      | .value .vm, none => scan activeRelays rest
      | .invalid _, _ => scan activeRelays rest

/-- A task is in a new phase. -/
def State.setPhase (s : State) (i : ℕ) (phase : Phase) : State :=
  { s with tasks := s.tasks.modify i fun task => { task with phase } }

/-- The task of a session is started, and its entry written. -/
def State.start (s : State) (session : PendingProxySession) (targetIP baseURL : String) : State :=
  { s with
    activeRelays := Function.update s.activeRelays session.sessionID (some s.tasks.length)
    tasks := s.tasks ++ [⟨⟨session, targetIP⟩, baseURL, .running⟩] }

/-- `markRelayFinished`. -/
def State.markRelayFinished (s : State) (sessionID : String) : State :=
  { s with finishedRelayIDs := sessionID :: s.finishedRelayIDs }

/-- The clean-up of the management loop. -/
def State.cleanUp (s : State) : State :=
  { s with
    activeRelays := fun id => if id ∈ s.finishedRelayIDs then none else s.activeRelays id
    finishedRelayIDs := [] }

/-- One step. -/
def step (s : State) : Event → Option State
  | .beginPoll => if s.loop = .idle then some { s with loop := .polling } else none
  | .received sessions =>
    if s.loop = .polling then some { s with loop := scan s.activeRelays sessions } else none
  | .foundVM info =>
    match s.loop with
    | .findingVM session _ rest =>
      match info.bind VMInfo.ipAddress with
      | none => some { s with loop := scan s.activeRelays rest }
      | some ip => some { s with loop := .gettingBaseURL session ip rest }
    | _ => none
  | .gotBaseURL baseURL =>
    match s.loop with
    | .gettingBaseURL session targetIP rest =>
      let started := s.start session targetIP baseURL
      some { started with loop := scan started.activeRelays rest }
    | _ => none
  | .cleanUp => if s.loop = .polled then some { s.cleanUp with loop := .idle } else none
  | .relayReturned i =>
    match s.tasks[i]? with
    | none => none
    | some task => if task.phase = .running then some (s.setPhase i .returned) else none
  | .markRelayFinished i =>
    match s.tasks[i]? with
    | none => none
    | some task =>
      if task.phase = .returned then
        some ((s.setPhase i .finished).markRelayFinished task.sessionID)
      else none

/-- A worker that has just started. -/
def initial : State := ⟨fun _ => none, [], [], .idle⟩

/-- All runs of the management loop and of the tasks. -/
def system : System State Event := System.ofStep (· = initial) step

/-- What one step does. -/
inductive Steps (s : State) : Event → State → Prop
  | beginPoll (hloop : s.loop = .idle) : Steps s .beginPoll { s with loop := .polling }
  | received (sessions : List PendingProxySession) (hloop : s.loop = .polling) :
      Steps s (.received sessions) { s with loop := scan s.activeRelays sessions }
  | notFound {info : Option VMInfo} {session : PendingProxySession} {vmID : String}
      {rest : List PendingProxySession} (hloop : s.loop = .findingVM session vmID rest)
      (hinfo : info.bind VMInfo.ipAddress = none) :
      Steps s (.foundVM info) { s with loop := scan s.activeRelays rest }
  | found {info : Option VMInfo} {session : PendingProxySession} {vmID ip : String}
      {rest : List PendingProxySession} (hloop : s.loop = .findingVM session vmID rest)
      (hinfo : info.bind VMInfo.ipAddress = some ip) :
      Steps s (.foundVM info) { s with loop := .gettingBaseURL session ip rest }
  | start {session : PendingProxySession} {targetIP : String} (baseURL : String)
      {rest : List PendingProxySession} (hloop : s.loop = .gettingBaseURL session targetIP rest) :
      Steps s (.gotBaseURL baseURL)
        { s.start session targetIP baseURL with
          loop := scan (s.start session targetIP baseURL).activeRelays rest }
  | cleanUp (hloop : s.loop = .polled) : Steps s .cleanUp { s.cleanUp with loop := .idle }
  | relayReturned {i : ℕ} {task : RelayTask} (htask : s.tasks[i]? = some task)
      (hphase : task.phase = .running) : Steps s (.relayReturned i) (s.setPhase i .returned)
  | markRelayFinished {i : ℕ} {task : RelayTask} (htask : s.tasks[i]? = some task)
      (hphase : task.phase = .returned) :
      Steps s (.markRelayFinished i)
        ((s.setPhase i .finished).markRelayFinished task.sessionID)

/-- The step function takes these steps only. -/
theorem steps_of_step {s t : State} {e : Event} (h : step s e = some t) : Steps s e t := by
  cases e with
  | beginPoll =>
    simp only [step, Option.ite_none_right_eq_some, Option.some.injEq] at h
    obtain ⟨hloop, rfl⟩ := h
    exact .beginPoll hloop
  | received sessions =>
    simp only [step, Option.ite_none_right_eq_some, Option.some.injEq] at h
    obtain ⟨hloop, rfl⟩ := h
    exact .received sessions hloop
  | foundVM info =>
    cases hloop : s.loop <;> simp only [step, hloop, reduceCtorEq] at h
    case findingVM session vmID rest =>
      cases hinfo : info.bind VMInfo.ipAddress <;> simp only [hinfo, Option.some.injEq] at h
      case none => exact h ▸ .notFound hloop hinfo
      case some ip => exact h ▸ .found hloop hinfo
  | gotBaseURL baseURL =>
    cases hloop : s.loop <;> simp only [step, hloop, reduceCtorEq, Option.some.injEq] at h
    case gettingBaseURL session targetIP rest => exact h ▸ .start baseURL hloop
  | cleanUp =>
    simp only [step, Option.ite_none_right_eq_some, Option.some.injEq] at h
    obtain ⟨hloop, rfl⟩ := h
    exact .cleanUp hloop
  | relayReturned i =>
    cases htask : s.tasks[i]? with
    | none => simp only [step, htask, reduceCtorEq] at h
    | some task =>
      simp only [step, htask, Option.ite_none_right_eq_some, Option.some.injEq] at h
      obtain ⟨hphase, rfl⟩ := h
      exact .relayReturned htask hphase
  | markRelayFinished i =>
    cases htask : s.tasks[i]? with
    | none => simp only [step, htask, reduceCtorEq] at h
    | some task =>
      simp only [step, htask, Option.ite_none_right_eq_some, Option.some.injEq] at h
      obtain ⟨hphase, rfl⟩ := h
      exact .markRelayFinished htask hphase

/-- A session that has passed the guard still has no entry, and the VM that is
looked up is its own. -/
def Loop.Admitted (activeRelays : String → Option ℕ) : Loop → Prop
  | .findingVM session vmID _ =>
    activeRelays session.sessionID = none ∧ session.target = .value .vm ∧
      session.vmID = some vmID
  | .gettingBaseURL session _ _ => activeRelays session.sessionID = none
  | _ => True

/-- The guard holds at the next suspension point. -/
theorem admitted_scan (activeRelays : String → Option ℕ) (sessions : List PendingProxySession) :
    (scan activeRelays sessions).Admitted activeRelays := by
  induction sessions with
  | nil => trivial
  | cons session rest ih =>
    unfold scan
    split
    · exact ih
    next hnone =>
      have hnone := not_not.mp hnone
      split
      · exact hnone
      next htarget hvmID => exact ⟨hnone, htarget, hvmID⟩
      · exact ih
      · exact ih

/-- What `activeRelays` and `finishedRelayIDs` record of the tasks. -/
structure Tracked (s : State) : Prop where
  /-- A task that is not done has the entry of its session. -/
  unfinished : ∀ i task, s.tasks[i]? = some task → task.phase ≠ .finished →
    s.activeRelays task.sessionID = some i
  /-- An entry is that of a task of its session. -/
  entry : ∀ id i, s.activeRelays id = some i →
    ∃ task, s.tasks[i]? = some task ∧ task.sessionID = id
  /-- The entry of a recorded session is that of a task that is done. -/
  recorded : ∀ id ∈ s.finishedRelayIDs, ∃ i task, s.activeRelays id = some i ∧
    s.tasks[i]? = some task ∧ task.phase = .finished
  admitted : s.loop.Admitted s.activeRelays

/-- The tasks after one of them has changed its phase. -/
theorem State.getElem?_setPhase (s : State) (i j : ℕ) (phase : Phase) :
    (s.setPhase i phase).tasks[j]? =
      s.tasks[j]?.map fun task => if i = j then { task with phase } else task :=
  List.getElem?_modify _ _ _ _

/-- The tasks after one more was started. -/
theorem State.getElem?_start (s : State) (session : PendingProxySession)
    (targetIP baseURL : String) (i : ℕ) :
    (s.start session targetIP baseURL).tasks[i]? =
      if i = s.tasks.length then some ⟨⟨session, targetIP⟩, baseURL, .running⟩
      else s.tasks[i]? := by
  unfold State.start
  grind

namespace Tracked

variable {s t : State} {e : Event}

/-- Only the loop moves, to a point at which its session has passed the guard. -/
theorem moved (h : Tracked s) {loop : Loop} (hloop : loop.Admitted s.activeRelays) :
    Tracked { s with loop } :=
  ⟨h.unfinished, h.entry, h.recorded, hloop⟩

/-- A session without an entry has no task that is not done, and gets one. -/
theorem start (h : Tracked s) {session : PendingProxySession}
    (hnone : s.activeRelays session.sessionID = none) (targetIP baseURL : String)
    (rest : List PendingProxySession) :
    Tracked { s.start session targetIP baseURL with
      loop := scan (s.start session targetIP baseURL).activeRelays rest } := by
  -- the new entry replaces none, and the new task stands after the others
  have keptEntry {id : String} {i : ℕ} (hentry : s.activeRelays id = some i) :
      (s.start session targetIP baseURL).activeRelays id = some i := by
    have hne : id ≠ session.sessionID := by
      rintro rfl
      rw [hnone] at hentry
      cases hentry
    exact (Function.update_of_ne hne _ _).trans hentry
  have keptTask {i : ℕ} {task : RelayTask} (htask : s.tasks[i]? = some task) :
      (s.start session targetIP baseURL).tasks[i]? = some task := by
    have hlt := (List.getElem?_eq_some_iff.mp htask).1
    rw [s.getElem?_start, if_neg (by omega), htask]
  refine ⟨fun i task htask hphase => ?_, fun id i hentry => ?_, fun id hid => ?_,
    admitted_scan _ _⟩
  · replace htask := (s.getElem?_start _ _ _ i).symm.trans htask
    split at htask
    next hlast =>
      cases htask
      exact hlast ▸ Function.update_self _ _ _
    · exact keptEntry (h.unfinished i task htask hphase)
  · by_cases hid : id = session.sessionID
    · subst hid
      cases (Function.update_self _ _ _).symm.trans hentry
      exact ⟨_, (s.getElem?_start _ _ _ _).trans (if_pos rfl), rfl⟩
    · obtain ⟨task, htask, hsession⟩ :=
        h.entry id i ((Function.update_of_ne hid _ _).symm.trans hentry)
      exact ⟨task, keptTask htask, hsession⟩
  · obtain ⟨i, task, hentry, htask, hphase⟩ := h.recorded id hid
    exact ⟨i, task, keptEntry hentry, keptTask htask, hphase⟩

/-- The clean-up removes entries of tasks that are done. -/
theorem cleanUp (h : Tracked s) : Tracked { s.cleanUp with loop := .idle } := by
  refine ⟨fun i task htask hphase => ?_, fun id i hentry => ?_, nofun, trivial⟩
  · have hentry := h.unfinished i task htask hphase
    refine (if_neg fun hrecorded => ?_).trans hentry
    obtain ⟨j, done, hdone, hj, hfinished⟩ := h.recorded _ hrecorded
    cases hentry.symm.trans hdone
    cases htask.symm.trans hj
    exact hphase hfinished
  · replace hentry : (if id ∈ s.finishedRelayIDs then none else s.activeRelays id) = some i :=
      hentry
    rw [Option.ite_none_left_eq_some] at hentry
    exact h.entry id i hentry.2

/-- A task moves on, and its session is recorded when it is done. -/
theorem setPhase (h : Tracked s) {i : ℕ} {task : RelayTask} (htask : s.tasks[i]? = some task)
    (hphase : task.phase ≠ .finished) (phase : Phase) {recorded : List String}
    (hrecorded : ∀ id ∈ recorded,
      id ∈ s.finishedRelayIDs ∨ id = task.sessionID ∧ phase = .finished) :
    Tracked { s.setPhase i phase with finishedRelayIDs := recorded } := by
  refine ⟨fun j new hnew hunfinished => ?_, fun id j hentry => ?_, fun id hid => ?_, h.admitted⟩
  · replace hnew := (s.getElem?_setPhase i j phase).symm.trans hnew
    obtain ⟨old, hold, rfl⟩ := Option.map_eq_some_iff.mp hnew
    by_cases hij : i = j
    · subst hij
      cases htask.symm.trans hold
      rw [if_pos rfl]
      exact h.unfinished i task htask hphase
    · rw [if_neg hij] at hunfinished ⊢
      exact h.unfinished j old hold hunfinished
  · obtain ⟨old, hold, hsession⟩ := h.entry id j hentry
    refine ⟨_, (s.getElem?_setPhase i j phase).trans (by rw [hold]; rfl), ?_⟩
    split <;> exact hsession
  · rcases hrecorded id hid with hold | ⟨rfl, rfl⟩
    · obtain ⟨j, old, hentry, hold, hdone⟩ := h.recorded id hold
      have hij : i ≠ j := by
        rintro rfl
        cases htask.symm.trans hold
        exact hphase hdone
      refine ⟨j, old, hentry, ?_, hdone⟩
      exact (s.getElem?_setPhase i j phase).trans (by rw [hold, Option.map_some, if_neg hij])
    · refine ⟨i, { task with phase := .finished }, h.unfinished i task htask hphase, ?_, rfl⟩
      exact (s.getElem?_setPhase i i _).trans (by rw [htask, Option.map_some, if_pos rfl])

/-- Every step keeps the tasks tracked. -/
theorem step (h : Tracked s) (hsteps : Steps s e t) : Tracked t := by
  cases hsteps with
  | beginPoll => exact h.moved trivial
  | received sessions => exact h.moved (admitted_scan _ _)
  | notFound => exact h.moved (admitted_scan _ _)
  | found hloop =>
    have hadmitted := h.admitted
    rw [hloop] at hadmitted
    exact h.moved hadmitted.1
  | start baseURL hloop =>
    have hadmitted := h.admitted
    rw [hloop] at hadmitted
    exact h.start hadmitted _ _ _
  | cleanUp => exact h.cleanUp
  | relayReturned htask hphase =>
    exact h.setPhase htask (by rw [hphase]; decide) .returned fun id hid => .inl hid
  | markRelayFinished htask hphase =>
    refine h.setPhase htask (by rw [hphase]; decide) .finished fun id hid => ?_
    rcases List.mem_cons.mp hid with rfl | hold
    · exact .inr ⟨rfl, rfl⟩
    · exact .inl hold

/-- A step removes the entry of a task only when that task is done. -/
theorem finished_of_removed (h : Tracked s) (hsteps : Steps s e t) {id : String} {i : ℕ}
    (hentry : s.activeRelays id = some i) (hremoved : t.activeRelays id ≠ some i) :
    ∃ task, s.tasks[i]? = some task ∧ task.sessionID = id ∧ task.phase = .finished := by
  cases hsteps with
  | start baseURL hloop =>
    have hadmitted := h.admitted
    rw [hloop] at hadmitted
    refine absurd ((Function.update_of_ne ?_ _ _).trans hentry) hremoved
    rintro rfl
    cases (show s.activeRelays _ = none from hadmitted).symm.trans hentry
  | cleanUp =>
    have hrecorded : id ∈ s.finishedRelayIDs := by
      by_contra hnot
      exact hremoved ((if_neg hnot).trans hentry)
    obtain ⟨j, task, hj, htask, hphase⟩ := h.recorded id hrecorded
    obtain ⟨_, htask', hsession⟩ := h.entry id i hentry
    cases hentry.symm.trans hj
    cases htask.symm.trans htask'
    exact ⟨task, htask, hsession, hphase⟩
  | _ => exact absurd hentry hremoved

end Tracked

/-- In every run the tasks are tracked. -/
theorem tracked_of_reachable {s : State} (h : system.Reachable s) : Tracked s := by
  refine h.invariant ?_ fun s e t _ _ hnext hs => hs.step (steps_of_step hnext)
  rintro _ rfl
  exact ⟨nofun, nofun, nofun, trivial⟩

/-- No two tasks of one session are unfinished, and the entry of a task leaves
`activeRelays` only after the task is done. -/
theorem one_relay_per_session {s : State} (h : system.Reachable s) :
    (∀ (i j : ℕ) (a b : RelayTask), s.tasks[i]? = some a → s.tasks[j]? = some b →
      a.phase ≠ .finished → b.phase ≠ .finished → a.sessionID = b.sessionID → i = j) ∧
    ∀ e t, system.next s e t → ∀ id i, s.activeRelays id = some i →
      t.activeRelays id ≠ some i →
      ∃ task, s.tasks[i]? = some task ∧ task.sessionID = id ∧ task.phase = .finished := by
  have htracked := tracked_of_reachable h
  refine ⟨fun i j a b ha hb hphaseA hphaseB hsession => ?_, fun e t hnext id i => ?_⟩
  · have hi := htracked.unfinished i a ha hphaseA
    rw [hsession, htracked.unfinished j b hb hphaseB] at hi
    exact (Option.some.inj hi).symm
  · exact htracked.finished_of_removed (steps_of_step hnext)

/-- A session of the host. -/
def hostSession : PendingProxySession := ⟨"session-1", .value .host, none, 5900, "token"⟩

/-- The session is listed twice in one poll. Its relay finishes while the next poll
waits for the base address of another one, and it is listed again after the clean-up. -/
def listedAgain : List Event :=
  [.beginPoll, .received [hostSession, hostSession], .gotBaseURL "https://server", .cleanUp,
   .relayReturned 0,
   .beginPoll, .received [{ hostSession with sessionID := "session-2" }, hostSession],
   .markRelayFinished 0, .gotBaseURL "https://server", .cleanUp,
   .beginPoll, .received [hostSession], .gotBaseURL "https://server"]

/-- In that run the session has two tasks, of which one is unfinished. -/
theorem one_relay_per_session_again : ∃ s : State, system.Reachable s ∧
    s.tasks.map (fun task => (task.sessionID, task.phase)) =
      [("session-1", .finished), ("session-2", .running), ("session-1", .running)] ∧
    (∀ (i j : ℕ) (a b : RelayTask), s.tasks[i]? = some a → s.tasks[j]? = some b →
      a.phase ≠ .finished → b.phase ≠ .finished → a.sessionID = b.sessionID → i = j) := by
  have hrun : ∃ s, runEvents step initial listedAgain = some s ∧
      s.tasks.map (fun task => (task.sessionID, task.phase)) =
        [("session-1", .finished), ("session-2", .running), ("session-1", .running)] :=
    ⟨_, rfl, rfl⟩
  obtain ⟨s, hs, htasks⟩ := hrun
  have hreach : system.Reachable s := reachable_of_runEvents rfl hs
  exact ⟨s, hreach, htasks, (one_relay_per_session hreach).1⟩

end MiniControl.WorkerCore.RelayTasks
