import MiniControl.Frontend.RemoteTerminal

/-!
# A terminal has one connection

Whatever the tabs and the server do, a terminal that is shown either has one WebSocket
that is not closed, or a timer that will open the next one within the bounds of the
delay. A terminal that is gone has neither a timer nor a WebSocket that is open or about
to be.
-/

namespace MiniControl.Frontend.RemoteTerminal

open Transition Rest

variable {s t : State} {id n : ℕ} {run : Run} {x : Socket}

/-- The run of the effect has a WebSocket in this state. -/
def State.Has (s : State) (id n : ℕ) (r : ReadyState) : Prop :=
  ∃ x, s.sockets n = some x ∧ x.run = id ∧ x.readyState = r

/-- How a run of the effect is connected. -/
inductive Connection (s : State) (id : ℕ) (run : Run) : Prop
  | connected (n : ℕ) (r : ReadyState) : run.disposed = false → run.socketRef = some n →
      run.reconnectTimer = none → s.Has id n r → r ≠ .closed →
      (∀ m r, s.Has id m r → r ≠ .closed → m = n) → Connection s id run
  | waiting (delay : ℕ) : run.disposed = false → run.socketRef = none →
      run.reconnectTimer = some delay → reconnectBaseDelayMs ≤ delay →
      delay ≤ reconnectMaxDelayMs → (∀ m r, s.Has id m r → r = .closed) → Connection s id run
  | disposed : run.disposed = true → run.reconnectTimer = none →
      (∀ m r, s.Has id m r → r = .closing ∨ r = .closed) → Connection s id run

/-- A state in which every run of the effect is connected in one of these ways. -/
structure Wired (s : State) : Prop where
  /-- The effects that are not cleaned up are those of the components that are mounted. -/
  current : ∀ component id, s.current component = some id ↔
    ∃ run, s.runs id = some run ∧ run.component = component ∧ run.disposed = false
  made : ∀ n x, s.sockets n = some x → ∃ run, s.runs x.run = some run
  connection : ∀ id run, s.runs id = some run → Connection s id run

section Views

/-- What the browser has of a WebSocket. -/
def Socket.view (x : Socket) : ℕ × Option String × TerminalQuery × ReadyState :=
  (x.run, x.attemptedSessionID, x.query, x.readyState)

/-- The WebSockets are the same for the browser. -/
def State.SameView (s t : State) : Prop :=
  ∀ n, (t.sockets n).map Socket.view = (s.sockets n).map Socket.view

/-- A WebSocket was there before, with the same view. -/
theorem State.SameView.exists_socket (h : s.SameView t) (hx : t.sockets n = some x) :
    ∃ y, s.sockets n = some y ∧ x.view = y.view := by
  have hview := h n
  rw [hx, Option.map_some, eq_comm, Option.map_eq_some_iff] at hview
  obtain ⟨y, hy, heq⟩ := hview
  exact ⟨y, hy, heq.symm⟩

/-- Views are equal either way. -/
theorem State.SameView.symm (h : s.SameView t) : t.SameView s := by
  intro n
  exact (h n).symm

/-- The runs have the same connections in states that look the same to the browser. -/
theorem State.SameView.has (h : s.SameView t) {r : ReadyState} :
    t.Has id n r ↔ s.Has id n r := by
  have hone : ∀ {s t : State}, s.SameView t → t.Has id n r → s.Has id n r := by
    rintro s t h ⟨x, hx, hrun, hstate⟩
    obtain ⟨y, hy, hview⟩ := h.exists_socket hx
    simp only [Socket.view, Prod.mk.injEq] at hview
    exact ⟨y, hy, by rw [← hview.1, hrun], by rw [← hview.2.2.2, hstate]⟩
  exact ⟨hone h, hone h.symm⟩

/-- The server leaves the browser as it is. -/
structure ServerFrame (s t : State) : Prop where
  storage : t.storage = s.storage
  sessionIDRef : t.sessionIDRef = s.sessionIDRef
  current : t.current = s.current
  runs : t.runs = s.runs
  rejected : t.rejected = s.rejected
  view : s.SameView t

namespace ServerFrame

/-- Without a step nothing changes in the browser. -/
theorem refl (s : State) : ServerFrame s s := ⟨rfl, rfl, rfl, rfl, rfl, fun _ => rfl⟩

/-- A connection changes in what the browser does not see of it. -/
theorem setSocket (h : ServerFrame s t) (hx : t.sockets n = some x) {x' : Socket}
    (hview : x'.view = x.view) : ServerFrame s (t.setSocket n x') := by
  refine ⟨h.storage, h.sessionIDRef, h.current, h.runs, h.rejected, fun m => ?_⟩
  rw [← h.view m]
  by_cases hm : m = n
  · subst hm
    simp [State.setSocket, hx, hview]
  · simp [State.setSocket, hm]

/-- `Attach` returns, which the browser does not see. -/
theorem endAttach (h : ServerFrame s t) (hx : t.sockets n = some x) {member : Option String}
    {program : Prog Call Answer Response} : ServerFrame s (t.endAttach n x member program) :=
  h.setSocket hx rfl

/-- Some connection changes in what the browser does not see of it. -/
theorem modifySocket (h : ServerFrame s t) {n : Option ℕ} {f : Socket → Socket}
    (hview : ∀ x, (f x).view = x.view) : ServerFrame s (t.modifySocket n f) := by
  refine ⟨h.storage, h.sessionIDRef, h.current, h.runs, h.rejected, fun m => ?_⟩
  rw [← h.view m]
  by_cases hm : n = some m
  · simp only [State.modifySocket, hm, if_true, Option.map_map]
    congr 1
    exact funext hview
  · simp [State.modifySocket, hm]

/-- A session changes, which is all on the server. -/
theorem setSession (h : ServerFrame s t) {id : String} {y : Session} :
    ServerFrame s (t.setSession id y) :=
  ⟨h.storage, h.sessionIDRef, h.current, h.runs, h.rejected, h.view⟩

end ServerFrame

/-- The answer to a call of a handler changes no connection. -/
theorem State.sockets_record (c : Call) (answer : Answer) :
    (s.record c answer).sockets = s.sockets := by
  unfold State.record
  split <;> rfl

/-- No step of the server touches the browser. -/
theorem Serves.frame (h : Serves s t) : ServerFrame s t := by
  cases h with
  | serve n x member hx _ | respond n x member response hx _ | writerStops n x hx
  | attachRefused n x member info request next hx _ _ =>
    exact .setSocket (.refl s) hx rfl
  | answer n x member c next answer hx _ _ =>
    have hrecord : ServerFrame s (s.record c answer) := by
      unfold State.record
      split
      · exact .setSession (.refl s)
      · exact .refl s
    apply hrecord.setSocket
    · rw [State.sockets_record, hx]
    · rfl
  | attach n x info request y hx _ _ _ =>
    apply ServerFrame.modifySocket
    · exact .setSocket (.setSession (.refl s)) hx rfl
    · exact fun _ => rfl
  | setAttachment | remove => exact .setSession (.refl s)
  | attachFails n x member info request next y hx _ _ _
  | attachEnds n x member info request next y answer hx _ _ _ =>
    apply ServerFrame.modifySocket
    · exact .setSession (.endAttach (.refl s) hx)
    · exact fun _ => rfl
  | publishFails | close =>
    apply ServerFrame.modifySocket
    · exact .setSession (.refl s)
    · exact fun _ => rfl
  | publish => exact .modifySocket (.refl s) fun _ => rfl

end Views

section Steps

/-- A connection depends only on the WebSockets of its run. -/
theorem Connection.congr (h : Connection s id run) (hhas : ∀ m r, t.Has id m r ↔ s.Has id m r) :
    Connection t id run := by
  cases h with
  | connected n r hdisposed href htimer hn hr hone =>
    exact .connected n r hdisposed href htimer ((hhas n r).mpr hn) hr
      fun m r hm => hone m r ((hhas m r).mp hm)
  | waiting delay hdisposed href htimer hlow hhigh hall =>
    exact .waiting delay hdisposed href htimer hlow hhigh fun m r hm => hall m r ((hhas m r).mp hm)
  | disposed hdisposed htimer hall =>
    exact .disposed hdisposed htimer fun m r hm => hall m r ((hhas m r).mp hm)

variable {x' : Socket} {m : ℕ} {r : ReadyState} {run' : Run}

/-- The WebSockets of the other runs are not touched. -/
theorem State.has_setSocket :
    (s.setSocket n x').Has id m r ↔
      (m = n ∧ x'.run = id ∧ x'.readyState = r) ∨ (m ≠ n ∧ s.Has id m r) := by
  unfold State.Has State.setSocket
  by_cases hm : m = n
  · subst hm
    simp
  · simp [hm]

/-- A connection that the browser closes is closing unless it was closed before. -/
theorem State.has_modifySocket_close {ref : Option ℕ} :
    (s.modifySocket ref .close).Has id m r ↔
      ∃ r', s.Has id m r' ∧ r = if ref = some m ∧ r' ≠ .closed then .closing else r' := by
  have hclose : ∀ x : Socket, x.close.run = x.run ∧
      x.close.readyState = if x.readyState ≠ .closed then .closing else x.readyState := by
    intro x
    unfold Socket.close
    cases hx : x.readyState <;> simp [hx]
  unfold State.Has State.modifySocket
  by_cases hm : ref = some m
  · constructor
    · rintro ⟨y, hy, hrun, hstate⟩
      simp only [hm, if_true, Option.map_eq_some_iff] at hy
      obtain ⟨x, hx, rfl⟩ := hy
      rw [(hclose x).1] at hrun
      rw [(hclose x).2] at hstate
      exact ⟨x.readyState, ⟨x, hx, hrun, rfl⟩, by simp [hm, ← hstate]⟩
    · rintro ⟨r', ⟨x, hx, hrun, rfl⟩, hr⟩
      refine ⟨x.close, by simp [hm, hx], by rw [(hclose x).1, hrun], ?_⟩
      rw [(hclose x).2, hr]
      simp [hm]
  · simp [hm, and_assoc, eq_comm]

/-- A step that changes one run of the effect and its WebSockets. -/
theorem Wired.of_one (h : Wired s) (hruns : ∀ j, j ≠ id → t.runs j = s.runs j)
    (hrun : t.runs id = some run') (hcurrent : ∀ component, t.current component = some id ↔
      run'.component = component ∧ run'.disposed = false) (hothers : ∀ component j, j ≠ id →
      (t.current component = some j ↔ s.current component = some j))
    (hhas : ∀ j, j ≠ id → ∀ m r, t.Has j m r ↔ s.Has j m r) (hconn : Connection t id run') :
    Wired t := by
  constructor
  · intro component j
    by_cases hj : j = id
    · subst hj
      simp [hcurrent component, hrun]
    · rw [hothers component j hj, h.current component j, hruns j hj]
  · intro n x hx
    by_cases hid : x.run = id
    · exact ⟨run', by rw [hid, hrun]⟩
    · obtain ⟨y, hy, hyrun, -⟩ := (hhas x.run hid n x.readyState).mp ⟨x, hx, rfl, rfl⟩
      rw [hruns x.run hid, ← hyrun]
      exact h.made n y hy
  · intro j run hj
    by_cases hid : j = id
    · subst hid
      rw [hrun] at hj
      cases hj
      exact hconn
    · rw [hruns j hid] at hj
      exact (h.connection j run hj).congr (hhas j hid)

section Connect

variable {cols rows : ℤ}

/-- A run that was not disposed of gets a new connection, which asks for the session it has
last heard of. -/
theorem State.connect_eq (hdisposed : run.disposed = false) :
    s.connect id run n cols rows = (s.setRun id { run with socketRef := some n }).setSocket n
      ⟨id, s.sessionIDRef run.component, buildTerminalWebSocketURL (max cols 1) (max rows 1)
        (s.sessionIDRef run.component) run.workstationID, .connecting, .waiting, false, [],
        none⟩ := by
  simp [connect, hdisposed]

/-- A run whose WebSockets are all closed gets a new one. -/
theorem Wired.connect (h : Wired s) (hsockets : t.sockets = s.sockets)
    (hruns : ∀ j, j ≠ id → t.runs j = s.runs j)
    (hcurrent : ∀ component, t.current component = some id ↔ run.component = component)
    (hothers : ∀ component j, j ≠ id →
      (t.current component = some j ↔ s.current component = some j))
    (hdisposed : run.disposed = false) (htimer : run.reconnectTimer = none)
    (hclosed : ∀ m r, s.Has id m r → r = .closed) (hn : s.sockets n = none) :
    Wired (t.connect id run n cols rows) := by
  have hhas : ∀ j m r, t.Has j m r ↔ s.Has j m r := by
    simp only [State.Has, hsockets, implies_true]
  rw [State.connect_eq hdisposed]
  apply h.of_one
  · intro j hj
    exact (Function.update_of_ne hj _ _).trans (hruns j hj)
  · exact Function.update_self _ _ _
  · intro component
    exact (hcurrent component).trans (by simp [hdisposed])
  · exact hothers
  · intro j hj m r
    rw [State.has_setSocket]
    constructor
    · rintro (⟨-, heq, -⟩ | ⟨-, hm⟩)
      · exact absurd heq.symm hj
      · exact (hhas j m r).mp hm
    · intro hm
      refine .inr ⟨?_, (hhas j m r).mpr hm⟩
      rintro rfl
      obtain ⟨x, hx, -⟩ := hm
      rw [hn] at hx
      cases hx
  · refine .connected n .connecting hdisposed rfl htimer ?_ (by simp) ?_
    · exact State.has_setSocket.mpr (.inl ⟨rfl, rfl, rfl⟩)
    · intro m r hm hr
      rcases State.has_setSocket.mp hm with ⟨rfl, -⟩ | ⟨-, hm⟩
      · rfl
      · exact absurd (hclosed m r ((hhas id m r).mp hm)) hr

end Connect

/-- The other runs keep their WebSockets when one changes. -/
theorem State.has_setSocket_of_ne (hx : s.sockets n = some x) (hrun : x'.run = x.run) {j : ℕ}
    (hj : j ≠ x.run) (m : ℕ) (r : ReadyState) :
    (s.setSocket n x').Has j m r ↔ s.Has j m r := by
  rw [State.has_setSocket]
  constructor
  · rintro (⟨-, heq, -⟩ | ⟨-, hm⟩)
    · exact absurd (heq.symm.trans hrun) hj
    · exact hm
  · intro hm
    refine .inr ⟨?_, hm⟩
    rintro rfl
    obtain ⟨y, hy, hyrun, -⟩ := hm
    rw [hx] at hy
    cases hy
    exact hj hyrun.symm

/-- The delay of a timer is within its bounds. -/
theorem Run.exists_delay (run : Run) (hdisposed : run.disposed = false)
    (htimer : run.reconnectTimer = none) :
    ∃ delay, run.scheduleReconnect = { run with reconnectTimer := some delay } ∧
      reconnectBaseDelayMs ≤ delay ∧ delay ≤ reconnectMaxDelayMs := by
  have hone := le_max_left 1 run.reconnectAttempts
  refine ⟨min (reconnectBaseDelayMs * max 1 run.reconnectAttempts) reconnectMaxDelayMs,
    by simp [scheduleReconnect, hdisposed, htimer], ?_, min_le_right _ _⟩
  unfold reconnectBaseDelayMs reconnectMaxDelayMs
  omega

/-- A run of the effect that is gone only forgets its WebSocket. -/
theorem Run.onclose_of_disposed (hdisposed : run.disposed = true) (attempted : Option String)
    (code : ℕ) : (run.onclose n attempted code).disposed = true ∧
      (run.onclose n attempted code).component = run.component ∧
      (run.onclose n attempted code).reconnectTimer = run.reconnectTimer := by
  unfold Run.onclose
  by_cases href : run.socketRef = some n <;> simp [href, hdisposed]

/-- A run of the effect whose WebSocket is closed waits for the next one. -/
theorem Run.onclose_of_connected (hdisposed : run.disposed = false)
    (href : run.socketRef = some n) (htimer : run.reconnectTimer = none)
    (attempted : Option String) (code : ℕ) :
    ∃ delay attempts, run.onclose n attempted code =
        { run with
          socketRef := none
          reconnectTimer := some delay
          reconnectAttempts := attempts } ∧
      reconnectBaseDelayMs ≤ delay ∧ delay ≤ reconnectMaxDelayMs := by
  unfold Run.onclose
  simp only [href, if_true, hdisposed, Bool.false_eq_true, if_false]
  split
  · obtain ⟨delay, heq, hbounds⟩ := Run.exists_delay
      { run with socketRef := none, reconnectAttempts := 0 } hdisposed htimer
    exact ⟨delay, 0, by simpa only [hdisposed] using heq, hbounds⟩
  · obtain ⟨delay, heq, hbounds⟩ := Run.exists_delay
      { run with socketRef := none, reconnectAttempts := run.reconnectAttempts + 1 }
      hdisposed htimer
    exact ⟨delay, run.reconnectAttempts + 1, by simpa only [hdisposed] using heq, hbounds⟩

/-- A run of the effect that keeps its component, and is not cleaned up. -/
theorem Wired.of_same_run (h : Wired s) (hrun : s.runs id = some run)
    (hcomponent : run'.component = run.component) (hdisposed : run'.disposed = run.disposed)
    (hruns : t.runs = Function.update s.runs id (some run')) (hcurrent : t.current = s.current)
    (hhas : ∀ j, j ≠ id → ∀ m r, t.Has j m r ↔ s.Has j m r) (hconn : Connection t id run') :
    Wired t := by
  refine h.of_one (fun j hj => ?_) ?_ (fun component => ?_) (fun component j _ => ?_) hhas hconn
  · rw [hruns, Function.update_of_ne hj]
  · rw [hruns, Function.update_self]
  · rw [hcurrent, h.current component id, hrun, hcomponent, hdisposed]
    simp
  · rw [hcurrent]

/-- A message changes only what the tab has stored. -/
theorem State.handleMessage_frame (s : State) (run : Run) (throws : Bool)
    (message : Terminal.Outbound) : (s.handleMessage run throws message).runs = s.runs ∧
      (s.handleMessage run throws message).current = s.current ∧
      (s.handleMessage run throws message).sockets = s.sockets := by
  unfold State.handleMessage
  cases message with
  | ready sessionID recovered =>
    dsimp only
    split <;> exact ⟨rfl, rfl, rfl⟩
  | error | output => exact ⟨rfl, rfl, rfl⟩

/-- The end of a WebSocket changes only its run of the effect and what the tab has stored. -/
theorem State.onclose_frame (s : State) (id : ℕ) (run : Run) (n : ℕ) (attempted : Option String)
    (code : ℕ) (throws : Bool) :
    (s.onclose id run n attempted code throws).runs =
        Function.update s.runs id (some (run.onclose n attempted code)) ∧
      (s.onclose id run n attempted code throws).current = s.current ∧
      (s.onclose id run n attempted code throws).sockets = s.sockets := by
  unfold State.onclose
  dsimp only
  split <;> exact ⟨rfl, rfl, rfl⟩

/-- Nothing changes for a run of the effect whose WebSockets stay as they are. -/
theorem Wired.of_same_view (h : Wired s) (hruns : t.runs = s.runs)
    (hcurrent : t.current = s.current) (hview : s.SameView t) : Wired t := by
  constructor
  · rw [hcurrent, hruns]
    exact h.current
  · intro n x hx
    obtain ⟨y, hy, heq⟩ := hview.exists_socket hx
    simp only [Socket.view, Prod.mk.injEq] at heq
    rw [hruns, heq.1]
    exact h.made n y hy
  · intro id run hrun
    rw [hruns] at hrun
    exact (h.connection id run hrun).congr fun m r => hview.has

/-- The run of a WebSocket that is closed waits for the next one, unless it is gone. -/
theorem Wired.onclose (h : Wired s) (hx : s.sockets n = some x) (hrun : s.runs x.run = some run)
    (hstate : x.readyState ≠ .closed) {attempted : Option String} {code : ℕ}
    (hruns : t.runs = Function.update s.runs x.run (some (run.onclose n attempted code)))
    (hcurrent : t.current = s.current)
    (hsockets : t.sockets = (s.setSocket n { x with readyState := .closed }).sockets) :
    Wired t := by
  have hn : s.Has x.run n x.readyState := ⟨x, hx, rfl, rfl⟩
  have hhas : ∀ j m r, t.Has j m r ↔
      (s.setSocket n { x with readyState := .closed }).Has j m r := by
    simp only [State.Has, hsockets, implies_true]
  have hothers : ∀ j, j ≠ x.run → ∀ m r, t.Has j m r ↔ s.Has j m r := by
    intro j hj m r
    rw [hhas]
    refine State.has_setSocket_of_ne hx ?_ hj m r
    rfl
  have hown : ∀ m r, t.Has x.run m r → r = .closed ∨ (m ≠ n ∧ s.Has x.run m r) := by
    intro m r hm
    rcases State.has_setSocket.mp ((hhas _ m r).mp hm) with ⟨-, -, hr⟩ | hm
    · exact .inl hr.symm
    · exact .inr hm
  cases h.connection x.run run hrun with
  | connected m r hdisposed href htimer _ hr hone =>
    have hmn := hone n _ hn hstate
    subst hmn
    obtain ⟨delay, attempts, heq, hlow, hhigh⟩ :=
      Run.onclose_of_connected hdisposed href htimer attempted code
    rw [heq] at hruns
    refine h.of_same_run hrun ?_ ?_ hruns hcurrent hothers
      (.waiting delay hdisposed rfl rfl hlow hhigh fun m r hm => ?_)
    · rfl
    · rfl
    · by_contra hr
      rcases hown m r hm with hclosed | ⟨hne, hm⟩
      · exact hr hclosed
      · exact hne (hone m r hm hr)
  | waiting delay _ _ _ _ _ hclosed => exact absurd (hclosed n _ hn) hstate
  | disposed hdisposed htimer hclosed =>
    obtain ⟨hgone, hcomponent, hsame⟩ :=
      Run.onclose_of_disposed (n := n) hdisposed attempted code
    refine h.of_same_run hrun hcomponent (hgone.trans hdisposed.symm) hruns hcurrent hothers
      (.disposed hgone (hsame.trans htimer) fun m r hm => ?_)
    rcases hown m r hm with hr | ⟨-, hm⟩
    · exact .inr hr
    · exact hclosed m r hm

/-- A run of the effect that is cleaned up closes its WebSocket. -/
theorem Wired.cleanup (h : Wired s) {component : Component}
    (hcurrent : s.current component = some id) (hrun : s.runs id = some run) :
    Wired (s.cleanup component id run) := by
  obtain ⟨_, hmounted, hcomponent, hactive⟩ := (h.current component id).mp hcurrent
  rw [hrun] at hmounted
  cases hmounted
  have hhas : ∀ j m r, (s.cleanup component id run).Has j m r ↔
      ∃ r', s.Has j m r' ∧ r = if run.socketRef = some m ∧ r' ≠ .closed then .closing else r' :=
    fun j m r => State.has_modifySocket_close
  -- the reference is to a WebSocket of this run, and no other one of them is left
  have hown : ∀ m, run.socketRef = some m → ∃ r, s.Has id m r := by
    intro m hm
    cases h.connection id run hrun with
    | connected n r _ href _ hn =>
      rw [href] at hm
      cases hm
      exact ⟨r, hn⟩
    | waiting _ _ href => simp [href] at hm
    | disposed hdisposed => simp [hdisposed] at hactive
  have hlast : ∀ m r, s.Has id m r → r ≠ .closed → run.socketRef = some m := by
    intro m r hm hr
    cases h.connection id run hrun with
    | connected n _ _ href _ _ _ hone => rw [href, hone m r hm hr]
    | waiting _ _ _ _ _ _ hclosed => exact absurd (hclosed m r hm) hr
    | disposed hdisposed => simp [hdisposed] at hactive
  apply h.of_one
  · intro j hj
    exact Function.update_of_ne hj _ _
  · exact Function.update_self _ _ _
  · intro component'
    by_cases hc : component' = component
    · simp [State.cleanup, State.modifySocket, hc]
    · have hne : s.current component' ≠ some id := by
        rw [Ne, h.current component' id, hrun]
        simp [hcomponent, Ne.symm hc]
      simpa [State.cleanup, State.modifySocket, State.setRun, hc] using hne
  · intro component' j hj
    by_cases hc : component' = component
    · simp [State.cleanup, State.modifySocket, hc, hcurrent, Ne.symm hj]
    · simp [State.cleanup, State.modifySocket, State.setRun, hc]
  · intro j hj m r
    have hother : ∀ r', s.Has j m r' → run.socketRef ≠ some m := by
      rintro r' ⟨x, hx, hxrun, -⟩ href
      obtain ⟨_, y, hy, hyrun, -⟩ := hown m href
      rw [hx] at hy
      cases hy
      exact hj (hxrun.symm.trans hyrun)
    rw [hhas]
    constructor
    · rintro ⟨r', hm, rfl⟩
      rw [if_neg fun href => hother r' hm href.1]
      exact hm
    · intro hm
      exact ⟨r, hm, by rw [if_neg fun href => hother r hm href.1]⟩
  · refine .disposed rfl rfl fun m r hm' => ?_
    obtain ⟨r', hm, rfl⟩ := (hhas id m r).mp hm'
    by_cases hr : r' = .closed
    · simp [hr]
    · simp [hlast m r' hm hr, hr]

/-- A tab that is unloaded has its connections closed. -/
theorem State.has_unload {tab m : ℕ} :
    (s.unload tab).Has id m r ↔ ∃ r', s.Has id m r' ∧
      r = if (s.runs id).any (·.component.1 = tab) then .closed else r' := by
  unfold State.Has State.unload
  constructor
  · rintro ⟨y, hy, hrun, hstate⟩
    obtain ⟨x, hx, heq⟩ := Option.map_eq_some_iff.mp hy
    by_cases htab : (s.runs x.run).any (·.component.1 = tab)
    · rw [if_pos htab] at heq
      subst heq
      refine ⟨x.readyState, ⟨x, hx, hrun, rfl⟩, ?_⟩
      rw [← hrun, if_pos htab, ← hstate]
    · rw [if_neg htab] at heq
      subst heq
      refine ⟨x.readyState, ⟨x, hx, hrun, rfl⟩, ?_⟩
      rw [← hrun, if_neg htab, hstate]
  · rintro ⟨r', ⟨x, hx, hrun, hstate⟩, hr⟩
    subst hrun
    by_cases htab : (s.runs x.run).any (·.component.1 = tab)
    · rw [if_pos htab] at hr
      exact ⟨{ x with readyState := .closed }, by simp only [hx, Option.map_some, if_pos htab], rfl,
        hr.symm⟩
    · rw [if_neg htab] at hr
      exact ⟨x, by simp only [hx, Option.map_some, if_neg htab], rfl, by rw [hstate, hr]⟩

/-- The runs of the tab are gone, and those of the others are not touched. -/
theorem Wired.unload (h : Wired s) (tab : ℕ) : Wired (s.unload tab) := by
  have hruns : ∀ id run', (s.unload tab).runs id = some run' ↔ ∃ run, s.runs id = some run ∧
      run' = if run.component.1 = tab then { run with disposed := true, reconnectTimer := none }
        else run := by
    intro id run'
    refine Option.map_eq_some_iff.trans (exists_congr fun run => ?_)
    rw [eq_comm (a := run')]
  constructor
  · intro component id
    by_cases htab : component.1 = tab
    · have hnone : (s.unload tab).current component = none := by simp [State.unload, htab]
      rw [hnone]
      constructor
      · simp
      · rintro ⟨run', hrun', hcomponent, hactive⟩
        obtain ⟨run, hrun, rfl⟩ := (hruns id run').mp hrun'
        split at hactive
        · simp at hactive
        next hne =>
          rw [if_neg hne] at hcomponent
          exact absurd (hcomponent ▸ htab) hne
    · have hsame : (s.unload tab).current component = s.current component := by
        simp [State.unload, htab]
      rw [hsame, h.current component id]
      constructor
      · rintro ⟨run, hrun, rfl, hactive⟩
        exact ⟨run, (hruns id run).mpr ⟨run, hrun, by rw [if_neg htab]⟩, rfl, hactive⟩
      · rintro ⟨run', hrun', hcomponent, hactive⟩
        obtain ⟨run, hrun, rfl⟩ := (hruns id run').mp hrun'
        split at hactive
        · simp at hactive
        next hne =>
          rw [if_neg hne] at hcomponent
          exact ⟨run, hrun, hcomponent, hactive⟩
  · intro n y hy
    obtain ⟨_, ⟨x, hx, hxrun, -⟩, -⟩ := State.has_unload.mp ⟨y, hy, rfl, rfl⟩
    obtain ⟨run, hrun⟩ := h.made n x hx
    exact ⟨_, (hruns y.run _).mpr ⟨run, hxrun ▸ hrun, rfl⟩⟩
  · intro id run' hrun'
    obtain ⟨run, hrun, rfl⟩ := (hruns id run').mp hrun'
    by_cases htab : run.component.1 = tab
    · rw [if_pos htab]
      refine .disposed rfl rfl fun m r hm => ?_
      obtain ⟨r', -, hr⟩ := State.has_unload.mp hm
      exact .inr (by simpa [hrun, htab] using hr)
    · rw [if_neg htab]
      refine (h.connection id run hrun).congr fun m r => ?_
      rw [State.has_unload]
      simp [hrun, htab]

/-- The browser keeps every run connected. -/
theorem Wired.browses (h : Wired s) (hstep : Browses s t) : Wired t := by
  cases hstep with
  | openTab => exact h.of_same_view rfl rfl fun _ => rfl
  | unload tab => exact h.unload tab
  | effect component workstationID id n cols rows throws hcurrent hrun hn hne htrim =>
    refine h.connect rfl (fun _ _ => rfl) (fun component' => ?_) (fun component' j hj => ?_) rfl rfl
      (fun m r hm => ?_) hn
    · by_cases hc : component' = component
      · simp [State.startEffect, hc]
      · have hnone : s.current component' ≠ some id := by
          rw [Ne, h.current component' id, hrun]
          simp
        simpa [State.startEffect, hc, Ne.symm hc] using hnone
    · by_cases hc : component' = component
      · simp [State.startEffect, hc, hcurrent, Ne.symm hj]
      · simp [State.startEffect, hc]
    · -- the run is new
      obtain ⟨x, hx, rfl, -⟩ := hm
      obtain ⟨run, hmade⟩ := h.made m x hx
      rw [hrun] at hmade
      cases hmade
  | cleanup component id run hcurrent hrun => exact h.cleanup hcurrent hrun
  | timer id run n cols rows hrun htimer hn =>
    cases h.connection id run hrun with
    | connected _ _ _ _ hnone => simp [hnone] at htimer
    | disposed _ hnone => simp [hnone] at htimer
    | waiting delay hdisposed href _ _ _ hclosed =>
      refine h.connect rfl (fun j hj => ?_) (fun component => ?_) (fun _ _ _ => Iff.rfl) hdisposed
        rfl hclosed hn
      · exact Function.update_of_ne hj _ _
      · exact (h.current component id).trans (by simp [hrun, hdisposed])
  | onopen n x run hx hrun hstate =>
    refine h.of_same_run hrun ?_ ?_ rfl rfl (fun j hj m r => ?_) ?_
    · rfl
    · rfl
    · refine State.has_setSocket_of_ne hx ?_ hj m r
      rfl
    · have hn : s.Has x.run n .connecting := ⟨x, hx, rfl, hstate⟩
      cases h.connection x.run run hrun with
      | connected m r hdisposed href htimer hm hr hone =>
        have hmn := hone n _ hn (by simp)
        subst hmn
        refine .connected n .opened hdisposed href htimer ?_ (by simp) fun m r hm hr => ?_
        · exact State.has_setSocket.mpr (.inl ⟨rfl, rfl, rfl⟩)
        · rcases State.has_setSocket.mp hm with ⟨rfl, -⟩ | ⟨-, hm⟩
          · rfl
          · exact hone m r hm hr
      | waiting delay _ _ _ _ _ hclosed => cases hclosed n _ hn
      | disposed _ _ hclosed => rcases hclosed n _ hn with heq | heq <;> cases heq
  | onmessage n x run throws message inbox hx hrun hinbox hstate =>
    have hframe : ServerFrame s (s.setSocket n { x with inbox }) := by
      apply (ServerFrame.refl s).setSocket hx
      rfl
    obtain ⟨hruns, hcurrent, hsockets⟩ := State.handleMessage_frame
      (s.setSocket n { x with inbox }) run throws message
    refine h.of_same_view hruns hcurrent fun m => ?_
    rw [hsockets]
    exact hframe.view m
  | onerror n =>
    refine ⟨h.current, ?_, fun id run hrun => ?_⟩
    · intro m y hy
      obtain ⟨r, ⟨x, hx, hxrun, -⟩, -⟩ :=
        State.has_modifySocket_close.mp ⟨y, hy, rfl, rfl⟩
      rw [← hxrun]
      exact h.made m x hx
    · cases h.connection id run hrun with
      | connected k r hdisposed href htimer hk hr hone =>
        refine .connected k _ hdisposed href htimer
          (State.has_modifySocket_close.mpr ⟨r, hk, rfl⟩) ?_ fun m r' hm' hr' => ?_
        · split
          · simp
          · exact hr
        · obtain ⟨r, hm, rfl⟩ := State.has_modifySocket_close.mp hm'
          refine hone m r hm ?_
          rintro rfl
          simp at hr'
      | waiting delay hdisposed href htimer hlow hhigh hclosed =>
        refine .waiting delay hdisposed href htimer hlow hhigh fun m r' hm' => ?_
        obtain ⟨r, hm, rfl⟩ := State.has_modifySocket_close.mp hm'
        simp [hclosed m r hm]
      | disposed hdisposed htimer hclosed =>
        refine .disposed hdisposed htimer fun m r' hm' => ?_
        obtain ⟨r, hm, rfl⟩ := State.has_modifySocket_close.mp hm'
        rcases hclosed m r hm with rfl | rfl <;> simp
  | onclose n x run code throws hx hrun hstate =>
    obtain ⟨hruns, hcurrent, hsockets⟩ := State.onclose_frame
      (s.setSocket n { x with readyState := .closed }) x.run run n x.attemptedSessionID code throws
    exact h.onclose hx hrun hstate hruns hcurrent hsockets

/-- In the beginning there are no runs and no connections. -/
theorem wired_initial : Wired .initial := by
  constructor
  · intro component id
    simp [State.initial]
  · intro n x hx
    cases hx
  · intro id run hrun
    cases hrun

/-- Every run of the effect is connected in one of the three ways. -/
theorem wired (h : system.Reachable s) : Wired s := by
  refine h.invariant ?_ ?_
  · rintro s rfl
    exact wired_initial
  · intro s e t _ _ hnext hs
    rcases browses_or_serves hnext with hstep | hstep
    · exact hs.browses hstep
    · have hframe := hstep.frame
      exact hs.of_same_view hframe.runs hframe.current hframe.view

end Steps

/-- A terminal that is shown has one WebSocket that is not closed and no timer, or a timer
whose delay is within the bounds and no such WebSocket. A terminal that is gone has no
timer, and none of its WebSockets is open or about to be. -/
theorem one_connection (h : system.Reachable s) (hrun : s.runs id = some run) :
    (s.current run.component = some id ∧
      ((run.reconnectTimer = none ∧ ∃! n, ∃ x, s.sockets n = some x ∧ x.run = id ∧
          x.readyState ≠ .closed) ∨
        (∃ delay, run.reconnectTimer = some delay ∧ reconnectBaseDelayMs ≤ delay ∧
          delay ≤ reconnectMaxDelayMs ∧
          ∀ n x, s.sockets n = some x → x.run = id → x.readyState = .closed))) ∨
    (s.current run.component ≠ some id ∧ run.reconnectTimer = none ∧
      ∀ n x, s.sockets n = some x → x.run = id →
        x.readyState = .closing ∨ x.readyState = .closed) := by
  have hwired := wired h
  have hcurrent : s.current run.component = some id ↔ run.disposed = false := by
    rw [hwired.current, hrun]
    simp
  cases hwired.connection id run hrun with
  | connected n r hdisposed _ htimer hn hr hone =>
    refine .inl ⟨hcurrent.mpr hdisposed, .inl ⟨htimer, n, ?_, ?_⟩⟩
    · obtain ⟨x, hx, hxrun, rfl⟩ := hn
      exact ⟨x, hx, hxrun, hr⟩
    · rintro m ⟨x, hx, hxrun, hne⟩
      exact hone m _ ⟨x, hx, hxrun, rfl⟩ hne
  | waiting delay hdisposed _ htimer hlow hhigh hclosed =>
    refine .inl ⟨hcurrent.mpr hdisposed, .inr ⟨delay, htimer, hlow, hhigh, ?_⟩⟩
    intro n x hx hxrun
    exact hclosed n _ ⟨x, hx, hxrun, rfl⟩
  | disposed hdisposed htimer hclosed =>
    refine .inr ⟨by simp [hcurrent, hdisposed], htimer, ?_⟩
    intro n x hx hxrun
    exact hclosed n _ ⟨x, hx, hxrun, rfl⟩

/-- A tab opens a terminal and is duplicated. The copy takes the session over, and loses it
again to the first tab, which comes back after a second. -/
def duplicated : List (BrowserEvent ⊕ ServerEvent) :=
  [.inl (.openTab 0 none), .inl (.effect (0, 0) "mini" 0 0 80 24 false),
    .inr (.serve 0 (some "ada")), .inr (.answer 0 .done),
    .inr (.answer 0 (.workstation
      ⟨"mini", "ada", "host", 1, "vm", .running, .running, "", "", 0, 0⟩)),
    .inr (.answer 0 (.proxySession "p" "t")), .inr (.answer 0 .done), .inr (.answer 0 .done),
    .inr (.answer 0 (.terminalSession ⟨"shell", "ada", "mini", "host"⟩)),
    .inr (.attach 0), .inr (.setAttachment 0), .inl (.onopen 0), .inl (.onmessage 0 false),
    .inl (.openTab 1 (some 0)), .inl (.effect (1, 0) "mini" 1 1 80 24 false),
    .inr (.serve 1 (some "ada")), .inr (.answer 1 .done),
    .inr (.answer 1 (.terminalSession ⟨"shell", "ada", "mini", "host"⟩)),
    .inr (.attach 1), .inr (.setAttachment 1), .inl (.onclose 0 1008 false),
    .inl (.timer 0 2 80 24), .inr (.serve 2 (some "ada")), .inr (.answer 2 .done),
    .inr (.answer 2 (.terminalSession ⟨"shell", "ada", "mini", "host"⟩)),
    .inr (.attach 2), .inr (.setAttachment 2), .inl (.onclose 1 1008 false)]

/-- The first tab has a connection, and the copy waits. -/
theorem one_connection_duplicated : ∃ s run copy, system.Reachable s ∧
    s.runs 0 = some run ∧ s.runs 1 = some copy ∧ copy.reconnectTimer = some 1000 ∧
    (∃! n, ∃ x, s.sockets n = some x ∧ x.run = 0 ∧ x.readyState ≠ .closed) ∧
    ∀ n x, s.sockets n = some x → x.run = 1 → x.readyState = .closed := by
  have hrun : ∃ s, runEvents State.step .initial duplicated = some s ∧
      s.runs 0 = some ⟨(0, 0), "mini", some 2, none, 1, false⟩ ∧
      s.runs 1 = some ⟨(1, 0), "mini", none, some 1000, 0, false⟩ ∧
      s.current (0, 0) = some 0 ∧ s.current (1, 0) = some 1 := ⟨_, rfl, rfl, rfl, rfl, rfl⟩
  obtain ⟨s, hs, hrun, hcopy, hcurrent, hcurrent'⟩ := hrun
  have hreach : system.Reachable s := reachable_of_runEvents rfl hs
  refine ⟨s, _, _, hreach, hrun, hcopy, rfl, ?_, ?_⟩
  · rcases one_connection hreach hrun with ⟨-, ⟨-, hone⟩ | ⟨_, htimer, -⟩⟩ | ⟨hgone, -⟩
    · exact hone
    · cases htimer
    · exact absurd hcurrent hgone
  · rcases one_connection hreach hcopy with ⟨-, ⟨htimer, -⟩ | ⟨_, -, -, -, hclosed⟩⟩ | ⟨hgone, -⟩
    · cases htimer
    · exact hclosed
    · exact absurd hcurrent' hgone

end MiniControl.Frontend.RemoteTerminal
