import MiniControl.Frontend.Reconnecting

/-!
# What a terminal has to do with

The invariant of the sessions that terminals keep, ask for and are joined with, and that
the server keeps it. A handler is judged together with the other handlers that make
sessions at the same time.
-/

namespace MiniControl.Frontend.RemoteTerminal

open Transition Rest

variable {s t : State} {id n : ℕ} {run : Run} {x : Socket} {k k' : Known}
  {sessionID workstationID : String}

/-- The sessions that were ever made, by their ids. -/
abbrev Known := String → Option TerminalSession

/-- The sessions that were ever made. -/
def State.known (s : State) : Known := fun id => (s.sessions id).map (·.info)

/-- No session is forgotten, and none changes. -/
def Known.Grows (k k' : Known) : Prop := ∀ id info, k id = some info → k' id = some info

/-- Sessions that are kept twice are kept. -/
theorem Known.Grows.trans {k k' k'' : Known} (h : k.Grows k') (h' : k'.Grows k'') :
    k.Grows k'' :=
  fun id info hid => h' id info (h id info hid)

/-- A session that is new was new before. -/
theorem Known.Grows.eq_none (h : k.Grows k') {id : String} (hnew : k' id = none) :
    k id = none := by
  cases hid : k id with
  | none => rfl
  | some info => simp [h id info hid] at hnew

/-- The id of a session of a workstation. -/
def Known.Leads (k : Known) (sessionID workstationID : String) : Prop :=
  ∃ info, k sessionID = some info ∧ info.id = sessionID ∧ info.workstationID = workstationID ∧
    sessionID ≠ "" ∧ Text.trimSpace sessionID = sessionID

/-- The id of a session leads to its workstation for good, since no session is forgotten. -/
theorem Known.Leads.mono (h : k.Grows k') (hleads : k.Leads sessionID workstationID) :
    k'.Leads sessionID workstationID := by
  obtain ⟨info, hinfo, hrest⟩ := hleads
  exact ⟨info, h _ _ hinfo, hrest⟩

/-- The id of a session is not empty. -/
theorem Known.Leads.ne_empty (h : k.Leads sessionID workstationID) : sessionID ≠ "" := by
  obtain ⟨_, _, _, _, hne, _⟩ := h
  exact hne

/-- The id of a session has no blanks around it, and so survives a query parameter. -/
theorem Known.Leads.trimSpace (h : k.Leads sessionID workstationID) :
    Text.trimSpace sessionID = sessionID := by
  obtain ⟨_, _, _, _, _, htrim⟩ := h
  exact htrim

/-- The session of an id that leads to a workstation is one of this workstation. -/
theorem Known.Leads.columns (h : k.Leads sessionID workstationID) {info : TerminalSession}
    (hinfo : k sessionID = some info) :
    info.id = sessionID ∧ info.workstationID = workstationID := by
  obtain ⟨found, hfound, hid, hworkstation, _⟩ := h
  rw [hinfo] at hfound
  cases hfound
  exact ⟨hid, hworkstation⟩

section Handlers

/-- How the calls of a handler are answered while other handlers make sessions. -/
def Answered (k : Known) (c : Call) (answer : Answer) (k' : Known) : Prop :=
  k.Grows k' ∧
    match c, answer with
    | .getTerminalSession id, .terminalSession info => k' id = some info
    | .createTerminalSession memberID workstationID workerID, .terminalSession info =>
      k info.id = none ∧ k' info.id = some info ∧
        info = ⟨info.id, memberID, workstationID, workerID⟩
    | .getWorkstationByIDForMember _ workstationID, .workstation row => row.id = workstationID
    | _, _ => True

/-- The connection is joined only with a session of the member and of the workstation that
was not given up. -/
def Joins (member : Option String) (workstationID : String) (givenUp : Set String) (k : Known)
    (c : Call) : Prop :=
  ∀ info request, c = .attach info request → k info.id = some info ∧
    member = some info.memberID ∧ info.workstationID = workstationID ∧ info.id ∉ givenUp

/-- The rest of a handler joins the connection as it should. -/
def Serving (member : Option String) (workstationID : String) (givenUp : Set String)
    (program : Prog Call Answer Response) (k : Known) : Prop :=
  program.wp Answered (Joins member workstationID givenUp) (fun _ _ => True) k

variable {member : Option String} {workstationID : String} {givenUp : Set String} {k k' : Known}
  {program : Prog Call Answer Response}

/-- Other handlers do not disturb it. -/
theorem Serving.mono (h : Serving member workstationID givenUp program k) (hgrows : k.Grows k') :
    Serving member workstationID givenUp program k' := by
  refine Prog.wp_of_interference ?_ ?_ ?_ hgrows h
  · rintro k k' c answer k'' hgrows ⟨hgrows', hanswer⟩
    refine ⟨hgrows.trans hgrows', ?_⟩
    split at hanswer
    next => exact hanswer
    next memberID workstationID workerID info =>
      obtain ⟨hnew, hknown, hinfo⟩ := hanswer
      exact ⟨hgrows.eq_none hnew, hknown, hinfo⟩
    next => exact hanswer
    next => trivial
  · intro k k' c hgrows hjoins info request hc
    obtain ⟨hknown, hrest⟩ := hjoins info request hc
    exact ⟨hgrows _ _ hknown, hrest⟩
  · exact fun _ _ _ _ _ => trivial

/-- A call other than `Attach`. -/
theorem call_wp {α : Type} {post : α → Known → Prop} {c : Call}
    {next : Answer → Prog Call Answer α} (hc : ∀ info request, c ≠ .attach info request)
    (hnext : ∀ answer k', Answered k c answer k' →
      (next answer).wp Answered (Joins member workstationID givenUp) post k') :
    (Prog.issue c >>= next).wp Answered (Joins member workstationID givenUp) post k :=
  ⟨fun info request heq => absurd heq (hc info request), hnext⟩

/-- The session is one of the member and of the workstation, and was not given up. -/
theorem attachTerminalSession_serving {info : TerminalSession} {request : Terminal.Request}
    (hknown : k info.id = some info) (hmember : member = some info.memberID)
    (hworkstation : info.workstationID = workstationID) (hgivenUp : info.id ∉ givenUp) :
    Serving member workstationID givenUp (attachTerminalSession info request) k := by
  constructor
  · intro info' request' heq
    cases heq
    exact ⟨hknown, hmember, hworkstation, hgivenUp⟩
  · intro answer k' _
    cases answer <;> exact trivial

/-- A session that was made is new, and one of the member and of the workstation. -/
def Opened (k : Known) (memberID workstationID : String) (value : Except Response TerminalSession)
    (k' : Known) : Prop :=
  ∀ info, value = .ok info → k info.id = none ∧ k' info.id = some info ∧
    info.memberID = memberID ∧ info.workstationID = workstationID

/-- `openTerminalSession` makes a session of the member and of the workstation, whatever
sessions other handlers make while it waits. -/
theorem openTerminalSession_wp {memberID : String} {cols rows : ℤ} (hne : workstationID ≠ "") :
    (openTerminalSession memberID workstationID cols rows).wp Answered
      (Joins member workstationID givenUp) (Opened k memberID workstationID) k := by
  have herror : ∀ response k', (pure (.error response) :
      Prog Call Answer (Except Response TerminalSession)).wp Answered
        (Joins member workstationID givenUp) (Opened k memberID workstationID) k' := by
    intro response k' info heq
    cases heq
  have hclose : ∀ proxyID response k', (do
      let _ ← Prog.issue (.closeProxySession proxyID)
      return .error response : Prog Call Answer (Except Response TerminalSession)).wp Answered
        (Joins member workstationID givenUp) (Opened k memberID workstationID) k' :=
    fun _ _ _ => call_wp (by simp) fun _ _ _ => herror _ _
  unfold openTerminalSession resolveMemberWorkstation
  rw [if_pos hne]
  refine Prog.wp_bind.mpr (call_wp (by simp) fun answer k₁ h₁ => ?_)
  cases answer with
  | workstation row =>
    refine Prog.wp_pure.mpr ?_
    dsimp only
    split_ifs
    · exact herror _ _
    · refine call_wp (by simp) fun answer k₂ h₂ => ?_
      cases answer with
      | proxySession proxyID token =>
        refine call_wp (by simp) fun answer k₃ h₃ => ?_
        cases answer with
        | done =>
          refine call_wp (by simp) fun answer k₄ h₄ => ?_
          cases answer with
          | done =>
            refine call_wp (by simp) fun answer k₅ h₅ => ?_
            cases answer with
            | terminalSession info =>
              intro info' heq
              cases heq
              obtain ⟨-, hnew, hknown, hinfo⟩ := h₅
              have hgrows := ((h₁.1.trans h₂.1).trans h₃.1).trans h₄.1
              have hrow : row.id = workstationID := h₁.2
              rw [hinfo]
              exact ⟨hgrows.eq_none hnew, hinfo ▸ hknown, rfl, hrow⟩
            | _ => exact herror _ _
          | _ => exact hclose _ _ _
        | _ => exact hclose _ _ _
      | _ => exact herror _ _
  | _ => exact herror _ _

/-- The query of a terminal of a workstation names the workstation, and no session, or one
of the workstation that was not given up. -/
structure Asks (q : TerminalQuery) (workstationID : String) (givenUp : Set String) (k : Known) :
    Prop where
  workstation : q.workstationID = workstationID
  session : q.session = "" ∨ (k.Leads q.session workstationID ∧ q.session ∉ givenUp)

/-- The handler of such a query joins the connection as it should. -/
theorem handleBrowserTerminalWebSocket_serving {q : TerminalQuery}
    (hq : Asks q workstationID givenUp k) (hne : workstationID ≠ "")
    (htrim : Text.trimSpace workstationID = workstationID)
    (hgivenUp : ∀ sessionID ∈ givenUp, k sessionID ≠ none) :
    Serving member workstationID givenUp (handleBrowserTerminalWebSocket member q) k := by
  cases member with
  | none => exact trivial
  | some memberID =>
    refine call_wp (by simp) fun answer k₁ h₁ => ?_
    cases answer with
    | done =>
      cases hq.session with
      | inl hempty =>
        have hblank : Text.trimSpace "" = "" := by decide
        dsimp only
        rw [hempty, hblank, if_neg (by simp), hq.workstation, htrim]
        refine Prog.wp_bind.mpr (Prog.wp_mono (openTerminalSession_wp hne) ?_)
        intro value k₂ hvalue
        cases value with
        | error response => exact trivial
        | ok info =>
          have hopened := hvalue info rfl
          refine attachTerminalSession_serving hopened.2.1 (by rw [hopened.2.2.1]) hopened.2.2.2
            fun hmem => ?_
          exact hgivenUp info.id hmem (h₁.1.eq_none hopened.1)
      | inr hsession =>
        have hleads := hsession.1.mono h₁.1
        dsimp only
        rw [hleads.trimSpace, if_pos hleads.ne_empty]
        refine call_wp (by simp) fun answer k₂ h₂ => ?_
        cases answer with
        | terminalSession found =>
          have hfound : k₂ q.session = some found := h₂.2
          have hcolumns := (hleads.mono h₂.1).columns hfound
          dsimp only
          split_ifs with hmember
          · exact trivial
          · exact attachTerminalSession_serving (hcolumns.1.symm ▸ hfound)
              (by rw [not_not.mp hmember]) hcolumns.2 (hcolumns.1.symm ▸ hsession.2)
        | _ => exact trivial
    | _ => exact trivial

end Handlers

section Storage

variable {storage : Storage} {throws : Bool} {workstationID sessionID other found : String}

/-- Each workstation has its own key in the storage of a tab. -/
theorem storageKey_injective : Function.Injective storageKey := by
  intro a b h
  exact (String.append_right_inj _).mp h

/-- What is loaded was stored for the workstation. -/
theorem eq_of_loadTerminalSessionID
    (h : loadTerminalSessionID storage throws workstationID = some found) :
    storage (storageKey workstationID) = some found := by
  unfold loadTerminalSessionID at h
  split at h
  · cases h
  · exact h

/-- What is stored after saving was stored before, or is what was saved. -/
theorem eq_of_saveTerminalSessionID
    (h : saveTerminalSessionID storage throws workstationID sessionID (storageKey other) =
      some found) :
    storage (storageKey other) = some found ∨ (other = workstationID ∧ found = sessionID) := by
  unfold saveTerminalSessionID at h
  split at h
  · exact .inl h
  · by_cases hother : other = workstationID
    · subst hother
      rw [Function.update_self] at h
      exact .inr ⟨rfl, (Option.some.inj h).symm⟩
    · rw [Function.update_of_ne (storageKey_injective.ne hother)] at h
      exact .inl h

/-- What is stored after clearing was stored before. -/
theorem eq_of_clearTerminalSessionID
    (h : clearTerminalSessionID storage throws workstationID (storageKey other) = some found) :
    storage (storageKey other) = some found := by
  unfold clearTerminalSessionID at h
  split at h
  · exact h
  · by_cases hother : other = workstationID
    · subst hother
      rw [Function.update_self] at h
      cases h
    · rwa [Function.update_of_ne (storageKey_injective.ne hother)] at h

end Storage

/-- The sessions that the run of a WebSocket which is not closed has given up. -/
def State.givenUp (s : State) (x : Socket) : Set String :=
  { sessionID | x.readyState ≠ .closed ∧ (x.run, sessionID) ∈ s.rejected }

/-- A handler that runs joins the connection as it should. -/
def Handler.Serves (workstationID : String) (givenUp : Set String) (k : Known) : Handler → Prop
  | .running member program => Serving member workstationID givenUp program k
  | .waiting | .finished => True

/-- A WebSocket of a terminal of a workstation. -/
structure SocketOwned (k : Known) (workstationID : String) (givenUp : Set String) (x : Socket) :
    Prop where
  attempted : x.query.session = x.attemptedSessionID.getD ""
  asks : Asks x.query workstationID givenUp k
  inbox : ∀ sessionID recovered, .ready sessionID recovered ∈ x.inbox →
    k.Leads sessionID workstationID ∧ sessionID ∉ givenUp
  handler : x.handler.Serves workstationID givenUp k

/-- The handler of a WebSocket joins it with a session. -/
def State.Joined (s : State) (n : ℕ) (info : TerminalSession) : Prop :=
  ∃ x member request next, s.sockets n = some x ∧ x.attached = true ∧
    x.handler = .running member (.call (.attach info request) next)

/-- A state in which every terminal has to do with its own workstation only. -/
structure Owned (s : State) : Prop where
  ids : ∀ sessionID info, s.known sessionID = some info →
    info.id = sessionID ∧ sessionID ≠ "" ∧ Text.trimSpace sessionID = sessionID
  storage : ∀ tab workstationID sessionID,
    s.storage tab (storageKey workstationID) = some sessionID →
    s.known.Leads sessionID workstationID
  runs : ∀ id run, s.runs id = some run → run.workstationID ≠ "" ∧
    Text.trimSpace run.workstationID = run.workstationID
  ref : ∀ id run sessionID, s.runs id = some run → run.disposed = false →
    s.sessionIDRef run.component = some sessionID →
    s.known.Leads sessionID run.workstationID ∧ (id, sessionID) ∉ s.rejected
  socket : ∀ n x run, s.sockets n = some x → s.runs x.run = some run →
    SocketOwned s.known run.workstationID (s.givenUp x) x
  joined : ∀ sessionID y n, s.sessions sessionID = some y →
    y.attachment = some n ∨ y.attaching = some n → s.Joined n y.info
  /-- A session has no attachment while the next one is made. -/
  exclusive : ∀ sessionID y, s.sessions sessionID = some y → y.attaching ≠ none →
    y.attachment = none
  once : s.rejected.Nodup
  rejected : ∀ id sessionID, (id, sessionID) ∈ s.rejected →
    s.runs id ≠ none ∧ s.known sessionID ≠ none

section Monotone

variable {k k' : Known} {workstationID : String} {givenUp givenUp' : Set String}
  {member : Option String} {info : TerminalSession} {request : Terminal.Request}
  {next : Answer → Prog Call Answer Response}

/-- It only matters that nothing else is given up, and that no session is forgotten. -/
theorem Asks.mono {q : TerminalQuery} (h : Asks q workstationID givenUp k) (hgrows : k.Grows k')
    (hgivenUp : givenUp' ⊆ givenUp) : Asks q workstationID givenUp' k' := by
  refine ⟨h.workstation, ?_⟩
  rcases h.session with hempty | ⟨hleads, hfine⟩
  · exact .inl hempty
  · exact .inr ⟨hleads.mono hgrows, fun hmem => hfine (hgivenUp hmem)⟩

/-- What a handler serves stays right when sessions are made and fewer are given up. -/
theorem Handler.Serves.mono {handler : Handler} (h : handler.Serves workstationID givenUp k)
    (hgrows : k.Grows k') (hgivenUp : givenUp' ⊆ givenUp) :
    handler.Serves workstationID givenUp' k' := by
  cases handler with
  | running member program =>
    refine Prog.wp_weaken (Serving.mono h hgrows) fun k c hjoins info request hc => ?_
    obtain ⟨hknown, hmember, hworkstation, hfine⟩ := hjoins info request hc
    exact ⟨hknown, hmember, hworkstation, fun hmem => hfine (hgivenUp hmem)⟩
  | waiting | finished => trivial

/-- The handler joins a session of the member and of the workstation. -/
theorem Handler.Serves.joins {handler : Handler} (h : handler.Serves workstationID givenUp k)
    (hhandler : handler = .running member (.call (.attach info request) next)) :
    k info.id = some info ∧ member = some info.memberID ∧ info.workstationID = workstationID ∧
      info.id ∉ givenUp := by
  rw [hhandler] at h
  exact h.1 info request rfl

/-- After `Attach` the handler joins nothing else that it should not. -/
theorem Handler.Serves.after_attach {handler : Handler} (h : handler.Serves workstationID givenUp k)
    (hhandler : handler = .running member (.call (.attach info request) next)) (answer : Answer) :
    (Handler.running member (next answer)).Serves workstationID givenUp k := by
  rw [hhandler] at h
  exact h.2 answer k ⟨fun _ _ hid => hid, trivial⟩

/-- A WebSocket whose view, handler and greetings stay. -/
theorem SocketOwned.of_same {x x' : Socket} (h : SocketOwned k workstationID givenUp x)
    (hattempted : x'.attemptedSessionID = x.attemptedSessionID) (hquery : x'.query = x.query)
    (hhandler : x'.handler = x.handler)
    (hinbox : ∀ sessionID recovered, .ready sessionID recovered ∈ x'.inbox →
      .ready sessionID recovered ∈ x.inbox)
    (hgrows : k.Grows k') (hgivenUp : givenUp' ⊆ givenUp) :
    SocketOwned k' workstationID givenUp' x' := by
  constructor
  · rw [hquery, hattempted]
    exact h.attempted
  · rw [hquery]
    exact h.asks.mono hgrows hgivenUp
  · intro sessionID recovered hmem
    obtain ⟨hleads, hfine⟩ := h.inbox sessionID recovered (hinbox _ _ hmem)
    exact ⟨hleads.mono hgrows, fun hmem => hfine (hgivenUp hmem)⟩
  · rw [hhandler]
    exact h.handler.mono hgrows hgivenUp

end Monotone

section Server

variable {k : Known} {sessionID : String} {y y' : Session} {c : Call}

/-- The WebSockets of terminals of a workstation stay such. -/
def Evolves (s t : State) (k : Known) : Prop :=
  ∀ n x', t.sockets n = some x' → ∃ x, s.sockets n = some x ∧ x'.view = x.view ∧
    ∀ workstationID, workstationID ≠ "" → Text.trimSpace workstationID = workstationID →
      SocketOwned s.known workstationID (s.givenUp x) x →
      SocketOwned k workstationID (s.givenUp x) x'

namespace Evolves

/-- A step that leaves the connections alone. -/
theorem of_sockets (hsockets : t.sockets = s.sockets) (hgrows : s.known.Grows k) :
    Evolves s t k := by
  intro n x hx
  rw [hsockets] at hx
  exact ⟨x, hx, rfl, fun _ _ _ howned => howned.of_same rfl rfl rfl (fun _ _ h => h) hgrows
    subset_rfl⟩

/-- A step that replaces one connection. -/
theorem setSocket (hsockets : t.sockets = s.sockets) (hgrows : s.known.Grows k)
    (hx : s.sockets n = some x) {x' : Socket} (hview : x'.view = x.view)
    (howned : ∀ workstationID, workstationID ≠ "" → Text.trimSpace workstationID = workstationID →
      SocketOwned s.known workstationID (s.givenUp x) x →
      SocketOwned k workstationID (s.givenUp x) x') :
    Evolves s (t.setSocket n x') k := by
  intro m y hy
  by_cases hm : m = n
  · subst hm
    simp only [State.setSocket, Function.update_self, Option.some.injEq] at hy
    subst hy
    exact ⟨x, hx, hview, howned⟩
  · simp only [State.setSocket, Function.update_of_ne hm] at hy
    exact of_sockets hsockets hgrows m y hy

variable {m : Option ℕ}

/-- A step that changes one connection in what the browser does not see of it. -/
theorem modifySocket (h : Evolves s t k) {f : Socket → Socket} (hview : ∀ x, (f x).view = x.view)
    (hhandler : ∀ x, (f x).handler = x.handler)
    (hinbox : ∀ x sessionID recovered, .ready sessionID recovered ∈ (f x).inbox →
      .ready sessionID recovered ∈ x.inbox) :
    Evolves s (t.modifySocket m f) k := by
  intro n y hy
  by_cases hm : m = some n
  · simp only [State.modifySocket, hm, if_true, Option.map_eq_some_iff] at hy
    obtain ⟨x', hx', rfl⟩ := hy
    obtain ⟨x, hx, heq, howned⟩ := h n x' hx'
    refine ⟨x, hx, (hview x').trans heq, fun workstationID hne htrim hbefore => ?_⟩
    have hfields := hview x'
    simp only [Socket.view, Prod.mk.injEq] at hfields
    exact (howned workstationID hne htrim hbefore).of_same hfields.2.1 hfields.2.2.1
      (hhandler x') (hinbox x') (fun _ _ hid => hid) subset_rfl
  · simp only [State.modifySocket, hm, if_false] at hy
    exact h n y hy

/-- A connection is closed by the server. -/
theorem closeWith (h : Evolves s t k) (code : ℕ) :
    Evolves s (t.modifySocket m (·.closeWith code)) k :=
  h.modifySocket (fun _ => rfl) (fun _ => rfl) fun _ _ _ hmem => hmem

end Evolves

/-- Nothing is forgotten when nothing changes. -/
theorem Known.Grows.refl (k : Known) : k.Grows k := fun _ _ hid => hid

/-- A step of the server keeps what every terminal has to do with. -/
theorem Owned.of_server (h : Owned s) (hframe : ServerFrame s t) (hgrows : s.known.Grows t.known)
    (hids : ∀ sessionID info, t.known sessionID = some info →
      info.id = sessionID ∧ sessionID ≠ "" ∧ Text.trimSpace sessionID = sessionID)
    (hsockets : Evolves s t t.known)
    (hjoined : ∀ sessionID y n, t.sessions sessionID = some y →
      y.attachment = some n ∨ y.attaching = some n → t.Joined n y.info)
    (hexclusive : ∀ sessionID y, t.sessions sessionID = some y → y.attaching ≠ none →
      y.attachment = none) : Owned t where
  ids := hids
  storage tab workstationID sessionID hstored := by
    rw [hframe.storage] at hstored
    exact (h.storage tab workstationID sessionID hstored).mono hgrows
  runs := by
    rw [hframe.runs]
    exact h.runs
  ref id run sessionID hrun hdisposed href := by
    rw [hframe.runs] at hrun
    rw [hframe.sessionIDRef] at href
    obtain ⟨hleads, hfine⟩ := h.ref id run sessionID hrun hdisposed href
    rw [hframe.rejected]
    exact ⟨hleads.mono hgrows, hfine⟩
  socket n x' run hx' hrun := by
    obtain ⟨x, hx, hview, howned⟩ := hsockets n x' hx'
    simp only [Socket.view, Prod.mk.injEq] at hview
    rw [hframe.runs, hview.1] at hrun
    have hgivenUp : t.givenUp x' = s.givenUp x := by
      simp only [State.givenUp, hview, hframe.rejected]
    rw [hgivenUp]
    obtain ⟨hne, htrim⟩ := h.runs _ run hrun
    exact howned _ hne htrim (h.socket n x run hx hrun)
  joined := hjoined
  exclusive := hexclusive
  once := by
    rw [hframe.rejected]
    exact h.once
  rejected id sessionID hmem := by
    rw [hframe.rejected] at hmem
    obtain ⟨hrun, hknown⟩ := h.rejected id sessionID hmem
    rw [hframe.runs]
    refine ⟨hrun, fun hnone => hknown (hgrows.eq_none hnone)⟩

/-- The same for a step that makes no session. -/
theorem Owned.of_server_same (h : Owned s) (hframe : ServerFrame s t) (hknown : t.known = s.known)
    (hsockets : Evolves s t s.known)
    (hjoined : ∀ sessionID y n, t.sessions sessionID = some y →
      y.attachment = some n ∨ y.attaching = some n → t.Joined n y.info)
    (hexclusive : ∀ sessionID y, t.sessions sessionID = some y → y.attaching ≠ none →
      y.attachment = none) : Owned t := by
  apply h.of_server hframe
  · rw [hknown]
    exact .refl _
  · rw [hknown]
    exact h.ids
  · rw [hknown]
    exact hsockets
  · exact hjoined
  · exact hexclusive

section Joined

variable {info : TerminalSession} {m : ℕ}

/-- A connection that is joined with a session was greeted, and its handler is in `Attach`. -/
theorem State.Joined.handler (h : s.Joined n info) (hx : s.sockets n = some x) :
    x.attached = true ∧ ∃ member request next,
      x.handler = .running member (.call (.attach info request) next) := by
  obtain ⟨y, member, request, next, hy, hattached, hhandler⟩ := h
  rw [hx] at hy
  cases hy
  exact ⟨hattached, member, request, next, hhandler⟩

/-- Another connection may change. -/
theorem State.Joined.setSocket_of_ne (h : s.Joined m info) (hne : m ≠ n) (x' : Socket) :
    (s.setSocket n x').Joined m info := by
  obtain ⟨x, member, request, next, hx, hrest⟩ := h
  exact ⟨x, member, request, next, by simp [setSocket, hne, hx], hrest⟩

/-- The connection itself may change, too, as long as its handler stays in `Attach`. -/
theorem State.Joined.setSocket (h : s.Joined m info) (hx : s.sockets n = some x) {x' : Socket}
    (hattached : x.attached = true → x'.attached = true) (hhandler : x'.handler = x.handler) :
    (s.setSocket n x').Joined m info := by
  by_cases hm : m = n
  · subst hm
    obtain ⟨htrue, member, request, next, hattach⟩ := h.handler hx
    exact ⟨x', member, request, next, by simp [State.setSocket], hattached htrue,
      hhandler.trans hattach⟩
  · exact h.setSocket_of_ne hm x'

/-- And so may any connection in what its handler does not see of it. -/
theorem State.Joined.modifySocket (h : s.Joined m info) {ref : Option ℕ} {f : Socket → Socket}
    (hattached : ∀ x, (f x).attached = x.attached) (hhandler : ∀ x, (f x).handler = x.handler) :
    (s.modifySocket ref f).Joined m info := by
  obtain ⟨x, member, request, next, hx, hrest⟩ := h
  by_cases hm : ref = some m
  · refine ⟨f x, member, request, next, by simp [State.modifySocket, hm, hx], ?_⟩
    rw [hattached, hhandler]
    exact hrest
  · exact ⟨x, member, request, next, by simp [State.modifySocket, hm, hx], hrest⟩

end Joined

/-- A session that changes keeps its columns. -/
theorem State.known_setSession (hy : s.sessions sessionID = some y) (hinfo : y'.info = y.info) :
    (s.setSession sessionID y').known = s.known := by
  funext other
  by_cases hother : other = sessionID
  · subst hother
    simp [known, setSession, hy, hinfo]
  · simp [known, setSession, hother]

/-- The sessions after one was changed. -/
theorem State.sessions_setSession {sessionID other : String}
    (h : (s.setSession sessionID y').sessions other = some y) :
    (other = sessionID ∧ y = y') ∨ (other ≠ sessionID ∧ s.sessions other = some y) := by
  by_cases hother : other = sessionID
  · subst hother
    simp only [setSession, Function.update_self, Option.some.injEq] at h
    exact .inl ⟨rfl, h.symm⟩
  · simp only [setSession, Function.update_of_ne hother] at h
    exact .inr ⟨hother, h⟩

section Sessions

variable {sessionID : String} {y : Session}

/-- A connection that is about to be joined with one session is not joined with another. -/
theorem Owned.ne_of_joined (h : Owned s) {member : Option String} {info : TerminalSession}
    {request : Terminal.Request} {next : Answer → Prog Call Answer Response} {m : ℕ}
    (hx : s.sockets n = some x)
    (hhandler : x.handler = .running member (.call (.attach info request) next))
    (hy : s.sessions sessionID = some y) (hne : sessionID ≠ info.id) (hjoined : s.Joined m y.info) :
    m ≠ n := by
  rintro rfl
  obtain ⟨-, _, _, _, hattach⟩ := hjoined.handler hx
  rw [hhandler] at hattach
  cases hattach
  exact hne (h.ids sessionID y.info (by simp [State.known, hy])).1.symm

/-- A session that is joined with nothing new. -/
theorem Owned.joined_setSession (h : Owned s) (hy : s.sessions sessionID = some y) (y' : Session)
    (hinfo : y'.info = y.info)
    (hsub : ∀ m, y'.attachment = some m ∨ y'.attaching = some m →
      y.attachment = some m ∨ y.attaching = some m) :
    ∀ other z m, (s.setSession sessionID y').sessions other = some z →
      z.attachment = some m ∨ z.attaching = some m → s.Joined m z.info := by
  intro other z m hz hm
  rcases State.sessions_setSession hz with ⟨-, rfl⟩ | ⟨-, hz⟩
  · rw [hinfo]
    exact h.joined sessionID y m hy (hsub m hm)
  · exact h.joined other z m hz hm

/-- A session that changes has no two connections at once, and neither have the others. -/
theorem Owned.exclusive_setSession (h : Owned s) {y' : Session}
    (hy' : y'.attaching ≠ none → y'.attachment = none) :
    ∀ other z, (s.setSession sessionID y').sessions other = some z → z.attaching ≠ none →
      z.attachment = none := by
  intro other z hz hattaching
  rcases State.sessions_setSession hz with ⟨-, rfl⟩ | ⟨-, hz⟩
  · exact hy' hattaching
  · exact h.exclusive other z hz hattaching

end Sessions

/-- A connection that is cleared leaves the session, and only this one does. -/
theorem Session.clear_eq (y : Session) (n : ℕ) : (y.clear n).info = y.info ∧
    (y.clear n).attaching = y.attaching ∧
    ∀ m, (y.clear n).attachment = some m ↔ y.attachment = some m ∧ m ≠ n := by
  unfold clear
  split
  next hn =>
    refine ⟨rfl, rfl, fun m => ?_⟩
    simp only [hn, Option.some.injEq]
    simp [eq_comm]
  next hn =>
    refine ⟨rfl, rfl, fun m => ⟨fun hm => ⟨hm, ?_⟩, And.left⟩⟩
    rintro rfl
    exact hn hm

/-- A session without a connection stays so. -/
theorem Session.attachment_clear (y : Session) (n : ℕ) (h : y.attachment = none) :
    (y.clear n).attachment = none := by
  simp [clear, h]

/-- The calls are answered as the handlers expect it. -/
theorem answered_of_answers {answer : Answer} (hanswer : s.answers c answer) :
    Answered s.known c answer (s.record c answer).known := by
  cases c with
  | getTerminalSession sessionID =>
    refine ⟨.refl _, ?_⟩
    cases answer with
    | terminalSession info =>
      simp only [State.answers, decide_eq_true_eq] at hanswer
      cases hfound : ((s.sessions sessionID).filter (·.registered)).map (·.info) with
      | none =>
        rw [hfound] at hanswer
        cases hanswer
      | some found =>
        rw [hfound] at hanswer
        cases hanswer
        obtain ⟨y, hy, hinfo⟩ := Option.map_eq_some_iff.mp hfound
        exact Option.map_eq_some_iff.mpr ⟨y, (Option.filter_eq_some_iff.mp hy).1, hinfo⟩
    | _ => trivial
  | createTerminalSession memberID workstationID workerID =>
    cases answer with
    | terminalSession info =>
      simp only [State.answers, Bool.and_eq_true, decide_eq_true_eq,
        Option.isNone_iff_eq_none] at hanswer
      obtain ⟨⟨⟨hnew, -⟩, -⟩, hinfo⟩ := hanswer
      have hnone : s.known info.id = none := by simp [State.known, hnew]
      refine ⟨fun other found hfound => ?_, hnone, ?_, hinfo⟩
      · have hother : other ≠ info.id := by
          rintro rfl
          rw [hnone] at hfound
          cases hfound
        simpa [State.record, State.known, State.setSession, hother] using hfound
      · simp [State.record, State.known, State.setSession]
    | _ => cases hanswer
  | getWorkstationByIDForMember memberID workstationID =>
    cases answer with
    | workstation row =>
      simp only [State.answers, Bool.and_eq_true, decide_eq_true_eq] at hanswer
      exact ⟨.refl _, hanswer.1⟩
    | _ => exact ⟨.refl _, trivial⟩
  | _ => exact ⟨.refl _, trivial⟩

/-- A new session has nothing attached. -/
theorem State.sessions_record {answer : Answer} (hanswer : s.answers c answer)
    (hy : (s.record c answer).sessions sessionID = some y) :
    s.sessions sessionID = some y ∨ (y.attachment = none ∧ y.attaching = none ∧
      y.info.id = sessionID ∧ sessionID ≠ "" ∧ Text.trimSpace sessionID = sessionID) := by
  unfold State.record at hy
  split at hy
  next memberID workstationID workerID info =>
    simp only [State.answers, Bool.and_eq_true, decide_eq_true_eq] at hanswer
    obtain ⟨⟨⟨-, hne⟩, htrim⟩, -⟩ := hanswer
    rcases State.sessions_setSession hy with ⟨rfl, rfl⟩ | ⟨-, hy⟩
    · exact .inr ⟨rfl, rfl, rfl, hne, htrim⟩
    · exact .inl hy
  next => exact .inl hy

section Steps

variable {member : Option String} {info : TerminalSession} {request : Terminal.Request}
  {next : Answer → Prog Call Answer Response} {sessionID : String} {y : Session} {c : Call}

/-- A connection that has not been greeted, or whose handler is not at its call of `Attach`,
is joined with no session. -/
theorem State.not_joined (hx : s.sockets n = some x)
    (hfree : x.attached = false ∨ x.handler.attaches = none) : ¬s.Joined n info := by
  intro hjoined
  obtain ⟨hattached, member, request, next, hhandler⟩ := hjoined.handler hx
  rcases hfree with hfalse | hnone
  · rw [hattached] at hfalse
    cases hfalse
  · rw [hhandler] at hnone
    cases hnone

/-- A connection that is joined with no session goes its own way. -/
theorem Owned.setSocket (h : Owned s) (hx : s.sockets n = some x)
    (hfree : x.attached = false ∨ x.handler.attaches = none) {x' : Socket}
    (hview : x'.view = x.view)
    (howned : ∀ workstationID, workstationID ≠ "" → Text.trimSpace workstationID = workstationID →
      SocketOwned s.known workstationID (s.givenUp x) x →
      SocketOwned s.known workstationID (s.givenUp x) x') : Owned (s.setSocket n x') := by
  refine h.of_server_same (.setSocket (.refl s) hx hview) rfl
    (.setSocket rfl (.refl _) hx hview howned) ?_ h.exclusive
  intro sessionID y m hy hm
  have hjoined := h.joined sessionID y m hy hm
  refine hjoined.setSocket_of_ne ?_ x'
  rintro rfl
  exact State.not_joined hx hfree hjoined

/-- A handler starts, with what its request asks for. -/
theorem Owned.serve (h : Owned s) (hx : s.sockets n = some x) (hhandler : x.handler = .waiting) :
    Owned (s.setSocket n { x with
      handler := .running member (handleBrowserTerminalWebSocket member x.query) }) := by
  refine h.setSocket hx (.inr (by rw [hhandler]; rfl)) rfl ?_
  intro workstationID hne htrim howned
  refine ⟨howned.attempted, howned.asks, howned.inbox, ?_⟩
  exact handleBrowserTerminalWebSocket_serving howned.asks hne htrim
    fun sessionID hmem => (h.rejected _ _ hmem.2).2

/-- A handler returns and closes its connection. -/
theorem Owned.respond (h : Owned s) (hx : s.sockets n = some x) {response : Response}
    (hhandler : x.handler = .running member (.done response)) :
    Owned (s.setSocket n
      ({ x with handler := .finished }.closeWith (closeCodeOf response))) := by
  refine h.setSocket hx (.inr (by rw [hhandler]; rfl)) rfl ?_
  intro workstationID hne htrim howned
  exact ⟨howned.attempted, howned.asks, howned.inbox, trivial⟩

/-- `Attach` fails before it has sent its greeting. -/
theorem Owned.attachRefused (h : Owned s) (hx : s.sockets n = some x)
    (hhandler : x.handler = .running member (.call (.attach info request) next))
    (hattached : x.attached = false) : Owned (s.endAttach n x member (next .failed)) := by
  refine h.setSocket hx (.inl hattached) rfl ?_
  intro workstationID hne htrim howned
  exact ⟨howned.attempted, howned.asks, howned.inbox, howned.handler.after_attach hhandler _⟩

/-- The writer of a connection stops and closes it. -/
theorem Owned.writerStops (h : Owned s) (hx : s.sockets n = some x) :
    Owned (s.setSocket n (x.closeWith 1000)) := by
  refine h.of_server_same (Serves.writerStops n x hx).frame rfl (.setSocket rfl (.refl _) hx rfl ?_)
    ?_ h.exclusive
  · intro workstationID _ _ howned
    exact ⟨howned.attempted, howned.asks, howned.inbox, howned.handler⟩
  · intro sessionID y m hy hm
    exact (h.joined sessionID y m hy hm).setSocket hx id rfl

/-- `Attach` is not answered like the other calls. -/
theorem State.attaches_of_answers {answer : Answer} (hanswer : s.answers c answer) :
    (Handler.running member (.call c next)).attaches = none := by
  cases c with
  | attach => cases hanswer
  | _ => rfl

/-- A call of a handler is answered. Of the sessions only a new one can have changed, and
nothing is attached to that. -/
theorem Owned.answer (h : Owned s) {answer : Answer} (hx : s.sockets n = some x)
    (hhandler : x.handler = .running member (.call c next)) (hanswer : s.answers c answer) :
    Owned ((s.record c answer).setSocket n
      { x with handler := .running member (next answer) }) := by
  have hframe := (Serves.answer n x member c next answer hx hhandler hanswer).frame
  have hanswered := answered_of_answers hanswer
  have hgrows := hanswered.1
  have hsockets := State.sockets_record (s := s) c answer
  refine h.of_server hframe hgrows ?_ (.setSocket hsockets hgrows hx rfl ?_) ?_ ?_
  · intro sessionID info hinfo
    obtain ⟨y, hy, rfl⟩ := Option.map_eq_some_iff.mp hinfo
    rcases State.sessions_record hanswer hy with hy | ⟨-, -, hid⟩
    · exact h.ids sessionID _ (by simp [State.known, hy])
    · exact hid
  · intro workstationID hne htrim howned
    have hserves := howned.handler
    rw [hhandler] at hserves
    have hasks := howned.asks.mono hgrows subset_rfl
    exact ⟨howned.attempted, hasks, fun other recovered hmem =>
      (howned.inbox other recovered hmem).imp_left (.mono hgrows), hserves.2 answer _ hanswered⟩
  · intro sessionID y m hy hm
    rcases State.sessions_record hanswer hy with hy | ⟨hattachment, hattaching, -⟩
    · have hjoined := h.joined sessionID y m hy hm
      have hne : m ≠ n := by
        rintro rfl
        refine State.not_joined hx (.inr ?_) hjoined
        rw [hhandler, State.attaches_of_answers hanswer]
      refine State.Joined.setSocket_of_ne ?_ hne _
      obtain ⟨x, member, request, next, hx, hrest⟩ := hjoined
      exact ⟨x, member, request, next, by rw [State.sockets_record, hx], hrest⟩
    · rw [hattachment, hattaching] at hm
      simp at hm
  · intro sessionID y hy hne
    rcases State.sessions_record hanswer hy with hy | ⟨hattachment, -⟩
    · exact h.exclusive sessionID y hy hne
    · exact hattachment

/-- `Attach` greets its connection with the session that its handler serves, and closes the
connection that the session had before. -/
theorem Owned.attach (h : Owned s) (hwired : Wired s) (hx : s.sockets n = some x)
    (hattaches : x.handler.attaches = some (info, request)) (hy : s.sessions info.id = some y)
    (hattaching : y.attaching = none) :
    Owned (((s.setSession info.id { y with attaching := some n, attachment := none }).setSocket n
      ({ x with attached := true }.send [.ready info.id request.recovered])).modifySocket
        y.attachment (·.closeWith statusPolicyViolation)) := by
  have hframe := (Serves.attach n x info request y hx hattaches hy hattaching).frame
  obtain ⟨member, next, hhandler⟩ := Handler.exists_of_attaches hattaches
  obtain ⟨run, hrun⟩ := hwired.made n x hx
  obtain ⟨hknown, -⟩ := (h.socket n x run hx hrun).handler.joins hhandler
  have hinfo : y.info = info := by simpa [State.known, hy] using hknown
  refine h.of_server_same hframe (State.known_setSession hy rfl) ?_ ?_
    (h.exclusive_setSession fun _ => rfl)
  · apply Evolves.closeWith
    refine Evolves.setSocket rfl (.refl _) hx ?_ ?_
    · rfl
    intro workstationID hne htrim howned
    obtain ⟨-, -, hworkstation, hfine⟩ := howned.handler.joins hhandler
    refine ⟨howned.attempted, howned.asks, fun other recovered hmem => ?_, howned.handler⟩
    simp only [Socket.send, List.mem_append, List.mem_singleton] at hmem
    rcases hmem with hmem | hmem
    · exact howned.inbox other recovered hmem
    · cases hmem
      exact ⟨⟨info, hknown, rfl, hworkstation, (h.ids _ _ hknown).2⟩, hfine⟩
  · intro other z m hz hm
    have hjoined : (s.setSocket n ({ x with attached := true }.send
        [.ready info.id request.recovered])).Joined m z.info := by
      rcases State.sessions_setSession hz with ⟨-, rfl⟩ | ⟨-, hz⟩
      · have hmn : n = m := by simpa using hm
        subst hmn
        refine ⟨_, member, request, next, Function.update_self _ _ _, rfl, ?_⟩
        rw [hinfo]
        exact hhandler
      · exact (h.joined other z m hz hm).setSocket hx (fun _ => rfl) rfl
    exact State.Joined.modifySocket hjoined (fun _ => rfl) fun _ => rfl

/-- `Attach` installs the connection that it has greeted. -/
theorem Owned.setAttachment (h : Owned s) (hy : s.sessions sessionID = some y)
    (hattaching : y.attaching = some n) :
    Owned (s.setSession sessionID { y with attaching := none, attachment := some n }) := by
  have hframe := (Serves.setAttachment n sessionID y hy hattaching).frame
  refine h.of_server_same hframe (State.known_setSession hy rfl) (.of_sockets rfl (.refl _)) ?_
    (h.exclusive_setSession fun hne => absurd rfl hne)
  refine h.joined_setSession hy _ rfl fun m hm => ?_
  rcases hm with hm | hm
  · rw [← hm]
    exact .inr hattaching
  · cases hm

/-- The end of an `Attach` leaves the terminals what they are. -/
theorem Evolves.endAttach (hx : s.sockets n = some x)
    (hhandler : x.handler = .running member (.call (.attach info request) next)) (answer : Answer)
    {y' : Session} {m : Option ℕ} {code : ℕ} :
    Evolves s (((s.endAttach n x member (next answer)).setSession sessionID y').modifySocket m
      (·.closeWith code)) s.known := by
  apply Evolves.closeWith
  refine Evolves.setSocket (t := s) rfl (.refl _) hx ?_ ?_
  · rfl
  intro workstationID _ _ howned
  exact ⟨howned.attempted, howned.asks, howned.inbox, howned.handler.after_attach hhandler _⟩

/-- `Attach` fails after its greeting, and the session stays without a connection. -/
theorem Owned.attachFails (h : Owned s) (hx : s.sockets n = some x)
    (hhandler : x.handler = .running member (.call (.attach info request) next))
    (hy : s.sessions info.id = some y) (hattaching : y.attaching = some n) :
    Owned (((s.endAttach n x member (next .failed)).setSession info.id
      { y with attaching := none }).modifySocket (some n) (·.closeWith statusInternalError)) := by
  have hframe := (Serves.attachFails n x member info request next y hx hhandler hy hattaching).frame
  have hnone := h.exclusive _ y hy (by simp [hattaching])
  refine h.of_server_same hframe (State.known_setSession hy rfl)
    (Evolves.endAttach hx hhandler _) ?_ (h.exclusive_setSession fun hne => absurd rfl hne)
  intro other z m hz hm
  rcases State.sessions_setSession hz with ⟨-, rfl⟩ | ⟨hother, hz⟩
  · simp [hnone] at hm
  · have hjoined := h.joined other z m hz hm
    have hne := h.ne_of_joined hx hhandler hz hother hjoined
    exact State.Joined.modifySocket (hjoined.setSocket_of_ne hne _) (fun _ => rfl) fun _ => rfl

/-- `Attach` returns after its connection was installed, and clears it if it still is. -/
theorem Owned.attachEnds (h : Owned s) (hx : s.sockets n = some x)
    (hhandler : x.handler = .running member (.call (.attach info request) next))
    (hy : s.sessions info.id = some y) (hattaching : y.attaching ≠ some n) (answer : Answer) :
    Owned ((s.endAttach n x member (next answer)).clearAttachment info.id y n) := by
  have hframe :=
    (Serves.attachEnds n x member info request next y answer hx hhandler hy hattaching).frame
  obtain ⟨hinfo, hsame, hattachment⟩ := y.clear_eq n
  refine h.of_server_same hframe (State.known_setSession hy hinfo)
    (Evolves.endAttach hx hhandler _) ?_ (h.exclusive_setSession fun hne => ?_)
  · intro other z m hz hm
    have hbefore : s.Joined m z.info ∧ m ≠ n := by
      rcases State.sessions_setSession hz with ⟨-, rfl⟩ | ⟨hother, hz⟩
      · rw [hsame, hattachment] at hm
        rw [hinfo]
        rcases hm with ⟨hm, hne⟩ | hm
        · exact ⟨h.joined _ y m hy (.inl hm), hne⟩
        · refine ⟨h.joined _ y m hy (.inr hm), ?_⟩
          rintro rfl
          exact hattaching hm
      · have hjoined := h.joined other z m hz hm
        exact ⟨hjoined, h.ne_of_joined hx hhandler hz hother hjoined⟩
    exact State.Joined.modifySocket (hbefore.1.setSocket_of_ne hbefore.2 _) (fun _ => rfl)
      fun _ => rfl
  · rw [hsame] at hne
    exact y.attachment_clear n (h.exclusive _ y hy hne)

/-- A connection that is too slow loses its place in the session. -/
theorem Owned.publishFails (h : Owned s) (hy : s.sessions sessionID = some y)
    (hn : y.attachment = some n) : Owned (s.clearAttachment sessionID y n) := by
  have hframe := (Serves.publishFails sessionID y n hy hn).frame
  obtain ⟨hinfo, hsame, hattachment⟩ := y.clear_eq n
  refine h.of_server_same hframe (State.known_setSession hy hinfo) ?_ (fun other z m hz hm => ?_)
    (h.exclusive_setSession fun hne => ?_)
  · apply Evolves.closeWith
    exact .of_sockets rfl (.refl _)
  · have hjoined := h.joined_setSession hy (y.clear n) hinfo (fun m hm => ?_) other z m hz hm
    · exact State.Joined.modifySocket hjoined (fun _ => rfl) fun _ => rfl
    · rw [hsame, hattachment] at hm
      exact hm.imp_left And.left
  · rw [hsame] at hne
    exact y.attachment_clear n (h.exclusive _ y hy hne)

/-- Output reaches a connection. -/
theorem Owned.publish (h : Owned s) (payload : Terminal.Payload) :
    Owned (s.modifySocket (some n) (·.send [.output payload])) := by
  refine h.of_server_same (Serves.publish n payload).frame rfl ?_ ?_ h.exclusive
  · apply (Evolves.of_sockets rfl (.refl _)).modifySocket
    · exact fun _ => rfl
    · exact fun _ => rfl
    · intro x sessionID recovered hmem
      simpa [Socket.send] using hmem
  · intro sessionID y m hy hm
    exact (h.joined sessionID y m hy hm).modifySocket (fun _ => rfl) fun _ => rfl

/-- A session is closed, with the connection that is attached to it. -/
theorem Owned.close (h : Owned s) (hy : s.sessions sessionID = some y) (code : ℕ)
    (message : String) :
    Owned ((s.setSession sessionID { y with closed := true, attachment := none }).modifySocket
      y.attachment fun x => (x.send (closeMessages code message)).closeWith code) := by
  have hframe := (Serves.close sessionID y code message hy).frame
  refine h.of_server_same hframe (State.known_setSession hy rfl) ?_ ?_
    (h.exclusive_setSession fun _ => rfl)
  · apply Evolves.modifySocket
    · exact .of_sockets rfl (.refl _)
    · exact fun _ => rfl
    · exact fun _ => rfl
    · intro x other recovered hmem
      simp only [Socket.send, Socket.closeWith, closeMessages, List.mem_append] at hmem
      rcases hmem with hmem | hmem
      · exact hmem
      · split at hmem <;> simp at hmem
  · intro other z m hz hm
    have hjoined := h.joined_setSession hy { y with closed := true, attachment := none } rfl
      (fun m hm => .inr (hm.resolve_left (by simp))) other z m hz hm
    exact hjoined.modifySocket (fun _ => rfl) fun _ => rfl

/-- A session leaves the map. -/
theorem Owned.remove (h : Owned s) (hy : s.sessions sessionID = some y) :
    Owned (s.setSession sessionID { y with registered := false }) :=
  h.of_server_same (Serves.remove sessionID y hy).frame (State.known_setSession hy rfl)
    (.of_sockets rfl (.refl _)) (h.joined_setSession hy _ rfl fun _ hm => hm)
    (h.exclusive_setSession (h.exclusive _ y hy))

end Steps

/-- The server keeps what every terminal has to do with. -/
theorem Owned.serves (h : Owned s) (hwired : Wired s) (hstep : Serves s t) : Owned t := by
  cases hstep with
  | serve _ _ _ hx hhandler => exact h.serve hx hhandler
  | answer _ _ _ _ _ _ hx hhandler hanswer => exact h.answer hx hhandler hanswer
  | attach _ _ _ _ _ hx hattaches hy hattaching => exact h.attach hwired hx hattaches hy hattaching
  | setAttachment _ _ _ hy hattaching => exact h.setAttachment hy hattaching
  | attachFails _ _ _ _ _ _ _ hx hhandler hy hattaching =>
    exact h.attachFails hx hhandler hy hattaching
  | attachEnds _ _ _ _ _ _ _ answer hx hhandler hy hattaching =>
    exact h.attachEnds hx hhandler hy hattaching answer
  | attachRefused _ _ _ _ _ _ hx hhandler hattached => exact h.attachRefused hx hhandler hattached
  | respond _ _ _ _ hx hhandler => exact h.respond hx hhandler
  | publishFails _ _ _ hy hn => exact h.publishFails hy hn
  | publish _ payload => exact h.publish payload
  | writerStops _ _ hx => exact h.writerStops hx
  | close _ _ code message hy => exact h.close hy code message
  | remove _ _ hy => exact h.remove hy

end Server

end MiniControl.Frontend.RemoteTerminal
