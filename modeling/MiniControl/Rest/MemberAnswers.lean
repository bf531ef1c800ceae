import MiniControl.Rest.MemberIsolation

/-!
# Which requests of a member are answered

Two handlers load a workstation of the member and then run one operation on it, to
resume it or to change its desired power state. Either call may fail. The handlers have
a response for every failure of the first call, but for a few failures of the second one
only: on any other error they log the id of the workstation that the failed call was to
return, which is nil.
-/

namespace MiniControl.Rest

open Transition Fleet Text

/-- The call has found or done what it was asked for. -/
def Answer.succeeded : Answer → Bool
  | .workstation _ | .workstations _ | .row (.workstation _) => true
  | _ => false

/-- The outcomes of an operation for which its handler has a response. -/
def Answer.isExpected (op : RowOp) : Answer → Bool
  | .row (.workstation _) | .row .notFound => true
  | .row .beingDeleted => match op with
    | .setDesired _ _ _ => true
    | _ => false
  | _ => false

/-- Only operations that succeed change the workstations. -/
structure RollsBack {Env : Type} (answer : Env → Call → Answer × Env)
    (rows : Env → List Workstation) : Prop where
  get : ∀ e memberID workstationID,
    rows (answer e (.getWorkstationByIDForMember memberID workstationID)).2 = rows e
  list : ∀ e memberID, rows (answer e (.listWorkstationsByMemberID memberID)).2 = rows e
  update : ∀ e op memberID, op.memberID? = some memberID →
    (answer e (.rowOp op)).1.succeeded = false → rows (answer e (.rowOp op)).2 = rows e

/-- The request gets a response, and if one of its calls has failed, the response is an
error and the workstations are as before. -/
structure Answered {Env : Type} (answer : Env → Call → Answer × Env)
    (rows : Env → List Workstation) (p : Prog Call Answer Response) (env : Env) : Prop where
  responds : (p.run answer env).1 ≠ .panicked
  failed : ∀ call ∈ p.trace answer env, (answer call.1 call.2).1.succeeded = false →
    (∃ error, (p.run answer env).1 = .error error ∧ 400 ≤ error.status) ∧
      rows (p.run answer env).2 = rows env

/-- Every operation of the request has an outcome that its handler expects. -/
def UpdateExpected {Env : Type} (answer : Env → Call → Answer × Env)
    (p : Prog Call Answer Response) (env : Env) : Prop :=
  ∀ e op, (e, Call.rowOp op) ∈ p.trace answer env →
    (answer e (.rowOp op)).1.isExpected op = true

/-- The common form of the two handlers: load the workstation, run one operation on it,
and answer from its outcome. -/
def updateResolved (memberID workstationID : String) (op : Workstation → RowOp)
    (respond : Answer → Response) : Prog Call Answer Response := do
  match ← resolveMemberWorkstation memberID workstationID with
  | .error error => return .error error
  | .ok workstation =>
    let outcome ← Prog.issue (.rowOp (op workstation))
    return respond outcome

/-- The response of `handleGetMyWorkstation` to the outcome of its operation. -/
def getResponse : Answer → Response
  | .row (.workstation row) => .workstation 200 row
  | .row .notFound => .error ⟨404, "workstation not found"⟩
  | _ => .panicked

/-- The response of `handleMyWorkstationDesiredState` to the outcome of its operation. -/
def desiredStateResponse : Answer → Response
  | .row (.workstation row) => .workstation 200 row
  | .row .notFound => .error ⟨404, "workstation not found"⟩
  | .row .beingDeleted => .error ⟨409, "workstation is being deleted"⟩
  | _ => .panicked

/-- Reading a workstation loads it, resumes it and answers with it. -/
theorem handleGetMyWorkstation_eq (memberID workstationID : String) :
    handleGetMyWorkstation (some memberID) workstationID =
      updateResolved memberID (trimSpace workstationID)
        (fun workstation => .ensureRunning memberID workstation.id) getResponse := by
  refine congrArg (resolveMemberWorkstation memberID (trimSpace workstationID) >>= ·) ?_
  funext resolved
  cases resolved with
  | error error => rfl
  | ok workstation =>
    refine congrArg (Prog.issue _ >>= ·) (funext fun outcome => ?_)
    cases outcome with
    | row reply => cases reply <;> rfl
    | _ => rfl

/-- The handlers of the desired states differ only in the state they ask for. -/
theorem handleMyWorkstationDesiredState_eq (desired : DesiredPowerState)
    (memberID workstationID : String) :
    handleMyWorkstationDesiredState desired (some memberID) (some workstationID) =
      updateResolved memberID (trimSpace workstationID)
        (fun workstation => .setDesired memberID workstation.id (.value desired))
        desiredStateResponse := by
  refine congrArg (resolveMemberWorkstation memberID (trimSpace workstationID) >>= ·) ?_
  funext resolved
  cases resolved with
  | error error => rfl
  | ok workstation =>
    refine congrArg (Prog.issue _ >>= ·) (funext fun outcome => ?_)
    cases outcome with
    | row reply => cases reply <;> rfl
    | _ => rfl

/-- The workstation of a request that names one. -/
def requestedWorkstation : Answer → Except Proxy.ApiError Workstation
  | .workstation row => .ok row
  | .notFound => .error ⟨404, "workstation not found"⟩
  | _ => .error ⟨500, "failed to load workstation"⟩

/-- The workstation of a request that names none, if the member has only one. -/
def onlyWorkstation : Answer → Except Proxy.ApiError Workstation
  | .workstations [] => .error ⟨404, "workstation not found"⟩
  | .workstations [row] => .ok row
  | .workstations _ => .error ⟨400, "workstation_id is required when multiple workstations exist"⟩
  | _ => .error ⟨500, "failed to load workstation"⟩

/-- The workstation is loaded with one read, and every failure of it has a response. -/
theorem resolveMemberWorkstation_eq (memberID workstationID : String) :
    ∃ (c : Call) (resolved : Answer → Except Proxy.ApiError Workstation),
      resolveMemberWorkstation memberID workstationID = (do return resolved (← Prog.issue c)) ∧
      (c = .getWorkstationByIDForMember memberID workstationID ∨
        c = .listWorkstationsByMemberID memberID) ∧
      ∀ a, (∃ error, resolved a = .error error ∧ 400 ≤ error.status) ∨
        (∃ row, resolved a = .ok row) ∧ a.succeeded = true := by
  by_cases hid : workstationID ≠ ""
  · refine ⟨_, requestedWorkstation, ?_, .inl rfl, fun a => ?_⟩
    · rw [resolveMemberWorkstation, if_pos hid]
      refine congrArg (Prog.issue _ >>= ·) (funext fun a => ?_)
      cases a <;> rfl
    · cases a with
      | workstation row => exact .inr ⟨⟨row, rfl⟩, rfl⟩
      | _ => exact .inl ⟨_, rfl, by decide⟩
  · refine ⟨_, onlyWorkstation, ?_, .inr rfl, fun a => ?_⟩
    · rw [resolveMemberWorkstation, if_neg hid]
      refine congrArg (Prog.issue _ >>= ·) (funext fun a => ?_)
      cases a with
      | workstations rows => rcases rows with _ | ⟨row, _ | ⟨_, _⟩⟩ <;> rfl
      | _ => rfl
    · cases a with
      | workstations rows =>
        rcases rows with _ | ⟨row, _ | ⟨_, _⟩⟩
        · exact .inl ⟨_, rfl, by decide⟩
        · exact .inr ⟨⟨row, rfl⟩, rfl⟩
        · exact .inl ⟨_, rfl, by decide⟩
      | _ => exact .inl ⟨_, rfl, by decide⟩

section

variable {Env : Type} {answer : Env → Call → Answer × Env} {rows : Env → List Workstation}
  {memberID workstationID : String} {op : Workstation → RowOp} {respond : Answer → Response}

/-- A handler of this form is done for exactly when the outcome of its operation is one
that it does not expect. -/
theorem updateResolved_answered (h : RollsBack answer rows) (env : Env)
    (hop : ∀ workstation, (op workstation).memberID? = some memberID)
    (hrespond : ∀ workstation a, respond a ≠ .panicked ↔ a.isExpected (op workstation) = true)
    (herror : ∀ a, a.succeeded = false → respond a ≠ .panicked →
      ∃ error, respond a = .error error ∧ 400 ≤ error.status) :
    Answered answer rows (updateResolved memberID workstationID op respond) env ↔
      UpdateExpected answer (updateResolved memberID workstationID op respond) env := by
  obtain ⟨c, resolved, hresolve, hread, hresolved⟩ :=
    resolveMemberWorkstation_eq memberID workstationID
  have hrows : rows (answer env c).2 = rows env := by
    rcases hread with rfl | rfl
    · exact h.get env memberID workstationID
    · exact h.list env memberID
  have hupdate : ∀ op, c ≠ .rowOp op := by
    rcases hread with rfl | rfl <;> simp
  -- The two calls one after the other, the second one only with a workstation.
  have hcalls : updateResolved memberID workstationID op respond = Prog.call c fun a =>
      match resolved a with
      | .error error => pure (.error error)
      | .ok workstation => Prog.call (.rowOp (op workstation)) fun a => pure (respond a) := by
    rw [updateResolved, hresolve]
    rfl
  rcases hresolved (answer env c).1 with ⟨error, herr, hstatus⟩ | ⟨⟨workstation, hok⟩, hsucceeded⟩
  · have hrun : (updateResolved memberID workstationID op respond).run answer env =
        (.error error, (answer env c).2) := by
      simp only [hcalls, Prog.run, herr, Prog.run_pure]
    have htrace : (updateResolved memberID workstationID op respond).trace answer env =
        [(env, c)] := by
      simp only [hcalls, Prog.trace, herr]
      rfl
    refine ⟨fun _ e op hmem => ?_, fun _ => ⟨by simp [hrun], fun _ _ _ => ?_⟩⟩
    · rw [htrace, List.mem_singleton] at hmem
      exact absurd (congrArg Prod.snd hmem).symm (hupdate op)
    · rw [hrun]
      exact ⟨⟨error, rfl, hstatus⟩, hrows⟩
  · generalize henv : (answer env c).2 = env' at *
    have hrun : (updateResolved memberID workstationID op respond).run answer env =
        (respond (answer env' (.rowOp (op workstation))).1,
          (answer env' (.rowOp (op workstation))).2) := by
      simp only [hcalls, Prog.run, hok, henv, Prog.run_pure]
    have htrace : (updateResolved memberID workstationID op respond).trace answer env =
        [(env, c), (env', .rowOp (op workstation))] := by
      simp only [hcalls, Prog.trace, hok, henv]
      rfl
    have hexpected : UpdateExpected answer (updateResolved memberID workstationID op respond) env ↔
        respond (answer env' (.rowOp (op workstation))).1 ≠ .panicked := by
      rw [hrespond workstation]
      simp only [UpdateExpected, htrace, List.mem_cons, Prod.mk.injEq, List.not_mem_nil, or_false]
      constructor
      · intro hall
        exact hall env' _ (.inr ⟨rfl, rfl⟩)
      · rintro hlast e op' (⟨rfl, hc⟩ | ⟨rfl, hc⟩)
        · exact absurd hc.symm (hupdate op')
        · cases hc
          exact hlast
    rw [hexpected]
    refine ⟨fun hanswered => by simpa [hrun] using hanswered.responds, fun hresponds => ?_⟩
    refine ⟨by simpa [hrun] using hresponds, fun call hmem hfailed => ?_⟩
    have hlast : call = (env', .rowOp (op workstation)) := by
      simp only [htrace, List.mem_cons, List.not_mem_nil, or_false] at hmem
      refine hmem.resolve_left ?_
      rintro rfl
      simp [hsucceeded] at hfailed
    subst hlast
    rw [hrun]
    exact ⟨herror _ hfailed hresponds,
      (h.update env' _ memberID (hop workstation) hfailed).trans hrows⟩

/-- For every outcome of its calls, a request to get a workstation or to change its
desired state is answered, and without effect when a call failed, exactly if its
operation did not fail, other than for a missing row, or, for a change of the desired
state, for a workstation that is being deleted. -/
theorem workstation_request_answered_iff (h : RollsBack answer rows) (memberID : String)
    (env : Env) :
    (∀ workstationID,
      Answered answer rows (handleGetMyWorkstation (some memberID) workstationID) env ↔
        UpdateExpected answer (handleGetMyWorkstation (some memberID) workstationID) env) ∧
    (∀ desired body,
      Answered answer rows (handleMyWorkstationDesiredState desired (some memberID) body) env ↔
        UpdateExpected answer (handleMyWorkstationDesiredState desired (some memberID) body)
          env) := by
  constructor
  · intro workstationID
    rw [handleGetMyWorkstation_eq]
    refine updateResolved_answered h env (fun _ => rfl) (fun _ a => ?_)
      fun a hfailed hresponds => ?_
    · cases a with
      | row reply => cases reply <;> simp [getResponse, Answer.isExpected]
      | _ => simp [getResponse, Answer.isExpected]
    · cases a with
      | row reply => cases reply <;> simp_all [getResponse, Answer.succeeded]
      | _ => simp_all [getResponse]
  · intro desired body
    cases body with
    | none =>
      refine ⟨fun _ e op hmem => absurd hmem List.not_mem_nil, fun _ => ⟨?_, ?_⟩⟩
      · simp [handleMyWorkstationDesiredState]
      · exact fun call hmem => absurd hmem List.not_mem_nil
    | some workstationID =>
      rw [handleMyWorkstationDesiredState_eq]
      refine updateResolved_answered h env (fun _ => rfl) (fun _ a => ?_)
        fun a hfailed hresponds => ?_
      · cases a with
        | row reply => cases reply <;> simp [desiredStateResponse, Answer.isExpected]
        | _ => simp [desiredStateResponse, Answer.isExpected]
      · cases a with
        | row reply => cases reply <;> simp_all [desiredStateResponse, Answer.succeeded]
        | _ => simp_all [desiredStateResponse]

end

/-- A site rolls back the operations that fail. -/
theorem Site.rollsBack (site : Site) : RollsBack site.answer (·.db.workstations) := by
  refine ⟨fun w memberID workstationID => ?_, fun w memberID => ?_,
    fun w op memberID hmember hfailed => ?_⟩
  · rcases site.answer_cases w (.getWorkstationByIDForMember memberID workstationID) with h | h <;>
      rw [h] <;> rfl
  · rcases site.answer_cases w (.listWorkstationsByMemberID memberID) with h | h <;> rw [h] <;> rfl
  · rcases site.answer_cases w (.rowOp op) with h | h
    · rw [h]
      rfl
    · rw [h] at hfailed ⊢
      refine congrArg Database.workstations (RowOp.perform_unchanged hmember ?_)
      intro row hreply
      have hanswer : (site.serve (site.choice w.calls) w.next (.rowOp op)).1 =
          .row (.workstation row) := congrArg Answer.row hreply
      rw [hanswer] at hfailed
      cases hfailed

/-- A site on which the calls with the given numbers fail. -/
def failingSite (fails : ℕ → Bool) : Site where
  server := plainServer
  collation := plainCollation
  choice n := ⟨fails n, 150, 150, "session-" ++ toString n, "token"⟩

/-- One workstation, which a member has just claimed. -/
def claimedWorld : World where
  db := ⟨[], [newWorkstation 100 "id-1" "alice" ⟨"w", 0, 0⟩]⟩
  vms := fun _ => none
  terminals := fun _ => none
  calls := 0

/-- The release of a workstation is answered when no call fails. -/
theorem workstation_request_answered_release :
    Answered (failingSite fun _ => false).answer (·.db.workstations)
      (handleMyWorkstationDesiredState .deleted (some "alice") (some " id-1 ")) claimedWorld := by
  refine ((workstation_request_answered_iff (Site.rollsBack _) "alice" claimedWorld).2
    .deleted (some " id-1 ")).mpr fun e op hmem => ?_
  have htrace : (handleMyWorkstationDesiredState .deleted (some "alice") (some " id-1 ")).trace
      (failingSite fun _ => false).answer claimedWorld =
      [(claimedWorld, .getWorkstationByIDForMember "alice" "id-1"),
        (claimedWorld.next, .rowOp (.setDesired "alice" "id-1" (.value .deleted)))] := rfl
  rw [htrace] at hmem
  simp only [List.mem_cons, Prod.mk.injEq, reduceCtorEq, and_false, List.not_mem_nil, or_false,
    false_or, Call.rowOp.injEq] at hmem
  obtain ⟨rfl, rfl⟩ := hmem
  rfl

/-- A member asks for its workstation, and the transaction that is to resume it fails. -/
theorem failed_update_panics : ¬∀ (site : Site) (w : World) (memberID workstationID : String),
    Answered site.answer (·.db.workstations)
      (handleGetMyWorkstation (some memberID) workstationID) w := by
  intro hclaim
  have hpanicked : ((handleGetMyWorkstation (some "alice") "id-1").run
      (failingSite (· = 1)).answer claimedWorld).1 = .panicked := rfl
  exact (hclaim (failingSite (· = 1)) claimedWorld "alice" "id-1").responds hpanicked

end MiniControl.Rest
