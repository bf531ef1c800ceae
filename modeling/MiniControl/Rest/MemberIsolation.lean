import MiniControl.Fleet.Releasing
import MiniControl.Rest.MemberRequests
import Mathlib.Data.String.Basic

/-!
# Members are isolated from each other

Every handler that runs for a member calls the database with the id of the member, or
drops the rows of others before it looks at them. What a permitted call does, and what
it answers, depends on the workers and on the rows of the member only.
-/

namespace MiniControl.Rest

open Transition Fleet Tables Text

/-- The member has a workstation with the id, on the worker. -/
def World.Owns (w : World) (memberID workstationID workerID : String) : Prop :=
  ∃ row ∈ w.db.workstations,
    row.memberID = memberID ∧ row.id = workstationID ∧ row.workerID = workerID

/-- The calls that a handler may make for a member. -/
def Call.Permitted (memberID : String) (w : World) : Call → Prop
  | .getWorkstationByIDForMember id _ | .listWorkstationsByMemberID id
  | .claimWorkstation id _ => id = memberID
  | .rowOp op => op.memberID? = some memberID
  | .createProxySession target vmID workerID port =>
    target = .vm ∧ (port = 22 ∨ port = 5900) ∧ w.Owns memberID vmID workerID
  | .createTerminalSession id workstationID workerID =>
    id = memberID ∧ w.Owns memberID workstationID workerID
  | .attach session _ => session.memberID = memberID
  | .getWorkstationByID _ | .getVM _ => False
  | _ => True

/-- The calls that answer from the rows of other members as well. -/
def Call.seesOthers : Call → Bool
  | .claimWorkstation _ _ | .listAllWorkstations => true
  | _ => false

/-- The calls of a member that do not. -/
def Call.Private (memberID : String) (w : World) (c : Call) : Prop :=
  c.Permitted memberID w ∧ c.seesOthers = false

/-- The workstations in a response are those of the member. -/
def Response.Owned (memberID : String) : Response → World → Prop
  | .workstation _ row, w => row.memberID = memberID ∧ row ∈ w.db.workstations
  | .workstations rows, w => ∀ row ∈ rows, row.memberID = memberID ∧ row ∈ w.db.workstations
  | .workers listed, w => ∀ worker ∈ listed, ∀ vm ∈ worker.vms,
      ∃ row ∈ w.db.workstations, row.memberID = memberID ∧ vm = browserVM row
  | _, _ => True

/-- The answers of the site as a step relation. -/
def Site.Step (site : Site) (w : World) (c : Call) (a : Answer) (w' : World) : Prop :=
  site.answer w c = (a, w')

/-- Every call of the program is allowed, and the value that it returns is as promised. -/
structure Site.Ensures (site : Site) {α : Type} (pre : World → Call → Prop)
    (post : α → World → Prop) (p : Prog Call Answer α) (w : World) : Prop where
  wp : p.wp site.Step pre post w

section Handlers

variable {site : Site} {memberID : String} {w : World} {pre : World → Call → Prop} {α β : Type}
  {post : α → World → Prop} {rows : List Workstation} {row : Workstation} {id workerID : String}
  {body : Option String} {vm : BrowserVM}

/-- A call fails or is served. -/
theorem Site.answer_cases (site : Site) (w : World) (c : Call) :
    site.answer w c = (.failed, w.next) ∨
      site.answer w c = site.serve (site.choice w.calls) w.next c := by
  unfold Site.answer
  by_cases hfails : ((site.choice w.calls).fails && !c.infallible) = true
  · exact .inl (if_pos hfails)
  · exact .inr (if_neg hfails)

namespace Site.Ensures

/-- A program that returns a value. -/
theorem pure {value : α} (h : post value w) :
    site.Ensures pre post (Pure.pure value : Prog Call Answer α) w :=
  ⟨h⟩

/-- A weaker condition on the calls. -/
theorem weaken {pre' : World → Call → Prop} {p : Prog Call Answer α}
    (h : site.Ensures pre post p w) (hpre : ∀ w c, pre w c → pre' w c) :
    site.Ensures pre' post p w :=
  ⟨Prog.wp_weaken h.wp hpre⟩

/-- Programs run one after the other. -/
theorem bind {p : Prog Call Answer β} {f : β → Prog Call Answer α}
    (h : site.Ensures pre (fun value => site.Ensures pre post (f value)) p w) :
    site.Ensures pre post (p >>= f) w :=
  ⟨Prog.wp_bind.mpr (Prog.wp_mono h.wp fun _ _ hvalue => hvalue.wp)⟩

/-- One call: it is allowed, and both its failure and its answer are fine. -/
theorem call {c : Call} {f : Answer → Prog Call Answer α} (hpre : pre w c)
    (hfailed : site.Ensures pre post (f .failed) w.next)
    (hserved : ∀ choice, site.Ensures pre post (f (site.serve choice w.next c).1)
      (site.serve choice w.next c).2) :
    site.Ensures pre post (Prog.issue c >>= f) w := by
  refine ⟨Prog.wp_bind.mpr (Prog.wp_issue.mpr ⟨hpre, fun a w' hstep => ?_⟩)⟩
  rcases site.answer_cases w c with hfails | hserve
  · obtain ⟨rfl, rfl⟩ := Prod.mk.inj (hfails.symm.trans hstep)
    exact hfailed.wp
  · have hserved := hserved (site.choice w.calls)
    rw [hserve.symm.trans hstep] at hserved
    exact hserved.wp

end Site.Ensures

open Site

/-- The rows of the member are what is listed. -/
theorem mem_listWorkstationsByMemberID {collation : Collation} :
    row ∈ collation.listWorkstationsByMemberID memberID rows ↔
      row ∈ rows ∧ row.memberID = memberID := by
  rw [Collation.listWorkstationsByMemberID, (perm_sortBy _ _).mem_iff, List.mem_filter,
    decide_eq_true_eq]

/-- `resolveMemberWorkstation` reads a row of the member or fails. -/
theorem resolveMemberWorkstation_ensures
    {f : Except Proxy.ApiError Workstation → Prog Call Answer α}
    (herror : ∀ error, site.Ensures (Call.Private memberID) post (f (.error error)) w.next)
    (hok : ∀ row ∈ w.db.workstations, row.memberID = memberID →
      site.Ensures (Call.Private memberID) post (f (.ok row)) w.next) :
    site.Ensures (Call.Private memberID) post (resolveMemberWorkstation memberID id >>= f) w := by
  refine .bind ?_
  unfold resolveMemberWorkstation
  split_ifs
  · refine .call ⟨rfl, rfl⟩ (.pure (herror _)) fun choice => ?_
    dsimp only [Site.serve]
    cases hfind : w.next.db.workstations.find? _ with
    | none => exact .pure (herror _)
    | some row =>
      have hfound := List.find?_some hfind
      simp only [Bool.and_eq_true, decide_eq_true_eq] at hfound
      exact .pure (hok row (List.mem_of_find?_eq_some hfind) hfound.1)
  · refine .call ⟨rfl, rfl⟩ (.pure (herror _)) fun choice => ?_
    dsimp only [Site.serve]
    cases hlist : site.collation.listWorkstationsByMemberID memberID _ with
    | nil => exact .pure (herror _)
    | cons row rest =>
      cases rest with
      | nil =>
        have hrow := mem_listWorkstationsByMemberID.mp (hlist ▸ List.mem_singleton_self row)
        exact .pure (hok row hrow.1 hrow.2)
      | cons => exact .pure (herror _)

/-- An operation of the member answers with a row of the member, if with any. -/
theorem rowOp_ensures {op : RowOp} {f : Answer → Prog Call Answer α}
    (hop : op.memberID? = some memberID) (hids : (w.db.workstations.map Workstation.id).Nodup)
    (hf : ∀ a w', (∀ row, a = .row (.workstation row) →
      row.memberID = memberID ∧ row ∈ w'.db.workstations) →
      site.Ensures (Call.Private memberID) post (f a) w') :
    site.Ensures (Call.Private memberID) post (Prog.issue (.rowOp op) >>= f) w := by
  refine .call ⟨hop, rfl⟩ (hf _ _ (by simp)) fun choice => hf _ _ fun row hrow => ?_
  exact (RowOp.workstation_of_perform hop choice.now hids (Answer.row.inj hrow)).symm

/-- A new proxy session leads to a workstation of the member. -/
theorem createProxySession_ensures {port : ℤ} {f : Answer → Prog Call Answer α}
    (hrow : row ∈ w.db.workstations) (hmember : row.memberID = memberID)
    (hport : port = 22 ∨ port = 5900)
    (hf : ∀ a w', w'.db = w.db → site.Ensures (Call.Private memberID) post (f a) w') :
    site.Ensures (Call.Private memberID) post
      (Prog.issue (.createProxySession .vm row.id row.workerID port) >>= f) w :=
  .call ⟨⟨rfl, hport, row, hrow, hmember, rfl, rfl⟩, rfl⟩ (hf _ _ rfl) fun _ => hf _ _ rfl

/-- The list of workstations shows those of the member. -/
theorem handleListMyWorkstations_ensures :
    site.Ensures (Call.Private memberID) (Response.Owned memberID)
      (handleListMyWorkstations (some memberID)) w := by
  refine .call ⟨rfl, rfl⟩ (.pure trivial) fun choice => .pure fun row hrow => ?_
  exact (mem_listWorkstationsByMemberID.mp hrow).symm

/-- Reading a workstation touches and shows one of the member. -/
theorem handleGetMyWorkstation_ensures (hids : (w.db.workstations.map Workstation.id).Nodup) :
    site.Ensures (Call.Private memberID) (Response.Owned memberID)
      (handleGetMyWorkstation (some memberID) id) w := by
  refine resolveMemberWorkstation_ensures (fun error => .pure trivial) fun row _ _ =>
    rowOp_ensures rfl hids fun a w' ha => ?_
  cases a with
  | row reply =>
    cases reply with
    | workstation row => exact .pure (ha row rfl)
    | _ => exact .pure trivial
  | _ => exact .pure trivial

/-- The desired state is changed for a workstation of the member only. -/
theorem handleMyWorkstationDesiredState_ensures {desired : DesiredPowerState}
    (hids : (w.db.workstations.map Workstation.id).Nodup) :
    site.Ensures (Call.Private memberID) (Response.Owned memberID)
      (handleMyWorkstationDesiredState desired (some memberID) body) w := by
  cases body with
  | none => exact .pure trivial
  | some id =>
    refine resolveMemberWorkstation_ensures (fun error => .pure trivial) fun row _ _ =>
      rowOp_ensures rfl hids fun a w' ha => ?_
    cases a with
    | row reply =>
      cases reply with
      | workstation row => exact .pure (ha row rfl)
      | _ => exact .pure trivial
    | _ => exact .pure trivial

/-- A proxy session is made for a workstation of the member only. -/
theorem handleCreateProxySession_ensures {body : Option CreateProxySessionBody} :
    site.Ensures (Call.Private memberID) (Response.Owned memberID)
      (handleCreateProxySession (some memberID) body) w := by
  cases body with
  | none => exact .pure trivial
  | some req =>
    dsimp only [handleCreateProxySession]
    split_ifs with hpositive hallowed htarget
    · exact .pure trivial
    · exact .pure trivial
    · refine resolveMemberWorkstation_ensures (fun error => .pure trivial)
        fun row hrow hmember => ?_
      dsimp only
      split_ifs
      · exact .pure trivial
      · refine createProxySession_ensures hrow hmember ?_ fun a w' _ => ?_
        · simpa [allowedPorts, or_comm] using hallowed
        · cases a <;> exact .pure trivial
    · exact .pure trivial

/-- A session of the member is attached. -/
theorem attachTerminalSession_ensures {session : TerminalSession} {request : Terminal.Request}
    (h : session.memberID = memberID) :
    site.Ensures (Call.Private memberID) (Response.Owned memberID)
      (attachTerminalSession session request) w :=
  .call ⟨h, rfl⟩ (.pure trivial) fun _ => .pure trivial

/-- A new terminal session is one of the member. -/
theorem openTerminalSession_ensures {cols rows : ℤ}
    {f : Except Response TerminalSession → Prog Call Answer α}
    (herror : ∀ response w', response.Owned memberID w' →
      site.Ensures (Call.Private memberID) post (f (.error response)) w')
    (hok : ∀ session w', session.memberID = memberID →
      site.Ensures (Call.Private memberID) post (f (.ok session)) w') :
    site.Ensures (Call.Private memberID) post
      (openTerminalSession memberID id cols rows >>= f) w := by
  refine .bind ?_
  unfold openTerminalSession
  refine resolveMemberWorkstation_ensures (fun error => .pure (herror _ _ trivial))
    fun row hrow hmember => ?_
  dsimp only
  split_ifs
  · exact .pure (herror _ _ trivial)
  · refine createProxySession_ensures hrow hmember (.inl rfl) fun a w' hdb => ?_
    have hclose (proxyID reason : String) (w' : World) :
        site.Ensures (Call.Private memberID) (fun value => site.Ensures (Call.Private memberID) post
          (f value)) (do
            let _ ← Prog.issue (.closeProxySession proxyID)
            return .error (.closed statusInternalError reason)) w' :=
      .call ⟨trivial, rfl⟩ (.pure (herror _ _ trivial)) fun _ => .pure (herror _ _ trivial)
    cases a with
    | proxySession proxyID token =>
      refine .call ⟨trivial, rfl⟩ (hclose _ _ _) fun _ => ?_
      refine .call ⟨trivial, rfl⟩ (hclose _ _ _) fun _ => ?_
      refine .call ⟨⟨rfl, row, ?_, hmember, rfl, rfl⟩, rfl⟩ (.pure (herror _ _ trivial))
        fun _ => .pure (hok _ _ rfl)
      exact hdb ▸ hrow
    | _ => exact .pure (herror _ _ trivial)

/-- A terminal is opened on a workstation of the member only. -/
theorem handleBrowserTerminalWebSocket_ensures {q : TerminalQuery} :
    site.Ensures (Call.Private memberID) (Response.Owned memberID)
      (handleBrowserTerminalWebSocket (some memberID) q) w := by
  refine .call ⟨trivial, rfl⟩ (.pure trivial) fun _ => ?_
  dsimp only [Site.serve]
  split_ifs
  · refine .call ⟨trivial, rfl⟩ (.pure trivial) fun _ => ?_
    dsimp only [Site.serve]
    cases w.next.next.terminals (trimSpace q.session) with
    | none => exact .pure trivial
    | some session =>
      dsimp only [Answer.ofOption]
      split_ifs with hmember
      · exact .pure trivial
      · exact attachTerminalSession_ensures (not_not.mp hmember)
  · exact openTerminalSession_ensures (fun response w' h => .pure h)
      fun session w' hmember => attachTerminalSession_ensures hmember

/-- A claim gives the member a workstation of its own, and looks at the workers to do so. -/
theorem handleClaimMyWorkstation_ensures :
    site.Ensures (Call.Permitted memberID) (Response.Owned memberID)
      (handleClaimMyWorkstation (some memberID) body) w := by
  cases body with
  | none => exact .pure trivial
  | some workerID =>
    refine .call rfl (.pure trivial) fun choice => ?_
    dsimp only [Site.serve]
    split_ifs
    · exact .pure trivial
    · rcases site.server.claim_cases memberID (trimSpace workerID) choice.listed choice.now
        choice.id w.next.db with ⟨_, hreply⟩ | ⟨row, hmember, _, hclaim⟩
      · cases hcase : (site.server.claim memberID (trimSpace workerID) choice.listed choice.now
          choice.id w.next.db).2 with
        | claimed row => exact absurd hcase (hreply row)
        | _ => exact .pure trivial
      · rw [hclaim]
        exact .pure ⟨hmember, List.mem_append_right _ (List.mem_singleton_self row)⟩

/-- The loop collects the entries of every worker. -/
theorem mem_foldl_addVM {init : String → List BrowserVM} :
    vm ∈ rows.foldl addVM init workerID ↔
      vm ∈ init workerID ∨ ∃ row ∈ rows, row.workerID = workerID ∧ vm = browserVM row := by
  induction rows generalizing init with
  | nil => simp
  | cons row rows ih =>
    rw [List.foldl_cons, ih]
    by_cases hworker : row.workerID = workerID
    · subst hworker
      simp [addVM, or_assoc]
    · have hother : addVM init row workerID = init workerID :=
        Function.update_of_ne (Ne.symm hworker) _ _
      simp [hother, hworker]

/-- What is shown of a list are the rows of the member. -/
theorem mem_shown
    (h : vm ∈ (visibleWorkstations (some memberID) rows).foldl addVM (fun _ => []) workerID) :
    ∃ row ∈ rows, row.memberID = memberID ∧ vm = browserVM row := by
  rw [visibleWorkstations, Buffers.filterInPlace_eq, mem_foldl_addVM] at h
  obtain ⟨row, hrow, _, rfl⟩ := h.resolve_left List.not_mem_nil
  obtain ⟨hmem, hmember⟩ := List.mem_filter.mp hrow
  exact ⟨row, hmem, of_decide_eq_true hmember, rfl⟩

/-- The list of workers shows nothing of other members. -/
theorem handleListWorkers_ensures :
    site.Ensures (Call.Permitted memberID) (Response.Owned memberID)
      (handleListWorkers (some memberID)) w := by
  refine .call trivial (.pure trivial) fun choice => .call trivial (.pure ?_) fun choice =>
    .pure ?_
  · intro worker hworker vm hvm
    obtain ⟨x, _, rfl⟩ := List.mem_map.mp hworker
    obtain ⟨row, hrow, _⟩ := mem_shown hvm
    exact absurd hrow List.not_mem_nil
  · intro worker hworker vm hvm
    obtain ⟨x, _, rfl⟩ := List.mem_map.mp hworker
    obtain ⟨row, hrow, hshown⟩ := mem_shown hvm
    exact ⟨row, (perm_sortBy _ _).mem_iff.mp hrow, hshown⟩

/-- All handlers but two read no rows of other members. -/
theorem BrowserRequest.handle_private (site : Site) (memberID : String) {r : BrowserRequest}
    (hclaim : ∀ body, r ≠ .claimMyWorkstation body) (hlist : r ≠ .listWorkers)
    (hids : (w.db.workstations.map Workstation.id).Nodup) :
    site.Ensures (Call.Private memberID) (Response.Owned memberID)
      (r.handle (some memberID)) w := by
  cases r with
  | listMyWorkstations => exact handleListMyWorkstations_ensures
  | getMyWorkstation => exact handleGetMyWorkstation_ensures hids
  | claimMyWorkstation body => exact absurd rfl (hclaim body)
  | releaseMyWorkstation => exact handleMyWorkstationDesiredState_ensures hids
  | listWorkers => exact absurd rfl hlist
  | createProxySession => exact handleCreateProxySession_ensures
  | browserTerminalWebSocket => exact handleBrowserTerminalWebSocket_ensures

/-- Every handler makes permitted calls only, and answers with workstations of the member. -/
theorem BrowserRequest.handle_permitted (site : Site) (memberID : String) (r : BrowserRequest)
    (hids : (w.db.workstations.map Workstation.id).Nodup) :
    site.Ensures (Call.Permitted memberID) (Response.Owned memberID)
      (r.handle (some memberID)) w := by
  cases r with
  | claimMyWorkstation => exact handleClaimMyWorkstation_ensures
  | listWorkers => exact handleListWorkers_ensures
  | _ => exact (handle_private site memberID (by simp) (by simp) hids).weaken fun _ _ h => h.1

end Handlers

section OneRun

variable {site : Site} {memberID : String} {w : World} {c : Call}

/-- A permitted call leaves the rows of other members, and distinct ids. -/
theorem Site.answer_keeps (site : Site) (hc : c.Permitted memberID w)
    (hids : (w.db.workstations.map Workstation.id).Nodup) :
    ((site.answer w c).2.db.workstations.map Workstation.id).Nodup ∧
      AgreeOn (·.memberID ≠ memberID) w.db.workstations
        (site.answer w c).2.db.workstations := by
  rcases site.answer_cases w c with hfailed | hserve
  · rw [hfailed]
    exact ⟨hids, .refl _ _⟩
  · rw [hserve]
    cases c with
    | rowOp op =>
      exact ⟨op.nodup_perform _ hids (fun _ _ hplace => hplace.id) hids,
        (RowOp.confinedTo_member hc).perform _ hids⟩
    | claimWorkstation id preferredWorkerID =>
      dsimp only [Site.serve]
      split_ifs with hused
      · exact ⟨hids, .refl _ _⟩
      · rcases site.server.claim_cases id preferredWorkerID (site.choice w.calls).listed
          (site.choice w.calls).now (site.choice w.calls).id w.next.db with
          ⟨hsame, _⟩ | ⟨row, hmember, hid, hclaim⟩
        · rw [hsame]
          exact ⟨hids, .refl _ _⟩
        · rw [hclaim]
          refine ⟨nodup_map_append hids fun old hold heq => hused ?_,
            agreeOn_append (not_not.mpr (hmember.trans hc))⟩
          exact List.any_eq_true.mpr ⟨old, hold, decide_eq_true (heq.trans hid)⟩
    | _ => exact ⟨hids, .refl _ _⟩

/-- The rows of other members stay, and so do distinct ids. -/
def World.Keeps (memberID : String) (w w' : World) : Prop :=
  (w.db.workstations.map Workstation.id).Nodup →
    (w'.db.workstations.map Workstation.id).Nodup ∧
      AgreeOn (·.memberID ≠ memberID) w.db.workstations w'.db.workstations

/-- Nothing changes for the others when nothing changes. -/
theorem World.Keeps.refl (memberID : String) (w : World) : w.Keeps memberID w :=
  fun hids => ⟨hids, .refl _ _⟩

/-- What is kept in two steps is kept. -/
theorem World.Keeps.trans {w' w'' : World} (h : w.Keeps memberID w')
    (h' : w'.Keeps memberID w'') : w.Keeps memberID w'' := by
  intro hids
  obtain ⟨hids', hrows⟩ := h hids
  obtain ⟨hids'', hrows'⟩ := h' hids'
  exact ⟨hids'', hrows.trans hrows'⟩

/-- A run of permitted calls leaves the rows of other members. -/
theorem Site.Ensures.keeps {α : Type} {post : α → World → Prop} {p : Prog Call Answer α}
    (h : site.Ensures (Call.Permitted memberID) post p w) :
    w.Keeps memberID (p.run site.answer w).2 := by
  refine Prog.guarantee_run id (fun _ _ => rfl) (World.Keeps.refl memberID)
    (fun _ _ _ => World.Keeps.trans) (fun w c a w' hc hstep hids => ?_) h.wp
  have hkeeps := site.answer_keeps hc hids
  rw [hstep] at hkeeps
  exact hkeeps

end OneRun

section TwoRuns

variable {site : Site} {memberID : String} {w w' : World} {c : Call}

/-- The worlds look alike to the member: they have the same workers, the same rows of the
member and the same terminal sessions. -/
structure Alike (memberID : String) (w w' : World) : Prop where
  workers : w.db.workers = w'.db.workers
  rows : AgreeOn (·.memberID = memberID) w.db.workstations w'.db.workstations
  ids : (w.db.workstations.map Workstation.id).Nodup
  ids' : (w'.db.workstations.map Workstation.id).Nodup
  places : (w.db.workstations.map fun row => (row.workerID, row.slot)).Nodup
  terminals : w.terminals = w'.terminals
  calls : w.calls = w'.calls

namespace Collation

variable (collation : Collation)

/-- The places of the workstations order the rows. -/
theorem isKey_byPlace : ∀ le ∈ collation.byPlace, IsKey le := by
  intro le hle
  simp only [byPlace, List.mem_cons, List.not_mem_nil, or_false] at hle
  rcases hle with rfl | rfl
  · exact ⟨fun a b => collation.isKey.total _ _, fun a b c => collation.isKey.trans _ _ _⟩
  · constructor
    · intro a b
      simpa using Int.le_total a.slot b.slot
    · intro a b c hab hbc
      simp only [decide_eq_true_eq] at hab hbc ⊢
      exact hab.trans hbc

/-- And so do places with ages. -/
theorem isKey_byPlaceAndAge : ∀ le ∈ collation.byPlaceAndAge, IsKey le := by
  intro le hle
  rcases List.mem_append.mp hle with hplace | hage
  · exact collation.isKey_byPlace le hplace
  · rw [List.mem_singleton.mp hage]
    constructor
    · intro a b
      simpa using Nat.le_total a.createdAt b.createdAt
    · intro a b c hab hbc
      simp only [decide_eq_true_eq] at hab hbc ⊢
      exact hab.trans hbc

/-- Rows that the order leaves tied are the same, since places are distinct. -/
theorem eq_of_ties {rows : List Workstation} {keys : List (Workstation → Workstation → Bool)}
    (hplaces : (rows.map fun row => (row.workerID, row.slot)).Nodup)
    (hkeys : collation.byPlace ⊆ keys) {a b : Workstation} (ha : a ∈ rows) (hb : b ∈ rows)
    (h : ∀ le ∈ keys, le a b = true ∧ le b a = true) : a = b := by
  have hworker := h _ (hkeys List.mem_cons_self)
  have hslot := h _ (hkeys (List.mem_cons_of_mem _ (List.mem_singleton_self _)))
  simp only [decide_eq_true_eq] at hslot
  refine List.inj_on_of_nodup_map hplaces ha hb ?_
  rw [collation.antisymm _ _ hworker.1 hworker.2, Int.le_antisymm hslot.1 hslot.2]

end Collation

namespace Alike

/-- The rows of the member are the same up to their order. -/
theorem perm (h : Alike memberID w w') :
    (w.db.workstations.filter (·.memberID = memberID)).Perm
      (w'.db.workstations.filter (·.memberID = memberID)) :=
  h.rows.perm h.ids h.ids'

/-- Worlds that look alike to a member look alike after a call. -/
theorem next (h : Alike memberID w w') : Alike memberID w.next w'.next :=
  { h with calls := congrArg (· + 1) h.calls }

/-- The list of the member's workstations is the same. -/
theorem listWorkstationsByMemberID_eq (h : Alike memberID w w') (collation : Collation) :
    collation.listWorkstationsByMemberID memberID w.db.workstations =
      collation.listWorkstationsByMemberID memberID w'.db.workstations := by
  refine sortBy_eq collation.isKey_byPlaceAndAge h.perm fun a ha b hb => ?_
  exact collation.eq_of_ties h.places (List.subset_append_left _ _) (List.mem_filter.mp ha).1
    (List.mem_filter.mp hb).1

/-- What is visible in the list of all workstations is the same. -/
theorem visibleWorkstations_eq (h : Alike memberID w w') (collation : Collation) :
    visibleWorkstations (some memberID) (collation.listAllWorkstations w.db.workstations) =
      visibleWorkstations (some memberID)
        (collation.listAllWorkstations w'.db.workstations) := by
  rw [visibleWorkstations, visibleWorkstations, Buffers.filterInPlace_eq,
    Buffers.filterInPlace_eq]
  exact filter_sortBy_eq collation.isKey_byPlace h.perm fun a ha b hb =>
    collation.eq_of_ties h.places (List.Subset.refl _) ha hb

/-- A private call is served in the same way. -/
theorem serve (h : Alike memberID w w') (hc : c.Private memberID w) (choice : Choice) :
    (site.serve choice w c).1 = (site.serve choice w' c).1 ∧
      Alike memberID (site.serve choice w c).2 (site.serve choice w' c).2 := by
  cases c with
  | getWorkstationByIDForMember id workstationID =>
    obtain rfl : id = memberID := hc.1
    have hfind : (w.db.workstations.find? fun row => row.memberID = id && row.id = workstationID) =
        w'.db.workstations.find? fun row => row.memberID = id && row.id = workstationID := by
      refine h.rows.find?_eq h.ids h.ids' (fun row hrow => ?_) fun row row' hrow hrow' => ?_
      · simp only [Bool.and_eq_true, decide_eq_true_eq] at hrow
        exact hrow.1
      · simp only [Bool.and_eq_true, decide_eq_true_eq] at hrow hrow'
        rw [hrow.2, hrow'.2]
    exact ⟨congrArg (Answer.ofOption Answer.workstation) hfind, h⟩
  | listWorkstationsByMemberID id =>
    obtain rfl : id = memberID := hc.1
    exact ⟨congrArg Answer.workstations (h.listWorkstationsByMemberID_eq site.collation), h⟩
  | listAllWorkstations => cases hc.2
  | getWorkstationByID id => exact absurd hc.1 not_false
  | getVM id => exact absurd hc.1 not_false
  | listWorkers => exact ⟨congrArg (Answer.workers ∘ site.collation.listWorkers) h.workers, h⟩
  | rowOp op =>
    obtain ⟨hreply, hrows⟩ := RowOp.perform_related hc.1 choice.now h.rows h.ids h.ids'
    have hplaces := op.nodup_perform choice.now h.ids
      (fun _ _ hplace => by rw [hplace.workerID, hplace.slot]) h.places
    have hworkers := (op.workers_perform choice.now w.db).trans
      (h.workers.trans (op.workers_perform choice.now w'.db).symm)
    refine ⟨congrArg Answer.row hreply, hworkers, hrows, ?_, ?_, hplaces, h.terminals, h.calls⟩
    · exact op.nodup_perform choice.now h.ids (fun _ _ hplace => hplace.id) h.ids
    · exact op.nodup_perform choice.now h.ids' (fun _ _ hplace => hplace.id) h.ids'
  | claimWorkstation id preferredWorkerID => cases hc.2
  | getTerminalSession id =>
    exact ⟨congrArg (Answer.ofOption Answer.terminalSession) (congrFun h.terminals id), h⟩
  | createTerminalSession id workstationID workerID =>
    refine ⟨rfl, { h with terminals := ?_ }⟩
    exact congrArg (fun terminals => Function.update terminals choice.id
      (some ⟨choice.id, id, workstationID, workerID⟩)) h.terminals
  | _ => exact ⟨rfl, h⟩

/-- Alike worlds have made the same number of calls, and the same random choices come next. -/
theorem choice_eq (h : Alike memberID w w') : site.choice w'.calls = site.choice w.calls := by
  rw [h.calls]

/-- A private call is answered in the same way. -/
theorem answer (h : Alike memberID w w') (hc : c.Private memberID w) :
    (site.answer w c).1 = (site.answer w' c).1 ∧
      Alike memberID (site.answer w c).2 (site.answer w' c).2 := by
  unfold Site.answer
  rw [h.choice_eq]
  dsimp only
  split_ifs
  · exact ⟨rfl, h.next⟩
  · exact h.next.serve hc (site.choice w.calls)

/-- The list of all workstations has the same visible rows. -/
theorem answer_listAllWorkstations (h : Alike memberID w w') (site : Site) :
    visibleWorkstations (some memberID) (site.answer w .listAllWorkstations).1.rows =
        visibleWorkstations (some memberID) (site.answer w' .listAllWorkstations).1.rows ∧
      Alike memberID (site.answer w .listAllWorkstations).2
        (site.answer w' .listAllWorkstations).2 := by
  unfold Site.answer
  rw [h.choice_eq]
  dsimp only
  split_ifs
  · exact ⟨rfl, h.next⟩
  · exact ⟨h.next.visibleWorkstations_eq site.collation, h.next⟩

end Alike

/-- Both runs return the same, make the same calls, and lead to worlds that look alike. -/
structure RunsAlike (site : Site) (memberID : String) (p : Prog Call Answer Response) (w : World)
    (p' : Prog Call Answer Response) (w' : World) : Prop where
  response : (p.run site.answer w).1 = (p'.run site.answer w').1
  world : Alike memberID (p.run site.answer w).2 (p'.run site.answer w').2
  calls : (p.trace site.answer w).map Prod.snd = (p'.trace site.answer w').map Prod.snd

/-- Runs that start with the same call. -/
theorem RunsAlike.call {f f' : Answer → Prog Call Answer Response}
    (h : RunsAlike site memberID (f (site.answer w c).1) (site.answer w c).2
      (f' (site.answer w' c).1) (site.answer w' c).2) :
    RunsAlike site memberID (Prog.issue c >>= f) w (Prog.issue c >>= f') w' where
  response := h.response
  world := h.world
  calls := by
    rw [Prog.trace_issue_bind, Prog.trace_issue_bind, List.map_cons, List.map_cons, h.calls]

/-- The list of the workers is the same, since it drops the rows of others. -/
theorem handleListWorkers_alike (h : Alike memberID w w') :
    RunsAlike site memberID (handleListWorkers (some memberID)) w
      (handleListWorkers (some memberID)) w' := by
  have hworkers : (site.answer w .listWorkers).1 = (site.answer w' .listWorkers).1 ∧
      Alike memberID (site.answer w .listWorkers).2 (site.answer w' .listWorkers).2 :=
    h.answer ⟨trivial, rfl⟩
  obtain ⟨hvisible, halike⟩ := hworkers.2.answer_listAllWorkstations site
  refine .call ?_
  rw [hworkers.1]
  cases (site.answer w' .listWorkers).1 with
  | workers listed =>
    refine .call ?_
    dsimp only
    rw [hvisible]
    exact ⟨rfl, halike, rfl⟩
  | _ => exact ⟨rfl, hworkers.2, rfl⟩

/-- Worlds that look alike to the member answer every request but a claim in the same way,
and look alike to the member afterwards. -/
theorem BrowserRequest.handle_alike (site : Site) {r : BrowserRequest}
    (h : Alike memberID w w') (hclaim : ∀ body, r ≠ .claimMyWorkstation body) :
    RunsAlike site memberID (r.handle (some memberID)) w (r.handle (some memberID)) w' := by
  by_cases hlist : r = .listWorkers
  · rw [hlist]
    exact handleListWorkers_alike h
  · have hwp := (handle_private site memberID hclaim hlist h.ids).wp
    obtain ⟨hresponse, hworld, hcalls⟩ :=
      Prog.run_related id (fun _ _ => rfl) (fun _ _ _ hc h => h.answer hc) hwp h
    exact ⟨hresponse, hworld, hcalls⟩

end TwoRuns

/-- For every request of a member on the browser routes: the rows of other members stay,
alone and in every interleaving; the workstations in the response are those of the member;
terminal sessions of the member are attached, and proxy sessions lead to port 22 or 5900
of workstations of the member. All of this but a claim is the same in any two databases
with the same workers and the same rows of the member. -/
theorem member_isolated (site : Site) {s : State} (h : site.server.system.Reachable s)
    (memberID : String) (r : BrowserRequest) {w : World} (hw : w.db = s.shared.db) :
    let run := (r.handle (some memberID)).run site.answer
    let trace := (r.handle (some memberID)).trace site.answer
    AgreeOn (·.memberID ≠ memberID) w.db.workstations (run w).2.db.workstations ∧
    (run w).1.Owned memberID (run w).2 ∧
    (∀ e session request, (e, Call.attach session request) ∈ trace w →
      session.memberID = memberID) ∧
    (∀ e target vmID workerID port,
      (e, Call.createProxySession target vmID workerID port) ∈ trace w →
      target = .vm ∧ (port = 22 ∨ port = 5900) ∧ e.Owns memberID vmID workerID) ∧
    ((∀ body, r ≠ .claimMyWorkstation body) → ∀ s' w', site.server.system.Reachable s' →
      w'.db = s'.shared.db → w.db.workers = w'.db.workers →
      AgreeOn (·.memberID = memberID) w.db.workstations w'.db.workstations →
      w.terminals = w'.terminals → w.calls = w'.calls →
      (run w).1 = (run w').1 ∧
      (trace w).map Prod.snd = (trace w').map Prod.snd ∧
      AgreeOn (·.memberID = memberID) (run w).2.db.workstations (run w').2.db.workstations) ∧
    (∀ tx action t, (s.locals tx).memberID? = some memberID →
      site.server.system.next s (tx, action) t →
      AgreeOn (·.memberID ≠ memberID) s.shared.db.workstations t.shared.db.workstations) := by
  obtain ⟨hok, _⟩ := site.server.holds_of_reachable h
  have hids : (w.db.workstations.map Workstation.id).Nodup := hw ▸ hok.ids
  have hensures := r.handle_permitted site memberID hids
  have htrace {e : World} {c : Call}
      (hmem : (e, c) ∈ (r.handle (some memberID)).trace site.answer w) :
      c.Permitted memberID e :=
    Prog.pre_of_mem_trace id (fun _ _ => rfl) hensures.wp hmem
  refine ⟨(hensures.keeps hids).2, Prog.post_run id (fun _ _ => rfl) hensures.wp,
    fun e session request hmem => htrace hmem,
    fun e target vmID workerID port hmem => htrace hmem, fun hclaim s' w' h' hw' => ?_,
    fun tx action t hmember hnext => site.server.step_member h hmember hnext⟩
  intro hworkers hrows hterminals hcalls
  obtain ⟨hok', _⟩ := site.server.holds_of_reachable h'
  have halike : Alike memberID w w' :=
    ⟨hworkers, hrows, hids, hw' ▸ hok'.ids, hw ▸ hok.places, hterminals, hcalls⟩
  have hruns := BrowserRequest.handle_alike site halike hclaim
  exact ⟨hruns.response, hruns.calls, hruns.world.rows⟩

/-- The order of the texts by their characters. -/
def plainCollation : Collation where
  le a b := decide (a ≤ b)
  isKey := by
    constructor
    · intro a b
      simpa using le_total a b
    · intro a b c hab hbc
      simp only [decide_eq_true_eq] at hab hbc ⊢
      exact hab.trans hbc
  antisymm a b hab hba := le_antisymm (of_decide_eq_true hab) (of_decide_eq_true hba)

/-- A site where no call fails. -/
def plainSite : Site where
  server := plainServer
  collation := plainCollation
  choice n := ⟨false, 150, 150, "session-" ++ toString n, "token"⟩

/-- A member opens a session to the SSH port of its running workstation. -/
theorem member_isolated_session : ∃ s : State, plainSite.server.system.Reachable s ∧
    let w : World := ⟨s.shared.db, fun _ => none, fun _ => none, 0⟩
    let p := (BrowserRequest.createProxySession (some ⟨"vm", "id-1", "", 22⟩)).handle (some "alice")
    (p.run plainSite.answer w).1 = .session "session-1" "token" ∧
    (p.trace plainSite.answer w).map Prod.snd = [.getWorkstationByIDForMember "alice" "id-1",
      .createProxySession .vm "id-1" "w" 22] ∧
    ∀ e target vmID workerID port,
      (e, Call.createProxySession target vmID workerID port) ∈ p.trace plainSite.answer w →
      e.Owns "alice" vmID workerID := by
  have hrun : ∃ s, runEvents plainServer.program.step State.initial
      (reportedWorkstation .running) = some s ∧
      let w : World := ⟨s.shared.db, fun _ => none, fun _ => none, 0⟩
      let p := (BrowserRequest.createProxySession (some ⟨"vm", "id-1", "", 22⟩)).handle
        (some "alice")
      (p.run plainSite.answer w).1 = .session "session-1" "token" ∧
      (p.trace plainSite.answer w).map Prod.snd = [.getWorkstationByIDForMember "alice" "id-1",
        .createProxySession .vm "id-1" "w" 22] := ⟨_, rfl, rfl, rfl⟩
  obtain ⟨s, hs, hresponse, hcalls⟩ := hrun
  have hreach : plainServer.system.Reachable s := reachable_of_runEvents rfl hs
  refine ⟨s, hreach, hresponse, hcalls, fun e target vmID workerID port hmem => ?_⟩
  have hsession := (member_isolated plainSite hreach "alice"
    (.createProxySession (some ⟨"vm", "id-1", "", 22⟩))
    (w := ⟨s.shared.db, fun _ => none, fun _ => none, 0⟩) rfl).2.2.2.1
  exact (hsession e target vmID workerID port hmem).2.2

end MiniControl.Rest
