import MiniControl.Fleet.Atomic

/-!
# Transactions happen one after another

The statements of the transactions interleave, and every statement reads what is committed
when it runs. All the same, the tables are at any time what the finished operations make of
empty tables when each of them happens in one step, in the order in which they finish, and
every operation answers what it answers in this order. Operations that are rolled back leave
nothing behind.
-/

namespace MiniControl.Fleet

open Transition

/-- The operation that a transaction has finished, with its answer. A claim that is refused
and a transaction that is rolled back have done nothing. -/
def Transaction.answer (tx : ℕ) : Transaction → Option Entry
  | .row op (.finished reply) => if reply = .failed then none else some (.row tx op reply)
  | .claim memberID _ (.finished (.claimed added)) => some (.claim tx memberID added)
  | .hostname hardwareUUID (.finished (some name)) => some (.hostname tx hardwareUUID name)
  | _ => none

/-- The single statements on the workers table. -/
def Action.entry : Action → Option Entry
  | .register now r => some (.register now r)
  | .updateWorker now id update => some (.updateWorker now id update)
  | _ => none

/-- What a step finishes: a single statement, or the transaction that takes the step. -/
def finishes (_ : State) (e : ℕ × Action) (t : State) : List Entry :=
  e.2.entry.toList ++ ((t.locals e.1).answer e.1).toList

section Statements

variable {server : Server} {sh sh' : Shared} {tx : ℕ} {t t' : Transaction} {op : RowOp}
  {phase phase' : RowPhase} {action : RowAction} {memberID preferredWorkerID hardwareUUID : String}
  {log : List Entry} {other : ℕ}

/-- The statements of a row operation lead from what it relies on to what it relies on next. -/
theorem rowOperation_prepared (hok : sh.Ok) (h : phase.Prepared sh tx op)
    (hact : rowOperation sh tx op phase action = some (sh', phase')) :
    phase'.Prepared sh' tx op := by
  cases executes_of_rowOperation hact with
  | lock hrow hlock =>
    have hselects := List.find?_some hrow
    exact ⟨⟨sh.setRowLock_self _ _, List.mem_of_find?_eq_some hrow,
      RowOp.id_of_selects hselects⟩, hselects⟩
  | @put now row current set hset hcurrent =>
    refine ⟨row, now, h, ?_⟩
    rw [hset, h.1.current hok.ids hcurrent]
    rfl
  | @remove now row hdelete =>
    refine ⟨row, now, h, ?_⟩
    rw [hdelete]
    rfl
  | _ => trivial

/-- A row operation that answers has done what it does alone in the tables of its last
statement, and any other statement of it leaves the tables. -/
theorem rowOperation_performs (hok : sh.Ok) (h : phase.Prepared sh tx op)
    (hact : rowOperation sh tx op phase action = some (sh', phase')) :
    (∃ reply now, phase' = .finished reply ∧ reply ≠ .failed ∧
      op.perform now sh.db = (sh'.db, reply)) ∨
    ((Transaction.row op phase').answer tx = none ∧ sh'.db = sh.db) := by
  have hperform : ∀ {row : Workstation}, sh.Selected tx op row → ∀ now,
      op.perform now sh.db = op.carryOut row sh.db (op.decision now row) := by
    intro row hrow now
    exact op.perform_of_mem hok.ids hrow.1.2.1 hrow.2 now
  cases executes_of_rowOperation hact with
  | @missing now hnone =>
    refine .inl ⟨op.missing, now, rfl, ?_, ?_⟩
    · cases op <;> simp [RowOp.missing]
    · rw [RowOp.perform, hnone]
  | @answer now row reply hreply =>
    by_cases hfailed : reply = .failed
    · exact .inr ⟨if_pos hfailed, rfl⟩
    · refine .inl ⟨reply, now, rfl, hfailed, ?_⟩
      rw [hperform h, hreply]
      rfl
  | @vanished now row set hset hnone =>
    have hmissing := List.find?_eq_none.mp hnone row h.1.2.1
    simp [h.1.2.2] at hmissing
  | @commitPut new reply =>
    obtain ⟨row, now, hrow, hwrites⟩ := h
    refine .inl ⟨reply, now, rfl, ?_⟩
    rw [hperform hrow]
    cases hdecision : op.decision now row with
    | update set =>
      rw [hdecision] at hwrites
      cases hwrites
      refine ⟨?_, rfl⟩
      cases op <;> simp [RowOp.updated]
    | _ => rw [hdecision] at hwrites; cases hwrites
  | @commitRemove reply =>
    obtain ⟨row, now, hrow, hwrites⟩ := h
    refine .inl ⟨reply, now, rfl, ?_⟩
    rw [hperform hrow]
    cases hdecision : op.decision now row with
    | delete =>
      rw [hdecision] at hwrites
      cases hwrites
      exact ⟨by simp, rfl⟩
    | _ => rw [hdecision] at hwrites; cases hwrites
  | _ => exact .inr ⟨rfl, rfl⟩

/-- The statements of a claim lead from what it relies on to what it relies on next. -/
theorem Server.claimWorkstation_prepared {phase phase' : ClaimPhase} {action : ClaimAction}
    (hact : server.claimWorkstation sh tx memberID preferredWorkerID phase action =
      some (sh', phase')) : phase'.Prepared memberID := by
  cases claims_of_claimWorkstation hact with
  | @insert candidate now id row _ hrow => exact ⟨now, id, candidate, hrow⟩
  | _ => trivial

/-- A claim that answers with a row has added this row to tables with a place for it, and
any other statement of it leaves the tables. -/
theorem Server.claimWorkstation_adds {phase phase' : ClaimPhase} {action : ClaimAction}
    (hok : sh.Ok) (hholds : phase.Holds sh tx) (h : phase.Prepared memberID)
    (hact : server.claimWorkstation sh tx memberID preferredWorkerID phase action =
      some (sh', phase')) :
    (∃ row, phase' = .finished (.claimed row) ∧ server.Atomic sh.db (.claim tx memberID row)
      sh'.db) ∨
    ((Transaction.claim memberID preferredWorkerID phase').answer tx = none ∧
      sh'.db = sh.db) := by
  cases claims_of_claimWorkstation hact with
  | @commit row =>
    obtain ⟨now, id, candidate, hrow⟩ := h
    have hins : sh.Insertable row :=
      hok.uncommitted row (hholds.2 ▸ List.mem_singleton_self row)
    have hadmits : sh.db.Admits row := ⟨hins.pool, hins.free, hins.unstored⟩
    exact .inl ⟨row, rfl, .claim hrow hadmits⟩
  | _ => exact .inr ⟨rfl, rfl⟩

/-- The statements of an assignment lead from what it relies on to what it relies on next.
One that answers with a name has repeated a stored name or has written its row version. -/
theorem Server.assignHostname_names {phase phase' : HostnamePhase} {action : HostnameAction}
    (h : server.PreparedName sh hardwareUUID phase)
    (hact : server.assignHostname sh tx hardwareUUID phase action = some (sh', phase')) :
    server.PreparedName sh' hardwareUUID phase' ∧
    ((∃ hostname, phase' = .finished (some hostname) ∧
      server.Atomic sh.db (.hostname tx hardwareUUID hostname) sh'.db) ∨
    ((Transaction.hostname hardwareUUID phase').answer tx = none ∧ sh'.db = sh.db)) := by
  cases assigns_of_assignHostname hact with
  | known hrow =>
    have huuid := List.find?_some hrow
    refine ⟨trivial, .inl ⟨_, rfl, ?_⟩⟩
    exact .assigned (List.mem_of_find?_eq_some hrow) (by simpa using huuid) rfl
  | @insert hostname now row hrow =>
    refine ⟨⟨now, ?_⟩, .inr ⟨rfl, rfl⟩⟩
    rw [(upsertHostname_fields hrow).2]
    exact hrow
  | commit =>
    obtain ⟨now, hrow⟩ := h
    exact ⟨trivial, .inl ⟨_, rfl, .assign hrow⟩⟩
  | _ => exact ⟨trivial, .inr ⟨rfl, rfl⟩⟩

/-- Every statement leads from what its transaction relies on to what it relies on next,
and does to the tables what the operation that it finishes does in one step. -/
theorem Server.act_atomic {action : Action} (hok : sh.Ok) (hholds : t.Holds sh tx)
    (h : server.Prepared sh tx t) (hact : server.act sh tx t action = some (sh', t')) :
    server.Prepared sh' tx t' ∧
      server.atomic.Trace sh.db (action.entry.toList ++ (t'.answer tx).toList) sh'.db := by
  have hquiet : ∀ {u : Transaction}, u.answer tx = none → sh'.db = sh.db →
      server.atomic.Trace sh.db (u.answer tx).toList sh'.db := by
    intro u hanswer hdb
    rw [hanswer, hdb]
    exact .refl _
  cases t with
  | idle =>
    cases action with
    | beginClaim | beginRow | beginHostname =>
      cases hact
      exact ⟨trivial, .refl _⟩
    | register now r =>
      simp only [Server.act] at hact
      split_ifs at hact
      obtain ⟨workers, hworkers, heq⟩ := Option.map_eq_some_iff.mp hact
      cases heq
      have hstep : server.Atomic sh.db (.register now r) { sh.db with workers } :=
        .register hworkers
      exact ⟨trivial, .single hstep⟩
    | updateWorker now id update =>
      simp only [Server.act] at hact
      split_ifs at hact
      cases hact
      have hstep : server.Atomic sh.db (.updateWorker now id update)
          { sh.db with workers := Tables.update Worker.id id (update.apply now) sh.db.workers } :=
        .updateWorker
      exact ⟨trivial, .single hstep⟩
    | _ => cases hact
  | claim memberID preferredWorkerID phase =>
    cases action with
    | claim statement =>
      obtain ⟨⟨_, _⟩, hr, heq⟩ := Option.map_eq_some_iff.mp hact
      cases heq
      refine ⟨claimWorkstation_prepared hr, ?_⟩
      rcases claimWorkstation_adds hok hholds h hr with ⟨row, rfl, hstep⟩ | ⟨hanswer, hdb⟩
      · exact .single hstep
      · exact hquiet hanswer hdb
    | _ => cases hact
  | row op phase =>
    cases action with
    | row statement =>
      obtain ⟨⟨_, _⟩, hr, heq⟩ := Option.map_eq_some_iff.mp hact
      cases heq
      refine ⟨rowOperation_prepared hok h hr, ?_⟩
      rcases rowOperation_performs hok h hr with ⟨reply, now, rfl, hreply, hperform⟩ |
        ⟨hanswer, hdb⟩
      · have hanswer : (Transaction.row op (.finished reply)).answer tx =
          some (.row tx op reply) := if_neg hreply
        rw [hanswer]
        exact .single (Server.Atomic.row hperform)
      · exact hquiet hanswer hdb
    | _ => cases hact
  | hostname hardwareUUID phase =>
    cases action with
    | hostname statement =>
      obtain ⟨⟨_, _⟩, hr, heq⟩ := Option.map_eq_some_iff.mp hact
      cases heq
      obtain ⟨hprepared, hnames⟩ := assignHostname_names h hr
      refine ⟨hprepared, ?_⟩
      rcases hnames with ⟨hostname, rfl, hstep⟩ | ⟨hanswer, hdb⟩
      · exact .single hstep
      · exact hquiet hanswer hdb
    | _ => cases hact

/-- A transaction that has answered takes no further step. -/
theorem Server.answer_of_act {action : Action}
    (hact : server.act sh tx t action = some (sh', t')) : t.answer tx = none := by
  cases t with
  | idle => rfl
  | claim memberID preferredWorkerID phase =>
    cases phase with
    | finished reply =>
      cases action with
      | claim statement => cases statement <;> cases hact
      | _ => cases hact
    | _ => rfl
  | row op phase =>
    cases phase with
    | finished reply =>
      cases action with
      | row statement => cases statement <;> cases hact
      | _ => cases hact
    | _ => rfl
  | hostname hardwareUUID phase =>
    cases phase with
    | finished reply =>
      cases action with
      | hostname statement => cases statement <;> cases hact
      | _ => cases hact
    | _ => rfl

/-- The number of an assignment was the next one when it was read. -/
def Server.Numbered (server : Server) (log : List Entry) : Transaction → Prop
  | .hostname _ (.numbered hostname) => server.MayAssign log hostname
  | .hostname _ (.inserted row) => server.MayAssign log row.hostname
  | _ => True

/-- A name stays possible until the next assignment. -/
theorem Server.MayAssign.append {log later : List Entry} {hostname : String}
    (h : server.MayAssign log hostname) (hlater : ∀ entry ∈ later, entry.isHostname = false) :
    server.MayAssign (log ++ later) hostname := by
  obtain ⟨earlier, between, db, number, rfl, hbetween, htrace, hnumber, hname⟩ := h
  refine ⟨earlier, between ++ later, db, number, List.append_assoc .., ?_, htrace, hnumber, hname⟩
  intro entry hentry
  rcases List.mem_append.mp hentry with hentry | hentry
  · exact hbetween entry hentry
  · exact hlater entry hentry

/-- A transaction that assigns a hostname after a step has just begun, or its next statement
has run. -/
theorem Server.assigns_of_act {action : Action} {phase' : HostnamePhase}
    (hact : server.act sh tx t action = some (sh', .hostname hardwareUUID phase')) :
    action.entry = none ∧ (phase' = .waiting ∨ ∃ phase statement,
      t = .hostname hardwareUUID phase ∧
      server.Assigns sh tx hardwareUUID phase statement sh' phase') := by
  cases t with
  | idle =>
    cases action with
    | beginHostname =>
      cases hact
      exact ⟨rfl, .inl rfl⟩
    | register now r =>
      simp only [Server.act] at hact
      split_ifs at hact
      obtain ⟨workers, -, heq⟩ := Option.map_eq_some_iff.mp hact
      cases heq
    | updateWorker now id update =>
      simp only [Server.act] at hact
      split_ifs at hact
      cases hact
    | _ => cases hact
  | claim memberID preferredWorkerID phase =>
    cases action with
    | claim statement =>
      obtain ⟨_, _, heq⟩ := Option.map_eq_some_iff.mp hact
      cases heq
    | _ => cases hact
  | row op phase =>
    cases action with
    | row statement =>
      obtain ⟨_, _, heq⟩ := Option.map_eq_some_iff.mp hact
      cases heq
    | _ => cases hact
  | hostname hardwareUUID phase =>
    cases action with
    | hostname statement =>
      obtain ⟨⟨_, _⟩, hr, heq⟩ := Option.map_eq_some_iff.mp hact
      cases heq
      exact ⟨rfl, .inr ⟨phase, statement, rfl, assigns_of_assignHostname hr⟩⟩
    | _ => cases hact

/-- The statements of an assignment take its number from the tables and keep it. -/
theorem Server.Numbered.step {action : Action} (htrace : server.atomic.Trace ⟨[], []⟩ log sh.db)
    (h : server.Numbered log t) (hact : server.act sh tx t action = some (sh', t')) :
    server.Numbered (log ++ (action.entry.toList ++ (t'.answer tx).toList)) t' := by
  cases t' with
  | idle | claim | row => trivial
  | hostname hardwareUUID phase' =>
    obtain ⟨hentry, rfl | ⟨phase, statement, rfl, hassigns⟩⟩ := assigns_of_act hact
    · trivial
    · rw [hentry]
      cases hassigns with
      | @number number hnumber =>
        exact ⟨log, [], sh.db, number, rfl, by simp, htrace, hnumber, rfl⟩
      | @insert hostname now row hrow =>
        have hname : server.MayAssign (log ++ []) hostname := h.append (by simp)
        rw [← (upsertHostname_fields hrow).2] at hname
        exact hname
      | _ => trivial

/-- Only a finished assignment adds the entry of one. -/
theorem Server.assignment_of_mem {action : Action} {entry : Entry}
    (hentry : entry ∈ action.entry.toList ++ (t.answer tx).toList) (hname : entry.isHostname) :
    ∃ hardwareUUID hostname, t = .hostname hardwareUUID (.finished (some hostname)) ∧
      entry = .hostname tx hardwareUUID hostname := by
  rcases List.mem_append.mp hentry with hentry | hentry
  · cases action with
    | register | updateWorker =>
      cases Option.mem_toList.mp hentry
      cases hname
    | _ => cases hentry
  · have hanswer := Option.mem_toList.mp hentry
    unfold Transaction.answer at hanswer
    split at hanswer
    case h_1 =>
      split_ifs at hanswer
      cases hanswer
      cases hname
    case h_2 =>
      cases hanswer
      cases hname
    case h_3 =>
      cases hanswer
      exact ⟨_, _, rfl, rfl⟩
    case h_4 => cases hanswer

/-- While another transaction has the hostname lock, no assignment is finished. -/
theorem Server.not_isHostname_of_act {action : Action} (hholds : t.Holds sh tx)
    (hlock : sh.hostnameLock = some other) (hne : other ≠ tx)
    (hact : server.act sh tx t action = some (sh', t')) :
    ∀ entry ∈ action.entry.toList ++ (t'.answer tx).toList, entry.isHostname = false := by
  have hother : sh.hostnameLock ≠ some tx := fun h => hne (Option.some.inj (hlock.symm.trans h))
  intro entry hentry
  by_contra hname
  obtain ⟨hardwareUUID, hostname, rfl, -⟩ :=
    assignment_of_mem hentry (Bool.not_eq_false _ ▸ hname)
  obtain ⟨-, hwaiting | ⟨phase, statement, rfl, hassigns⟩⟩ := assigns_of_act hact
  · cases hwaiting
  · cases hassigns with
    | known => exact hother hholds.1
    | commit => exact hother hholds.1

/-- Another transaction keeps its number while a step is taken. -/
theorem Server.Numbered.frame {action : Action} {u : Transaction} (h : server.Numbered log u)
    (hholds : t.Holds sh tx) (hother : u.Holds sh other) (hne : other ≠ tx)
    (hact : server.act sh tx t action = some (sh', t')) :
    server.Numbered (log ++ (action.entry.toList ++ (t'.answer tx).toList)) u := by
  cases u with
  | idle | claim | row => trivial
  | hostname hardwareUUID phase =>
    cases phase with
    | numbered hostname | inserted row =>
      exact Server.MayAssign.append h (not_isHostname_of_act hholds hother.1 hne hact)
    | _ => trivial

/-- An assignment answers with a stored name or with the one that it has chosen. -/
theorem Server.mayAnswer_of_act {action : Action} {entry : Entry}
    (htrace : server.atomic.Trace ⟨[], []⟩ log sh.db) (h : server.Numbered log t)
    (hact : server.act sh tx t action = some (sh', t'))
    (hentry : entry ∈ action.entry.toList ++ (t'.answer tx).toList) (hname : entry.isHostname) :
    action.entry.toList ++ (t'.answer tx).toList = [entry] ∧
      ∃ hardwareUUID hostname, entry = .hostname tx hardwareUUID hostname ∧
        server.MayAnswer log hardwareUUID hostname := by
  obtain ⟨hardwareUUID, hostname, rfl, rfl⟩ := assignment_of_mem hentry hname
  obtain ⟨hnone, hwaiting | ⟨phase, statement, rfl, hassigns⟩⟩ := assigns_of_act hact
  · cases hwaiting
  · refine ⟨by rw [hnone]; rfl, hardwareUUID, hostname, rfl, ?_⟩
    cases hassigns with
    | @known row hrow =>
      have huuid : row.hardwareUUID = hardwareUUID := by simpa using List.find?_some hrow
      exact .inl ⟨sh.db, htrace, row, List.mem_of_find?_eq_some hrow, huuid, rfl⟩
    | commit => exact .inr h

end Statements

variable {s t : State} {e : ℕ × Action} {server : Server} {log : List Entry}

/-- In every reachable state every transaction is prepared for its last statement. -/
theorem Server.prepared_of_reachable (server : Server) (h : server.system.Reachable s) (tx : ℕ) :
    server.Prepared s.shared tx (s.locals tx) := by
  have hinv := Program.invariant (p := server.program) (I := Shared.Ok)
    (A := fun sh tx t => t.Holds sh tx ∧ server.Prepared sh tx t) ?_ ?_ ?_ h
  · exact (hinv.2 tx).2
  · rintro s rfl
    exact ⟨.empty, fun _ => ⟨trivial, trivial⟩⟩
  · intro s tx action sh t _ hok ⟨hholds, hprepared⟩ hact
    obtain ⟨hchange, ht⟩ := server.act_change hok hholds hact
    exact ⟨hok.change hchange, ht, (act_atomic hok hholds hprepared hact).1⟩
  · intro s tx action sh t other _ hok ⟨hholds, _⟩ hne ⟨hother, hprepared⟩ hact
    have hchange := (server.act_change hok hholds hact).1
    exact ⟨hother.frame hok hne hchange, hprepared.frame hok hholds hother hne hact⟩

/-- Every step does to the tables what the operations that it finishes do in one step each. -/
theorem Server.step_atomic (server : Server) (h : server.system.Reachable s)
    (hnext : server.system.next s e t) :
    server.atomic.Trace s.shared.db (finishes s e t) t.shared.db := by
  obtain ⟨hok, hholds⟩ := server.holds_of_reachable h
  obtain ⟨tx, action⟩ := e
  obtain ⟨sh, l, hact, rfl⟩ := Program.step_eq_some.mp hnext
  have htrace := (act_atomic hok (hholds tx) (server.prepared_of_reachable h tx) hact).2
  simpa [finishes] using htrace

/-- The entry of a transaction carries its number. -/
theorem Transaction.answer_transaction {tx : ℕ} {t : Transaction} {entry : Entry}
    (h : t.answer tx = some entry) : entry.transaction = some tx := by
  unfold Transaction.answer at h
  split at h
  case h_1 =>
    split_ifs at h
    cases h
    rfl
  case h_4 => cases h
  all_goals
    cases h
    rfl

/-- The entry of a single statement belongs to no transaction. -/
theorem Action.entry_transaction {action : Action} {entry : Entry}
    (h : action.entry = some entry) : entry.transaction = none := by
  cases action with
  | register | updateWorker =>
    cases h
    rfl
  | _ => cases h

/-- A step adds to the entries of a transaction what this transaction answers. -/
theorem Server.step_answer (hnext : server.system.next s e t) (tx : ℕ) :
    ((s.locals tx).answer tx).toList ++
        (finishes s e t).filter (fun entry => entry.transaction = some tx) =
      ((t.locals tx).answer tx).toList := by
  obtain ⟨actor, action⟩ := e
  obtain ⟨sh, l, hact, rfl⟩ := Program.step_eq_some.mp hnext
  have hstatement : action.entry.toList.filter (fun entry => entry.transaction = some tx) = [] := by
    rw [List.filter_eq_nil_iff]
    intro entry hentry
    rw [Action.entry_transaction (Option.mem_toList.mp hentry)]
    simp
  have hfinishes : finishes s (actor, action) ⟨sh, Function.update s.locals actor l⟩ =
      action.entry.toList ++ (l.answer actor).toList := by
    simp [finishes]
  rw [hfinishes, List.filter_append, hstatement, List.nil_append]
  dsimp only
  by_cases htx : tx = actor
  · subst htx
    rw [answer_of_act hact, Function.update_self, Option.toList_none, List.nil_append,
      List.filter_eq_self]
    intro entry hentry
    rw [Transaction.answer_transaction (Option.mem_toList.mp hentry)]
    simp
  · have hother : (l.answer actor).toList.filter
        (fun entry => entry.transaction = some tx) = [] := by
      rw [List.filter_eq_nil_iff]
      intro entry hentry
      rw [Transaction.answer_transaction (Option.mem_toList.mp hentry)]
      simpa using Ne.symm htx
    rw [hother, Function.update_of_ne htx, List.append_nil]

/-- The names in a history are possible where they are answered. -/
def Server.NamesPossible (server : Server) (log : List Entry) : Prop :=
  ∀ before tx hardwareUUID hostname, before ++ [.hostname tx hardwareUUID hostname] <+: log →
    server.MayAnswer before hardwareUUID hostname

/-- Entries that are no assignment, or a single one with a possible name, keep the names of
a history possible. -/
theorem Server.NamesPossible.append {log later : List Entry} (h : server.NamesPossible log)
    (hlater : ∀ entry ∈ later, entry.isHostname → later = [entry] ∧
      ∃ tx hardwareUUID hostname, entry = .hostname tx hardwareUUID hostname ∧
        server.MayAnswer log hardwareUUID hostname) : server.NamesPossible (log ++ later) := by
  intro before tx hardwareUUID hostname hprefix
  rcases List.prefix_or_prefix_of_prefix hprefix (List.prefix_append log later) with hin | hout
  · exact h before tx hardwareUUID hostname hin
  · rcases List.prefix_concat_iff.mp hout with rfl | ⟨between, rfl⟩
    · exact h before tx hardwareUUID hostname List.prefix_rfl
    · rw [List.append_assoc, List.prefix_append_right_inj] at hprefix
      have hmem : .hostname tx hardwareUUID hostname ∈ later := hprefix.subset (by simp)
      obtain ⟨rfl, _, _, _, heq, hmay⟩ := hlater _ hmem rfl
      cases heq
      have hbetween : between = [] := by
        have hlength := hprefix.length_le
        simpa using hlength
      rwa [hbetween, List.append_nil]

/-- In every history the tables are those of the atomic operations, every assignment has a
number that it may use, and the names that were answered are possible. -/
theorem Server.names_of_history (server : Server)
    (h : server.system.History finishes State.initial log s) :
    server.atomic.Trace ⟨[], []⟩ log s.shared.db ∧
      (∀ tx, server.Numbered log (s.locals tx)) ∧ server.NamesPossible log := by
  have hinitial : server.system.Reachable State.initial := .init rfl
  refine h.invariant (P := fun log s => server.atomic.Trace ⟨[], []⟩ log s.shared.db ∧
    (∀ tx, server.Numbered log (s.locals tx)) ∧ server.NamesPossible log) hinitial ?_ ?_
  · exact ⟨.refl _, fun _ => trivial, fun before _ _ _ hnil => by simp at hnil⟩
  rintro log t ⟨tx, action⟩ u hreach hnext ⟨htrace, hnumbered, hnames⟩
  refine ⟨htrace.append (server.step_atomic hreach hnext), ?_⟩
  obtain ⟨-, hholds⟩ := server.holds_of_reachable hreach
  obtain ⟨sh, l, hact, rfl⟩ := Program.step_eq_some.mp hnext
  have hfinishes : finishes t (tx, action) ⟨sh, Function.update t.locals tx l⟩ =
      action.entry.toList ++ (l.answer tx).toList := by
    simp [finishes]
  rw [hfinishes]
  constructor
  · intro other
    dsimp only
    by_cases hother : other = tx
    · subst hother
      rw [Function.update_self]
      exact (hnumbered other).step htrace hact
    · rw [Function.update_of_ne hother]
      exact (hnumbered other).frame (hholds tx) (hholds other) hother hact
  · refine hnames.append fun entry hentry hname => ?_
    obtain ⟨hsingle, hardwareUUID, hostname, heq, hmay⟩ :=
      mayAnswer_of_act htrace (hnumbered tx) hact hentry hname
    exact ⟨hsingle, tx, hardwareUUID, hostname, heq, hmay⟩

/-- In every interleaving the tables are what the finished operations make of empty tables,
each in one step with the answer that it gave, in the order in which they finished. Every
operation that has answered is among them exactly once, and one that was refused or rolled
back is not. A hostname that was assigned belonged to the machine already, or was the next
one at some moment since the assignment before it. -/
theorem Server.serializable (server : Server) {log : List Entry} {s : State}
    (h : server.system.History finishes State.initial log s) :
    server.atomic.Trace ⟨[], []⟩ log s.shared.db ∧
      (∀ tx, log.filter (fun entry => entry.transaction = some tx) =
        ((s.locals tx).answer tx).toList) ∧
      ∀ before tx hardwareUUID hostname,
        before ++ [.hostname tx hardwareUUID hostname] <+: log →
          server.MayAnswer before hardwareUUID hostname := by
  have hinitial : server.system.Reachable State.initial := .init rfl
  obtain ⟨htrace, -, hnames⟩ := server.names_of_history h
  refine ⟨htrace, fun tx => ?_, hnames⟩
  refine h.invariant (P := fun log s => log.filter (fun entry => entry.transaction = some tx) =
    ((s.locals tx).answer tx).toList) hinitial rfl ?_
  intro log t e u _ hnext hlog
  rw [List.filter_append, hlog]
  exact step_answer hnext tx

/-- A member stops a workstation while a second claim, a report about the workstation and a
resume that loses its connection are under way. A new machine asks for its name, and another
registers with this name. -/
def contendedWorkstation : List (ℕ × Action) :=
  [(0, .register 100 ⟨"w", "mac-1", "uuid", 8, 16, "2", "1", 2, "base"⟩),
   (0, .updateWorker 110 "w" .heartbeat), (1, .beginClaim "alice" ""),
   (1, .claim .lock), (1, .claim (.listWorkers 120)), (1, .claim .listSlots),
   (1, .claim (.insert 120 "id-1")), (1, .claim .commit),
   (2, .beginRow (.setDesired "alice" "id-1" (.value .stopped))),
   (3, .beginRow (.reportStatus "w" ⟨"id-1", .value .running, "10.0.0.1", ""⟩)),
   (4, .beginClaim "bob" ""), (5, .beginRow (.ensureRunning "alice" "id-1")),
   (2, .row (.selectForUpdate 130)), (4, .claim .lock), (4, .claim (.listWorkers 131)),
   (2, .row .write), (4, .claim .listSlots), (4, .claim (.insert 132 "id-2")),
   (2, .row .commit), (5, .row (.selectForUpdate 133)), (5, .row .write), (4, .claim .commit),
   (5, .row .fail), (6, .beginHostname "uuid-3"), (6, .hostname .lock), (6, .hostname .select),
   (6, .hostname .selectNext), (3, .row (.selectForUpdate 134)), (3, .row .write),
   (0, .register 135 ⟨"v", "mac-2", "uuid-2", 8, 16, "2", "1", 2, "base"⟩),
   (6, .hostname (.insert 136)), (3, .row .commit), (6, .hostname .commit)]

/-- The order of the operations in this run: the second claim comes after the stop, and the
resume has not happened. The new machine gets the name that was the next one before the
registration. -/
theorem serializable_contended : ∃ log s,
    plainServer.system.History finishes State.initial log s ∧
    log.filterMap Entry.transaction = [1, 2, 4, 3, 6] ∧
    plainServer.atomic.Trace ⟨[], []⟩ log s.shared.db ∧
    log.dropLast ++ [.hostname 6 "uuid-3" "mac-2"] = log ∧
    plainServer.MayAnswer log.dropLast "uuid-3" "mac-2" := by
  have hrun : ∃ log s, runHistory plainServer.program.step finishes State.initial
      contendedWorkstation = some (log, s) ∧
      log.filterMap Entry.transaction = [1, 2, 4, 3, 6] ∧
      .hostname 6 "uuid-3" "mac-2" ∈ log.getLast? := ⟨_, _, rfl, rfl, rfl⟩
  obtain ⟨log, s, hs, horder, hlast⟩ := hrun
  have hhistory : plainServer.system.History finishes State.initial log s :=
    history_of_runHistory hs
  have hsplit := List.dropLast_append_getLast? _ hlast
  obtain ⟨htrace, -, hnames⟩ := plainServer.serializable hhistory
  have hprefix : log.dropLast ++ [.hostname 6 "uuid-3" "mac-2"] <+: log := by rw [hsplit]
  exact ⟨log, s, hhistory, horder, htrace, hsplit, hnames _ _ _ _ hprefix⟩

end MiniControl.Fleet
