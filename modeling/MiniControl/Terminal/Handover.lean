import MiniControl.Terminal.Replay

/-!
# From replay to live output

When a round of the replay finds nothing new, the attach call installs its
attachment, and from then on every chunk is sent to the attachment when it is
published. A chunk that is published between the last round and the installation
is in neither. Without such a chunk, everything kept at the first round and
everything published since is enqueued exactly once and in order.
-/

namespace MiniControl.Terminal

open Transition

/-- What a step does to an attachment whose call replays no more. -/
inductive Seen (c : ℕ) (s t : State) : Event → Prop
  | quiet {e : Event} : t.outputs c = s.outputs c → t.published = s.published →
      (t.attachment = some c → s.attachment = some c) →
      (∀ o payload, t.streams o = .sending payload c ↔ s.streams o = .sending payload c) →
      (t.attachment = some c → ∀ o, s.streams o = .clearing c → t.streams o = .clearing c) →
      Seen c s t e
  | publish {o : Output} {payload : Payload} : t.outputs c = s.outputs c →
      t.published = s.published ++ [payload] → t.attachment = s.attachment →
      (s.attachment = some c → t.streams = Function.update s.streams o (.sending payload c)) →
      Seen c s t (.publish o payload)
  | sent {e : Event} {o : Output} {payload : Payload} : s.streams o = .sending payload c →
      t.outputs c = s.outputs c ++ [payload] → t.published = s.published →
      t.attachment = s.attachment → t.streams = Function.update s.streams o .reading →
      Seen c s t e
  | dropped {e : Event} {o : Output} {payload : Payload} : s.streams o = .sending payload c →
      t.published = s.published → t.attachment = s.attachment →
      t.streams = Function.update s.streams o (.clearing c) → Seen c s t e

variable {c : ℕ} {s t : State} {e : Event} {base : List Payload}

/-- A step after which a stream is in another position that does not concern the
attachment. -/
theorem Seen.streamed {o : Output} {stream : Stream}
    (hstreams : t.streams = Function.update s.streams o stream)
    (hbefore : ∀ payload, s.streams o ≠ .sending payload c)
    (hafter : ∀ payload, stream ≠ .sending payload c) (houtputs : t.outputs c = s.outputs c)
    (hpublished : t.published = s.published)
    (hattachment : t.attachment = some c → s.attachment = some c)
    (hclearing : t.attachment = some c → s.streams o ≠ .clearing c) : Seen c s t e := by
  refine .quiet houtputs hpublished hattachment (fun o' payload => ?_) fun hattached o' ho' => ?_
  · rw [hstreams]
    by_cases ho : o' = o
    · subst ho
      rw [Function.update_self]
      exact iff_of_false (hafter payload) (hbefore payload)
    · rw [Function.update_of_ne ho]
  · rw [hstreams]
    by_cases ho : o' = o
    · subst ho
      exact absurd ho' (hclearing hattached)
    · rwa [Function.update_of_ne ho]

/-- What every step does to an attachment whose call replays no more. -/
theorem Effect.seen (h : Effect s e t) (hleft : (s.calls c).Left) : Seen c s t e := by
  -- a step of another part of the session
  have hquiet : ∀ {u : State}, u.outputs c = s.outputs c → u.published = s.published →
      (u.attachment = some c → s.attachment = some c) → u.streams = s.streams → Seen c s u e := by
    intro u houtputs hpublished hattachment hstreams
    refine .quiet houtputs hpublished hattachment (fun o payload => ?_) fun _ o ho => ?_
    · rw [hstreams]
    · rwa [hstreams]
  have hother : ∀ {d : ℕ} {p : Phase}, s.calls d = p → ¬p.Left → c ≠ d := by
    rintro d p hphase hp rfl
    exact hp (hphase ▸ hleft)
  cases h with
  | move _ _ => exact hquiet rfl rfl id rfl
  | lock _ _ => exact hquiet rfl rfl id rfl
  | stopTimer hphase =>
    exact hquiet (State.outputs_put_of_ne _ (hother hphase id) _) rfl id rfl
  | closeCurrent _ => exact hquiet (s.outputs_closeAttachment _ _) rfl id rfl
  | @removeCurrent d current _ _ _ =>
    rcases s.removeAttachment_eq current with ⟨_, heq⟩ | ⟨_, heq⟩
    · rw [heq]
      exact hquiet rfl rfl nofun rfl
    · rw [heq]
      exact hquiet rfl rfl id rfl
  | sent hphase hsends hsend =>
    have hne : c ≠ _ := hother hphase (by cases hsends <;> exact id)
    have houtputs := State.outputs_send_of_ne hsend hne
    obtain ⟨_, _, _, _, rfl⟩ := State.send_ok hsend
    exact hquiet houtputs rfl id rfl
  | sendFailed _ _ _ => exact hquiet rfl rfl id rfl
  | setAttachment hphase =>
    refine hquiet rfl rfl (fun heq => ?_) rfl
    exact absurd (Option.some.inj heq).symm (hother hphase id)
  | unlock _ _ => exact hquiet rfl rfl id rfl
  | @clear d _ _ _ =>
    obtain ⟨_, hstreams, _, hheap, hpublished, _⟩ := s.clearAttachment_frame d
    refine hquiet ?_ hpublished State.attachment_of_clearAttachment hstreams
    exact congrArg (fun heap => State.outputs { s with attachments := heap } c) hheap
  | finish _ _ => exact hquiet (s.outputs_closeAttachment _ _) rfl id rfl
  | unlockFailed _ _ => exact hquiet rfl rfl id rfl
  | publishClosed _ _ => exact hquiet rfl rfl id rfl
  | publishDetached _ _ hattachment =>
    refine .publish rfl rfl rfl fun hattached => ?_
    cases hattachment.symm.trans hattached
  | publishAttached _ _ hattachment =>
    refine .publish rfl rfl rfl fun hattached => ?_
    cases hattachment.symm.trans hattached
    rfl
  | @streamSent o _ payload target u hstream hsend =>
    by_cases htarget : target = c
    · subst htarget
      have houtputs := State.outputs_send hsend
      obtain ⟨_, _, _, _, rfl⟩ := State.send_ok hsend
      exact .sent hstream houtputs rfl rfl rfl
    · have houtputs := State.outputs_send_of_ne hsend (Ne.symm htarget)
      obtain ⟨_, _, _, _, rfl⟩ := State.send_ok hsend
      refine .streamed rfl (fun payload' => ?_) nofun houtputs rfl id fun _ => ?_
      · rw [hstream]
        exact fun heq => htarget (Stream.sending.inj heq).2
      · rw [hstream]
        exact nofun
  | @streamFailed o _ payload target hstream =>
    by_cases htarget : target = c
    · subst htarget
      exact .dropped hstream rfl rfl rfl
    · refine .streamed rfl (fun payload' => ?_) nofun rfl rfl id fun _ => ?_
      · rw [hstream]
        exact fun heq => htarget (Stream.sending.inj heq).2
      · rw [hstream]
        exact nofun
  | @streamClear o _ target hstream =>
    obtain ⟨_, hstreams, _, hheap, hpublished, _⟩ := s.clearAttachment_frame target
    refine .streamed (congrArg (Function.update · o _) hstreams) ?_ nofun ?_ hpublished
      State.attachment_of_clearAttachment fun hattached => ?_
    · rw [hstream]
      exact nofun
    · exact congrArg (fun heap => State.outputs { s with attachments := heap } c) hheap
    · rw [hstream]
      intro heq
      cases heq
      rcases s.clearAttachment_eq c with ⟨_, heq⟩ | ⟨hne, _⟩
      · rw [heq] at hattached
        cases hattached
      · exact hne (State.attachment_of_clearAttachment hattached)
  | streamClose hstream =>
    refine .streamed rfl ?_ nofun (s.outputs_closeAttachment _ _) rfl id fun _ => ?_
    · rw [hstream]
      exact nofun
    · rw [hstream]
      exact nofun
  | streamEnds hstream =>
    refine .streamed rfl ?_ nofun rfl rfl id fun _ => ?_
    · rw [hstream]
      exact nofun
    · rw [hstream]
      exact nofun
  | writer hold henqueued => exact hquiet (s.outputs_put hold henqueued c) rfl id rfl
  | expire _ => exact hquiet rfl rfl id rfl
  | beginClose _ _ => exact hquiet rfl rfl id rfl
  | beginExpiry _ _ => exact hquiet rfl rfl id rfl
  | shut _ => exact hquiet rfl rfl nofun rfl
  | @notify _ cause a u _ hsend =>
    have houtputs : u.outputs c = s.outputs c := by
      by_cases ha : c = a
      · subst ha
        rw [State.outputs_send hsend]
        exact List.append_nil _
      · exact State.outputs_send_of_ne hsend ha
    obtain ⟨_, _, _, _, rfl⟩ := State.send_ok hsend
    exact hquiet houtputs rfl id rfl
  | quiet _ => exact hquiet rfl rfl id rfl
  | detach _ => exact hquiet (s.outputs_closeAttachment _ _) rfl id rfl
  | finished _ => exact hquiet rfl rfl id rfl

/-- A call that replays no more never does again. -/
theorem Effect.left (h : Effect s e t) (htargets : Targets s) (hleft : (s.calls c).Left) :
    (t.calls c).Left := by
  rcases h.at_call htargets c with ⟨hcalls, _⟩ | ⟨_, hown⟩
  · rwa [hcalls]
  · cases hown with
    | move hmoves _ =>
      generalize s.calls c = p at hleft hmoves
      generalize t.calls c = q at hmoves
      cases hmoves <;> trivial
    | enter hphase _ | create hphase _ _ | closeCurrent hphase _ _ | removeCurrent hphase _ _ =>
      rw [hphase] at hleft
      exact hleft.elim
    | send hsends _ =>
      generalize s.calls c = p at hleft hsends
      generalize t.calls c = q at hsends
      cases hsends <;> exact hleft.elim
    | leave hleft => exact hleft

/-- What is enqueued to the attachment of a call that replays no more, while it is
installed: everything, or everything but the chunk that a publication is about to
send. A publication that failed to send is about to drop the attachment. -/
structure Delivered (base : List Payload) (c : ℕ) (s : State) : Prop where
  left : (s.calls c).Left
  grown : base <+: s.published
  sent : s.attachment = some c →
    (∃ o payload, s.streams o = .sending payload c ∧
      (∀ o' payload', s.streams o' = .sending payload' c → o' = o) ∧
      s.outputs c ++ [payload] = kept base ++ s.published.drop base.length) ∨
    (∃ o, s.streams o = .clearing c) ∨
    ((∀ o payload, s.streams o ≠ .sending payload c) ∧
      s.outputs c = kept base ++ s.published.drop base.length)

/-- Every step keeps the delivery. -/
theorem Delivered.step (h : Delivered base c s) (htargets : Targets s) (heffect : Effect s e t)
    (horderly : Orderly c s e) : Delivered base c t := by
  have hleft := heffect.left htargets h.left
  cases heffect.seen h.left with
  | quiet houtputs hpublished hattachment hsending hclearing =>
    refine ⟨hleft, hpublished ▸ h.grown, fun hattached => ?_⟩
    rw [houtputs, hpublished]
    rcases h.sent (hattachment hattached) with ⟨o, payload, ho, hunique, houts⟩ | ⟨o, ho⟩ | hall
    · exact .inl ⟨o, payload, (hsending o payload).mpr ho,
        fun o' payload' ho' => hunique o' payload' ((hsending o' payload').mp ho'), houts⟩
    · exact .inr (.inl ⟨o, hclearing hattached o ho⟩)
    · exact .inr (.inr ⟨fun o payload ho => hall.1 o payload ((hsending o payload).mp ho), hall.2⟩)
  | @publish o payload houtputs hpublished hattachment hstreams =>
    refine ⟨hleft, hpublished ▸ h.grown.trans (List.prefix_append _ _), fun hattached => .inl ?_⟩
    rw [hattachment] at hattached
    have hidle : ∀ o stream, s.streams o = stream → stream.target = none := fun o stream ho =>
      ho ▸ horderly.1.target o
    rcases h.sent hattached with ⟨o', payload', ho, _⟩ | ⟨o', ho⟩ | ⟨hnone, houts⟩
    · cases hidle o' _ ho
    · cases hidle o' _ ho
    · rw [hstreams hattached, houtputs, hpublished]
      refine ⟨o, payload, Function.update_self _ _ _, fun o' payload' ho' => ?_, ?_⟩
      · by_contra hne
        rw [Function.update_of_ne hne] at ho'
        exact hnone o' payload' ho'
      · rw [houts, List.append_assoc, ← List.drop_append_of_le_length h.grown.length_le]
  | @sent _ o payload hstream houtputs hpublished hattachment hstreams =>
    refine ⟨hleft, hpublished ▸ h.grown, fun hattached => .inr ?_⟩
    rw [hattachment] at hattached
    rw [hstreams, houtputs, hpublished]
    rcases h.sent hattached with ⟨o', payload', ho, hunique, houts⟩ | ⟨o', ho⟩ | ⟨hnone, _⟩
    · obtain rfl := hunique o payload hstream
      cases hstream.symm.trans ho
      refine .inr ⟨fun o' payload' ho' => ?_, houts⟩
      by_cases hne : o' = o
      · subst hne
        rw [Function.update_self] at ho'
        cases ho'
      · rw [Function.update_of_ne hne] at ho'
        exact hne (hunique o' payload' ho')
    · refine .inl ⟨o', ?_⟩
      rw [Function.update_of_ne]
      · exact ho
      · rintro rfl
        cases hstream.symm.trans ho
    · exact absurd hstream (hnone o payload)
  | @dropped _ o _ _ hpublished _ hstreams =>
    refine ⟨hleft, hpublished ▸ h.grown, fun _ => .inr (.inl ⟨o, ?_⟩)⟩
    rw [hstreams, Function.update_self]

/-- The installation of the attachment after the last round. -/
theorem delivered_of_install {request : Request} {choice : Bool} (htargets : Targets s)
    (hgrown : base <+: s.published) (hphase : s.calls c = .setAttachment request)
    (houts : s.outputs c = kept base ++ s.published.drop base.length)
    (hnext : step s (.call c choice) = some t) : Delivered base c t := by
  obtain rfl : { s with attachment := some c }.goto c (.unlockAttach request) = t := by
    simpa [step, callStep, hphase] using hnext
  refine ⟨?_, hgrown, fun _ => .inr (.inr ⟨fun o payload ho => ?_, houts⟩)⟩
  · rw [State.goto_self]
    trivial
  · have htarget := htargets.streams o c (congrArg Stream.target ho)
    rw [hphase] at htarget
    exact htarget

/-- The live output after the installation. -/
theorem delivered_of_leads {id : String} (hrun : (system id).LeadsUnder (Orderly c) s t)
    (hreach : (system id).Reachable s) (h : Delivered base c s) : Delivered base c t := by
  refine System.LeadsUnder.invariant ?_ hrun hreach h
  intro u e v hu horderly hnext hdelivered
  exact hdelivered.step (sound_of_reachable hu).targets (step_effect hnext) horderly

/-- Everything that the history keeps at the first round of a call and everything
that is published from then on is enqueued to its attachment exactly once and in
order, as long as the attachment is installed and the handover takes fewer chunks
than the history keeps. -/
theorem enqueued_exactly_once (id : String) {first started last installed s : State} {c : ℕ}
    {request : Request} {choice choice' : Bool} (hreach : (system id).Reachable first)
    (hround : first.calls c = .snapshot request 0)
    (hsnapshot : (system id).next first (.call c choice) started)
    (hhandover : (system id).LeadsUnder (Orderly c) started last)
    (hlast : last.calls c = .setAttachment request)
    (hfew : last.published.length < first.published.length + terminalHistoryFrames)
    (hinstall : (system id).next last (.call c choice') installed)
    (hlive : (system id).LeadsUnder (Orderly c) installed s)
    (hattached : s.attachment = some c) (hsilent : s.Silent) :
    s.outputs c = (first.history.snapshotFramesAfter 0).1.map Frame.payload ++
      s.published.drop first.published.length := by
  have hsound := sound_of_reachable hreach
  have hstarted : (system id).Reachable started := hreach.next hsnapshot
  have hreached : (system id).Reachable last := hhandover.leads.reachable hstarted
  obtain ⟨hsame, hreplays⟩ := replays_first hsound hround hsnapshot
  obtain ⟨hgrown, hreplayed⟩ :=
    replays_of_leads hhandover hstarted (hsame ▸ List.prefix_refl _) hreplays
  have houts := hreplayed hfew
  rw [hlast] at houts
  have hdelivered := delivered_of_leads hlive (hreached.next hinstall)
    (delivered_of_install (sound_of_reachable hreached).targets hgrown hlast houts hinstall)
  rw [hsound.history.payloads_snapshot, Nat.zero_max]
  rcases hdelivered.sent hattached with ⟨o, payload, ho, _⟩ | ⟨o, ho⟩ | ⟨_, hall⟩
  · cases (congrArg Stream.target ho).symm.trans (hsilent.target o)
  · cases (congrArg Stream.target ho).symm.trans (hsilent.target o)
  · exact hall

/-- A call up to its first round. -/
def untilFirstRound : List Event :=
  [.attach 0 plainRequest, .call 0 true, .call 0 true, .call 0 true, .call 0 true, .call 0 true]

set_option maxRecDepth 4000 in
/-- One chunk is kept, one is published during the replay, and one after it. -/
theorem enqueued_exactly_once_three : ∃ first s : State,
    (system "t").Reachable first ∧ first.published = [[1]] ∧ s.published = [[1], [2], [3]] ∧
    s.outputs 0 = (first.history.snapshotFramesAfter 0).1.map Frame.payload ++
      s.published.drop first.published.length := by
  have hrun : ∃ first started last installed s,
      runEvents step (initial "t") (.publish .stdout [1] :: untilFirstRound) = some first ∧
      step first (.call 0 true) = some started ∧
      runEvents (fun s e => if Orderly 0 s e then step s e else none) started
        (.publish .stdout [2] :: List.replicate 6 (.call 0 true)) = some last ∧
      step last (.call 0 true) = some installed ∧
      runEvents (fun s e => if Orderly 0 s e then step s e else none) installed
        [.publish .stderr [3], .stream .stderr true] = some s ∧
      first.calls 0 = .snapshot plainRequest 0 ∧ last.calls 0 = .setAttachment plainRequest ∧
      first.published = [[1]] ∧ last.published = [[1], [2]] ∧ s.published = [[1], [2], [3]] ∧
      s.attachment = some 0 ∧ s.Silent :=
    ⟨_, _, _, _, _, rfl, rfl, rfl, rfl, rfl, rfl, rfl, rfl, rfl, rfl, rfl, rfl, rfl⟩
  obtain ⟨first, started, last, installed, s, hfirst, hsnapshot, hhandover, hinstall, hlive, hround,
    hlast, hone, htwo, hthree, hattached, hsilent⟩ := hrun
  have hreach : (system "t").Reachable first := reachable_of_runEvents rfl hfirst
  refine ⟨first, s, hreach, hone, hthree, ?_⟩
  refine enqueued_exactly_once "t" hreach hround hsnapshot (leadsUnder_of_runEvents hhandover)
    hlast ?_ hinstall (leadsUnder_of_runEvents hlive) hattached hsilent
  rw [hone, htwo]
  decide

/-- A chunk that is published between the last round and the installation is never
enqueued, although chunks are published one after another and the attachment is
not dropped. -/
theorem gap_loses_chunk : ∃ first started last installed : State,
    (system "t").Reachable first ∧ first.calls 0 = .snapshot plainRequest 0 ∧
    (system "t").next first (.call 0 true) started ∧
    (system "t").LeadsUnder OneByOne started last ∧
    last.calls 0 = .setAttachment plainRequest ∧
    last.published.length < first.published.length + terminalHistoryFrames ∧
    (system "t").next last (.call 0 true) installed ∧ installed.attachment = some 0 ∧
    installed.Silent ∧ installed.outputs 0 ≠
      (first.history.snapshotFramesAfter 0).1.map Frame.payload ++
        installed.published.drop first.published.length := by
  have hrun : ∃ first started last installed,
      runEvents step (initial "t") untilFirstRound = some first ∧
      first.calls 0 = .snapshot plainRequest 0 ∧ step first (.call 0 true) = some started ∧
      runEvents (fun s e => if OneByOne s e then step s e else none) started
        [.publish .stdout [1]] = some last ∧
      last.calls 0 = .setAttachment plainRequest ∧
      last.published.length < first.published.length + terminalHistoryFrames ∧
      step last (.call 0 true) = some installed ∧ installed.attachment = some 0 ∧
      installed.Silent ∧ installed.outputs 0 ≠
        (first.history.snapshotFramesAfter 0).1.map Frame.payload ++
          installed.published.drop first.published.length := by
    refine ⟨_, _, _, _, rfl, rfl, rfl, rfl, rfl, ?_, rfl, rfl, ⟨rfl, rfl⟩, ?_⟩
    · decide
    · decide
  obtain ⟨first, started, last, installed, hfirst, hround, hsnapshot, hgap, hlast, hfew, hinstall,
    hrest⟩ := hrun
  exact ⟨first, started, last, installed, reachable_of_runEvents rfl hfirst, hround, hsnapshot,
    leadsUnder_of_runEvents hgap, hlast, hfew, hinstall, hrest⟩

end MiniControl.Terminal
