import MiniControl.Terminal.Handover

/-!
# The order of live output

A chunk gets its number under the mutex of the session, but it is sent to the
installed attachment after the mutex is released. The streams are watched here
together with the numbers of the frames that they are publishing. If chunks are
published one after another, the frames that reach an installed attachment are
the published ones in the order of their numbers, and a later replay shows the
same. Two streams that publish at once may overtake each other.
-/

namespace MiniControl.Terminal

open Transition

/-- A session together with the numbers of the frames that its streams publish,
and the frames that they have enqueued to one attachment. -/
structure Watched where
  session : State
  numbers : Output → ℕ
  live : List Frame

/-- The numbers of the frames after a step: a publication takes the next number. -/
def nextNumbers (s : State) (numbers : Output → ℕ) : Event → Output → ℕ
  | .publish o _ => Function.update numbers o (s.history.nextSeq + 1)
  | _ => numbers

/-- The frame that a stream enqueues to an attachment in a step. -/
def sentFrames (c : ℕ) (s : State) (numbers : Output → ℕ) : Event → List Frame
  | .stream o choice =>
    match s.streams o with
    | .sending payload target =>
      match s.send target (.output payload) choice with
      | .ok _ => if target = c then [⟨numbers o, payload⟩] else []
      | .error _ => []
    | _ => []
  | _ => []

/-- One step of a watched session. -/
def watchedStep (c : ℕ) (w : Watched) (e : Event) : Option Watched :=
  (step w.session e).map fun t =>
    ⟨t, nextNumbers w.session w.numbers e, w.live ++ sentFrames c w.session w.numbers e⟩

/-- The runs of a session that is watched from a state on. -/
def watchedSystem (c : ℕ) (start : State) : System Watched Event :=
  System.ofStep (· = ⟨start, fun _ => 0, []⟩) (watchedStep c)

/-- The publication is about to send to the attachment, or has failed to. -/
def Stream.Pending (c : ℕ) : Stream → Prop
  | .sending _ target | .clearing target => target = c
  | .reading | .closing _ | .ended => False

variable {c : ℕ} {s t start : State} {e : Event} {id : String} {w w' : Watched}

/-- A publication that is pending works on the attachment. -/
theorem Stream.Pending.target {stream : Stream} (h : stream.Pending c) :
    stream.target = some c := by
  cases stream with
  | sending | clearing => exact congrArg some h
  | reading | closing | ended => exact h.elim

/-- What a step does to the output of an attachment whose call replays no more. -/
inductive Passes (c : ℕ) (s : State) : Event → State → Prop
  | sent {o : Output} {choice : Bool} {payload : Payload} {u : State} :
      s.streams o = .sending payload c → s.send c (.output payload) choice = .ok u →
      Passes c s (.stream o choice) (u.setStream o .reading)
  | dropped {o : Output} {choice : Bool} {payload : Payload} {failure : Failure} :
      s.streams o = .sending payload c → s.send c (.output payload) choice = .error failure →
      Passes c s (.stream o choice) (s.setStream o (.clearing c))
  | publish {o : Output} {payload : Payload} : s.attachment = some c → s.streams o = .reading →
      Passes c s (.publish o payload)
        ({ s with
          history := s.history.publish payload
          published := s.published ++ [payload] }.setStream o (.sending payload c))
  | other {e : Event} {t : State} : (∀ numbers, sentFrames c s numbers e = []) →
      (∀ numbers o, (s.streams o).Pending c → nextNumbers s numbers e o = numbers o) →
      t.outputs c = s.outputs c →
      (t.attachment = some c → s.attachment = some c ∧ t.published = s.published ∧
        ∀ o, t.streams o = s.streams o ∨ ¬(s.streams o).Pending c ∧ ¬(t.streams o).Pending c) →
      Passes c s e t

/-- The streams after one of them has moved. -/
theorem State.setStream_streams (s : State) (o : Output) (stream : Stream) :
    (s.setStream o stream).streams = Function.update s.streams o stream :=
  rfl

/-- The streams move in their own steps only. -/
theorem Effect.streams (h : Effect s e t) :
    (∃ o choice, e = .stream o choice) ∨ (∃ o payload, e = .publish o payload) ∨
      t.streams = s.streams ∨
      ∃ o, s.streams o = .reading ∧ t.streams = Function.update s.streams o .ended := by
  cases h with
  | streamSent | streamFailed | streamClear | streamClose => exact .inl ⟨_, _, rfl⟩
  | publishClosed | publishDetached | publishAttached => exact .inr (.inl ⟨_, _, rfl⟩)
  | streamEnds hstream => exact .inr (.inr (.inr ⟨_, hstream, rfl⟩))
  | removeCurrent => exact .inr (.inr (.inl (s.removeAttachment_frame _).2.1))
  | clear => exact .inr (.inr (.inl (s.clearAttachment_frame _).2.1))
  | sent _ _ hsend | notify _ hsend =>
    obtain ⟨_, _, _, _, rfl⟩ := State.send_ok hsend
    exact .inr (.inr (.inl rfl))
  | _ => exact .inr (.inr (.inl rfl))

/-- A step of anything but a stream. -/
theorem passes_unstreamed (h : step s e = some t) (hleft : (s.calls c).Left)
    (hstream : ∀ o choice, e ≠ .stream o choice) (hpublish : ∀ o payload, e ≠ .publish o payload) :
    Passes c s e t := by
  have hframes : ∀ numbers, sentFrames c s numbers e = [] := by
    intro numbers
    cases e <;> first | rfl | exact absurd rfl (hstream _ _)
  have hnumbers : ∀ numbers o, (s.streams o).Pending c → nextNumbers s numbers e o = numbers o := by
    intro numbers o _
    cases e <;> first | rfl | exact absurd rfl (hpublish _ _)
  have hstreams : t.streams = s.streams ∨
      ∃ o, s.streams o = .reading ∧ t.streams = Function.update s.streams o .ended := by
    rcases (step_effect h).streams with ⟨o, choice, he⟩ | ⟨o, payload, he⟩ | hrest
    · exact absurd he (hstream o choice)
    · exact absurd he (hpublish o payload)
    · exact hrest
  -- a publication that waits for its send is still waiting
  have hkeeps : ∀ o payload, s.streams o = .sending payload c → t.streams o = s.streams o := by
    intro o payload ho
    rcases hstreams with heq | ⟨o', hreading, heq⟩
    · rw [heq]
    · rw [heq, Function.update_of_ne]
      rintro rfl
      cases ho.symm.trans hreading
  cases (step_effect h).seen hleft with
  | quiet houtputs hpublished hattachment hsending hclearing =>
    refine .other hframes hnumbers houtputs fun hattached =>
      ⟨hattachment hattached, hpublished, fun o => ?_⟩
    rcases hstreams with heq | ⟨o', hreading, heq⟩
    · rw [heq]
      exact .inl rfl
    · by_cases ho : o = o'
      · subst ho
        rw [heq, hreading, Function.update_self]
        exact .inr ⟨id, id⟩
      · rw [heq, Function.update_of_ne ho]
        exact .inl rfl
  | publish => exact absurd rfl (hpublish _ _)
  | sent ho _ _ _ heq =>
    have hsame := hkeeps _ _ ho
    rw [heq, Function.update_self, ho] at hsame
    cases hsame
  | dropped ho _ _ heq =>
    have hsame := hkeeps _ _ ho
    rw [heq, Function.update_self, ho] at hsame
    cases hsame

/-- A stream that does not send to the attachment enqueues nothing to it. -/
theorem sentFrames_of_not_sending {o : Output} {choice : Bool}
    (h : ∀ payload, s.streams o ≠ .sending payload c) (numbers : Output → ℕ) :
    sentFrames c s numbers (.stream o choice) = [] := by
  cases hstream : s.streams o with
  | sending payload target =>
    have htarget : target ≠ c := by
      rintro rfl
      exact h payload hstream
    cases hsend : s.send target (.output payload) choice <;>
      simp [sentFrames, hstream, hsend, htarget]
  | _ => simp [sentFrames, hstream]

/-- What every step does to the output of an attachment whose call replays no more. -/
theorem passes_of_step (h : step s e = some t) (hleft : (s.calls c).Left) : Passes c s e t := by
  cases e with
  | publish o payload =>
    obtain ⟨hreading, hnext⟩ := Option.ite_none_right_eq_some.mp h
    cases hnext
    have hnumbers : ∀ numbers o', (s.streams o').Pending c →
        nextNumbers s numbers (.publish o payload) o' = numbers o' := by
      intro numbers o' hpending
      refine Function.update_of_ne ?_ _ _
      rintro rfl
      rw [hreading] at hpending
      exact hpending
    unfold publishBinary
    split_ifs
    · exact .other (fun _ => rfl) hnumbers rfl fun hattached => ⟨hattached, rfl, fun _ => .inl rfl⟩
    · by_cases hattached : s.attachment = some c
      · split
        next hnone => cases hattached.symm.trans hnone
        next target htarget =>
          cases hattached.symm.trans htarget
          exact .publish hattached hreading
      · exact .other (fun _ => rfl) hnumbers rfl fun hattached' => absurd hattached' hattached
  | stream o choice =>
    -- a stream that does not work on the attachment
    have hother : ∀ {u : State} {stream : Stream},
        (∀ payload, s.streams o ≠ .sending payload c) →
        u.outputs c = s.outputs c → u.published = s.published → u.streams = s.streams →
        (u.attachment = some c → s.attachment = some c ∧ ¬(s.streams o).Pending c) →
        ¬stream.Pending c → Passes c s (.stream o choice) (u.setStream o stream) := by
      intro u stream hsending houtputs hpublished hstreams hattachment hstream
      refine .other (sentFrames_of_not_sending hsending) (fun _ _ _ => rfl) houtputs
        fun hattached => ?_
      obtain ⟨hbefore, hpending⟩ := hattachment hattached
      refine ⟨hbefore, hpublished, fun o' => ?_⟩
      rw [State.setStream_streams, hstreams]
      by_cases ho : o' = o
      · subst ho
        rw [Function.update_self]
        exact .inr ⟨hpending, hstream⟩
      · exact .inl (Function.update_of_ne ho _ _)
    simp only [step, streamStep] at h
    cases hstream : s.streams o with
    | reading => simp only [hstream, reduceCtorEq] at h
    | ended => simp only [hstream, reduceCtorEq] at h
    | sending payload target =>
      simp only [hstream] at h
      have hsending : target ≠ c → ∀ payload, s.streams o ≠ .sending payload c := by
        intro htarget payload heq
        cases hstream.symm.trans heq
        exact htarget rfl
      cases hsend : s.send target (.output payload) choice with
      | ok u =>
        simp only [hsend, Option.some.injEq] at h
        subst h
        by_cases htarget : target = c
        · subst htarget
          exact .sent hstream hsend
        · have houtputs := State.outputs_send_of_ne hsend (Ne.symm htarget)
          obtain ⟨_, _, _, _, rfl⟩ := State.send_ok hsend
          exact hother (hsending htarget) houtputs rfl rfl
            (fun hattached => ⟨hattached, hstream ▸ htarget⟩) id
      | error failure =>
        simp only [hsend, Option.some.injEq] at h
        subst h
        by_cases htarget : target = c
        · subst htarget
          exact .dropped hstream hsend
        · exact hother (hsending htarget) rfl rfl rfl
            (fun hattached => ⟨hattached, hstream ▸ htarget⟩) htarget
    | clearing target =>
      simp only [hstream, Option.some.injEq] at h
      subst h
      obtain ⟨_, hstreams, _, hheap, hpublished, _⟩ := s.clearAttachment_frame target
      refine hother (by simp [hstream]) ?_ hpublished hstreams (fun hattached => ?_) id
      · exact congrArg (fun heap => State.outputs { s with attachments := heap } c) hheap
      · have hbefore := State.attachment_of_clearAttachment hattached
        refine ⟨hbefore, ?_⟩
        rw [hstream]
        rintro rfl
        rw [State.clearAttachment, if_pos hbefore] at hattached
        unfold State.scheduleIdleTimeoutLocked at hattached
        split_ifs at hattached
    | closing target =>
      simp only [hstream, Option.some.injEq] at h
      subst h
      exact hother (by simp [hstream]) (s.outputs_closeAttachment _ _) rfl rfl
        (fun hattached => ⟨hattached, hstream ▸ id⟩) id
  | _ =>
    refine passes_unstreamed h hleft ?_ ?_
    · rintro o choice ⟨⟩
    · rintro o payload ⟨⟩

/-- The frames that were published since a state. -/
def framesSince (start s : State) : List Frame :=
  (framesFrom 0 s.published).drop start.published.length

/-- What has reached an attachment since it was installed: all frames, or all but
the one that a stream is about to send, or an initial part of them if a send has
failed and the attachment is about to be dropped. -/
structure Live (c : ℕ) (start s : State) (numbers : Output → ℕ) (live : List Frame) : Prop where
  left : (s.calls c).Left
  grown : start.published.length ≤ s.published.length
  enqueued : s.outputs c = start.outputs c ++ live.map Frame.payload
  sent : s.attachment = some c →
    (∃ o, (∀ o', (s.streams o').Pending c → o' = o) ∧
      ((∃ payload, s.streams o = .sending payload c ∧
          live ++ [⟨numbers o, payload⟩] = framesSince start s) ∨
        (s.streams o = .clearing c ∧ live <+: framesSince start s))) ∨
    ((∀ o, ¬(s.streams o).Pending c) ∧ live = framesSince start s)

namespace Live

variable {c : ℕ} {start s t : State} {numbers : Output → ℕ} {live : List Frame}

/-- A stream that is about to send is the only one that works on the attachment. -/
theorem of_sending (h : Live c start s numbers live) (hattached : s.attachment = some c)
    {o : Output} {payload : Payload} (ho : s.streams o = .sending payload c) :
    (∀ o', (s.streams o').Pending c → o' = o) ∧
      live ++ [⟨numbers o, payload⟩] = framesSince start s := by
  have hpending : (s.streams o).Pending c := by
    rw [ho]
    exact rfl
  rcases h.sent hattached with ⟨o', hunique, hcase⟩ | ⟨hnone, _⟩
  · obtain rfl := hunique o hpending
    rcases hcase with ⟨payload', ho', hlive⟩ | ⟨ho', _⟩
    · cases ho.symm.trans ho'
      exact ⟨hunique, hlive⟩
    · cases ho.symm.trans ho'
  · exact absurd hpending (hnone o)

/-- When no publication is under way, everything has reached the attachment. -/
theorem of_silent (h : Live c start s numbers live) (hattached : s.attachment = some c)
    (hsilent : s.Silent) :
    (∀ o, ¬(s.streams o).Pending c) ∧ live = framesSince start s := by
  have hnone : ∀ o, ¬(s.streams o).Pending c := by
    intro o hpending
    cases (hsilent.target o).symm.trans hpending.target
  refine ⟨hnone, ?_⟩
  rcases h.sent hattached with ⟨o, _, ⟨_, ho, _⟩ | ⟨ho, _⟩⟩ | ⟨_, hlive⟩
  · exact absurd (by rw [ho]; exact rfl) (hnone o)
  · exact absurd (by rw [ho]; exact rfl) (hnone o)
  · exact hlive

/-- What has reached the attachment is an initial part of what was published. -/
theorem is_initial (h : Live c start s numbers live) (hattached : s.attachment = some c) :
    live <+: framesSince start s := by
  rcases h.sent hattached with ⟨o, _, ⟨payload, _, hlive⟩ | ⟨_, hlive⟩⟩ | ⟨_, hlive⟩
  · rw [← hlive]
    exact List.prefix_append _ _
  · exact hlive
  · rw [hlive]

/-- Every step keeps the order, as long as chunks are published one after another. -/
theorem step {e : Event} (h : Live c start s numbers live) (hsound : Sound s)
    (hstep : step s e = some t) (hone : OneByOne s e) :
    Live c start t (nextNumbers s numbers e) (live ++ sentFrames c s numbers e) := by
  have hleft := (step_effect hstep).left hsound.targets h.left
  cases passes_of_step hstep h.left with
  | @sent o choice payload u ho hsend =>
    have houtputs := State.outputs_send hsend
    have hframes : sentFrames c s numbers (.stream o choice) = [⟨numbers o, payload⟩] := by
      simp [sentFrames, ho, hsend]
    obtain ⟨_, _, _, _, rfl⟩ := State.send_ok hsend
    rw [hframes]
    refine ⟨hleft, h.grown, ?_, fun hattached => .inr ⟨fun o' hpending => ?_, ?_⟩⟩
    · rw [List.map_append, ← List.append_assoc, ← h.enqueued]
      exact houtputs
    · obtain ⟨hunique, _⟩ := h.of_sending hattached ho
      rw [State.setStream_streams] at hpending
      by_cases hne : o' = o
      · rw [hne, Function.update_self] at hpending
        exact hpending
      · rw [Function.update_of_ne hne] at hpending
        exact hne (hunique o' hpending)
    · exact (h.of_sending hattached ho).2
  | @dropped o choice payload failure ho hsend =>
    have hframes : sentFrames c s numbers (.stream o choice) = [] := by
      simp [sentFrames, ho, hsend]
    rw [hframes, List.append_nil]
    refine ⟨hleft, h.grown, h.enqueued, fun hattached => .inl ⟨o, fun o' hpending => ?_, .inr ?_⟩⟩
    · by_contra hne
      rw [State.setStream_streams, Function.update_of_ne hne] at hpending
      exact hne ((h.of_sending hattached ho).1 o' hpending)
    · exact ⟨Function.update_self _ _ _, h.is_initial hattached⟩
  | @publish o payload hattached hreading =>
    obtain ⟨hnone, hlive⟩ := h.of_silent hattached hone
    have hframes : sentFrames c s numbers (.publish o payload) = [] := rfl
    rw [hframes, List.append_nil]
    refine ⟨hleft, ?_, h.enqueued, fun _ => .inl ⟨o, fun o' hpending => ?_, .inl ⟨payload, ?_, ?_⟩⟩⟩
    · exact h.grown.trans (List.prefix_append _ _).length_le
    · by_contra hne
      rw [State.setStream_streams, Function.update_of_ne hne] at hpending
      exact hnone o' hpending
    · exact Function.update_self _ _ _
    · have hgrown : start.published.length ≤ (framesFrom 0 s.published).length := by
        rw [length_framesFrom]
        exact h.grown
      have hframes : framesFrom 0 (s.published ++ [payload]) =
          framesFrom 0 s.published ++ [⟨s.published.length + 1, payload⟩] := by
        rw [framesFrom_append, Nat.zero_add]
      rw [hlive, nextNumbers, Function.update_self, hsound.history.nextSeq]
      exact (List.drop_append_of_le_length hgrown).symm.trans (congrArg (List.drop _) hframes.symm)
  | other hframes hnumbers houtputs hattachment =>
    rw [hframes numbers, List.append_nil]
    have hmore := Effect.published_prefix (step_effect hstep)
    have hgrown := h.grown.trans hmore.length_le
    refine ⟨hleft, hgrown, houtputs.trans h.enqueued, fun hattached => ?_⟩
    obtain ⟨hbefore, hpublished, hstreams⟩ := hattachment hattached
    have hsince : framesSince start t = framesSince start s := by
      rw [framesSince, hpublished, framesSince]
    have hback : ∀ o, (t.streams o).Pending c → (s.streams o).Pending c := by
      intro o hpending
      rcases hstreams o with heq | ⟨_, hafter⟩
      · rwa [heq] at hpending
      · exact absurd hpending hafter
    have hforth : ∀ o, (s.streams o).Pending c → t.streams o = s.streams o := by
      intro o hpending
      exact (hstreams o).resolve_right fun hnot => hnot.1 hpending
    rw [hsince]
    rcases h.sent hbefore with ⟨o, hunique, hcase⟩ | ⟨hnone, hlive⟩
    · have hpending : (s.streams o).Pending c := by
        rcases hcase with ⟨_, ho, _⟩ | ⟨ho, _⟩ <;> rw [ho] <;> exact rfl
      refine .inl ⟨o, fun o' ho' => hunique o' (hback o' ho'), ?_⟩
      rwa [hforth o hpending, hnumbers numbers o hpending]
    · exact .inr ⟨fun o ho => hnone o (hback o ho), hlive⟩

end Live

/-- The frames of later chunks have later numbers. -/
theorem pairwise_framesFrom (n : ℕ) (payloads : List Payload) :
    (framesFrom n payloads).Pairwise (·.seq < ·.seq) ∧ ∀ f ∈ framesFrom n payloads, n < f.seq := by
  induction payloads generalizing n with
  | nil => exact ⟨.nil, nofun⟩
  | cons payload payloads ih =>
    obtain ⟨hpairwise, hlater⟩ := ih (n + 1)
    refine ⟨List.pairwise_cons.mpr ⟨hlater, hpairwise⟩, fun f hf => ?_⟩
    rcases List.mem_cons.mp hf with rfl | hf
    · exact Nat.lt_succ_self n
    · exact Nat.lt_of_succ_lt (hlater f hf)

/-- A watched run is a run of the session. -/
theorem reachable_of_watched {ok : Watched → Event → Prop}
    (hrun : (watchedSystem c start).LeadsUnder ok w w') (hreach : (system id).Reachable w.session) :
    (system id).Reachable w'.session := by
  induction hrun with
  | refl => exact hreach
  | tail _ _ hnext ih =>
    obtain ⟨t, hstep, rfl⟩ := Option.map_eq_some_iff.mp hnext
    exact ih.next hstep

/-- The order of the live output along a run from the installation on. -/
theorem live_of_leads
    (hrun : (watchedSystem c start).LeadsUnder (fun w e => OneByOne w.session e) w w')
    (hreach : (system id).Reachable w.session) (h : Live c start w.session w.numbers w.live) :
    Live c start w'.session w'.numbers w'.live := by
  induction hrun with
  | refl => exact h
  | tail hbefore hone hnext ih =>
    obtain ⟨t, hstep, rfl⟩ := Option.map_eq_some_iff.mp hnext
    exact ih.step (sound_of_reachable (reachable_of_watched hbefore hreach)) hstep hone

/-- As long as chunks are published one after another, the frames that the streams
enqueue to an installed attachment have increasing numbers: they are the frames
published since the installation, up to a last one that is not yet sent. A replay
of what was published since then shows the same frames, as far as they are kept. -/
theorem live_output_in_order (id : String) {last installed : State} {c : ℕ} {request : Request}
    {choice : Bool} {w : Watched} (hreach : (system id).Reachable last)
    (hlast : last.calls c = .setAttachment request)
    (hinstall : (system id).next last (.call c choice) installed)
    (hrun : (watchedSystem c installed).LeadsUnder (fun w e => OneByOne w.session e)
      ⟨installed, fun _ => 0, []⟩ w)
    (hattached : w.session.attachment = some c) :
    w.live.Pairwise (·.seq < ·.seq) ∧
    w.session.outputs c = installed.outputs c ++ w.live.map Frame.payload ∧
    w.live <+: (framesFrom 0 w.session.published).drop installed.published.length ∧
    (w.session.Silent →
      w.live = (framesFrom 0 w.session.published).drop installed.published.length ∧
      (w.session.history.snapshotFramesAfter installed.published.length).1 <:+ w.live) := by
  have hsound := sound_of_reachable hreach
  have hinstalled : (system id).Reachable installed := hreach.next hinstall
  have hstart : Live c installed installed (fun _ => 0) [] := by
    obtain rfl : { last with attachment := some c }.goto c (.unlockAttach request) = installed := by
      simpa [system, System.ofStep, step, callStep, hlast] using hinstall
    refine ⟨?_, le_rfl, (List.append_nil _).symm, fun _ => .inr ⟨fun o hpending => ?_, ?_⟩⟩
    · rw [State.goto_self]
      trivial
    · -- nobody works on an attachment before it is installed
      have htarget := hsound.targets.streams o c hpending.target
      rw [hlast] at htarget
      exact htarget
    · rw [framesSince, List.drop_eq_nil_of_le (length_framesFrom _ _).le]
  have hlive := live_of_leads hrun hinstalled hstart
  have hinitial := hlive.is_initial hattached
  refine ⟨?_, hlive.enqueued, hinitial, fun hsilent => ?_⟩
  · exact ((pairwise_framesFrom 0 _).1.sublist (List.drop_sublist _ _)).sublist hinitial.sublist
  · obtain ⟨_, hall⟩ := hlive.of_silent hattached hsilent
    refine ⟨hall, ?_⟩
    have hsound := sound_of_reachable (reachable_of_watched hrun hinstalled)
    rw [hsound.history.snapshotFramesAfter, hall, framesSince]
    exact List.drop_suffix_drop_left _ (le_max_left _ _)

/-- A call up to the installation of its attachment, in a session without output. -/
def untilInstallation : List Event := untilFirstRound ++ [.call 0 true]

/-- The two streams publish one after the other. -/
theorem live_output_in_order_two : ∃ (last installed : State) (w : Watched),
    (system "t").Reachable last ∧ last.calls 0 = .setAttachment plainRequest ∧
    (system "t").next last (.call 0 true) installed ∧
    w.live = [⟨1, [1]⟩, ⟨2, [2]⟩] ∧
    w.live.Pairwise (·.seq < ·.seq) ∧
    w.session.outputs 0 = installed.outputs 0 ++ w.live.map Frame.payload := by
  have hrun : ∃ last installed w,
      runEvents step (initial "t") untilInstallation = some last ∧
      last.calls 0 = .setAttachment plainRequest ∧ step last (.call 0 true) = some installed ∧
      runEvents (fun (w : Watched) e => if OneByOne w.session e then watchedStep 0 w e else none)
        ⟨installed, fun _ => 0, []⟩
        [.publish .stdout [1], .stream .stdout true, .publish .stderr [2], .stream .stderr true] =
          some w ∧
      w.live = [⟨1, [1]⟩, ⟨2, [2]⟩] ∧ w.session.attachment = some 0 :=
    ⟨_, _, _, rfl, rfl, rfl, rfl, rfl, rfl⟩
  obtain ⟨last, installed, w, hlast, hphase, hinstall, hrun, hlive, hattached⟩ := hrun
  have hreach : (system "t").Reachable last := reachable_of_runEvents rfl hlast
  obtain ⟨horder, houtputs, _⟩ := live_output_in_order "t" hreach hphase hinstall
    (leadsUnder_of_runEvents hrun) hattached
  exact ⟨last, installed, w, hreach, hphase, hinstall, hlive, horder, houtputs⟩

/-- Both streams publish, and the one that published last sends first: the viewer
sees the second chunk before the first, and a replay shows them the other way. -/
theorem live_output_out_of_order : ∃ (last installed : State) (w : Watched),
    (system "t").Reachable last ∧ last.calls 0 = .setAttachment plainRequest ∧
    (system "t").next last (.call 0 true) installed ∧
    (watchedSystem 0 installed).Leads ⟨installed, fun _ => 0, []⟩ w ∧
    w.session.attachment = some 0 ∧ w.session.Silent ∧
    w.live = [⟨2, [2]⟩, ⟨1, [1]⟩] ∧ w.session.outputs 0 = [[2], [1]] ∧
    (w.session.history.snapshotFramesAfter 0).1 = [⟨1, [1]⟩, ⟨2, [2]⟩] := by
  have hrun : ∃ last installed w,
      runEvents step (initial "t") untilInstallation = some last ∧
      last.calls 0 = .setAttachment plainRequest ∧ step last (.call 0 true) = some installed ∧
      runEvents (watchedStep 0) ⟨installed, fun _ => 0, []⟩
        [.publish .stdout [1], .publish .stderr [2], .stream .stderr true, .stream .stdout true] =
          some w ∧
      w.session.attachment = some 0 ∧ w.session.Silent ∧ w.live = [⟨2, [2]⟩, ⟨1, [1]⟩] ∧
      w.session.outputs 0 = [[2], [1]] ∧ w.session.published = [[1], [2]] :=
    ⟨_, _, _, rfl, rfl, rfl, rfl, rfl, ⟨rfl, rfl⟩, rfl, rfl, rfl⟩
  obtain ⟨last, installed, w, hlast, hphase, hinstall, hrun, hattached, hsilent, hlive, houtputs,
    hpublished⟩ := hrun
  have hreach : (system "t").Reachable last := reachable_of_runEvents rfl hlast
  have hwatched : (watchedSystem 0 installed).Leads ⟨installed, fun _ => 0, []⟩ w :=
    leads_of_runEvents hrun
  refine ⟨last, installed, w, hreach, hphase, hinstall, hwatched, hattached, hsilent, hlive,
    houtputs, ?_⟩
  have hsound := sound_of_reachable (reachable_of_watched hwatched (hreach.next hinstall))
  rw [hsound.history.snapshotFramesAfter, hpublished]
  rfl

end MiniControl.Terminal
