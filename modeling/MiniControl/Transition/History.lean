import MiniControl.Transition.System

/-!
# Histories

Some steps of a system are visible from outside, and a step may then be described by
entries of another kind than its event. A history is the list of the entries of a run in
the order of its steps. A system refines a specification when every entry of a history is
an event of the specification.
-/

namespace Transition

variable {State Event Entry Abstract : Type*} {init : State → Prop}
  {step : State → Event → Option State} {s t : State} {es : List Event}

/-- A run together with the list of its events. -/
inductive System.Trace (sys : System State Event) : State → List Event → State → Prop
  | refl (s : State) : Trace sys s [] s
  | tail {s t u : State} {es : List Event} {e : Event} : Trace sys s es t → sys.next t e u →
      Trace sys s (es ++ [e]) u

namespace System.Trace

variable {sys : System State Event} {s t u : State} {es : List Event}

/-- A single event. -/
theorem single {e : Event} (h : sys.next s e t) : sys.Trace s [e] t :=
  .tail (.refl s) h

/-- Traces continue traces. -/
theorem append {es es' : List Event} (h : sys.Trace s es t) (h' : sys.Trace t es' u) :
    sys.Trace s (es ++ es') u := by
  induction h' with
  | refl => rwa [List.append_nil]
  | tail _ hnext ih =>
    rw [← List.append_assoc]
    exact .tail ih hnext

/-- A trace belongs to a run. -/
theorem leads (h : sys.Trace s es t) : sys.Leads s t := by
  induction h with
  | refl => exact .refl _
  | tail _ hnext ih => exact ih.next hnext

/-- A property of the events so far and the state that every step out of a reachable state
preserves holds along every trace. -/
theorem invariant {P : List Event → State → Prop} (h : sys.Trace s es t) (hs : sys.Reachable s)
    (hinit : P [] s)
    (hstep : ∀ es t e u, sys.Reachable t → sys.next t e u → P es t → P (es ++ [e]) u) :
    P es t := by
  induction h with
  | refl => exact hinit
  | tail hpre hnext ih => exact hstep _ _ _ _ (hpre.leads.reachable hs) hnext ih

end System.Trace

/-- A run together with the entries that its steps give. -/
inductive System.History (sys : System State Event) (entries : State → Event → State → List Entry) :
    State → List Entry → State → Prop
  | refl (s : State) : History sys entries s [] s
  | tail {s t u : State} {log : List Entry} {e : Event} : History sys entries s log t →
      sys.next t e u → History sys entries s (log ++ entries t e u) u

namespace System.History

variable {sys : System State Event} {entries : State → Event → State → List Entry}
  {s t : State} {log : List Entry}

/-- A history belongs to a run. -/
theorem leads (h : sys.History entries s log t) : sys.Leads s t := by
  induction h with
  | refl => exact .refl _
  | tail _ hnext ih => exact ih.next hnext

/-- A property of the history and the state that every step out of a reachable state
preserves holds along every history. -/
theorem invariant {P : List Entry → State → Prop} (h : sys.History entries s log t)
    (hs : sys.Reachable s) (hinit : P [] s)
    (hstep : ∀ log t e u, sys.Reachable t → sys.next t e u → P log t → P (log ++ entries t e u) u) :
    P log t := by
  induction h with
  | refl => exact hinit
  | tail hpre hnext ih => exact hstep _ _ _ _ (hpre.leads.reachable hs) hnext ih

end System.History

/-- Take the listed events one after another, and collect the entries. -/
def runHistory (step : State → Event → Option State) (entries : State → Event → State → List Entry)
    (s : State) : List Event → Option (List Entry × State)
  | [] => some ([], s)
  | e :: es => (step s e).bind fun t =>
      (runHistory step entries t es).map fun r => (entries s e t ++ r.1, r.2)

/-- An evaluated list of events has the collected history. -/
theorem history_of_runHistory {entries : State → Event → State → List Entry} {log : List Entry}
    (h : runHistory step entries s es = some (log, t)) :
    (System.ofStep init step).History entries s log t := by
  have key : ∀ es u before after, (System.ofStep init step).History entries s before u →
      runHistory step entries u es = some (after, t) →
      (System.ofStep init step).History entries s (before ++ after) t := by
    intro es
    induction es with
    | nil =>
      intro u before after hu h
      cases h
      rwa [List.append_nil]
    | cons e es ih =>
      intro u before after hu h
      obtain ⟨v, hv, hrest⟩ := Option.bind_eq_some_iff.mp h
      obtain ⟨⟨rest, _⟩, hrun, heq⟩ := Option.map_eq_some_iff.mp hrest
      cases heq
      rw [← List.append_assoc]
      exact ih v _ rest (.tail hu hv) hrun
  exact key es s [] log (.refl s) h

end Transition
