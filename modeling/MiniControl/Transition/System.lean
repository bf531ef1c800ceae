import Mathlib.Logic.Relation

/-!
# Labelled systems, their runs and their invariants

A system has initial states and a step relation labelled by events; an event
carries every choice that the step makes. Reachability is restricted by a
condition on the events that may be taken, so that one notion covers all runs
and the runs that avoid a given event. Executable step functions give systems
whose concrete runs can be evaluated.
-/

namespace Transition

/-- Initial states and a step relation labelled by events. -/
structure System (State Event : Type*) where
  /-- The states in which a run may start. -/
  init : State → Prop
  /-- `next s e t` holds when event `e` may lead from `s` to `t`. -/
  next : State → Event → State → Prop

variable {State Event : Type*} {step : State → Event → Option State} {s t : State} {es : List Event}
  {init : State → Prop} {ok : State → Event → Prop} {impl : System State Event}

/-- The states that runs reach when every event taken meets `ok` in the state
in which it is taken. -/
inductive System.ReachableUnder (sys : System State Event) (ok : State → Event → Prop) :
    State → Prop
  | init {s : State} : sys.init s → ReachableUnder sys ok s
  | step {s t : State} {e : Event} : ReachableUnder sys ok s → ok s e → sys.next s e t →
      ReachableUnder sys ok t

/-- The states that unrestricted runs reach. -/
def System.Reachable (sys : System State Event) : State → Prop :=
  sys.ReachableUnder fun _ _ => True

/-- A finite run from one state to another whose events all meet `ok`. -/
inductive System.LeadsUnder (sys : System State Event) (ok : State → Event → Prop) :
    State → State → Prop
  | refl (s : State) : LeadsUnder sys ok s s
  | tail {s t u : State} {e : Event} : LeadsUnder sys ok s t → ok t e → sys.next t e u →
      LeadsUnder sys ok s u

/-- A finite run from one state to another, with no restriction on its events. -/
def System.Leads (sys : System State Event) : State → State → Prop :=
  sys.LeadsUnder fun _ _ => True

namespace System

variable {sys : System State Event} {ok : State → Event → Prop} {s t : State}
  {ok' : State → Event → Prop} {e : Event} {P : State → Prop}

/-- Restricted runs are runs. -/
theorem ReachableUnder.reachable (h : sys.ReachableUnder ok s) :
    sys.Reachable s := by
  induction h with
  | init hinit => exact .init hinit
  | step _ _ hnext ih => exact .step ih trivial hnext

/-- What is reached under a condition is reached under a weaker one. -/
theorem ReachableUnder.mono (hok : ∀ s e, ok s e → ok' s e) (h : sys.ReachableUnder ok s) :
    sys.ReachableUnder ok' s := by
  induction h with
  | init hinit => exact .init hinit
  | step _ hallowed hnext ih => exact .step ih (hok _ _ hallowed) hnext

/-- One more allowed event, named in front of the facts about it. -/
theorem ReachableUnder.take (h : sys.ReachableUnder ok s) (e : Event) (hok : ok s e)
    (hnext : sys.next s e t) : sys.ReachableUnder ok t :=
  .step h hok hnext

/-- One more step of an unrestricted run. -/
theorem Reachable.next (h : sys.Reachable s) (hnext : sys.next s e t) :
    sys.Reachable t :=
  ReachableUnder.step h trivial hnext

/-- Runs continue runs. -/
theorem LeadsUnder.reachable (hrun : sys.LeadsUnder ok s t) (h : sys.ReachableUnder ok s) :
    sys.ReachableUnder ok t := by
  induction hrun with
  | refl => exact h
  | tail _ hok hnext ih => exact .step ih hok hnext

/-- Restricted runs are runs. -/
theorem LeadsUnder.leads (hrun : sys.LeadsUnder ok s t) : sys.Leads s t := by
  induction hrun with
  | refl => exact .refl _
  | tail _ _ hnext ih => exact .tail ih trivial hnext

/-- Runs under a condition are runs under a weaker one. -/
theorem LeadsUnder.mono (hok : ∀ s e, ok s e → ok' s e) (hrun : sys.LeadsUnder ok s t) :
    sys.LeadsUnder ok' s t := by
  induction hrun with
  | refl => exact .refl _
  | tail _ h hnext ih => exact .tail ih (hok _ _ h) hnext

/-- One more step of an unrestricted run. -/
theorem Leads.next {s t u : State} (hrun : sys.Leads s t) (hnext : sys.next t e u) :
    sys.Leads s u :=
  LeadsUnder.tail hrun trivial hnext

/-- Unrestricted runs continue unrestricted runs. -/
theorem Leads.reachable (hrun : sys.Leads s t) (h : sys.Reachable s) :
    sys.Reachable t :=
  LeadsUnder.reachable hrun h

/-- A property of all initial states that every allowed step out of a reached
state preserves holds in every reached state. -/
theorem ReachableUnder.invariant (hinit : ∀ s, sys.init s → P s)
    (hstep : ∀ s e t, sys.ReachableUnder ok s → ok s e → sys.next s e t → P s → P t)
    (h : sys.ReachableUnder ok s) : P s := by
  induction h with
  | init hs => exact hinit _ hs
  | step hreach hok hnext ih => exact hstep _ _ _ hreach hok hnext ih

/-- A property that every allowed step out of a reachable state preserves holds at
the end of every allowed run out of a reachable state in which it holds. -/
theorem LeadsUnder.invariant
    (hstep : ∀ s e t, sys.Reachable s → ok s e → sys.next s e t → P s → P t)
    (hrun : sys.LeadsUnder ok s t) (hreach : sys.Reachable s) (hs : P s) : P t := by
  induction hrun with
  | refl => exact hs
  | tail hpre hok hnext ih => exact hstep _ _ _ (hpre.leads.reachable hreach) hok hnext ih

/-- The same for unrestricted runs. -/
theorem Leads.invariant (hstep : ∀ s e t, sys.Reachable s → sys.next s e t → P s → P t)
    (hrun : sys.Leads s t) (hreach : sys.Reachable s) (hs : P s) : P t :=
  LeadsUnder.invariant (fun s e t hreach _ => hstep s e t hreach) hrun hreach hs

end System

/-- The system of an executable step function; `none` means that the event is
not enabled. -/
def System.ofStep (init : State → Prop) (step : State → Event → Option State) :
    System State Event where
  init := init
  next s e t := step s e = some t

/-- Take the listed events one after another. -/
def runEvents (step : State → Event → Option State) (s : State) : List Event → Option State
  | [] => some s
  | e :: es => (step s e).bind fun t => runEvents step t es

/-- One event before the listed ones. -/
theorem runEvents_cons {e : Event} (h : step s e = some t) :
    runEvents step s (e :: es) = runEvents step t es := by
  rw [runEvents, h, Option.bind_some]

/-- One more event after the listed ones. -/
theorem runEvents_concat (h : runEvents step s es = some t) (e : Event) :
    runEvents step s (es ++ [e]) = step t e := by
  induction es generalizing s with
  | nil =>
    cases h
    exact Option.bind_fun_some (step t e)
  | cons first es ih =>
    obtain ⟨u, hu, hrest⟩ := Option.bind_eq_some_iff.mp h
    rw [List.cons_append, runEvents, hu, Option.bind_some]
    exact ih hrest

/-- An evaluated list of events is a run of the system. -/
theorem leads_of_runEvents (h : runEvents step s es = some t) :
    (System.ofStep init step).Leads s t := by
  have key : ∀ u, (System.ofStep init step).Leads s u → ∀ es, runEvents step u es = some t →
      (System.ofStep init step).Leads s t := by
    intro u hu es
    induction es generalizing u with
    | nil =>
      intro h
      rwa [← Option.some.inj h]
    | cons e es ih =>
      intro h
      obtain ⟨v, hv, hrest⟩ := Option.bind_eq_some_iff.mp h
      exact ih v (hu.next hv) hrest
  exact key s (.refl s) es h

/-- An evaluated list of events from an initial state reaches its result. -/
theorem reachable_of_runEvents (hs : init s) (h : runEvents step s es = some t) :
    (System.ofStep init step).Reachable t :=
  (leads_of_runEvents h).reachable (.init hs)

/-- An evaluated list of events that meet a condition is a run under that condition. -/
theorem leadsUnder_of_runEvents [∀ s e, Decidable (ok s e)]
    (h : runEvents (fun s e => if ok s e then step s e else none) s es = some t) :
    (System.ofStep init step).LeadsUnder ok s t := by
  have key : ∀ u, (System.ofStep init step).LeadsUnder ok s u → ∀ es,
      runEvents (fun s e => if ok s e then step s e else none) u es = some t →
      (System.ofStep init step).LeadsUnder ok s t := by
    intro u hu es
    induction es generalizing u with
    | nil =>
      intro h
      rwa [← Option.some.inj h]
    | cons e es ih =>
      intro h
      obtain ⟨v, hv, hrest⟩ := Option.bind_eq_some_iff.mp h
      obtain ⟨hok, hnext⟩ := Option.ite_none_right_eq_some.mp hv
      exact ih v (.tail hu hok hnext) hrest
  exact key s (.refl s) es h

/-- Such a list of events from an initial state reaches its result. -/
theorem reachableUnder_of_runEvents [∀ s e, Decidable (ok s e)] (hs : init s)
    (h : runEvents (fun s e => if ok s e then step s e else none) s es = some t) :
    (System.ofStep init step).ReachableUnder ok t :=
  (leadsUnder_of_runEvents h).reachable (.init hs)

/-- A function between states simulates when initial states are mapped to
initial states and every step out of a reachable state to a run. -/
structure Simulation {Abstract Action : Type*} (impl : System State Event)
    (spec : System Abstract Action) (abs : State → Abstract) : Prop where
  init : ∀ s, impl.init s → spec.init (abs s)
  step : ∀ s e t, impl.Reachable s → impl.next s e t → spec.Leads (abs s) (abs t)

/-- Simulated states are reachable in the abstract system. -/
theorem Simulation.reachable {Abstract Action : Type*} {spec : System Abstract Action}
    {abs : State → Abstract} (sim : Simulation impl spec abs) (h : impl.Reachable s) :
    spec.Reachable (abs s) := by
  induction h with
  | init hs => exact .init (sim.init _ hs)
  | step hreach _ hnext ih => exact (sim.step _ _ _ hreach hnext).reachable ih

/-- A function between states maps restricted runs to restricted runs when it
maps initial states to initial states and allowed steps to allowed steps. -/
theorem System.ReachableUnder.map {Abstract Action : Type*} {spec : System Abstract Action}
    {abs : State → Abstract} {ok' : Abstract → Action → Prop}
    (hinit : ∀ s, impl.init s → spec.init (abs s))
    (hstep : ∀ s e t, ok s e → impl.next s e t → ∃ a, ok' (abs s) a ∧ spec.next (abs s) a (abs t))
    (h : impl.ReachableUnder ok s) : spec.ReachableUnder ok' (abs s) := by
  induction h with
  | init hs => exact .init (hinit _ hs)
  | step _ hok hnext ih =>
    obtain ⟨a, hok', hnext'⟩ := hstep _ _ _ hok hnext
    exact .step ih hok' hnext'

end Transition
