import MiniControl.Transition.System
import Mathlib.Data.Nat.Notation
import Mathlib.Logic.Function.Basic

/-!
# Threads over a shared state

A program says what one thread may do with the shared state and its own local
state. Any number of threads run interleaved, one action at a time. The proof
rule asks, for every action, what it does to the shared state and to its own
thread, and that the assertions of the other threads survive it.
-/

namespace Transition

/-- A shared state with the local state of every thread. -/
structure Threads (Shared Local : Type*) where
  shared : Shared
  locals : ℕ → Local

/-- The actions of a thread on the shared state and its local state; `none`
means that the action is not enabled. -/
structure Program (Shared Local Action : Type*) where
  act : Shared → ℕ → Local → Action → Option (Shared × Local)

namespace Program

variable {Shared Local Action : Type*} (p : Program Shared Local Action)

/-- One thread takes one action. -/
def step (s : Threads Shared Local) (e : ℕ × Action) : Option (Threads Shared Local) :=
  (p.act s.shared e.1 (s.locals e.1) e.2).map fun r => ⟨r.1, Function.update s.locals e.1 r.2⟩

/-- All interleavings of the threads. -/
def system (init : Threads Shared Local → Prop) : System (Threads Shared Local) (ℕ × Action) :=
  System.ofStep init p.step

variable {p}

/-- A step is an action of one thread. -/
theorem step_eq_some {s t : Threads Shared Local} {i : ℕ} {a : Action} :
    p.step s (i, a) = some t ↔ ∃ sh l, p.act s.shared i (s.locals i) a = some (sh, l) ∧
      t = ⟨sh, Function.update s.locals i l⟩ := by
  simp only [step, Option.map_eq_some_iff, Prod.exists]
  constructor
  · rintro ⟨sh, l, hact, rfl⟩
    exact ⟨sh, l, hact, rfl⟩
  · rintro ⟨sh, l, hact, rfl⟩
    exact ⟨sh, l, hact, rfl⟩

/-- Assertions on threads hold in every reached state when they hold initially,
every action establishes the one of its own thread, and none breaks the one of
another thread. -/
theorem invariant {init : Threads Shared Local → Prop}
    {ok : Threads Shared Local → ℕ × Action → Prop} {I : Shared → Prop}
    {A : Shared → ℕ → Local → Prop}
    (hinit : ∀ s, init s → I s.shared ∧ ∀ i, A s.shared i (s.locals i))
    (hown : ∀ s i a sh l, ok s (i, a) → I s.shared → A s.shared i (s.locals i) →
      p.act s.shared i (s.locals i) a = some (sh, l) → I sh ∧ A sh i l)
    (hother : ∀ s i a sh l j, ok s (i, a) → I s.shared → A s.shared i (s.locals i) → j ≠ i →
      A s.shared j (s.locals j) → p.act s.shared i (s.locals i) a = some (sh, l) →
      A sh j (s.locals j))
    {s : Threads Shared Local} (h : (p.system init).ReachableUnder ok s) :
    I s.shared ∧ ∀ i, A s.shared i (s.locals i) := by
  refine System.ReachableUnder.invariant (P := fun s => I s.shared ∧ ∀ i, A s.shared i (s.locals i))
    hinit ?_ h
  rintro s ⟨i, a⟩ t _ hok hnext ⟨hI, hA⟩
  obtain ⟨sh, l, hact, rfl⟩ := step_eq_some.mp hnext
  obtain ⟨hI', hA'⟩ := hown s i a sh l hok hI (hA i) hact
  refine ⟨hI', fun j => ?_⟩
  by_cases hj : j = i
  · subst hj
    simpa using hA'
  · simpa [Function.update_of_ne hj] using hother s i a sh l j hok hI (hA i) hj (hA j) hact

end Program

end Transition
