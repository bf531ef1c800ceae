import Mathlib.Tactic.Common

/-!
# Programs that issue commands

A program either returns a value or issues a command and continues with the
reply. What a program guarantees is stated by a weakest precondition over a step
relation that says which replies and which new states a command may have, so that
the same program can be judged in friendly and in hostile environments.
-/

namespace Transition

/-- A program over commands and replies. -/
inductive Prog (Command Reply α : Type)
  | done (value : α)
  | call (command : Command) (next : Reply → Prog Command Reply α)

namespace Prog

variable {Command Reply State α β : Type}

/-- Continue with the value of a program. -/
def bind : Prog Command Reply α → (α → Prog Command Reply β) → Prog Command Reply β
  | done value, f => f value
  | call c next, f => call c fun reply => (next reply).bind f

instance : Monad (Prog Command Reply) where
  pure := done
  bind := bind

/-- Issue one command and return the reply. -/
def issue (c : Command) : Prog Command Reply Reply := call c done

/-- Every command that the program issues meets `pre` in the state in which it is
issued, and the value that it returns meets `post` in the state at the end. -/
def wp (step : State → Command → Reply → State → Prop) (pre : State → Command → Prop)
    (post : α → State → Prop) : Prog Command Reply α → State → Prop
  | done value, s => post value s
  | call c next, s => pre s c ∧ ∀ reply t, step s c reply t → (next reply).wp step pre post t

variable {step : State → Command → Reply → State → Prop} {pre : State → Command → Prop}
  {post : α → State → Prop} {s : State} {c : Command}

/-- A program that returns a value. -/
@[simp]
theorem wp_pure {value : α} :
    (pure value : Prog Command Reply α).wp step pre post s ↔ post value s :=
  Iff.rfl

/-- Programs run one after the other. -/
@[simp]
theorem wp_bind {p : Prog Command Reply β} {f : β → Prog Command Reply α} :
    (p >>= f).wp step pre post s ↔ p.wp step pre (fun value => (f value).wp step pre post) s := by
  induction p generalizing s with
  | done value => exact Iff.rfl
  | call c next ih =>
    refine and_congr Iff.rfl (forall_congr' fun reply => forall_congr' fun t => ?_)
    exact imp_congr Iff.rfl (ih reply)

/-- One command. -/
@[simp]
theorem wp_issue {post : Reply → State → Prop} :
    (issue c).wp step pre post s ↔ pre s c ∧ ∀ reply t, step s c reply t → post reply t :=
  Iff.rfl

/-- A weaker postcondition. -/
theorem wp_mono {post' : α → State → Prop} {p : Prog Command Reply α} (h : p.wp step pre post s)
    (hpost : ∀ value t, post value t → post' value t) :
    p.wp step pre post' s := by
  induction p generalizing s with
  | done value => exact hpost value s h
  | call c next ih => exact ⟨h.1, fun reply t hstep => ih reply (h.2 reply t hstep)⟩

/-- A postcondition that holds whatever happens. -/
theorem wp_of_forall {p : Prog Command Reply α} (hpost : ∀ value t, post value t) :
    p.wp step (fun _ _ => True) post s := by
  induction p generalizing s with
  | done value => exact hpost value s
  | call c next ih => exact ⟨trivial, fun reply t _ => ih reply⟩

/-- A weaker condition on the commands. -/
theorem wp_weaken {pre' : State → Command → Prop} {p : Prog Command Reply α}
    (h : p.wp step pre post s) (hpre : ∀ s c, pre s c → pre' s c) : p.wp step pre' post s := by
  induction p generalizing s with
  | done value => exact h
  | call c next ih => exact ⟨hpre s c h.1, fun reply t hstep => ih reply (h.2 reply t hstep)⟩

/-- What others do to the state before the program goes on does not matter, if the steps of
the program allow for it and the conditions survive it. -/
theorem wp_of_interference {others : State → State → Prop}
    (hstep : ∀ s t c reply u, others s t → step t c reply u → step s c reply u)
    (hpre : ∀ s t c, others s t → pre s c → pre t c)
    (hpost : ∀ value s t, others s t → post value s → post value t)
    {p : Prog Command Reply α} {s t : State} (hothers : others s t) (h : p.wp step pre post s) :
    p.wp step pre post t := by
  cases p with
  | done value => exact hpost value s t hothers h
  | call c next =>
    exact ⟨hpre s t c hothers h.1, fun reply u hu => h.2 reply u (hstep s t c reply u hothers hu)⟩

/-- Whatever the replies are, every command that the program issues meets `P`,
and the value that it returns meets `Q`. -/
def Issues (P : Command → Prop) (Q : α → Prop) (p : Prog Command Reply α) : Prop :=
  p.wp (fun (_ : Unit) _ _ _ => True) (fun _ => P) (fun value _ => Q value) ()

variable {P : Command → Prop} {Q : α → Prop} {R : β → Prop}

/-- A program that has issued a command continues to issue allowed ones. -/
theorem Issues.next {next : Reply → Prog Command Reply α} (h : (call c next).Issues P Q)
    (reply : Reply) : (next reply).Issues P Q :=
  h.2 reply () trivial

/-- Programs run one after the other. -/
theorem Issues.bind {p : Prog Command Reply α} {f : α → Prog Command Reply β} (hp : p.Issues P Q)
    (hf : ∀ value, Q value → (f value).Issues P R) : (p >>= f).Issues P R :=
  wp_bind.mpr (wp_mono hp fun value _ hvalue => hf value hvalue)

/-- One allowed command. -/
theorem Issues.issue (h : P c) :
    (Prog.issue c : Prog Command Reply Reply).Issues P fun _ => True :=
  ⟨h, fun _ _ _ => trivial⟩

/-- What every allowed command keeps of the state, the program keeps. -/
theorem Issues.wp_keeps {I : State → Prop} {p : Prog Command Reply α} (h : p.Issues P Q)
    (hkeeps : ∀ s c reply t, P c → I s → step s c reply t → I t) (hs : I s) :
    p.wp step (fun _ _ => True) (fun value t => Q value ∧ I t) s := by
  induction p generalizing s with
  | done value => exact ⟨h, hs⟩
  | call c next ih =>
    refine ⟨trivial, fun reply t hstep => ih reply (h.next reply) ?_⟩
    exact hkeeps s c reply t h.1 hs hstep

section Run

variable {Env : Type} (answer : Env → Command → Reply × Env)

/-- Run the program in an environment that answers every command. -/
def run : Prog Command Reply α → Env → α × Env
  | done value, env => (value, env)
  | call c next, env => (next (answer env c).1).run (answer env c).2

/-- Programs run one after the other. -/
@[simp]
theorem run_bind (p : Prog Command Reply β) (f : β → Prog Command Reply α) (env : Env) :
    (p >>= f).run answer env = (f (p.run answer env).1).run answer (p.run answer env).2 := by
  induction p generalizing env with
  | done value => rfl
  | call c next ih => exact ih _ _

/-- A program that returns a value. -/
@[simp]
theorem run_pure (value : α) (env : Env) :
    (pure value : Prog Command Reply α).run answer env = (value, env) :=
  rfl

/-- The commands of a run, each with the environment in which it was issued. -/
def trace : Prog Command Reply α → Env → List (Env × Command)
  | done _, _ => []
  | call c next, env => (env, c) :: (next (answer env c).1).trace (answer env c).2

/-- The commands of a run that starts with a command. -/
theorem trace_issue_bind (c : Command) (f : Reply → Prog Command Reply α) (env : Env) :
    (issue c >>= f).trace answer env =
      (env, c) :: (f (answer env c).1).trace answer (answer env c).2 :=
  rfl

variable {answer} {env : Env}

/-- What the weakest precondition promises holds at the end of a run in an
environment whose answers are steps. -/
theorem post_run (view : Env → State)
    (hanswer : ∀ env c, step (view env) c (answer env c).1 (view (answer env c).2))
    {p : Prog Command Reply α} (h : p.wp step pre post (view env)) :
    post (p.run answer env).1 (view (p.run answer env).2) := by
  induction p generalizing env with
  | done value => exact h
  | call c next ih => exact ih _ (h.2 _ _ (hanswer env c))

/-- Every command of a run meets what the weakest precondition asks for. -/
theorem pre_of_mem_trace (view : Env → State)
    (hanswer : ∀ env c, step (view env) c (answer env c).1 (view (answer env c).2))
    {p : Prog Command Reply α} {env e : Env} {c : Command} (h : p.wp step pre post (view env))
    (hmem : (e, c) ∈ p.trace answer env) : pre (view e) c := by
  induction p generalizing env with
  | done value => cases hmem
  | call c next ih =>
    rcases List.mem_cons.mp hmem with heq | hmem
    · cases heq
      exact h.1
    · exact ih _ (h.2 _ _ (hanswer env c)) hmem

/-- What every allowed command keeps of the state, a run keeps. -/
theorem guarantee_run (view : Env → State)
    (hanswer : ∀ env c, step (view env) c (answer env c).1 (view (answer env c).2))
    {keeps : State → State → Prop} (hrefl : ∀ s, keeps s s)
    (htrans : ∀ s t u, keeps s t → keeps t u → keeps s u)
    (hkeeps : ∀ s c reply t, pre s c → step s c reply t → keeps s t) {p : Prog Command Reply α}
    (h : p.wp step pre post (view env)) :
    keeps (view env) (view (p.run answer env).2) := by
  induction p generalizing env with
  | done value => exact hrefl _
  | call c next ih =>
    exact htrans _ _ _ (hkeeps _ _ _ _ h.1 (hanswer env c)) (ih _ (h.2 _ _ (hanswer env c)))

/-- A relation between environments under which every allowed command is answered in the
same way, and which the answers keep, is invisible to a program: both runs issue the same
commands and return the same value. -/
theorem run_related (view : Env → State)
    (hanswer : ∀ env c, step (view env) c (answer env c).1 (view (answer env c).2))
    {related : Env → Env → Prop}
    (hrelated : ∀ env env' c, pre (view env) c → related env env' →
      (answer env c).1 = (answer env' c).1 ∧ related (answer env c).2 (answer env' c).2)
    {p : Prog Command Reply α} {env env' : Env} (h : p.wp step pre post (view env))
    (henv : related env env') :
    (p.run answer env).1 = (p.run answer env').1 ∧
      related (p.run answer env).2 (p.run answer env').2 ∧
      (p.trace answer env).map Prod.snd = (p.trace answer env').map Prod.snd := by
  induction p generalizing env env' with
  | done value => exact ⟨rfl, henv, rfl⟩
  | call c next ih =>
    obtain ⟨hreply, hnext⟩ := hrelated env env' c h.1 henv
    obtain ⟨hvalue, hend, htrace⟩ := ih _ (h.2 _ _ (hanswer env c)) hnext
    simp only [run, trace, List.map_cons, ← hreply]
    exact ⟨hvalue, hend, by rw [htrace]⟩

/-- The value of a run in any environment is one that the program may return. -/
theorem Issues.run {p : Prog Command Reply α} (h : p.Issues P Q)
    (answer : Env → Command → Reply × Env) (env : Env) :
    Q (p.run answer env).1 :=
  post_run (fun _ => ()) (fun _ _ => trivial) h

end Run

end Prog

end Transition
