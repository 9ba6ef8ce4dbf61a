import DecimalScript.Machine.Step

/-!
# What an evaluation passes through

An outcome holds only the machine at the end. The machines in between are those at which a
breakpoint would be noticed: with a breakpoint, evaluation looks at the machine whenever it is about
to evaluate an expression or to execute a statement, and ends with a failure at the machine that the
breakpoint is for. An evaluation passes through a machine if a breakpoint for it changes the
outcome.

Nothing catches failures, so no evaluation gets past a breakpoint; and one that never comes to the
machine cannot tell that there is a breakpoint.
-/

namespace DecimalScript

/-- Evaluates unless it has to stop: a failure for the machine ends the evaluation there. -/
def Eval.stopping {α : Type} (stop : Machine → Option Failure) (x : Eval α) : Eval α :=
  fun m =>
    match stop m with
    | some failure => .failed failure m
    | none => x m

namespace Breakpoint

mutual

/-- The value of an expression, with a look at the machine before every step. -/
def evalExpr (stop : Machine → Option Failure) (limits : Limits) : (budget : Nat) → Expr → Eval Value
  | 0, _ => Eval.stopping stop Eval.exhaust
  | budget + 1, e => Eval.stopping stop fun m =>
    Step.expr limits (evalExpr stop limits budget)
      (Eval.sequence (execStmt stop limits budget) none) e m

/-- The effect of a statement, with a look at the machine before every step. -/
def execStmt (stop : Machine → Option Failure) (limits : Limits) :
    (budget : Nat) → Stmt → Eval (Option Value)
  | 0, _ => Eval.stopping stop Eval.exhaust
  | budget + 1, s => Eval.stopping stop fun m =>
    Step.stmt limits budget (evalExpr stop limits budget) (execStmt stop limits budget) s m

end

open Classical in
/-- The breakpoint for one machine. -/
noncomputable def only (k : Machine) (failure : Failure) (m : Machine) : Option Failure :=
  if m = k then some failure else none

theorem only_self (k : Machine) (failure : Failure) : only k failure k = some failure :=
  if_pos rfl

theorem only_ne {k m : Machine} (h : m ≠ k) (failure : Failure) : only k failure m = none :=
  if_neg h

end Breakpoint

/-- What is done with the evaluation of expressions and of statements. -/
abbrev Usage (α : Type) : Type :=
  (Expr → Eval Value) → (Stmt → Eval (Option Value)) → Eval α

namespace Usage

variable {α : Type} {limits : Limits} {budget : Nat} {m k : Machine}

/-- Started from the machine `m`, what `x` does passes through the machine `k`. -/
def Passes (x : Usage α) (limits : Limits) (budget : Nat) (m k : Machine) : Prop :=
  ∃ failure,
    x (Breakpoint.evalExpr (Breakpoint.only k failure) limits budget)
        (Breakpoint.execStmt (Breakpoint.only k failure) limits budget) m ≠
      x (evalExpr limits budget) (execStmt limits budget) m

/-- What every breakpoint for `k` ends, with a failure about the same fault, passes through `k`: on
its own it cannot end with all of these failures. -/
theorem passes_of_stops {x : Usage α}
    (h : ∀ failure, ∃ failure' later, failure'.fault = failure.fault ∧
      x (Breakpoint.evalExpr (Breakpoint.only k failure) limits budget)
        (Breakpoint.execStmt (Breakpoint.only k failure) limits budget) m = .failed failure' later) :
    x.Passes limits budget m k := by
  obtain ⟨first, later, hfirst, hend⟩ := h ⟨.runtime .noValue, ⟨none, .start, .start⟩, none⟩
  obtain ⟨second, later', hsecond, hend'⟩ :=
    h ⟨.runtime (.undeclaredFunction ""), ⟨none, .start, .start⟩, none⟩
  by_cases hsame : x (evalExpr limits budget) (execStmt limits budget) m = .failed first later
  · refine ⟨⟨.runtime (.undeclaredFunction ""), ⟨none, .start, .start⟩, none⟩, ?_⟩
    rw [hend', hsame]
    intro heq
    injection heq with hfailure
    rw [← hfailure, hsecond] at hfirst
    cases hfirst
  · refine ⟨⟨.runtime .noValue, ⟨none, .start, .start⟩, none⟩, ?_⟩
    rw [hend]
    exact fun heq => hsame heq.symm

end Usage

end DecimalScript
