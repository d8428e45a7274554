import NilSafety.Proofs.Evaluation.Disciplines

/-!
Contract: properties of all computations at once.

Owns:
- laws: properties of computations that hold where the records of calls and of
  invocations stay as they are, and that carry over to sequences, blocks and calls of
  native functions;
- that a law which activations of functions obey holds of every expression and of
  every statement.

Does not own: particular laws, and activations, of which a law may ask for more than
that their bodies obey it.

A law is a discipline that admits every error. So it is asked nothing of the assignments
of a tree.
-/

namespace NilSafety

/-- A property of computations that is kept where they are put together. -/
structure Eval.Law where
  holds : {α : Type} → Eval α → Prop
  /-- It holds of what records nothing. -/
  quiet : ∀ {α : Type} {computation : Eval α},
    (∀ machine : Machine, (computation machine).2.calls = machine.calls ∧
      (computation machine).2.invocations = machine.invocations) →
    holds computation
  bind : ∀ {α β : Type} {first : Eval α} {rest : α → Eval β},
    holds first → (∀ value, holds (rest value)) → holds (first >>= rest)
  inBlock : ∀ {α : Type} {computation : Eval α},
    holds computation → holds (inBlock computation)
  callNative : ∀ name native args, holds (callNative name native args)

namespace Eval.Law

variable {α : Type} (law : Law)

/-- The law as a discipline. -/
def discipline : Discipline where
  holds := law.holds
  admits _ := True
  quiet records _ := law.quiet records
  bind := law.bind
  inBlock := law.inBlock
  others _ _ := trivial

/-! ### Single steps -/

theorem result (value : α) : law.holds (result value) :=
  law.discipline.regime.result value

theorem leave (value : Value) : law.holds (leave value : Eval α) :=
  law.discipline.regime.leave value

theorem fail (error : EvalError) : law.holds (fail error : Eval α) :=
  law.discipline.regime.fail trivial

theorem exhausted : law.holds (exhausted : Eval α) :=
  law.discipline.regime.exhausted

theorem machine : law.holds machine :=
  law.discipline.regime.machine

theorem yieldWith (outcome : α × Heap) : law.holds (yieldWith outcome) :=
  law.discipline.regime.yieldWith outcome

theorem ofExcept (outcome : Except EvalError α) : law.holds (ofExcept outcome) := by
  cases outcome with
  | ok value => exact law.result value
  | error error => exact law.fail error

theorem truth (span : Span) (value : Value) : law.holds (truth span value) :=
  law.discipline.regime.truth span value

theorem orFault (span : Span) (outcome : Except TypeFault Value) :
    law.holds (orFault span outcome) := by
  cases outcome with
  | ok value => exact law.result value
  | error fault => exact law.fail _

/-! ### Ways of putting computations together -/

theorem ite
    {condition : Prop}
    [Decidable condition]
    {first second : Eval α}
    (holdsFirst : law.holds first)
    (holdsSecond : law.holds second) :
    law.holds (if condition then first else second) :=
  law.discipline.regime.ite holdsFirst holdsSecond

theorem repeatWhile
    (turns : Nat)
    {wanted : Eval Bool}
    {body : Eval Unit}
    (holdsWanted : law.holds wanted)
    (holdsBody : law.holds body) :
    law.holds (repeatWhile turns wanted body) :=
  law.discipline.regime.repeatWhile turns holdsWanted holdsBody

theorem defineVariable (name : Symbol) (value : Value) :
    law.holds (defineVariable name value) :=
  law.discipline.defineVariable name value

theorem setHeapFrom (outcome : Machine → Except EvalError Heap) :
    law.holds (setHeapFrom outcome) :=
  law.bind law.machine fun _ => law.bind (law.ofExcept _) law.discipline.regime.setHeap

theorem newLiteral (context : Context) (elements : List Value) :
    law.holds (context.newLiteral elements) :=
  law.discipline.regime.newLiteral context elements

/-! ### Expressions and statements -/

/-- Activations of functions obey the law. -/
def Invokes (law : Law) (context : Context) : Prop :=
  ∀ f receiver args span, law.holds (context.invoke f receiver args span)

section

variable {law} {context : Context} (invokes : law.Invokes context)

include invokes

theorem Invokes.discipline : law.discipline.Invokes context where
  functions f _ := invokes f
  natives name native _ := law.callNative name native

theorem callNamed (name : String) (args : List Value) (span : Span) :
    law.holds (context.callNamed name args span) :=
  Regime.callNamed invokes.discipline.regime name args span

theorem callExpr (callee : Expr) (args : List Value) (span : Span) :
    law.holds (context.callExpr callee args span) :=
  Regime.callExpr invokes.discipline.regime callee args span

theorem callMethod (receiver : Value) (method : Symbol) (args : List Value) (span : Span) :
    law.holds (context.callMethod receiver method args span) :=
  Regime.callMethod invokes.discipline.regime receiver method args span

/-- The law holds of every expression. -/
theorem expr (expr : Expr) : law.holds (Eval.expr context expr) :=
  Discipline.expr invokes.discipline fun _ _ _ => trivial

/-- What the law as a discipline asks of expressions inside a tree. -/
theorem evaluates (expr : Expr) : law.discipline.Evaluates context expr :=
  Law.expr invokes expr

theorem optional (default : Value) (given : Option Expr) :
    law.holds (Eval.optional context default given) :=
  law.discipline.regime.optional default fun inner _ => evaluates invokes inner

theorem exprs (list : List Expr) : law.holds (Eval.exprs context list) :=
  law.discipline.regime.exprs fun inner _ => evaluates invokes inner

theorem args (list : List Arg) : law.holds (Eval.args context list) :=
  law.discipline.regime.args fun inner _ => evaluates invokes inner

theorem inits (list : List Init) : law.holds (Eval.inits context list) :=
  law.discipline.regime.inits fun inner _ => evaluates invokes inner

theorem assign (value : Value) (span : Span) (target : Expr) :
    law.holds (Eval.assign context value span target) :=
  law.discipline.assign value (fun inner _ => evaluates invokes inner) fun _ => trivial

theorem stmts (list : List Stmt) : law.holds (Eval.stmts context list) :=
  law.discipline.stmts (fun inner _ => evaluates invokes inner) fun assignment _ value =>
    Law.assign invokes value assignment.span assignment.target

end

end Eval.Law

end NilSafety
