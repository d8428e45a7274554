import Mathlib.Data.List.Infix
import Mathlib.Order.Defs.Unbundled
import NilSafety.Proofs.Evaluation.Laws

/-!
Contract: what an evaluation records is never lost.

Owns:
- machines whose records of calls and of invocations extend those of another;
- that every computation only extends the records, as a law of computations, and that
  activations of functions do.

Does not own: what is recorded.
-/

namespace NilSafety

/-- The calls and invocations recorded in `machine` are the earliest ones
recorded in `later`. -/
structure Machine.Grows (machine later : Machine) : Prop where
  calls : machine.calls <:+ later.calls
  invocations : machine.invocations <:+ later.invocations

namespace Machine.Grows

theorem refl (machine : Machine) : machine.Grows machine :=
  ⟨List.suffix_refl _, List.suffix_refl _⟩

theorem trans
    {machine middle later : Machine}
    (first : machine.Grows middle)
    (second : middle.Grows later) :
    machine.Grows later :=
  ⟨first.calls.trans second.calls, first.invocations.trans second.invocations⟩

instance : IsPreorder Machine Machine.Grows where
  refl := refl
  trans _ _ _ := trans

/-- Only the records count. -/
theorem of_eq
    {machine later : Machine}
    (calls : later.calls = machine.calls)
    (invocations : later.invocations = machine.invocations) :
    machine.Grows later := by
  constructor
  · rw [calls]
  · rw [invocations]

end Machine.Grows

namespace Eval

variable {α β : Type}

/-- A computation that only extends the records. -/
def Growing (computation : Eval α) : Prop :=
  ∀ machine : Machine, machine.Grows (computation machine).2

namespace Growing

theorem bind
    {first : Eval α}
    {rest : α → Eval β}
    (growsFirst : Growing first)
    (growsRest : ∀ value, Growing (rest value)) :
    Growing (first >>= rest) := by
  intro machine
  have start := growsFirst machine
  show machine.Grows (first.andThen rest machine).2
  unfold andThen
  rcases ran : first machine with ⟨flow, middle⟩
  rw [ran] at start
  cases flow with
  | next value => exact start.trans (growsRest value middle)
  | ret | error | exhausted => exact start

theorem inBlock {computation : Eval α} (grows : Growing computation) :
    Growing (inBlock computation) :=
  fun machine => ⟨(grows { machine with env := machine.env.push }).calls,
    (grows { machine with env := machine.env.push }).invocations⟩

theorem inEnv (env : Env) {computation : Eval Value} (grows : Growing computation) :
    Growing (inEnv env computation) :=
  fun machine => ⟨(grows { machine with env }).calls, (grows { machine with env }).invocations⟩

theorem duringCall (site : Span) {computation : Eval α} (grows : Growing computation) :
    Growing (duringCall site computation) :=
  fun machine =>
    have within := grows { machine with callSites := site :: machine.callSites }
    ⟨within.calls, within.invocations⟩

theorem asInvocation
    (f : Function)
    (receiver : Option Value)
    (args : List Value)
    (site : Span)
    {computation : Eval α}
    (grows : Growing computation) :
    Growing (asInvocation f receiver args site computation) := by
  intro machine
  have within := grows { machine with
    invocations := ⟨f, receiver, args, site, machine.heap, machine.calls⟩ :: machine.invocations }
  exact ⟨within.calls, (List.suffix_cons _ _).trans within.invocations⟩

theorem ofExcept (outcome : Except EvalError α) : Growing (ofExcept outcome) := by
  cases outcome with
  | ok value => exact fun machine => .refl machine
  | error error => exact fun machine => .refl machine

theorem callNative (name : String) (native : Native) (args : List Value) :
    Growing (callNative name native args) := by
  intro machine
  unfold Eval.callNative
  rcases native.respond machine.calls args machine.heap with ⟨answer, heap⟩
  have recorded := ofExcept answer
    { machine with heap, calls := ⟨name, args, machine.heap⟩ :: machine.calls }
  exact ⟨(List.suffix_cons _ _).trans recorded.calls, recorded.invocations⟩

/-- That records are only extended is a law. -/
def law : Law where
  holds := Growing
  quiet same machine := .of_eq (same machine).1 (same machine).2
  bind := bind
  inBlock := inBlock
  callNative := callNative

theorem result (value : α) : Growing (result value) :=
  law.result value

theorem leave (value : Value) : Growing (leave value : Eval α) :=
  law.leave value

theorem machine : Growing machine :=
  law.machine

theorem yieldWith (outcome : α × Heap) : Growing (yieldWith outcome) :=
  law.yieldWith outcome

theorem ite
    {condition : Prop}
    [Decidable condition]
    {first second : Eval α}
    (growsFirst : Growing first)
    (growsSecond : Growing second) :
    Growing (if condition then first else second) :=
  law.ite growsFirst growsSecond

theorem repeatWhile
    (turns : Nat)
    {wanted : Eval Bool}
    {body : Eval Unit}
    (growsWanted : Growing wanted)
    (growsBody : Growing body) :
    Growing (repeatWhile turns wanted body) :=
  law.repeatWhile turns growsWanted growsBody

theorem truth (span : Span) (value : Value) : Growing (truth span value) :=
  law.truth span value

theorem orFault (span : Span) (outcome : Except TypeFault Value) :
    Growing (orFault span outcome) :=
  law.orFault span outcome

theorem defineVariable (name : Symbol) (value : Value) :
    Growing (defineVariable name value) :=
  law.defineVariable name value

theorem setHeapFrom (outcome : Machine → Except EvalError Heap) :
    Growing (setHeapFrom outcome) :=
  law.setHeapFrom outcome

theorem newLiteral (context : Context) (elements : List Value) :
    (context.newLiteral elements).Growing :=
  law.newLiteral context elements

end Growing

end Eval

/-! ### Expressions and statements -/

/-- Activations of functions only extend the records. -/
def Context.Growing (context : Context) : Prop :=
  Eval.Growing.law.Invokes context

namespace Context.Growing

variable {context : Context} (grows : context.Growing)

include grows

theorem callNamed (name : String) (args : List Value) (span : Span) :
    (context.callNamed name args span).Growing :=
  Eval.Law.callNamed grows name args span

theorem callExpr (callee : Expr) (args : List Value) (span : Span) :
    (context.callExpr callee args span).Growing :=
  Eval.Law.callExpr grows callee args span

theorem callMethod (receiver : Value) (method : Symbol) (args : List Value) (span : Span) :
    (context.callMethod receiver method args span).Growing :=
  Eval.Law.callMethod grows receiver method args span

end Context.Growing

namespace Eval.Growing

variable {context : Context} (grows : context.Growing)

include grows

/-- The value of an expression is found with the records only extended. -/
theorem expr (expr : Expr) : (Eval.expr context expr).Growing :=
  Law.expr grows expr

theorem exprs (list : List Expr) : (Eval.exprs context list).Growing :=
  Law.exprs grows list

theorem args (list : List Arg) : (Eval.args context list).Growing :=
  Law.args grows list

theorem inits (list : List Init) : (Eval.inits context list).Growing :=
  Law.inits grows list

theorem optional (default : Value) (given : Option Expr) :
    (Eval.optional context default given).Growing :=
  Law.optional grows default given

theorem assign (value : Value) (span : Span) (target : Expr) :
    (Eval.assign context value span target).Growing :=
  Law.assign grows value span target

theorem stmts (list : List Stmt) : (Eval.stmts context list).Growing :=
  Law.stmts grows list

end Eval.Growing

/-! ### Activations -/

theorem Context.Growing.activate
    {context : Context}
    (grows : context.Growing)
    (f : Function)
    (receiver : Option Value)
    (args : List Value)
    (span : Span) :
    (context.activate f receiver args span).Growing := by
  unfold Context.activate
  refine .ite ?_ (Eval.Growing.law.fail _)
  exact .asInvocation _ _ _ _ (.inEnv _ (.duringCall _ (.expr grows f.body)))

theorem Program.invokeWithin_growing
    (program : Program)
    (rules : Rules)
    (bound : Nat)
    (f : Function)
    (receiver : Option Value)
    (args : List Value)
    (span : Span) :
    (program.invokeWithin rules bound f receiver args span).Growing := by
  induction bound generalizing f receiver args span with
  | zero => exact Eval.Growing.law.exhausted
  | succ bound inductionHypothesis =>
      have growing : Context.Growing
          ⟨program, rules, bound, program.invokeWithin rules bound⟩ := inductionHypothesis
      exact growing.activate f receiver args span

theorem Program.context_growing (program : Program) (rules : Rules) (bound : Nat) :
    (program.context rules bound).Growing :=
  program.invokeWithin_growing rules bound

end NilSafety
