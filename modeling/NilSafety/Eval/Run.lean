import NilSafety.Eval.Expression

/-!
Contract: activations of functions, and evaluation within a bound.

Owns:
- the variables that an activation starts with, and the check of the number of
  arguments;
- the bound on how deep activations nest and how often a loop turns, which makes
  every evaluation end;
- calls from outside a program, and evaluation of an expression by itself.

Does not own: loading of declarations.

A bound that is too small shows as an ending of its own, never as a value or an
error.
-/

namespace NilSafety

/-- The variables with which an activation starts: the receiver, if there is one
and its name is known, then the parameters, of which a later one of the same name
counts. -/
def Program.frame
    (program : Program)
    (params : List Param)
    (receiver : Option Value)
    (args : List Value) :
    Env :=
  let start := match receiver, program.receiverName? with
    | some receiver, some name => Env.start.define name receiver
    | _, _ => Env.start
  (params.zip args).foldl (fun env (param, value) => env.define param.name value) start

/-- Activates a function: evaluates its body over variables of its own while the
call is under way. A call with a wrong number of arguments invokes nothing. -/
def Context.activate
    (context : Context)
    (f : Function)
    (receiver : Option Value)
    (args : List Value)
    (span : Span) :
    Eval Value :=
  if args.length = f.params.length then
    Eval.asInvocation f receiver args span
      (Eval.inEnv (context.program.frame f.params receiver args)
        (Eval.duringCall span (Eval.expr context f.body)))
  else
    Eval.fail (.arity (context.name f.name) f.params.length args.length span)

/-- Activation of functions with activations nested, and loops turning, fewer than
`bound` times. -/
def Program.invokeWithin (program : Program) (rules : Rules) :
    (bound : Nat) → Function → Option Value → List Value → Span → Eval Value
  | 0, _, _, _, _ => Eval.exhausted
  | bound + 1, f, receiver, args, span =>
      Context.activate ⟨program, rules, bound, program.invokeWithin rules bound⟩
        f receiver args span

/-- What evaluation within a bound depends on. -/
def Program.context (program : Program) (rules : Rules) (bound : Nat) : Context :=
  ⟨program, rules, bound, program.invokeWithin rules bound⟩

/-- Calls a function or a native function from outside the program. -/
def Program.call
    (program : Program)
    (rules : Rules)
    (bound : Nat)
    (name : String)
    (args : List Value) :
    Eval Value :=
  (program.context rules bound).callNamed name args .generated

/-- Evaluates an expression by itself, over no variables. -/
def Program.evaluate (program : Program) (rules : Rules) (bound : Nat) (expr : Expr) :
    Eval Value :=
  Eval.inEnv .start (Eval.expr (program.context rules bound) expr)

end NilSafety
