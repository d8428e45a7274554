import NilSafety.Eval.EntryCall
import NilSafety.Eval.Member
import NilSafety.Eval.Operator
import NilSafety.Eval.Program

/-!
Contract: the meaning of expressions and statements.

Owns:
- the order of evaluation, one equation per shape of tree;
- calls of functions by name, by class and name, and on a receiver;
- the rules in which evaluations may differ: whether a marked access skips nil,
  and which arrays literals build.

Does not own: what an activation of a function does; it is given as `invoke`.

A program as it stands is evaluated by the plain rules, under which marks mean
nothing and literals build plain arrays.
-/

namespace NilSafety

/-- In what evaluations may differ. -/
structure Rules where
  /-- A marked access on nil yields nil, without a look at its arguments. -/
  skipsNil : Bool
  /-- Array literals build checked arrays. -/
  checksLiterals : Bool
deriving DecidableEq

namespace Rules

/-- Marks mean nothing, and literals build plain arrays. -/
def plain : Rules := ⟨false, false⟩

/-- Marked accesses skip nil. -/
def navigating : Rules := ⟨true, false⟩

/-- Literals build checked arrays. -/
def checking : Rules := ⟨false, true⟩

end Rules

/-- What evaluation of a tree depends on besides the machine. -/
structure Context where
  program : Program
  rules : Rules
  /-- How often a loop may turn. -/
  turns : Nat
  /-- Activates a function, on a receiver if there is one, with arguments, for a
  call at a region. -/
  invoke : Function → Option Value → List Value → Span → Eval Value

namespace Context

variable (context : Context)

/-- The name of a symbol. -/
def name (symbol : Symbol) : String :=
  context.program.table.display symbol

/-- Calls a function or a native function by its name. -/
def callNamed (name : String) (args : List Value) (span : Span) : Eval Value :=
  match context.program.function? name with
  | some f => context.invoke f none args span
  | none =>
      match context.program.native? name with
      | some native => Eval.callNative name native args
      | none => Eval.fail (.unknownFunction name span)

/-- Calls what a qualified name stands for: an entry point of the run-time
checks, a method of a class without a receiver, or a function. -/
def callPath (segments : List Symbol) (args : List Value) (span : Span) : Eval Value :=
  let names := segments.map context.name
  if names.head? = some EntryPoint.module then EntryCall.call names.tail args span
  else
    match context.program.staticMethod? names with
    | some f => context.invoke f none args span
    | none => context.callNamed (context.program.qualifiedName segments) args span

/-- Calls what an expression in front of arguments stands for. -/
def callExpr (callee : Expr) (args : List Value) (span : Span) : Eval Value :=
  match callee with
  | .ident name _ => context.callNamed (context.name name) args span
  | .path segments _ => context.callPath segments args span
  | other => Eval.fail (.type (.notCallable other) span)

/-- Calls a method on a receiver. -/
def callMethod (receiver : Value) (method : Symbol) (args : List Value) (span : Span) :
    Eval Value :=
  match receiver.core with
  | .nil | .absent => Eval.fail (.nullReference (context.name method) span)
  | .object cls address =>
      match context.program.method? cls method with
      | some f => context.invoke f (some (.object cls address)) args span
      | none => Eval.fail (.unknownMember (context.name cls) (context.name method) span)
  | other => do
      let machine ← Eval.machine
      match Member.callBuiltin machine.heap other (context.name method) args with
      | some outcome => Eval.yieldWith outcome
      | none => Eval.fail (.unknownMember other.kind.name (context.name method) span)

/-- The value of a variable, or of a constant that no variable hides. -/
def readVariable (name : Symbol) (span : Span) : Eval Value := do
  let machine ← Eval.machine
  match machine.env.get? name with
  | some value => Eval.result value
  | none =>
      match context.program.constants.get? name with
      | some value => Eval.result value
      | none => Eval.fail (.unbound (context.name name) span)

/-- Replaces the value of a variable. -/
def writeVariable (name : Symbol) (value : Value) (span : Span) : Eval Unit := do
  let machine ← Eval.machine
  match machine.env.assign? name value with
  | some env => Eval.setEnv env
  | none => Eval.fail (.unbound (context.name name) span)

/-- Whether a marked access stops at its receiver. -/
def skips (marked : Bool) (receiver : Value) : Bool :=
  context.rules.skipsNil && marked && receiver.isNil

/-- The array of a literal. -/
def newLiteral (elements : List Value) : Eval Value := do
  let machine ← Eval.machine
  if context.rules.checksLiterals then
    Eval.yieldWith (machine.heap.newChecked elements.toArray)
  else
    Eval.yieldWith (machine.heap.newArray elements.toArray)

end Context

namespace Eval

/-- The truth value of a condition. -/
def truth (span : Span) : Value → Eval Bool
  | .bool value => result value
  | other => fail (.type (.condition other.kind) span)

/-- A result, or a fault at a region. -/
def orFault (span : Span) (outcome : Except TypeFault Value) : Eval Value :=
  match outcome with
  | .ok value => result value
  | .error fault => fail (.type fault span)

/-- Binds a variable in the innermost scope. -/
def defineVariable (name : Symbol) (value : Value) : Eval Unit := do
  let machine ← machine
  setEnv (machine.env.define name value)

/-- Replaces containers, or fails. -/
def setHeapFrom (outcome : Machine → Except EvalError Heap) : Eval Unit := do
  let machine ← machine
  let heap ← ofExcept (outcome machine)
  setHeap heap

variable (context : Context)

mutual

/-- The value of an expression. -/
def expr : Expr → Eval Value
  | .int value _ => result (.int value)
  | .str value _ => result (.str (context.name value))
  | .bool value _ => result (.bool value)
  | .nil _ => result .nil
  | .ident name span => context.readVariable name span
  | .path segments span => fail (.unbound (context.program.qualifiedName segments) span)
  | .unary op operand span => do
      let operand ← expr operand
      orFault span (op.apply operand)
  | .binary left .and right span => do
      let value ← expr left
      if ← truth span value then
        let value ← expr right
        let value ← truth span value
        result (.bool value)
      else
        result (.bool false)
  | .binary left .or right span => do
      let value ← expr left
      if ← truth span value then
        result (.bool true)
      else
        let value ← expr right
        let value ← truth span value
        result (.bool value)
  | .binary left op right span => do
      let left ← expr left
      let right ← expr right
      orFault span (op.apply left right)
  | .cond condition thenBranch elseBranch span => do
      let value ← expr condition
      if ← truth span value then
        expr thenBranch
      else
        optional .unit elseBranch
  | .block body tail _ => inBlock do
      stmts body
      optional .unit tail
  | .call callee given span => do
      let values ← args given
      context.callExpr callee values span
  | .method receiver name given marked span => do
      let receiver ← expr receiver
      if context.skips marked receiver then
        result .nil
      else
        let values ← args given
        context.callMethod receiver name values span
  | .field object name marked span => do
      let object ← expr object
      if context.skips marked object then
        result .nil
      else
        let machine ← machine
        ofExcept (Member.readField context.program.table machine.heap object name span)
  | .index collection position span => do
      let collection ← expr collection
      let position ← expr position
      let machine ← machine
      ofExcept (Member.readElement machine.heap collection position span)
  | .construct name given _ => do
      let fields ← inits given
      let machine ← machine
      yieldWith (machine.heap.newObject name (.ofList fields))
  | .array elements _ => do
      let values ← exprs elements
      context.newLiteral values
  | .paren inner _ => expr inner

/-- The value of an expression that may be missing, with one for its absence. -/
def optional (default : Value) : Option Expr → Eval Value
  | some present => expr present
  | none => result default

/-- The values of several expressions. -/
def exprs : List Expr → Eval (List Value)
  | [] => result []
  | first :: rest => do
      let value ← expr first
      let values ← exprs rest
      result (value :: values)

/-- The values of arguments. -/
def args : List Arg → Eval (List Value)
  | [] => result []
  | .mk _ first :: rest => do
      let value ← expr first
      let values ← args rest
      result (value :: values)

/-- The fields that initializers give. -/
def inits : List Init → Eval (List (Symbol × Value))
  | [] => result []
  | .mk name first :: rest => do
      let value ← expr first
      let values ← inits rest
      result ((name, value) :: values)

/-- Assigns a value to the place that an expression denotes, for a statement at a
region. -/
def assign (value : Value) (span : Span) : Expr → Eval Unit
  | .ident name _ => context.writeVariable name value span
  | .field object name _ _ => do
      let object ← expr object
      setHeapFrom fun machine =>
        Member.writeField context.program.table machine.heap object name value span
  | .index collection position _ => do
      let collection ← expr collection
      let position ← expr position
      setHeapFrom fun machine =>
        Member.writeElement machine.heap collection position value span
  | _ => fail (.type .target span)

/-- Carries out a statement. -/
def stmt : Stmt → Eval Unit
  | .bind name _ _ init _ => do
      let value ← optional .nil init
      defineVariable name value
  | .ret value _ => do
      let value ← optional .unit value
      leave value
  | .assign target value span => do
      let value ← expr value
      assign value span target
  | .loop condition body span =>
      repeatWhile context.turns
        (do let value ← expr condition; truth span value)
        (do let _ ← expr body; result ())
  | .eval inner _ => do
      let _ ← expr inner
      result ()

/-- Carries out several statements. -/
def stmts : List Stmt → Eval Unit
  | [] => result ()
  | first :: rest => do
      stmt first
      stmts rest

end

end Eval

end NilSafety
