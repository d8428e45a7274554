import NilSafety.Eval.Run

/-!
Contract: use of a program from outside.

Owns:
- a session: what is loaded, the state between one use and the next, and the
  rules of evaluation;
- loading of units, registration of native functions, calls, and evaluation of
  expressions;
- the calls of native functions between two states.

Does not own: rewriting, and trees whose names the session's table lacks.

Errors leave a session usable. What an evaluation did before an error stays
done, and the declarations that were loaded before one stay loaded.
-/

namespace NilSafety

/-- A program in use. -/
structure Session where
  program : Program
  machine : Machine
  rules : Rules

namespace Session

/-- A session under given rules, over given containers, in which nothing is
loaded. -/
def startUnder (rules : Rules) (table : SymbolTable) (heap : Heap) : Session :=
  ⟨.start table, .start heap, rules⟩

/-- A session under the plain rules. -/
def start (table : SymbolTable) (heap : Heap) : Session :=
  startUnder .plain table heap

/-- Adds a native function. It is told all calls of native functions in this
session. -/
def register (session : Session) (name : String) (native : Native) : Session :=
  { session with program := session.program.addNative name native }

/-- The session with other contents of containers. -/
def withHeap (session : Session) (heap : Heap) : Session :=
  { session with machine := { session.machine with heap } }

/-- The calls of native functions since an earlier state of the session, in
order. -/
def callsSince (session earlier : Session) : List NativeCall :=
  (session.machine.calls.take (session.machine.calls.length - earlier.machine.calls.length)).reverse

/-- Carries out a computation on the state. -/
def perform {α : Type} (session : Session) (computation : Eval α) : Flow α × Session :=
  match computation session.machine with
  | (flow, machine) => (flow, { session with machine })

/-- Calls a function or a native function. -/
def call (session : Session) (bound : Nat) (name : String) (args : List Value) :
    Flow Value × Session :=
  session.perform (session.program.call session.rules bound name args)

/-- Evaluates an expression. -/
def evaluate (session : Session) (bound : Nat) (expr : Expr) : Flow Value × Session :=
  session.perform (session.program.evaluate session.rules bound expr)

/-- Loads a declaration. A constant is evaluated. -/
def loadDecl (session : Session) (bound : Nat) : Decl → Flow Unit × Session
  | .function f => (.next (), { session with program := session.program.addFunction f })
  | .record name _ methods _ _ | .extension name methods _ =>
      let program := methods.foldl (fun program f => program.addMethod name f) session.program
      (.next (), { session with program })
  | .constant name _ value _ _ =>
      match session.evaluate bound value with
      | (.next value, session) =>
          (.next (), { session with program := session.program.addConstant name value })
      | (.ret value, session) => (.ret value, session)
      | (.error error, session) => (.error error, session)
      | (.exhausted, session) => (.exhausted, session)

/-- Loads declarations in order, up to one that fails. -/
def loadDecls (session : Session) (bound : Nat) : List Decl → Flow Unit × Session
  | [] => (.next (), session)
  | decl :: rest =>
      match session.loadDecl bound decl with
      | (.next (), session) => session.loadDecls bound rest
      | failed => failed

/-- Loads the declarations of a unit. -/
def load (session : Session) (bound : Nat) (unit : SourceUnit) : Flow Unit × Session :=
  session.loadDecls bound unit.decls

end Session

end NilSafety
