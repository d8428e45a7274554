import NilSafety.EntryPoint
import NilSafety.Tree.Decl

/-!
Contract: guards for the parameters of one function.

Owns:
- which parameters are guarded, those whose note excludes nil;
- the statement that guards a parameter,

      if name == nil {
          nullsafe::guard_failure("name", "path.of.function");
      }

- its place, before everything else in the body and in the order of the
  parameters. Every node of a guard carries the parameter's region.

Does not own: which functions are guarded.
-/

namespace NilSafety

/-- The symbols that guards of one function call and pass on. -/
structure GuardSymbols where
  module : Symbol
  entry : Symbol
  function : Symbol

namespace GuardSymbols

/-- Interns what the guards of the function at `path` need. -/
def intern (table : SymbolTable) (path : Path) : GuardSymbols × SymbolTable :=
  let (module, table) := table.intern EntryPoint.module
  let (entry, table) := table.intern EntryPoint.guardFailure
  let (function, table) := table.intern path.text
  (⟨module, entry, function⟩, table)

/-- The statement that guards one parameter. -/
def check (symbols : GuardSymbols) (param : Param) : Stmt :=
  let span := param.span
  let failure : Expr :=
    .call (.path [symbols.module, symbols.entry] span)
      [.plain (.str param.name span), .plain (.str symbols.function span)] span
  let isNil : Expr := .binary (.ident param.name span) .equal (.nil span) span
  .eval (.cond isNil (.block [.eval failure span] none span) none span) span

end GuardSymbols

/-- An expression with statements put in front: into the block, or into a new
block around it. -/
def Expr.precededBy (stmts : List Stmt) : Expr → Expr
  | .block body tail span => .block (stmts ++ body) tail span
  | other => .block stmts (some other) other.span

namespace Function

/-- The parameters whose note excludes nil. -/
def guardedParams (table : SymbolTable) (f : Function) : List Param :=
  f.params.filter fun param => param.note.nullability table = .nonNullable

/-- The function with its guards, which report it as `path`. One without
guarded parameters stays as it is, and nothing is interned for it. -/
def withGuards (table : SymbolTable) (path : Path) (f : Function) : Function × SymbolTable :=
  match f.guardedParams table with
  | [] => (f, table)
  | params =>
      let (symbols, table) := GuardSymbols.intern table path
      ({ f with body := f.body.precededBy (params.map symbols.check) }, table)

end Function

end NilSafety
