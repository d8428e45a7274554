import NilSafety.Rewrite.ArrayLiteral
import NilSafety.Rewrite.Event
import NilSafety.Rewrite.FreshNames
import NilSafety.Rewrite.SafeAccess
import NilSafety.Tree.Traversal

/-!
Contract: rewriting of the expressions of one declaration.

Owns:
- the state that the rewriting of a unit carries along;
- what happens at a single node: a marked access is expanded under a fresh name,
  or is a problem where navigation is off; an array literal is wrapped where
  array wrapping is on;
- the walk over a body, inner nodes first.

Does not own: which features are in effect, or parameter guards.
-/

namespace NilSafety

/-- What the rewriting of a unit has come to. -/
structure Progress where
  table : SymbolTable
  names : FreshNames
  counts : Counts
  problems : List Problem
  events : List Event

namespace Progress

/-- Nothing rewritten yet. -/
def start (table : SymbolTable) : Progress := ⟨table, .start, .zero, [], []⟩

/-- Adds an event. -/
def log (event : Event) (progress : Progress) : Progress :=
  { progress with events := progress.events ++ [event] }

end Progress

/-- A step of the rewriting of a unit. -/
abbrev Rewrite := StateM Progress

namespace Rewrite

/-- Expands a marked access under a fresh name. -/
def expand (declaration : Path) (expr : Expr) : Rewrite Expr := fun progress =>
  let (temp, names, table) := progress.names.fresh progress.table
  let counts := { progress.counts with navigations := progress.counts.navigations + 1 }
  (expr.expandAccess temp,
    { progress with table, names, counts }.log (.expanded declaration expr.span))

/-- Records a marked access that navigation does not reach. -/
def refuse (declaration : Path) (expr : Expr) : Rewrite Expr := fun progress =>
  let problem := Problem.navigationDisabled declaration expr.span
  (expr, { progress with problems := progress.problems ++ [problem] })

/-- Wraps an array literal. -/
def wrap (declaration : Path) (expr : Expr) : Rewrite Expr := fun progress =>
  let (wrapped, table) := expr.wrapArray progress.table
  let counts := { progress.counts with arrays := progress.counts.arrays + 1 }
  (wrapped, { progress with table, counts }.log (.wrapped declaration expr.span))

/-- Rewrites a node whose children are rewritten already. -/
def node (declaration : Path) (features : FeatureSet) (expr : Expr) : Rewrite Expr :=
  if expr.isMarkedAccess then
    if features.navigation then expand declaration expr else refuse declaration expr
  else if features.arrays && expr.isArray then wrap declaration expr
  else pure expr

/-- Rewrites all expressions of a body. -/
def body (declaration : Path) (features : FeatureSet) (expr : Expr) : Rewrite Expr :=
  expr.mapUp (node declaration features)

end Rewrite

end NilSafety
