import NilSafety.EntryPoint
import NilSafety.Tree.Expr

/-!
Contract: wrapping of one array literal.

Owns: the call that builds a checked array from the literal,

    nullsafe::SafeArray::from([a, b])

with the literal inside as it was. Every new node carries the literal's region.

Does not own: the literals inside the elements.
-/

namespace NilSafety

namespace Expr

/-- The qualified name of the constructor of checked arrays. -/
def checkedArrayPath : List String :=
  [EntryPoint.module, EntryPoint.checkedArray, EntryPoint.fromArray]

/-- The wrapped form of an array literal, whose constructor is interned; every
other expression, and the table with it, stays as it is. -/
def wrapArray (table : SymbolTable) : Expr → Expr × SymbolTable
  | array elements span =>
      let (segments, table) := table.internAll checkedArrayPath
      (call (path segments span) [.plain (array elements span)] span, table)
  | other => (other, table)

end Expr

end NilSafety
