/-!
Contract: the names under which rewritten code reaches the run-time checks.

Owns: the module's name and the names of what it offers. Rewriting writes them
into trees and evaluation recognizes them.

Does not own: what the entry points do.
-/

namespace NilSafety.EntryPoint

/-- The module that every entry point lives in. -/
def module : String := "nullsafe"

/-- Reports nil for a guarded parameter. -/
def guardFailure : String := "guard_failure"

/-- The type of checked arrays. -/
def checkedArray : String := "SafeArray"

/-- Builds a checked array from a plain one. -/
def fromArray : String := "from"

/-- Replaces an absent value by another. -/
def or : String := "or"

/-- Insists on a value's presence. -/
def sure : String := "sure"

end NilSafety.EntryPoint
