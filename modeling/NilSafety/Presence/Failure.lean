/-!
Contract: the failures that the run-time checks raise.

Owns:
- the place of a call, with its file if that is known;
- the failure of a guard, when nil reaches a parameter that excludes it;
- the failure of an insistence on a value that is absent;
- the texts of both.

Does not own: when a check fails, or what happens then.
-/

namespace NilSafety

/-- The place of a call. -/
structure CallSite where
  file : Option String
  line : Nat
  column : Nat
deriving DecidableEq

namespace CallSite

/-- The greatest line and column a call site can tell. -/
def greatest : Nat := UInt32.size - 1

/-- The call site at a line and a column, cut off at the greatest. -/
def clamped (line column : Nat) : CallSite :=
  ⟨none, min line greatest, min column greatest⟩

/-- The place as failures show it. -/
def text (site : CallSite) : String :=
  match site.file with
  | some file => s!"{file}:{site.line}:{site.column}"
  | none => s!"{site.line}:{site.column}"

end CallSite

/-- Nil reached a parameter of a guarded function. -/
structure GuardFailure where
  parameter : String
  function : String
  site : Option CallSite
deriving DecidableEq

/-- The failure as its receiver shows it. -/
def GuardFailure.message (failure : GuardFailure) : String :=
  let place := match failure.site with
    | some site => s!" (called at {site.text})"
    | none => ""
  s!"null is not allowed for parameter `{failure.parameter}` of `{failure.function}`{place}"

/-- A value that was insisted on is absent. -/
structure AbsenceFailure where
  site : CallSite
deriving DecidableEq

/-- The failure as its receiver shows it. -/
def AbsenceFailure.message (failure : AbsenceFailure) : String :=
  s!"null pointer: value asserted present at {failure.site.text}"

end NilSafety
