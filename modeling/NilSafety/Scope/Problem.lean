import NilSafety.Scope.Activation
import NilSafety.Span

/-!
Contract: what can be wrong with a configuration or with a unit to be rewritten.

Owns:
- one cause per problem, with the texts that reports show;
- the distinction between problems of the configuration and of a unit.

Does not own: the places that detect a problem.
-/

namespace NilSafety

/-- Why a text is no directive. -/
inductive DirectiveFault where
  /-- No equals sign separates a feature from a path. -/
  | noEquals
  /-- The part after the equals sign is no path. -/
  | badPath (problem : Path.Malformed)
  /-- The part before the equals sign names no feature. -/
  | unknownFeature (problem : Feature.Unknown)
  /-- The directive stands for several activations where one is wanted. -/
  | several
deriving DecidableEq

/-- The cause as reports show it. -/
def DirectiveFault.message : DirectiveFault → String
  | noEquals => "expected `feature=path`"
  | badPath problem => problem.message
  | unknownFeature problem => problem.message
  | several => "`all` expands to several activations"

/-- Something wrong with a configuration or with a unit. -/
inductive Problem where
  /-- A marked access stands in a declaration without navigation. -/
  | navigationDisabled (declaration : Path) (span : Span)
  /-- An activation names a path that no unit declares. -/
  | unresolvedActivation (activation : Activation)
  /-- A text is no directive. -/
  | invalidDirective (directive : String) (fault : DirectiveFault)
  /-- An activation is for the root. -/
  | emptyPath (feature : Feature)
  /-- A set of activations was installed before. -/
  | alreadyInstalled
deriving DecidableEq

namespace Problem

/-- The source region, for a problem of a unit. -/
def span? : Problem → Option Span
  | navigationDisabled _ span => some span
  | _ => none

/-- Whether only the configuration is at fault. -/
def isConfiguration : Problem → Bool
  | navigationDisabled .. => false
  | _ => true

/-- The problem as reports show it. -/
def message : Problem → String
  | navigationDisabled declaration span =>
      s!"safe navigation used at {span.text} in `{declaration.text}`, " ++
        "but navigation is not enabled for this scope"
  | unresolvedActivation activation =>
      s!"activation `{activation.text}` does not match any declared package, type or function"
  | invalidDirective directive fault => s!"invalid directive `{directive}`: {fault.message}"
  | emptyPath feature => s!"activation for `{feature.name}` has an empty path"
  | alreadyInstalled => "scope activations were already installed for this build"

end Problem

end NilSafety
