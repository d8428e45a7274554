import NilSafety.Scope.ActivationSet

/-!
Contract: the set of activations that a whole build shares.

Owns: the rule that a set can be installed once and stays.

Does not own: the set's contents.
-/

namespace NilSafety

/-- The set installed for the build, if there is one. -/
structure Installation where
  installed : Option ActivationSet

namespace Installation

/-- Nothing installed. -/
def fresh : Installation := ⟨none⟩

/-- Installs a set, unless one was installed before. -/
def install (state : Installation) (set : ActivationSet) : Except Problem Installation :=
  match state.installed with
  | none => .ok ⟨some set⟩
  | some _ => .error .alreadyInstalled

end Installation

end NilSafety
