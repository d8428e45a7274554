import NilSafety.Scope.ActivationSet

/-!
Contract: step by step registration of activations, before they are checked.

Owns:
- the builder, which collects activations as they are registered;
- the four kinds of registration, and sequences of them;
- the check that turns what was collected into a set.

Does not own: the grammar of directives, or the check of a single activation.

Malformed directives are refused when they are registered. An activation of the root
is refused only when the set is built.
-/

namespace NilSafety

/-- The activations registered so far, in order and with repetitions. -/
structure Builder where
  activations : List Activation
deriving DecidableEq

namespace Builder

/-- The builder with nothing registered. -/
def empty : Builder := ⟨[]⟩

/-- The builder with more activations registered, behind the others. -/
def extend (builder : Builder) (activations : List Activation) : Builder :=
  ⟨builder.activations ++ activations⟩

/-- Registers one activation. -/
def activate
    (builder : Builder)
    (path : Path)
    (recursive : Bool)
    (feature : Feature) : Builder :=
  builder.extend [⟨path, recursive, feature⟩]

/-- Registers one activation for every feature. -/
def enableAll (builder : Builder) (path : Path) (recursive : Bool) : Builder :=
  Feature.all.foldl (fun builder feature => builder.activate path recursive feature) builder

/-- Registers the activations of a directive. -/
def directive (builder : Builder) (text : String) : Except Problem Builder :=
  (Activation.parseDirective text).map builder.extend

/-- Registers the activations of several directives, up to the first problem. -/
def directives (builder : Builder) (texts : List String) : Except Problem Builder :=
  texts.foldlM directive builder

/-- Checks what was registered into a set. -/
def build (builder : Builder) : Except Problem ActivationSet :=
  ActivationSet.ofList builder.activations

end Builder

/-- One call that registers activations. -/
inductive Registration where
  | activate (path : Path) (recursive : Bool) (feature : Feature)
  | enableAll (path : Path) (recursive : Bool)
  | directive (text : String)
  | directives (texts : List String)
deriving DecidableEq

namespace Builder

/-- Carries out a registration. -/
def register (builder : Builder) : Registration → Except Problem Builder
  | .activate path recursive feature => .ok (builder.activate path recursive feature)
  | .enableAll path recursive => .ok (builder.enableAll path recursive)
  | .directive text => builder.directive text
  | .directives texts => builder.directives texts

/-- Carries out a sequence of registrations, up to the first problem. -/
def registerAll
    (builder : Builder)
    (registrations : List Registration) : Except Problem Builder :=
  registrations.foldlM register builder

end Builder

end NilSafety
