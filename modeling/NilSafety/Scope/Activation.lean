import NilSafety.Scope.Feature
import NilSafety.Scope.Placement

/-!
Contract: activations, which switch one feature on for one path.

Owns:
- the path, the reach and the feature of an activation;
- the rule by which an activation covers a declaration;
- the written form.

Does not own: reading of the written form, or sets of activations.
-/

namespace NilSafety

/-- Switches a feature on for a path; a recursive activation also reaches what
lies beneath the path. -/
structure Activation where
  path : Path
  recursive : Bool
  feature : Feature
deriving DecidableEq

namespace Activation

/-- Whether the activation covers a declaration. A recursive one covers all that
lies at or beneath its path; any other covers the declaration it names and those
directly in the type or package it names. -/
def covers (activation : Activation) (place : Placement) : Bool :=
  if activation.recursive then activation.path.isPrefixOf place.path
  else place.containers.contains activation.path

/-- The ending of the written form that stands for recursion. -/
def recursiveEnding : String := ".*"

/-- The written form: feature, equals sign, path and the recursive ending. -/
def text (activation : Activation) : String :=
  let ending := if activation.recursive then recursiveEnding else ""
  s!"{activation.feature.name}={activation.path.text}{ending}"

/-- One activation for every feature. -/
def forAllFeatures (path : Path) (recursive : Bool) : List Activation :=
  Feature.all.map (Activation.mk path recursive)

end Activation

end NilSafety
