import NilSafety.Text.CharClass

/-!
Contract: the rewrites that can be switched on, and sets of them.

Owns:
- the three features, their order and their names in settings;
- reading of a feature's name, with its alternative spellings;
- the set of features in effect somewhere.

Does not own: where a feature is in effect, or what the rewrites do.
-/

namespace NilSafety

/-- A rewrite that can be switched on. -/
inductive Feature where
  /-- Expansion of accesses marked `?.`. -/
  | navigation
  /-- Guards for parameters that exclude nil. -/
  | guards
  /-- Array literals that build checked arrays. -/
  | arrays
deriving DecidableEq

namespace Feature

/-- Every feature, in the order of settings and reports. -/
def all : List Feature := [navigation, guards, arrays]

/-- The name by which settings and reports know the feature. -/
def name : Feature → String
  | navigation => "navigation"
  | guards => "api"
  | arrays => "array"

/-- A text that names no feature. -/
structure Unknown where
  input : String
deriving DecidableEq

/-- What is wrong, with the names that would do. -/
def Unknown.message (problem : Unknown) : String :=
  s!"unknown feature `{problem.input}` (expected navigation, api, array or all)"

/-- Reads a feature's name. Blanks around it and the case of ASCII letters do
not matter. -/
def parse (input : String) : Except Unknown Feature :=
  match (Text.trim input).toLower with
  | "navigation" | "nav" => .ok navigation
  | "api" | "api_guard" | "guard" => .ok guards
  | "array" | "sequence" => .ok arrays
  | _ => .error ⟨input⟩

end Feature

/-- The features in effect somewhere. -/
structure FeatureSet where
  navigation : Bool
  guards : Bool
  arrays : Bool
deriving DecidableEq

namespace FeatureSet

/-- No feature. -/
def empty : FeatureSet := ⟨false, false, false⟩

/-- Every feature. -/
def full : FeatureSet := ⟨true, true, true⟩

/-- Whether a feature is in the set. -/
def contains (set : FeatureSet) : Feature → Bool
  | .navigation => set.navigation
  | .guards => set.guards
  | .arrays => set.arrays

/-- The set with a feature added. -/
def insert (set : FeatureSet) : Feature → FeatureSet
  | .navigation => { set with navigation := true }
  | .guards => { set with guards := true }
  | .arrays => { set with arrays := true }

/-- The features of the set, in the order of reports. -/
def toList (set : FeatureSet) : List Feature :=
  Feature.all.filter set.contains

/-- Whether the set holds no feature. -/
def isEmpty (set : FeatureSet) : Bool :=
  !(set.navigation || set.guards || set.arrays)

/-- The set of the features that satisfy a test. -/
def ofTest (test : Feature → Bool) : FeatureSet :=
  ⟨test .navigation, test .guards, test .arrays⟩

end FeatureSet

end NilSafety
