import NilSafety.Scope.Problem

/-!
Contract: reading of directives, the written form of activations.

Owns:
- the grammar `feature=path`, `feature=path.*` and the feature `all`;
- which fault of a text is reported when it has several.

Does not own: the grammars of paths and features.

A missing equals sign is reported before the path, the path before the feature,
and the feature before an empty path.
-/

namespace NilSafety

namespace Activation

/-- The part after the equals sign: the characters of the path, and whether the
recursive ending followed them. A lone asterisk is the recursive root. -/
def readTarget (target : List Char) : List Char × Bool :=
  match Text.withoutEnding recursiveEnding.toList target with
  | some path => (path, true)
  | none => if target = ['*'] then ([], true) else (target, false)

/-- The features a name in a directive stands for; `all` stands for each. -/
def readFeatures (name : String) : Except Feature.Unknown (List Feature) :=
  if name.toLower = "all" then .ok Feature.all
  else (Feature.parse name).map fun feature => [feature]

/-- Reads a directive into its activations. -/
def parseDirective (directive : String) : Except Problem (List Activation) :=
  match Text.cutAtFirst '=' directive.toList with
  | none => .error (.invalidDirective directive .noEquals)
  | some (name, target) =>
      let (target, recursive) := readTarget (Text.trimChars target)
      match Path.parse (String.ofList target) with
      | .error problem => .error (.invalidDirective directive (.badPath problem))
      | .ok path =>
          match readFeatures (String.ofList (Text.trimChars name)) with
          | .error problem => .error (.invalidDirective directive (.unknownFeature problem))
          | .ok features =>
              match path.isRoot, features with
              | true, feature :: _ => .error (.emptyPath feature)
              | _, _ => .ok (features.map (Activation.mk path recursive))

/-- Reads a directive that stands for a single activation. -/
def parse (directive : String) : Except Problem Activation :=
  match parseDirective directive with
  | .error problem => .error problem
  | .ok [activation] => .ok activation
  | .ok _ => .error (.invalidDirective directive .several)

/-- Reads several directives, up to the first problem. -/
def parseDirectives : List String → Except Problem (List Activation)
  | [] => .ok []
  | directive :: rest => do
      let activations ← parseDirective directive
      return activations ++ (← parseDirectives rest)

end Activation

end NilSafety
