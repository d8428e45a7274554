import NilSafety.Path

/-!
Contract: where a declaration sits.

Owns:
- the package of a declaration, the type that owns it, if any, and its name;
- the paths of the declaration and of what directly contains it;
- the two ways in which a bare path can be read as a placement.

Does not own: which features apply there.
-/

namespace NilSafety

/-- The place of a declaration: directly in a package, or as a method of an
owning type in the package. -/
structure Placement where
  package : Path
  owner : Option String
  name : String
deriving DecidableEq

namespace Placement

/-- The place of a top-level declaration. -/
def item (package : Path) (name : String) : Placement := ⟨package, none, name⟩

/-- The place of a method. -/
def method (package : Path) (owner name : String) : Placement := ⟨package, some owner, name⟩

/-- The path of the owning type. -/
def ownerPath? (place : Placement) : Option Path :=
  place.owner.map place.package.child

/-- The declaration's own path. -/
def path (place : Placement) : Path :=
  (place.ownerPath?.getD place.package).child place.name

/-- The declaration's own path, its owner's and its package's. -/
def containers (place : Placement) : List Path :=
  place.path :: place.ownerPath?.toList ++ [place.package]

/-- The placements a bare path may stand for: a top-level declaration and, when
the path is long enough, a method. -/
def readings (path : Path) : List Placement :=
  match path.parent?, path.last? with
  | some parent, some name =>
      match parent.parent?, parent.last? with
      | some package, some owner => [item parent name, method package owner name]
      | _, _ => [item parent name]
  | _, _ => []

end Placement

end NilSafety
