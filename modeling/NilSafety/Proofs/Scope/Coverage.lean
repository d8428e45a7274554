import NilSafety.Proofs.Paths.Order
import NilSafety.Scope.Activation

/-!
Contract: which declarations an activation covers.

Owns:
- the closed form of coverage: the activation's path begins the declaration's, and it is
  recursive or no shorter than the path of the package;
- the containers of a declaration as the paths on the way from its package to it.

Does not own: sets of activations.

Exact activations are compared with the containers of a declaration and recursive ones
with its path. Both come down to one test on segments, whatever the kind of declaration.
-/

namespace NilSafety

namespace Placement

variable {path : Path} (place : Placement)

/-- The containers of a declaration are the paths that begin its own and are no shorter
than that of its package. -/
theorem mem_containers :
    path ∈ place.containers ↔
      path.isPrefixOf place.path ∧ place.package.length ≤ path.length := by
  have packageOnly : path = place.package ↔
      path.isPrefixOf place.package ∧ place.package.length ≤ path.length :=
    ⟨fun same => same ▸ ⟨path.isPrefixOf_refl, le_refl _⟩,
      fun both => Path.eq_of_isPrefixOf both.1 both.2⟩
  have child (other : Path) (name : String) (longer : place.package.length ≤ other.length) :
      path = other.child name → place.package.length ≤ path.length := by
    rintro rfl
    rw [Path.length_child]
    exact Nat.le_succ_of_le longer
  obtain ⟨package, owner, name⟩ := place
  cases owner with
  | none =>
      have own := child package name (le_refl _)
      simp only [containers, Placement.path, ownerPath?, Option.map_none, Option.toList_none,
        Option.getD_none, List.cons_append, List.nil_append, List.mem_cons, List.not_mem_nil,
        or_false, Path.isPrefixOf_child, packageOnly, or_and_right, and_iff_left_of_imp own]
  | some owner =>
      have ownerOwn := child package owner (le_refl _)
      have own := child (package.child owner) name (by
        rw [Path.length_child]
        exact Nat.le_succ _)
      simp only [containers, Placement.path, ownerPath?, Option.map_some, Option.toList_some,
        Option.getD_some, List.cons_append, List.nil_append, List.mem_cons, List.not_mem_nil,
        or_false, Path.isPrefixOf_child, packageOnly, or_and_right,
        and_iff_left_of_imp ownerOwn, and_iff_left_of_imp own]

end Placement

namespace Activation

/-- The declarations within reach of an activation: its path begins theirs, and unless it is
recursive it reaches no deeper than the direct members of what it names. -/
def Reaches (activation : Activation) (place : Placement) : Prop :=
  activation.path.segments <+: place.path.segments ∧
    (activation.recursive ∨ place.package.length ≤ activation.path.length)

/-- The activation that reaches what lies beneath its path too. -/
def widened (activation : Activation) : Activation :=
  { activation with recursive := true }

theorem covers_iff {activation : Activation} {place : Placement} :
    activation.covers place ↔ activation.Reaches place := by
  unfold covers Reaches
  rw [← Path.isPrefixOf_iff]
  split
  next recursive => simp only [recursive, true_or, and_true]
  next exact =>
    rw [List.contains_iff_mem, place.mem_containers]
    simp only [exact, false_or, Bool.false_eq_true]

theorem Reaches.widened
    {activation : Activation}
    {place : Placement}
    (reaches : activation.Reaches place) :
    activation.widened.Reaches place :=
  ⟨reaches.1, .inl rfl⟩

end Activation

end NilSafety
