import NilSafety.Proofs.Scope.Sets

/-!
Contract: look-up of features by bare paths.

Owns:
- the placements that a path may stand for: all those of which it is the path;
- which activations reach one of them;
- the features in effect at a path, in terms of its readings and of activations.

Does not own: the features in effect for a single placement.

A path does not say whether its last but one segment names a package or a type. A method
is one segment further from its package than a top-level declaration. So the reading as a
method is the one that exact activations reach more easily, and it is missing only where
the package of the other reading is the root.
-/

namespace NilSafety

namespace Placement

/-! ### Readings -/

theorem readings_root : readings .root = [] := rfl

theorem readings_child_root (name : String) :
    readings (Path.root.child name) = [item .root name] := rfl

theorem readings_child_child (package : Path) (owner name : String) :
    readings ((package.child owner).child name) =
      [item (package.child owner) name, method package owner name] := by
  simp only [readings, Path.parent?_child, Path.last?_child]

/-- A path may stand for the placements whose path it is. -/
theorem mem_readings {place : Placement} {path : Path} :
    place ∈ readings path ↔ place.path = path := by
  constructor
  · intro isReading
    rcases path.root_or_child with rfl | ⟨parent, name, rfl⟩
    · rw [readings_root] at isReading
      cases isReading
    · rcases parent.root_or_child with rfl | ⟨package, owner, rfl⟩
      · rw [readings_child_root, List.mem_singleton] at isReading
        rw [isReading]
        rfl
      · rw [readings_child_child, List.mem_pair] at isReading
        rcases isReading with rfl | rfl <;> rfl
  · rintro rfl
    obtain ⟨package, owner, name⟩ := place
    cases owner with
    | some owner =>
        change method package owner name ∈ readings ((package.child owner).child name)
        simp [readings_child_child]
    | none =>
        change item package name ∈ readings (package.child name)
        rcases package.root_or_child with rfl | ⟨outer, last, rfl⟩
        · simp [readings_child_root]
        · simp [readings_child_child]

/-- A declaration is named by one segment, or by two, behind those of its package. -/
theorem length_path_le (place : Placement) : place.path.length ≤ place.package.length + 2 := by
  obtain ⟨package, owner, name⟩ := place
  cases owner <;> simp [path, ownerPath?, Path.length_child]

theorem path_ne_root (place : Placement) : place.path ≠ .root := by
  intro isRoot
  have length : place.path.length = 0 := congrArg Path.length isRoot
  unfold path at length
  rw [Path.length_child] at length
  omega

end Placement

/-! ### Activations and paths -/

/-- An activation reaches a reading of a path if its own path begins it, and unless it is
recursive lacks at most two of its segments. -/
theorem Activation.reaches_reading_iff
    {activation : Activation}
    (notRoot : activation.path.isRoot = false)
    {path : Path} :
    (∃ place : Placement, place.path = path ∧ activation.Reaches place) ↔
      activation.path.segments <+: path.segments ∧
        (activation.recursive ∨ path.length ≤ activation.path.length + 2) := by
  constructor
  · rintro ⟨place, rfl, begins, near⟩
    refine ⟨begins, near.imp_right fun inPackage => ?_⟩
    have named := place.length_path_le
    omega
  · rintro ⟨begins, near⟩
    rcases path.root_or_child with rfl | ⟨parent, name, rfl⟩
    · -- Only the root begins the root.
      have isRoot : activation.path.isRoot := List.isEmpty_iff.mpr (List.prefix_nil.mp begins)
      rw [notRoot] at isRoot
      cases isRoot
    · rcases parent.root_or_child with rfl | ⟨package, owner, rfl⟩
      · exact ⟨.item .root name, rfl, begins, .inr (Nat.zero_le _)⟩
      · refine ⟨.method package owner name, rfl, begins, near.imp_right fun short => ?_⟩
        rw [Path.length_child, Path.length_child] at short
        change package.length ≤ activation.path.length
        omega

namespace ActivationSet

variable {set : ActivationSet} {feature : Feature}

theorem enables_iff {place : Placement} :
    set.enables place feature ↔
      ∃ activation ∈ set.activations,
        activation.feature = feature ∧ activation.Reaches place := by
  rw [← contains_featuresAt, featuresAt, FeatureSet.contains_ofTest]

/-- A feature is in effect at a path where it is for some declaration of this path. -/
theorem enablesPath_iff {path : Path} :
    set.enablesPath path feature ↔
      ∃ place : Placement, place.path = path ∧ set.enables place feature := by
  simp only [enablesPath, List.any_eq_true, Placement.mem_readings]

theorem enablesPath_iff_activation {path : Path} :
    set.enablesPath path feature ↔
      ∃ activation ∈ set.activations, activation.feature = feature ∧
        activation.path.segments <+: path.segments ∧
        (activation.recursive ∨ path.length ≤ activation.path.length + 2) := by
  rw [enablesPath_iff]
  constructor
  · rintro ⟨place, isPath, isEnabled⟩
    obtain ⟨activation, member, isFeature, reaches⟩ := enables_iff.mp isEnabled
    have notRoot := set.not_root activation member
    exact ⟨activation, member, isFeature,
      (Activation.reaches_reading_iff notRoot).mp ⟨place, isPath, reaches⟩⟩
  · rintro ⟨activation, member, isFeature, near⟩
    have notRoot := set.not_root activation member
    obtain ⟨place, isPath, reaches⟩ := (Activation.reaches_reading_iff notRoot).mpr near
    exact ⟨place, isPath, enables_iff.mpr ⟨activation, member, isFeature, reaches⟩⟩

/-- The declarations of a path are the one that it names as a top-level declaration and,
if it has two segments or more, the one that it names as a method. -/
theorem enablesPath_iff_readings {path : Path} :
    set.enablesPath path feature ↔
      (∃ package name, path = Path.child package name ∧
        set.enables (.item package name) feature) ∨
      (∃ package owner name, 2 ≤ path.length ∧ path = (Path.child package owner).child name ∧
        set.enables (.method package owner name) feature) := by
  rw [enablesPath_iff]
  constructor
  · rintro ⟨⟨package, owner, name⟩, rfl, isEnabled⟩
    cases owner with
    | none => exact .inl ⟨package, name, rfl, isEnabled⟩
    | some owner =>
        refine .inr ⟨package, owner, name, ?_, rfl, isEnabled⟩
        change 2 ≤ ((package.child owner).child name).length
        rw [Path.length_child, Path.length_child]
        exact Nat.le_add_left 2 _
  · rintro (⟨package, name, rfl, isEnabled⟩ | ⟨package, owner, name, -, rfl, isEnabled⟩)
    · exact ⟨_, rfl, isEnabled⟩
    · exact ⟨_, rfl, isEnabled⟩

/-- **Bare paths.** A feature is in effect at a path exactly if an activation of it has a
path that begins this one and is recursive or at most two segments shorter. This is the
union of both readings of the path: what is in effect for a declaration is in effect at its
path, and what is in effect at a path is so for the top-level declaration that it names or,
where it has two segments or more, for the method. Nothing is in effect at the root. -/
theorem enabled_at_path_iff_in_some_reading (set : ActivationSet) (feature : Feature) :
    (∀ path, set.enablesPath path feature ↔
      ∃ activation ∈ set.activations, activation.feature = feature ∧
        activation.path.segments <+: path.segments ∧
        (activation.recursive ∨ path.length ≤ activation.path.length + 2)) ∧
    (∀ place, set.enables place feature → set.enablesPath place.path feature) ∧
    (∀ path, set.enablesPath path feature ↔
      (∃ package name, path = Path.child package name ∧
        set.enables (.item package name) feature) ∨
      (∃ package owner name, 2 ≤ path.length ∧ path = (Path.child package owner).child name ∧
        set.enables (.method package owner name) feature)) ∧
    set.enablesPath .root feature = false := by
  refine ⟨fun _ => enablesPath_iff_activation, fun place isEnabled => ?_,
    fun _ => enablesPath_iff_readings, ?_⟩
  · exact enablesPath_iff.mpr ⟨place, rfl, isEnabled⟩
  · refine Bool.eq_false_iff.mpr fun isEnabled => ?_
    obtain ⟨place, isRoot, -⟩ := enablesPath_iff.mp isEnabled
    exact place.path_ne_root isRoot

/-- An activation for a package is in effect at the path of a method in it, two segments
below. -/
theorem enabled_at_path_iff_in_some_reading_of_method :
    let set : ActivationSet := ⟨[⟨⟨["app"]⟩, false, .guards⟩], by decide, by decide⟩
    let place := Placement.method ⟨["app"]⟩ "Job" "run"
    set.enables place .guards ∧ set.enablesPath place.path .guards := by
  intro set place
  have isEnabled : set.enables place .guards := by decide
  exact ⟨isEnabled, (enabled_at_path_iff_in_some_reading set .guards).2.1 place isEnabled⟩

end ActivationSet

end NilSafety
