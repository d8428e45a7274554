import NilSafety.Proofs.Rewriting.Units

/-!
Contract: sets of activations for one feature.

Owns: that such a set puts no other feature into effect anywhere, and guards no
function unless it is for guards.

Does not own: where the one feature is in effect.
-/

namespace NilSafety.ActivationSet

/-- Every activation of the set is for the given feature. -/
def HoldsOnly (set : ActivationSet) (feature : Feature) : Prop :=
  ∀ activation ∈ set.activations, activation.feature = feature

instance (set : ActivationSet) (feature : Feature) : Decidable (set.HoldsOnly feature) :=
  inferInstanceAs (Decidable (∀ activation ∈ set.activations, activation.feature = feature))

theorem HoldsOnly.enables_eq_false
    {set : ActivationSet}
    {feature other : Feature}
    (holdsOnly : set.HoldsOnly feature)
    (different : other ≠ feature)
    (place : Placement) :
    set.enables place other = false := by
  unfold enables
  rw [List.any_eq_false]
  intro activation member isOther
  rw [Bool.and_eq_true, decide_eq_true_eq, holdsOnly activation member] at isOther
  exact different isOther.1.symm

theorem HoldsOnly.guards_eq_false
    {set : ActivationSet}
    {feature : Feature}
    (holdsOnly : set.HoldsOnly feature)
    (different : .guards ≠ feature)
    (member : Member) :
    set.guards member = false := by
  have off : (set.featuresAt member.place).guards = false :=
    holdsOnly.enables_eq_false different member.place
  unfold guards
  rw [off]
  rfl

end NilSafety.ActivationSet
