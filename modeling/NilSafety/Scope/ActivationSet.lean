import NilSafety.Scope.Directive

/-!
Contract: the checked set of activations that a rewrite consults.

Owns:
- sets without repeated activations and without activations of the root;
- the check of a list of activations into a set;
- the features in effect for a declaration, and for a bare path;
- the order in which the activations of a set are listed.

Does not own: rewriting, or the question whether an activation names anything.
-/

namespace NilSafety

/-- Distinct activations, none of them for the root, in the order in which they
were added. -/
structure ActivationSet where
  activations : List Activation
  nodup : activations.Nodup
  not_root : ∀ activation ∈ activations, activation.path.isRoot = false

namespace ActivationSet

/-- The set that switches nothing on. -/
def empty : ActivationSet := ⟨[], List.nodup_nil, by simp⟩

/-- The number of activations. -/
def size (set : ActivationSet) : Nat :=
  set.activations.length

/-- Whether nothing is switched on. -/
def isEmpty (set : ActivationSet) : Bool :=
  set.activations.isEmpty

/-- The activations grouped by feature. -/
def rules (set : ActivationSet) : List Activation :=
  Feature.all.flatMap fun feature => set.activations.filter (·.feature = feature)

/-- The set with one more activation. One that it holds is not added again, and
one for the root is refused. -/
def add (set : ActivationSet) (activation : Activation) : Except Problem ActivationSet :=
  if root : activation.path.isRoot then .error (.emptyPath activation.feature)
  else if held : activation ∈ set.activations then .ok set
  else
    .ok {
      activations := set.activations ++ [activation]
      nodup := by
        rw [List.nodup_append]
        refine ⟨set.nodup, by simp, ?_⟩
        intro old member new isNew same
        rw [List.mem_singleton] at isNew
        exact held (isNew ▸ same ▸ member)
      not_root := by
        intro other member
        rw [List.mem_append, List.mem_singleton] at member
        rcases member with old | new
        · exact set.not_root other old
        · simpa [new] using root
    }

/-- The set of the given activations; the first one for the root is reported. -/
def ofList (activations : List Activation) : Except Problem ActivationSet :=
  activations.foldlM add empty

/-- The set of the activations that directives stand for. -/
def ofDirectives (directives : List String) : Except Problem ActivationSet := do
  ofList (← Activation.parseDirectives directives)

/-- Whether a feature is in effect for a declaration. -/
def enables (set : ActivationSet) (place : Placement) (feature : Feature) : Bool :=
  set.activations.any fun activation => activation.feature = feature && activation.covers place

/-- The features in effect for a declaration. -/
def featuresAt (set : ActivationSet) (place : Placement) : FeatureSet :=
  .ofTest (set.enables place)

/-- Whether a feature is in effect for the declaration at a bare path, in one of
the readings of the path. -/
def enablesPath (set : ActivationSet) (path : Path) (feature : Feature) : Bool :=
  (Placement.readings path).any fun place => set.enables place feature

end ActivationSet

end NilSafety
