import Mathlib.Data.List.Nodup
import NilSafety.Proofs.Scope.Coverage
import NilSafety.Scope.ActivationSet

/-!
Contract: sets of activations, as lists and as what they put in effect.

Owns:
- lists without their repetitions, each item where it first stands;
- which lists pass the check into a set, and what the set holds;
- the listing by features as a rearrangement of the set;
- the sets that reach a whole package with one feature or with all of them;
- the features in effect for a declaration, read off the activations that reach it.

Does not own: how the activations of a set were written.
-/

namespace NilSafety

/-! ### First occurrences -/

section

variable {α : Type} [DecidableEq α]

theorem eraseDups_concat (items : List α) (item : α) :
    (items ++ [item]).eraseDups =
      if item ∈ items then items.eraseDups else items.eraseDups ++ [item] := by
  rw [List.eraseDups_append, List.removeAll, List.filter_singleton, List.elem_eq_mem]
  split
  next held =>
    rw [decide_eq_true held]
    exact List.append_nil _
  next new =>
    rw [decide_eq_false new]
    rfl

theorem eraseDups_of_nodup {items : List α} (nodup : items.Nodup) : items.eraseDups = items := by
  induction items with
  | nil => rfl
  | cons item items inductionHypothesis =>
      obtain ⟨new, rest⟩ := List.nodup_cons.mp nodup
      have others : items.filter (fun other => !other == item) = items := by
        refine List.filter_eq_self.mpr fun other isItem => ?_
        have differ : other ≠ item := fun same => new (same ▸ isItem)
        simpa using differ
      rw [List.eraseDups_cons, others, inductionHypothesis rest]

theorem filter_eraseDups (test : α → Bool) (items : List α) :
    items.eraseDups.filter test = (items.filter test).eraseDups := by
  induction items using List.reverseRecOn with
  | nil => rfl
  | append_singleton items item inductionHypothesis =>
      rw [eraseDups_concat, List.filter_append, List.filter_singleton,
        apply_ite (List.filter test), List.filter_append, List.filter_singleton,
        inductionHypothesis]
      cases passes : test item with
      | false => rw [cond_false, List.append_nil, List.append_nil, ite_self]
      | true => simp only [cond_true, eraseDups_concat, List.mem_filter, passes, and_true]

end

namespace Feature

theorem mem_all (feature : Feature) : feature ∈ all := by
  cases feature <;> decide

end Feature

theorem FeatureSet.contains_ofTest (test : Feature → Bool) (feature : Feature) :
    (ofTest test).contains feature = test feature := by
  cases feature <;> rfl

theorem FeatureSet.ext_contains
    {features features' : FeatureSet}
    (same : ∀ feature, features.contains feature ↔ features'.contains feature) :
    features = features' := by
  have navigation := Bool.eq_iff_iff.mpr (same .navigation)
  have guards := Bool.eq_iff_iff.mpr (same .guards)
  have arrays := Bool.eq_iff_iff.mpr (same .arrays)
  obtain ⟨_, _, _⟩ := features
  exact FeatureSet.mk.injEq .. ▸ ⟨navigation, guards, arrays⟩

namespace ActivationSet

/-! ### The check -/

theorem activations_add (set : ActivationSet) (activation : Activation) :
    (set.add activation).map activations =
      if activation.path.isRoot then .error (.emptyPath activation.feature)
      else .ok (if activation ∈ set.activations then set.activations
        else set.activations ++ [activation]) := by
  unfold add
  by_cases root : activation.path.isRoot
  · rw [dif_pos root, if_pos root]
    rfl
  · rw [dif_neg root, if_neg root]
    by_cases held : activation ∈ set.activations
    · rw [dif_pos held, if_pos held]
      rfl
    · rw [dif_neg held, if_neg held]
      rfl

theorem ofList_concat (items : List Activation) (activation : Activation) :
    ofList (items ++ [activation]) = (ofList items).bind fun set => set.add activation := by
  unfold ofList
  rw [List.foldlM_append]
  refine congrArg _ (funext fun set => ?_)
  rw [List.foldlM_cons]
  exact bind_pure _

/-- The check refuses the first activation of the root. Without one, the set holds the
activations where they first stand. -/
theorem ofList_eq (items : List Activation) :
    (ofList items).map activations =
      match items.find? (·.path.isRoot) with
      | some refused => .error (.emptyPath refused.feature)
      | none => .ok items.eraseDups := by
  induction items using List.reverseRecOn with
  | nil => rfl
  | append_singleton items activation inductionHypothesis =>
      rw [ofList_concat, List.find?_append]
      cases checked : ofList items with
      | error problem =>
          rw [checked] at inductionHypothesis
          cases found : items.find? (·.path.isRoot) with
          | none => rw [found] at inductionHypothesis; cases inductionHypothesis
          | some refused => rw [found] at inductionHypothesis; exact inductionHypothesis
      | ok set =>
          rw [checked] at inductionHypothesis
          cases found : items.find? (·.path.isRoot) with
          | some refused => rw [found] at inductionHypothesis; cases inductionHypothesis
          | none =>
              rw [found] at inductionHypothesis
              have holds : set.activations = items.eraseDups :=
                Except.ok.inj inductionHypothesis
              refine (set.activations_add activation).trans ?_
              rw [holds, eraseDups_concat, List.find?_singleton]
              simp only [List.mem_eraseDups]
              cases activation.path.isRoot <;> rfl

/-! ### Whole packages -/

/-- One feature in a whole package. -/
def inPackage (name : String) (feature : Feature) : ActivationSet where
  activations := [⟨⟨[name]⟩, true, feature⟩]
  nodup := List.nodup_singleton _
  not_root := List.forall_mem_singleton.mpr rfl

/-- Every feature in a whole package. -/
def allInPackage (name : String) : ActivationSet where
  activations := Activation.forAllFeatures ⟨[name]⟩ true
  nodup := by simp [Activation.forAllFeatures, Feature.all]
  not_root := by simp [Activation.forAllFeatures, Path.isRoot]

/-! ### The listing -/

theorem mem_rules {set : ActivationSet} {activation : Activation} :
    activation ∈ set.rules ↔ activation ∈ set.activations := by
  simp only [rules, List.mem_flatMap, List.mem_filter, decide_eq_true_eq]
  exact ⟨fun ⟨_, _, member, _⟩ => member, fun member => ⟨_, Feature.mem_all _, member, rfl⟩⟩

theorem rules_nodup (set : ActivationSet) : set.rules.Nodup := by
  refine List.nodup_flatMap.mpr ⟨fun feature _ => set.nodup.filter _, ?_⟩
  have distinct : Feature.all.Nodup := by decide
  refine List.Pairwise.imp ?_ distinct
  intro feature feature' differ activation member member'
  simp only [List.mem_filter, decide_eq_true_eq] at member member'
  exact differ (member.2.symm.trans member'.2)

theorem rules_perm (set : ActivationSet) : set.rules.Perm set.activations :=
  (List.perm_ext_iff_of_nodup set.rules_nodup set.nodup).mpr fun _ => mem_rules

theorem length_rules (set : ActivationSet) : set.rules.length = set.size :=
  set.rules_perm.length_eq

/-! ### The features in effect -/

/-- A feature is in effect where an activation of it reaches. -/
theorem contains_featuresAt
    {set : ActivationSet}
    {place : Placement}
    {feature : Feature} :
    (set.featuresAt place).contains feature ↔
      ∃ activation ∈ set.activations,
        activation.feature = feature ∧ activation.Reaches place := by
  rw [featuresAt, FeatureSet.contains_ofTest, enables, List.any_eq_true]
  simp only [Bool.and_eq_true, decide_eq_true_eq, Activation.covers_iff]

end ActivationSet

end NilSafety
