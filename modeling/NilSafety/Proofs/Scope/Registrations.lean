import Mathlib.Data.List.Forall2
import NilSafety.Proofs.Scope.Sets
import NilSafety.Scope.Builder

/-!
Contract: registrations of activations as a union.

Owns:
- what a registration stands for, and that a builder collects just that;
- which activations pass the check, and what set they make;
- the features in effect for a declaration, in terms of what was registered;
- that order, repetition and grouping of registrations do not matter for them, and that
  recursion only adds to them.

Does not own: the declarations of a unit.
-/

namespace NilSafety

/-! ### Collecting -/

/-- The activations that a registration stands for. -/
def Registration.activations : Registration → Except Problem (List Activation)
  | .activate path recursive feature => .ok [⟨path, recursive, feature⟩]
  | .enableAll path recursive => .ok (Activation.forAllFeatures path recursive)
  | .directive text => Activation.parseDirective text
  | .directives texts => Activation.parseDirectives texts

theorem Activation.parseDirectives_eq (texts : List String) :
    parseDirectives texts = (texts.mapM parseDirective).map List.flatten := by
  induction texts with
  | nil => rfl
  | cons text texts inductionHypothesis =>
      rw [parseDirectives, List.mapM_cons, inductionHypothesis]
      cases parseDirective text with
      | error => rfl
      | ok => cases texts.mapM parseDirective <;> rfl

namespace Builder

@[simp]
theorem extend_nil (builder : Builder) : builder.extend [] = builder :=
  congrArg Builder.mk (List.append_nil _)

@[simp]
theorem extend_extend (builder : Builder) (first second : List Activation) :
    (builder.extend first).extend second = builder.extend (first ++ second) :=
  congrArg Builder.mk (List.append_assoc ..)

/-- Steps that each add some activations behind the others, or fail, add all of them
together, or fail with the first. -/
theorem foldlM_extend
    {α : Type}
    {step : Builder → α → Except Problem Builder}
    {added : α → Except Problem (List Activation)}
    (adds : ∀ builder item, step builder item = (added item).map builder.extend)
    (builder : Builder)
    (items : List α) :
    items.foldlM step builder =
      (items.mapM added).map fun groups => builder.extend groups.flatten := by
  induction items generalizing builder with
  | nil => exact congrArg Except.ok builder.extend_nil.symm
  | cons item items inductionHypothesis =>
      rw [List.foldlM_cons, adds, List.mapM_cons]
      cases added item with
      | error => rfl
      | ok first =>
          refine (inductionHypothesis _).trans ?_
          cases items.mapM added with
          | error => rfl
          | ok rest => exact congrArg Except.ok (builder.extend_extend first rest.flatten)

theorem register_eq (builder : Builder) (registration : Registration) :
    builder.register registration = registration.activations.map builder.extend := by
  cases registration with
  | activate | directive => rfl
  | enableAll path recursive =>
      refine congrArg Except.ok ?_
      simp only [enableAll, activate, Activation.forAllFeatures, Feature.all, List.foldl_cons,
        List.foldl_nil, List.map_cons, List.map_nil, extend_extend, List.cons_append,
        List.nil_append]
  | directives texts =>
      refine (foldlM_extend (fun _ _ => rfl) builder texts).trans ?_
      rw [Registration.activations, Activation.parseDirectives_eq]
      cases texts.mapM Activation.parseDirective <;> rfl

/-- What a builder collects is what the registrations stand for, one after the other. It
fails with the first registration that stands for nothing. -/
theorem registerAll_eq (builder : Builder) (registrations : List Registration) :
    builder.registerAll registrations =
      (registrations.mapM Registration.activations).map fun groups =>
        builder.extend groups.flatten :=
  foldlM_extend register_eq builder registrations

end Builder

/-- An activation that some registration of a sequence stands for. -/
def Registration.Registered
    (registrations : List Registration)
    (activation : Activation) : Prop :=
  ∃ registration ∈ registrations,
    ∃ group, registration.activations = .ok group ∧ activation ∈ group

theorem mapM_eq_ok_iff
    {ε α β : Type}
    {f : α → Except ε β}
    {items : List α}
    {results : List β} :
    items.mapM f = .ok results ↔
      List.Forall₂ (fun item result => f item = .ok result) items results := by
  induction items generalizing results with
  | nil =>
      rw [List.mapM_nil, List.forall₂_nil_left_iff]
      exact ⟨fun same => (Except.ok.inj same).symm, congrArg Except.ok ∘ Eq.symm⟩
  | cons item items inductionHypothesis =>
      rw [List.mapM_cons, List.forall₂_cons_left_iff]
      simp only [← inductionHypothesis]
      cases f item with
      | error => exact ⟨nofun, nofun⟩
      | ok first =>
          cases items.mapM f with
          | error => exact ⟨nofun, nofun⟩
          | ok rest =>
              refine ⟨fun same => ⟨first, rest, rfl, rfl, (Except.ok.inj same).symm⟩, ?_⟩
              rintro ⟨_, _, ⟨⟩, ⟨⟩, rfl⟩
              rfl

namespace Builder

section

variable
  {registrations : List Registration}
  {builder : Builder}
  (registered : empty.registerAll registrations = .ok builder)

include registered

theorem activations_of_registered :
    ∃ groups,
      List.Forall₂ (fun registration group => registration.activations = .ok group)
        registrations groups ∧
      builder.activations = groups.flatten := by
  rw [registerAll_eq] at registered
  cases named : registrations.mapM Registration.activations with
  | error => rw [named] at registered; cases registered
  | ok groups =>
      rw [named] at registered
      cases registered
      exact ⟨groups, mapM_eq_ok_iff.mp named, rfl⟩

theorem mem_activations_iff {activation : Activation} :
    activation ∈ builder.activations ↔ Registration.Registered registrations activation := by
  obtain ⟨groups, named, collected⟩ := activations_of_registered registered
  rw [collected, List.mem_flatten]
  clear collected registered
  induction named with
  | nil => exact ⟨nofun, nofun⟩
  | cons names _ inductionHypothesis =>
      unfold Registration.Registered at inductionHypothesis ⊢
      rw [List.exists_mem_cons_iff, List.exists_mem_cons_iff, inductionHypothesis]
      refine or_congr_left ⟨fun member => ⟨_, names, member⟩, ?_⟩
      rintro ⟨_, names', member⟩
      exact Except.ok.inj (names.symm.trans names') ▸ member

end

/-! ### Building -/

/-- Building reports the first activation of the root. Without one, it gives the set of
all that was registered. -/
theorem build_cases (builder : Builder) :
    (∃ refused, builder.activations.find? (·.path.isRoot) = some refused ∧
      builder.build = .error (.emptyPath refused.feature)) ∨
    (builder.activations.find? (·.path.isRoot) = none ∧
      ∃ set, builder.build = .ok set ∧ set.activations = builder.activations.eraseDups) := by
  have checked := ActivationSet.ofList_eq builder.activations
  change builder.build.map _ = _ at checked
  cases found : builder.activations.find? (·.path.isRoot) with
  | some refused =>
      rw [found] at checked
      cases built : builder.build with
      | ok => rw [built] at checked; cases checked
      | error =>
          rw [built] at checked
          exact .inl ⟨refused, rfl, congrArg Except.error (Except.error.inj checked)⟩
  | none =>
      rw [found] at checked
      cases built : builder.build with
      | error => rw [built] at checked; cases checked
      | ok set =>
          rw [built] at checked
          exact .inr ⟨rfl, set, rfl, Except.ok.inj checked⟩

theorem build_eq_error_iff {builder : Builder} {problem : Problem} :
    builder.build = .error problem ↔
      ∃ refused, builder.activations.find? (·.path.isRoot) = some refused ∧
        problem = .emptyPath refused.feature := by
  obtain ⟨refused, found, built⟩ | ⟨absent, set, built, -⟩ := builder.build_cases
  · rw [built, found]
    refine ⟨fun same => ⟨refused, rfl, (Except.error.inj same).symm⟩, ?_⟩
    rintro ⟨_, ⟨⟩, rfl⟩
    rfl
  · rw [built, absent]
    exact ⟨nofun, nofun⟩

/-- A set is built where nothing is registered for the root. -/
theorem exists_build_iff {builder : Builder} :
    (∃ set, builder.build = .ok set) ↔
      ∀ activation ∈ builder.activations, activation.path ≠ Path.root := by
  have noneForRoot : builder.activations.find? (·.path.isRoot) = none ↔
      ∀ activation ∈ builder.activations, activation.path ≠ Path.root := by
    rw [List.find?_eq_none]
    simp only [Path.isRoot_iff, ne_eq]
  rw [← noneForRoot]
  obtain ⟨refused, found, built⟩ | ⟨absent, set, built, -⟩ := builder.build_cases
  · rw [built, found]
    exact ⟨nofun, nofun⟩
  · exact iff_of_true ⟨set, built⟩ absent

section

variable
  {builder : Builder}
  {set : ActivationSet}
  (built : builder.build = .ok set)

include built

theorem activations_of_build : set.activations = builder.activations.eraseDups := by
  obtain ⟨refused, -, built'⟩ | ⟨-, set', built', holds⟩ := builder.build_cases
  · cases built.symm.trans built'
  · cases built.symm.trans built'
    exact holds

theorem mem_of_build {activation : Activation} :
    activation ∈ set.activations ↔ activation ∈ builder.activations := by
  rw [activations_of_build built, List.mem_eraseDups]

theorem rules_of_build :
    set.rules = Feature.all.flatMap fun feature =>
      (builder.activations.filter (·.feature = feature)).eraseDups := by
  unfold ActivationSet.rules
  rw [activations_of_build built]
  exact congrArg (Feature.all.flatMap ·) (funext fun feature => filter_eraseDups _ _)

/-- The features in effect are those of the registered activations within reach. -/
theorem contains_of_build
    {registrations : List Registration}
    (registered : empty.registerAll registrations = .ok builder)
    {place : Placement}
    {feature : Feature} :
    (set.featuresAt place).contains feature ↔
      ∃ activation, Registration.Registered registrations activation ∧
        activation.feature = feature ∧ activation.Reaches place := by
  rw [ActivationSet.contains_featuresAt]
  simp only [mem_of_build built, mem_activations_iff registered]

end

end Builder

/-! ### The union -/

/-- The features in effect are the union of what was registered. Building fails with the
first registration for the root; otherwise a feature is in effect for the declarations
within reach of an activation of it, in whatever order and however often the activations
were registered, and a registration made recursive takes no feature away. The set lists
every activation once, by features and then in the order of first registration. -/
theorem features_of_registrations
    {registrations : List Registration}
    {builder : Builder}
    (registered : Builder.empty.registerAll registrations = .ok builder) :
    (∃ groups,
      List.Forall₂ (fun registration group => registration.activations = .ok group)
        registrations groups ∧
      builder.activations = groups.flatten) ∧
    (∀ problem, builder.build = .error problem ↔
      ∃ refused, builder.activations.find? (·.path.isRoot) = some refused ∧
        problem = .emptyPath refused.feature) ∧
    ((∃ set, builder.build = .ok set) ↔
      ∀ activation ∈ builder.activations, activation.path ≠ Path.root) ∧
    ∀ set, builder.build = .ok set →
      (∀ place feature, (set.featuresAt place).contains feature ↔
        ∃ activation, Registration.Registered registrations activation ∧
          activation.feature = feature ∧
          activation.path.segments <+: place.path.segments ∧
          (activation.recursive ∨ place.package.length ≤ activation.path.length)) ∧
      (set.rules = Feature.all.flatMap fun feature =>
        (builder.activations.filter (·.feature = feature)).eraseDups) ∧
      set.rules.Nodup ∧
      set.size = set.rules.length ∧
      ∀ registrations' builder' set',
        Builder.empty.registerAll registrations' = .ok builder' →
        builder'.build = .ok set' →
        ((∀ activation, Registration.Registered registrations activation ↔
            Registration.Registered registrations' activation) →
          ∀ place, set.featuresAt place = set'.featuresAt place) ∧
        ((∀ activation, Registration.Registered registrations activation →
            Registration.Registered registrations' activation ∨
              Registration.Registered registrations' activation.widened) →
          ∀ place feature, (set.featuresAt place).contains feature →
            (set'.featuresAt place).contains feature) := by
  refine ⟨Builder.activations_of_registered registered, fun _ => Builder.build_eq_error_iff,
    Builder.exists_build_iff, ?_⟩
  intro set built
  refine ⟨fun place feature => Builder.contains_of_build built registered,
    Builder.rules_of_build built, set.rules_nodup, set.length_rules.symm, ?_⟩
  intro registrations' builder' set' registered' built'
  constructor
  · intro same place
    refine FeatureSet.ext_contains fun feature => ?_
    rw [Builder.contains_of_build built registered, Builder.contains_of_build built' registered']
    simp only [same]
  · intro within place feature inEffect
    obtain ⟨activation, isRegistered, isFeature, reaches⟩ :=
      (Builder.contains_of_build built registered).mp inEffect
    refine (Builder.contains_of_build built' registered').mpr ?_
    rcases within activation isRegistered with kept | widened
    · exact ⟨activation, kept, isFeature, reaches⟩
    · exact ⟨activation.widened, widened, isFeature, reaches.widened⟩

/-- One directive, written twice, with activations for every feature in between. -/
theorem features_of_registrations_of_repeated :
    let registrations : List Registration :=
      [.directive "api=app.util", .enableAll ⟨["app"]⟩ true, .directives ["api=app.util"]]
    let exact : Activation := ⟨⟨["app", "util"]⟩, false, .guards⟩
    let wide : Feature → Activation := Activation.mk ⟨["app"]⟩ true
    ∃ builder,
      Builder.empty.registerAll registrations = .ok builder ∧
      builder.activations =
        [exact, wide .navigation, wide .guards, wide .arrays, exact] ∧
      ∃ set,
        builder.build = .ok set ∧
        set.rules = [wide .navigation, exact, wide .guards, wide .arrays] ∧
        set.size = 4 := by
  intro registrations exact wide
  have registered : Builder.empty.registerAll registrations =
      .ok ⟨[exact, wide .navigation, wide .guards, wide .arrays, exact]⟩ := by decide +kernel
  refine ⟨_, registered, rfl, ?_⟩
  obtain ⟨-, -, buildable, listed⟩ := features_of_registrations registered
  obtain ⟨set, built⟩ := buildable.mpr (by decide)
  obtain ⟨-, rules, -, size, -⟩ := listed set built
  have grouped : set.rules = [wide .navigation, exact, wide .guards, wide .arrays] :=
    rules.trans (by decide)
  exact ⟨set, built, grouped, size.trans (congrArg List.length grouped)⟩

end NilSafety
