import Mathlib.Data.List.Nodup
import NilSafety.Proofs.Rewriting.Independence
import NilSafety.Proofs.Scope.Sets

/-!
Contract: activations that name nothing, and their lack of effect.

Owns:
- the paths that a unit declares, as a property of paths;
- that an activation covers something of a unit only if its path is declared there;
- sets of activations that put the same features in effect for a unit, and builds with them;
- the report of unresolved activations, and the build without them.

Does not own: the rest of the report of a build.

The paths that a unit declares are collected from its declarations, while coverage is
decided from the place of one declaration at a time. The two meet in the prefixes of a
place: each is an ancestor of the package, the package, the owner or the declaration.
-/

namespace NilSafety

/-! ### Declared paths -/

/-- A unit declares its package with the packages around it, its declarations, and the
methods inside them. -/
def SourceUnit.Declares (unit : SourceUnit) (table : SymbolTable) (path : Path) : Prop :=
  path.isPrefixOf unit.package ∨
    ∃ decl ∈ unit.decls,
      path = unit.package.child (table.display decl.name) ∨
        ∃ method ∈ decl.methods,
          path = (unit.package.child (table.display decl.name)).child (table.display method.name)

instance (unit : SourceUnit) (table : SymbolTable) (path : Path) :
    Decidable (unit.Declares table path) :=
  inferInstanceAs (Decidable (_ ∨ _))

theorem SourceUnit.mem_declaredPaths {unit : SourceUnit} {table : SymbolTable} {path : Path} :
    path ∈ unit.declaredPaths table ↔ unit.Declares table path := by
  simp only [declaredPaths, Declares, Decl.declaredPaths, List.mem_append, List.mem_flatMap,
    List.mem_map, List.mem_singleton, Path.mem_ancestors, eq_comm, or_comm]

/-- An activation reaches an expression of a unit only if the unit declares its path. -/
theorem SourceUnit.declares_of_reaches
    {unit : SourceUnit}
    {table : SymbolTable}
    {place : Placement}
    (isPlace : place ∈ unit.places table)
    {activation : Activation}
    (reaches : activation.Reaches place) :
    unit.Declares table activation.path := by
  obtain ⟨decl, isDecl, inDecl⟩ := List.mem_flatMap.mp isPlace
  have begins : activation.path.isPrefixOf place.path := Path.isPrefixOf_iff.mpr reaches.1
  have ofItem : activation.path.isPrefixOf (unit.package.child (table.display decl.name)) →
      unit.Declares table activation.path := by
    intro beginsItem
    rcases Path.isPrefixOf_child.mp beginsItem with isItem | beginsPackage
    · exact .inr ⟨decl, isDecl, .inl isItem⟩
    · exact .inl beginsPackage
  have ofMethod : ∀ method ∈ decl.methods,
      place = .method unit.package (table.display decl.name) (table.display method.name) →
        unit.Declares table activation.path := by
    rintro method isMethod rfl
    rcases Path.isPrefixOf_child.mp begins with isMethodPath | beginsOwner
    · exact .inr ⟨decl, isDecl, .inr ⟨method, isMethod, isMethodPath⟩⟩
    · exact ofItem beginsOwner
  cases decl with
  | function f =>
      obtain rfl := List.mem_singleton.mp inDecl
      exact ofItem begins
  | constant =>
      obtain rfl := List.mem_singleton.mp inDecl
      exact ofItem begins
  | record | extension =>
      obtain ⟨member, isMember, rfl⟩ := List.mem_map.mp inDecl
      obtain ⟨method, isMethod, rfl⟩ := List.mem_map.mp isMember
      exact ofMethod method isMethod rfl

/-! ### The same features -/

theorem Member.task_congr
    {set set' : ActivationSet}
    {member : Member}
    (same : set.featuresAt member.place = set'.featuresAt member.place)
    (table : SymbolTable) :
    member.task set table = member.task set' table := by
  unfold Member.task ActivationSet.guards
  rw [same]

namespace SourceUnit

variable {set set' : ActivationSet} {table : SymbolTable} {unit : SourceUnit}

/-- What is to be done to a unit depends on the features for its expressions only. -/
theorem tasks_congr
    (same : ∀ place ∈ unit.places table, set.featuresAt place = set'.featuresAt place) :
    unit.tasks set table = unit.tasks set' table := by
  unfold tasks
  rw [List.flatMap_def, List.flatMap_def]
  congr 1
  refine List.map_congr_left fun decl isDecl => ?_
  have each : ∀ place ∈ decl.places table unit.package,
      set.featuresAt place = set'.featuresAt place :=
    fun place inDecl => same place (List.mem_flatMap_of_mem isDecl inDecl)
  cases decl with
  | function | record | extension =>
      refine List.map_congr_left fun member isMember => ?_
      exact member.task_congr (each _ (List.mem_map_of_mem isMember)) table
  | constant name =>
      have here := each (.item unit.package (table.display name)) List.mem_cons_self
      simp only [Decl.tasks, Placement.valueTask, here]

theorem rewrite_congr
    (resolves : unit.resolves table)
    (same : unit.tasks set table = unit.tasks set' table) :
    unit.rewrite set table = unit.rewrite set' table := by
  have performs : ∀ set : ActivationSet,
      (Rewrite.decls set unit.package unit.decls).run (.start table) =
        (refillEach Decl.bodies Decl.withBodies unit.decls (unit.performed set table).1,
          (unit.performed set table).2) :=
    fun set => Rewrite.decls_apply set unit.package (List.all_eq_true.mp resolves) (.refl table)
  have ran : (Rewrite.decls set unit.package unit.decls).run (.start table) =
      (Rewrite.decls set' unit.package unit.decls).run (.start table) := by
    refine (performs set).trans (Eq.trans ?_ (performs set').symm)
    exact congrArg (fun tasks : List Task =>
      (refillEach Decl.bodies Decl.withBodies unit.decls
          (tasks.mapM Rewrite.task (.start table)).1,
        (tasks.mapM Rewrite.task (.start table)).2)) same
  unfold rewrite
  rw [ran]

end SourceUnit

namespace ActivationSet

theorem steps_congr
    {set set' : ActivationSet}
    {base start : SymbolTable}
    {units : List SourceUnit}
    (grows : base.Grows start)
    (resolve : ∀ unit ∈ units, unit.resolves base)
    (same : ∀ unit ∈ units, unit.tasks set base = unit.tasks set' base) :
    set.steps units start = set'.steps units start ∧
      set.tableAfter units start = set'.tableAfter units start := by
  induction units generalizing start with
  | nil => exact ⟨rfl, rfl⟩
  | cons unit rest inductionHypothesis =>
      have resolves := resolve unit List.mem_cons_self
      have resolvesStart := SourceUnit.resolves_of_grows grows resolves
      have sameTasks : unit.tasks set start = unit.tasks set' start := by
        rw [SourceUnit.tasks_eq grows resolves, SourceUnit.tasks_eq grows resolves,
          same unit List.mem_cons_self]
      have sameOutcome := SourceUnit.rewrite_congr resolvesStart sameTasks
      obtain ⟨sameSteps, sameTable⟩ := inductionHypothesis
        (grows.trans (SourceUnit.grows_rewrite set resolvesStart))
        (fun other member => resolve other (List.mem_cons_of_mem unit member))
        (fun other member => same other (List.mem_cons_of_mem unit member))
      rw [steps, steps, tableAfter, tableAfter, sameSteps, sameTable, sameOutcome]
      exact ⟨rfl, rfl⟩

/-! ### Removed activations -/

/-- The set without the activations that a list of problems reports. -/
def without (set : ActivationSet) (problems : List Problem) : ActivationSet where
  activations := set.activations.filter fun activation =>
    .unresolvedActivation activation ∉ problems
  nodup := set.nodup.filter _
  not_root := fun activation member =>
    set.not_root activation (List.mem_of_mem_filter member)

theorem mem_without {set : ActivationSet} {problems : List Problem} {activation : Activation} :
    activation ∈ (set.without problems).activations ↔
      activation ∈ set.activations ∧ .unresolvedActivation activation ∉ problems := by
  rw [without, List.mem_filter, decide_eq_true_iff]

/-- Without activations that do not reach a declaration, the same features are in effect
for it. -/
theorem featuresAt_without
    {set : ActivationSet}
    {problems : List Problem}
    {place : Placement}
    (kept : ∀ activation ∈ set.activations, activation.Reaches place →
      .unresolvedActivation activation ∉ problems) :
    (set.without problems).featuresAt place = set.featuresAt place := by
  refine FeatureSet.ext_contains fun feature => ?_
  rw [contains_featuresAt, contains_featuresAt]
  simp only [mem_without]
  constructor
  · rintro ⟨activation, ⟨member, -⟩, isFeature, reaches⟩
    exact ⟨activation, member, isFeature, reaches⟩
  · rintro ⟨activation, member, isFeature, reaches⟩
    exact ⟨activation, ⟨member, kept activation member reaches⟩, isFeature, reaches⟩

section

variable {set : ActivationSet} {units : List SourceUnit} {table : SymbolTable}

/-- Reported are the activations, in the order in which the set lists them, whose path no
unit declares. -/
theorem unresolved_eq :
    set.unresolved units table =
      (set.rules.filter fun activation => ∀ unit ∈ units, ¬ unit.Declares table activation.path).map
        .unresolvedActivation := by
  unfold unresolved
  dsimp only
  congr 2
  funext activation
  rw [List.contains_eq_mem, ← decide_not]
  simp only [List.mem_flatMap, SourceUnit.mem_declaredPaths, not_exists, not_and]

theorem mem_unresolved {activation : Activation} :
    .unresolvedActivation activation ∈ set.unresolved units table ↔
      activation ∈ set.activations ∧ ∀ unit ∈ units, ¬ unit.Declares table activation.path := by
  have injective : Function.Injective Problem.unresolvedActivation :=
    fun _ _ same => Problem.unresolvedActivation.inj same
  rw [unresolved_eq, List.mem_map_of_injective injective, List.mem_filter, decide_eq_true_iff,
    mem_rules]

theorem unresolved_nodup : (set.unresolved units table).Nodup :=
  (set.rules_nodup.filter _).map fun _ _ same => Problem.unresolvedActivation.inj same

/-- What covers something of a unit is not reported. -/
theorem notMem_unresolved
    {unit : SourceUnit}
    (isUnit : unit ∈ units)
    {place : Placement}
    (isPlace : place ∈ unit.places table)
    {activation : Activation}
    (reaches : activation.Reaches place) :
    .unresolvedActivation activation ∉ set.unresolved units table :=
  fun reported =>
    (mem_unresolved.mp reported).2 unit isUnit (SourceUnit.declares_of_reaches isPlace reaches)

/-- Without the reported activations there is nothing to report. -/
theorem unresolved_without :
    (set.without (set.unresolved units table)).unresolved units table = [] := by
  rw [List.eq_nil_iff_forall_not_mem]
  intro problem reported
  rw [unresolved_eq, List.mem_map] at reported
  obtain ⟨activation, passes, -⟩ := reported
  rw [List.mem_filter, decide_eq_true_iff, mem_rules, mem_without, mem_unresolved] at passes
  exact passes.1.2 ⟨passes.1.1, passes.2⟩

theorem tasks_without
    {unit : SourceUnit}
    (isUnit : unit ∈ units) :
    unit.tasks (set.without (set.unresolved units table)) table = unit.tasks set table :=
  SourceUnit.tasks_congr fun _ isPlace =>
    featuresAt_without fun _ _ reaches => notMem_unresolved isUnit isPlace reaches

end

end ActivationSet

/-- **Unresolved activations have no effect.** Where the table knows all symbols of all
units, a build reports the activations whose path no unit declares, each once and in the
order in which the set lists them. Rewriting the units without these activations gives the
same units, table, counts and failures. No activation is reported that covers a function, a
method or a constant of a unit. -/
theorem unresolved_without_effect
    (set : ActivationSet)
    (units : List SourceUnit)
    (table : SymbolTable)
    (resolve : ∀ unit ∈ units, unit.resolves table) :
    let outcome := set.rewriteAll units table
    let reduced := (set.without outcome.report.configuration).rewriteAll units table
    (outcome.report.configuration =
      (set.rules.filter fun activation =>
        ∀ unit ∈ units, ¬ unit.Declares table activation.path).map .unresolvedActivation) ∧
      outcome.report.configuration.Nodup ∧
      reduced.units = outcome.units ∧
      reduced.table = outcome.table ∧
      reduced.report.counts = outcome.report.counts ∧
      reduced.report.failures = outcome.report.failures ∧
      reduced.report.configuration = [] ∧
      ∀ unit ∈ units, ∀ place ∈ unit.places table, ∀ activation : Activation,
        activation.covers place →
          .unresolvedActivation activation ∉ outcome.report.configuration := by
  intro outcome reduced
  have reported : outcome.report.configuration = set.unresolved units table :=
    (set.report_rewriteAll resolve).2.2
  have sameTasks : ∀ unit ∈ units,
      unit.tasks (set.without outcome.report.configuration) table = unit.tasks set table := by
    rw [reported]
    exact fun unit isUnit => ActivationSet.tasks_without isUnit
  obtain ⟨sameSteps, sameTable⟩ := ActivationSet.steps_congr (.refl table) resolve sameTasks
  obtain ⟨outcomeUnits, outcomeTable, counts, failures, -⟩ := set.rewriteAll_eq units table
  obtain ⟨units', table', counts', failures', -⟩ :=
    (set.without outcome.report.configuration).rewriteAll_eq units table
  rw [sameSteps] at units' counts' failures'
  rw [sameTable] at table'
  refine ⟨reported.trans ActivationSet.unresolved_eq,
    reported ▸ ActivationSet.unresolved_nodup, units'.trans outcomeUnits.symm,
    table'.trans outcomeTable.symm, counts'.trans counts.symm, failures'.trans failures.symm,
    ?_, ?_⟩
  · refine ((ActivationSet.report_rewriteAll _ resolve).2.2).trans ?_
    rw [reported]
    exact ActivationSet.unresolved_without
  · intro unit isUnit place isPlace activation covers
    rw [reported]
    exact ActivationSet.notMem_unresolved isUnit isPlace (Activation.covers_iff.mp covers)

/-- One activation for a package that no unit declares, and one beneath a function. -/
theorem unresolved_without_effect_of_stray :
    let outside : Activation := ⟨⟨["lib"]⟩, true, .guards⟩
    let beneath : Activation := ⟨⟨["app", "greet", "name"]⟩, false, .navigation⟩
    let set : ActivationSet := {
      activations := (ActivationSet.allInPackage "app").activations ++ [outside, beneath]
      nodup := by decide
      not_root := by decide }
    let outcome := set.rewriteAll [Outcome.sampleUnit] Outcome.sampleTable
    let reduced := (set.without outcome.report.configuration).rewriteAll [Outcome.sampleUnit]
      Outcome.sampleTable
    outcome.report.configuration =
        [.unresolvedActivation beneath, .unresolvedActivation outside] ∧
      reduced.units = outcome.units ∧
      reduced.table = outcome.table := by
  intro outside beneath set outcome reduced
  obtain ⟨reported, -, units, table, -⟩ :=
    unresolved_without_effect set [Outcome.sampleUnit] Outcome.sampleTable (by decide)
  exact ⟨reported.trans (by decide), units, table⟩

end NilSafety
