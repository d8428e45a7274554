import Mathlib.Algebra.Order.BigOperators.Group.List
import NilSafety.Proofs.Rewriting.Unresolved

/-!
Contract: what more activations do to the outcome of a build.

Owns:
- the order of counts, kind by kind;
- tasks that differ in that more features are in effect and more is guarded, and what this
  does to their counts and problems;
- that a build under more activations fails nowhere where it did not fail, finds no further
  problem, and counts no less.

Does not own: the trees, which differ.

Coverage is a union over activations, so a feature in effect stays in effect. Nothing is
lost further on, since navigation only takes problems away and no feature is consulted to
leave something out.
-/

namespace NilSafety

/-! ### Order of counts -/

namespace Counts

/-- Counts are ordered kind by kind. -/
instance : LE Counts where
  le counts counts' :=
    counts.navigations ≤ counts'.navigations ∧
      counts.guards ≤ counts'.guards ∧
      counts.guardedFunctions ≤ counts'.guardedFunctions ∧
      counts.arrays ≤ counts'.arrays

instance : PartialOrder Counts where
  le_refl _ := ⟨le_refl _, le_refl _, le_refl _, le_refl _⟩
  le_trans _ _ _ first second :=
    ⟨first.1.trans second.1, first.2.1.trans second.2.1, first.2.2.1.trans second.2.2.1,
      first.2.2.2.trans second.2.2.2⟩
  le_antisymm counts counts' first second := by
    obtain ⟨navigations, guards, guardedFunctions, arrays⟩ := counts
    obtain ⟨navigations', guards', guardedFunctions', arrays'⟩ := counts'
    rw [mk.injEq]
    exact ⟨first.1.antisymm second.1, first.2.1.antisymm second.2.1,
      first.2.2.1.antisymm second.2.2.1, first.2.2.2.antisymm second.2.2.2⟩

instance : IsOrderedAddMonoid Counts where
  add_le_add_left _ _ less _ :=
    ⟨Nat.add_le_add_right less.1 _, Nat.add_le_add_right less.2.1 _,
      Nat.add_le_add_right less.2.2.1 _, Nat.add_le_add_right less.2.2.2 _⟩

theorem zero_le (counts : Counts) : 0 ≤ counts :=
  ⟨Nat.zero_le _, Nat.zero_le _, Nat.zero_le _, Nat.zero_le _⟩

end Counts

/-! ### More features for a task -/

/-- One set holds the features of the other. -/
instance : HasSubset FeatureSet where
  Subset features features' := ∀ feature, features.contains feature → features'.contains feature

/-- The second task is to do to the same expression all that the first one is. -/
structure Task.Within (task task' : Task) : Prop where
  path : task'.path = task.path
  body : task'.body = task.body
  features : task.features ⊆ task'.features
  guarded : task.guarded.Sublist task'.guarded

namespace Task.Within

variable {task task' : Task}

theorem problems (within : task.Within task') : task'.problems.Sublist task.problems := by
  unfold Task.problems
  rw [within.path, within.body]
  cases on : task'.features.navigation with
  | true => exact List.nil_sublist _
  | false =>
      have off : task.features.navigation = false := by
        rw [← Bool.not_eq_true] at on ⊢
        exact fun held => on (within.features .navigation held)
      rw [off]

theorem counts (within : task.Within task') : task.counts ≤ task'.counts := by
  unfold Task.counts
  rw [within.body]
  refine ⟨?_, within.guarded.length_le, ?_, ?_⟩
  · dsimp only
    split
    next on =>
      have on' : task'.features.navigation := within.features .navigation on
      rw [if_pos on']
    next off => exact Nat.zero_le _
  · dsimp only
    split
    next none => exact Nat.zero_le _
    next some =>
      rw [if_neg fun none' => some ?_]
      rw [List.isEmpty_iff] at none' ⊢
      exact List.sublist_nil.mp (none' ▸ within.guarded)
  · dsimp only
    split
    next on =>
      have on' : task'.features.arrays := within.features .arrays on
      rw [if_pos on']
    next off => exact Nat.zero_le _

end Task.Within

/-! ### More activations for a unit -/

section

variable {set set' : ActivationSet} (more : set.activations ⊆ set'.activations)

include more

theorem ActivationSet.featuresAt_subset (place : Placement) :
    set.featuresAt place ⊆ set'.featuresAt place := by
  intro feature held
  rw [contains_featuresAt] at held ⊢
  exact held.imp fun activation ⟨member, isFeature, reaches⟩ =>
    ⟨more member, isFeature, reaches⟩

theorem Member.task_within (table : SymbolTable) (member : Member) :
    (member.task set table).Within (member.task set' table) where
  path := rfl
  body := rfl
  features := ActivationSet.featuresAt_subset more member.place
  guarded := by
    have kept : set.guards member → set'.guards member := by
      unfold ActivationSet.guards
      simp only [Bool.and_eq_true]
      exact fun both =>
        ⟨⟨ActivationSet.featuresAt_subset more member.place .guards both.1.1, both.1.2⟩, both.2⟩
    unfold task
    dsimp only
    split
    next guarded => rw [if_pos (kept guarded)]
    next unguarded => exact List.nil_sublist _

theorem Decl.tasks_within (table : SymbolTable) (package : Path) (decl : Decl) :
    List.Forall₂ Task.Within (decl.tasks set table package) (decl.tasks set' table package) := by
  have ofMembers : ∀ members : List Member,
      List.Forall₂ Task.Within (members.map (Member.task set table))
        (members.map (Member.task set' table)) := by
    intro members
    rw [List.forall₂_map_left_iff, List.forall₂_map_right_iff, List.forall₂_same]
    exact fun member _ => member.task_within more table
  cases decl with
  | function | record | extension => exact ofMembers _
  | constant name =>
      refine .cons ⟨rfl, rfl, ?_, List.nil_sublist _⟩ .nil
      exact ActivationSet.featuresAt_subset more (.item package (table.display name))

namespace SourceUnit

variable (table : SymbolTable) (unit : SourceUnit)

theorem tasks_within :
    List.Forall₂ Task.Within (unit.tasks set table) (unit.tasks set' table) := by
  unfold tasks
  induction unit.decls with
  | nil => exact .nil
  | cons decl rest inductionHypothesis =>
      rw [List.flatMap_cons, List.flatMap_cons]
      exact List.rel_append (Decl.tasks_within more table unit.package decl) inductionHypothesis

/-- Under more activations, no problem is found that was not found before. -/
theorem problems_sublist : (unit.problems set' table).Sublist (unit.problems set table) := by
  have flattened : ∀ {tasks tasks' : List Task}, List.Forall₂ Task.Within tasks tasks' →
      (tasks'.flatMap Task.problems).Sublist (tasks.flatMap Task.problems) := by
    intro tasks tasks' within
    induction within with
    | nil => exact .slnil
    | cons first _ inductionHypothesis =>
        rw [List.flatMap_cons, List.flatMap_cons]
        exact first.problems.append inductionHypothesis
  exact flattened (unit.tasks_within more table)

/-- Under more activations, no less is counted. -/
theorem counts_le : unit.counts set table ≤ unit.counts set' table := by
  have each : List.Forall₂ (· ≤ ·) ((unit.tasks set table).map Task.counts)
      ((unit.tasks set' table).map Task.counts) := by
    rw [List.forall₂_map_left_iff, List.forall₂_map_right_iff]
    exact (unit.tasks_within more table).imp fun _ _ within => within.counts
  exact each.sum_le_sum

end SourceUnit

end

/-! ### Outcomes -/

namespace UnitOutcome

/-- The problems that the outcome reports. -/
def problems (done : UnitOutcome) : List Problem :=
  match done.result with
  | .ok _ => []
  | .error problems => problems

/-- The second outcome is a success where the first one is, counts no less then, and reports
no problem that the first one does not. -/
structure NoBetterThan (done done' : UnitOutcome) : Prop where
  succeeds : ∀ counts, done.result = .ok counts →
    ∃ counts', done'.result = .ok counts' ∧ counts ≤ counts'
  problems : done'.problems.Sublist done.problems

theorem NoBetterThan.counts_le {done done' : UnitOutcome} (worse : done.NoBetterThan done') :
    done.counts ≤ done'.counts := by
  unfold counts
  split
  next counts succeeded =>
    obtain ⟨counts', succeeded', less⟩ := worse.succeeds counts succeeded
    rw [succeeded']
    exact less
  next => exact Counts.zero_le _

/-- A failure under the second outcome is one under the first. -/
theorem NoBetterThan.failure
    {done done' : UnitOutcome}
    (worse : done.NoBetterThan done')
    {package : Path}
    {index : Nat}
    {failure' : UnitFailure}
    (fails : done'.failure? package index = some failure') :
    ∃ problems, done.failure? package index = some ⟨index, package, problems⟩ ∧
      failure'.problems.Sublist problems := by
  unfold failure? at fails ⊢
  cases result : done.result with
  | ok counts =>
      obtain ⟨counts', succeeded', -⟩ := worse.succeeds counts result
      rw [succeeded'] at fails
      cases fails
  | error problems =>
      refine ⟨problems, rfl, ?_⟩
      have fewer := worse.problems
      unfold UnitOutcome.problems at fewer
      rw [result] at fewer
      cases result' : done'.result with
      | ok counts' => rw [result'] at fails; cases fails
      | error problems' =>
          rw [result'] at fails fewer
          obtain rfl := Option.some.inj fails
          exact fewer

end UnitOutcome

namespace SourceUnit

variable {set set' : ActivationSet} {table : SymbolTable} {unit : SourceUnit}

theorem problems_rewrite (resolves : unit.resolves table) :
    (unit.rewrite set table).problems = unit.problems set table := by
  unfold UnitOutcome.problems
  rw [rewrite_result resolves]
  by_cases none : unit.problems set table = []
  · rw [if_pos none, none]
  · rw [if_neg none]

theorem counts_rewrite (resolves : unit.resolves table) :
    (unit.rewrite set table).counts =
      if unit.problems set table = [] then unit.counts set table else 0 := by
  unfold UnitOutcome.counts
  rw [rewrite_result resolves]
  by_cases none : unit.problems set table = []
  · rw [if_pos none, if_pos none]
  · rw [if_neg none, if_neg none]

theorem rewrite_noBetterThan
    (more : set.activations ⊆ set'.activations)
    {before before' : SymbolTable}
    (resolves : unit.resolves table)
    (grows : table.Grows before)
    (grows' : table.Grows before') :
    (unit.rewrite set before).NoBetterThan (unit.rewrite set' before') := by
  have fewer := unit.problems_sublist more table
  constructor
  · intro counts succeeded
    rw [result_eq set grows resolves, rewrite_result resolves] at succeeded
    split at succeeded
    next none =>
      rw [none, List.sublist_nil] at fewer
      refine ⟨unit.counts set' table, ?_, Except.ok.inj succeeded ▸ unit.counts_le more table⟩
      rw [result_eq set' grows' resolves, rewrite_result resolves, if_pos fewer]
    next => cases succeeded
  · rw [problems_rewrite (resolves_of_grows grows resolves),
      problems_rewrite (resolves_of_grows grows' resolves)]
    unfold problems
    rw [tasks_eq grows resolves, tasks_eq grows' resolves]
    exact fewer

end SourceUnit

/-! ### Builds -/

namespace ActivationSet

variable {set set' : ActivationSet} {units : List SourceUnit} {table : SymbolTable}

theorem steps_noBetterThan
    (more : set.activations ⊆ set'.activations)
    {start start' : SymbolTable}
    (grows : table.Grows start)
    (grows' : table.Grows start')
    (resolve : ∀ unit ∈ units, unit.resolves table) :
    List.Forall₂ UnitOutcome.NoBetterThan (set.steps units start) (set'.steps units start') := by
  induction units generalizing start start' with
  | nil => exact .nil
  | cons unit rest inductionHypothesis =>
      have resolves := resolve unit List.mem_cons_self
      have further := grows.trans (SourceUnit.grows_rewrite set
        (SourceUnit.resolves_of_grows grows resolves))
      have further' := grows'.trans (SourceUnit.grows_rewrite set'
        (SourceUnit.resolves_of_grows grows' resolves))
      exact .cons (SourceUnit.rewrite_noBetterThan more resolves grows grows')
        (inductionHypothesis further further' fun other member =>
          resolve other (List.mem_cons_of_mem unit member))

theorem mem_unresolved_iff_of_subset
    (more : set.activations ⊆ set'.activations)
    {activation : Activation}
    (member : activation ∈ set.activations) :
    .unresolvedActivation activation ∈ set.unresolved units table ↔
      .unresolvedActivation activation ∈ set'.unresolved units table := by
  rw [mem_unresolved, mem_unresolved]
  exact and_congr_left fun _ => iff_of_true member (more member)

end ActivationSet

/-- **More activations never break a build.** Let every activation of one set be in another,
and let the table know all symbols of all units. Unit by unit, what the build under the first
set rewrites, the build under the second set rewrites too, with at least the counts of every
kind, and the problems found under the second set are a sublist of those found under the
first. Both hold as well for a unit alone, whatever the tables have learnt. The report under
the second set has at least the counts of every kind, and each of its failures is one under
the first set, of the same unit. An activation of the first set is reported as unresolved
under both sets or under neither. -/
theorem more_activations_break_nothing
    (set set' : ActivationSet)
    (more : set.activations ⊆ set'.activations)
    (units : List SourceUnit)
    (table : SymbolTable)
    (resolve : ∀ unit ∈ units, unit.resolves table) :
    let report := (set.rewriteAll units table).report
    let report' := (set'.rewriteAll units table).report
    List.Forall₂ UnitOutcome.NoBetterThan (set.steps units table) (set'.steps units table) ∧
      (∀ unit ∈ units, ∀ before before', table.Grows before → table.Grows before' →
        (unit.rewrite set before).NoBetterThan (unit.rewrite set' before')) ∧
      report.counts ≤ report'.counts ∧
      (∀ failure' ∈ report'.failures, ∃ failure ∈ report.failures,
        failure.index = failure'.index ∧ failure.package = failure'.package ∧
          failure'.problems.Sublist failure.problems) ∧
      ∀ activation ∈ set.activations,
        .unresolvedActivation activation ∈ report.configuration ↔
          .unresolvedActivation activation ∈ report'.configuration := by
  intro report report'
  obtain ⟨counts, failures, configuration⟩ := set.report_rewriteAll resolve
  obtain ⟨counts', failures', configuration'⟩ := set'.report_rewriteAll resolve
  have alone : ∀ unit ∈ units,
      (unit.rewrite set table).NoBetterThan (unit.rewrite set' table) := fun unit isUnit =>
    SourceUnit.rewrite_noBetterThan more (resolve unit isUnit) (.refl table) (.refl table)
  refine ⟨ActivationSet.steps_noBetterThan more (.refl table) (.refl table) resolve, ?_, ?_, ?_, ?_⟩
  · exact fun unit isUnit before before' grows grows' =>
      SourceUnit.rewrite_noBetterThan more (resolve unit isUnit) grows grows'
  · rw [counts, counts']
    exact List.sum_le_sum fun unit isUnit => (alone unit isUnit).counts_le
  · intro failure' isFailure'
    rw [failures', List.mem_filterMap] at isFailure'
    obtain ⟨⟨unit, index⟩, isIndexed, fails⟩ := isFailure'
    have isUnit : unit ∈ units := List.fst_mem_of_mem_zipIdx isIndexed
    obtain ⟨problems, failed, fewer⟩ := (alone unit isUnit).failure fails
    have described : failure'.index = index ∧ failure'.package = unit.package := by
      unfold UnitOutcome.failure? at fails
      split at fails
      next => cases fails
      next =>
        obtain rfl := Option.some.inj fails
        exact ⟨rfl, rfl⟩
    refine ⟨⟨index, unit.package, problems⟩, ?_, described.1.symm, described.2.symm, fewer⟩
    rw [failures]
    exact List.mem_filterMap.mpr ⟨(unit, index), isIndexed, failed⟩
  · intro activation member
    rw [configuration, configuration']
    exact ActivationSet.mem_unresolved_iff_of_subset more member

/-- Navigation alone against all features, for the unit and a copy of it in a package without
activations. -/
theorem more_activations_break_nothing_of_two :
    let fewer : ActivationSet := .inPackage "app" .navigation
    let more : ActivationSet := .allInPackage "app"
    let copy : SourceUnit := { Outcome.sampleUnit with package := ⟨["lib"]⟩ }
    let units := [Outcome.sampleUnit, copy]
    let report := (fewer.rewriteAll units Outcome.sampleTable).report
    let report' := (more.rewriteAll units Outcome.sampleTable).report
    report.counts = ⟨2, 0, 0, 0⟩ ∧ report'.counts = ⟨2, 1, 1, 1⟩ ∧
      report.counts ≤ report'.counts ∧
      List.Forall₂ UnitOutcome.NoBetterThan (fewer.steps units Outcome.sampleTable)
        (more.steps units Outcome.sampleTable) ∧
      (.unresolvedActivation ⟨⟨["app"]⟩, true, .navigation⟩ ∈ report.configuration ↔
        .unresolvedActivation ⟨⟨["app"]⟩, true, .navigation⟩ ∈ report'.configuration) := by
  intro fewer more copy units report report'
  have resolve : ∀ unit ∈ units, unit.resolves Outcome.sampleTable := by decide
  obtain ⟨outcomes, -, counts, -, configuration⟩ :=
    more_activations_break_nothing fewer more (by decide) units Outcome.sampleTable
      resolve
  -- Under either set the unit succeeds, and the copy adds nothing to the counts.
  have counted : ∀ (set : ActivationSet) (expected : Counts),
      (Outcome.sampleUnit.rewrite set Outcome.sampleTable).counts = expected →
      (copy.rewrite set Outcome.sampleTable).counts = 0 →
      (set.rewriteAll units Outcome.sampleTable).report.counts = expected := by
    intro set expected ofUnit ofCopy
    refine (set.report_rewriteAll resolve).1.trans ?_
    rw [List.map_cons, List.map_cons, List.map_nil, List.sum_cons, List.sum_cons, List.sum_nil,
      ofUnit, ofCopy, add_zero, add_zero]
  refine ⟨counted fewer _ ?_ ?_, counted more _ ?_ ?_, counts, outcomes,
    configuration _ List.mem_cons_self⟩
  · exact (SourceUnit.counts_rewrite (by decide)).trans rfl
  · exact (SourceUnit.counts_rewrite (by decide)).trans rfl
  · exact (SourceUnit.counts_rewrite (by decide)).trans rfl
  · exact (SourceUnit.counts_rewrite (by decide)).trans rfl

end NilSafety
