import Mathlib.Algebra.BigOperators.Group.List.Basic
import NilSafety.Proofs.Rewriting.Tasks
import NilSafety.Proofs.Scope.Sets

/-!
Contract: what rewriting a unit reports.

Owns:
- counts as an additive monoid;
- what a task adds to the counts and to the problems, read off the original tree;
- the result of rewriting a unit: the problems of all its tasks, or else their counts.

Does not own: what becomes of the tree.

The walk moves subtrees into templates while it counts. It visits every node of the
original tree once all the same, since it acts on a node only after its children and
never on what it has put in place.
-/

namespace NilSafety

/-! ### Sums of counts -/

namespace Counts

instance : Zero Counts := ⟨zero⟩

instance : AddCommMonoid Counts where
  add_assoc first second third := by
    show Counts.mk _ _ _ _ = Counts.mk _ _ _ _
    simp only [mk.injEq]
    exact ⟨Nat.add_assoc _ _ _, Nat.add_assoc _ _ _, Nat.add_assoc _ _ _, Nat.add_assoc _ _ _⟩
  zero_add counts := by
    show Counts.mk _ _ _ _ = counts
    obtain ⟨navigations, guards, guardedFunctions, arrays⟩ := counts
    simp only [mk.injEq]
    exact ⟨Nat.zero_add _, Nat.zero_add _, Nat.zero_add _, Nat.zero_add _⟩
  add_zero counts := rfl
  add_comm first second := by
    show Counts.mk _ _ _ _ = Counts.mk _ _ _ _
    simp only [mk.injEq]
    exact ⟨Nat.add_comm _ _, Nat.add_comm _ _, Nat.add_comm _ _, Nat.add_comm _ _⟩
  nsmul := nsmulRec

theorem mk_add_mk (navigations guards guardedFunctions arrays : Nat)
    (navigations' guards' guardedFunctions' arrays' : Nat) :
    mk navigations guards guardedFunctions arrays +
        mk navigations' guards' guardedFunctions' arrays' =
      mk (navigations + navigations') (guards + guards') (guardedFunctions + guardedFunctions')
        (arrays + arrays') := rfl

/-- Counts add up kind by kind. -/
theorem sum_eq (counts : List Counts) :
    counts.sum =
      ⟨(counts.map navigations).sum, (counts.map guards).sum,
        (counts.map guardedFunctions).sum, (counts.map arrays).sum⟩ := by
  induction counts with
  | nil => rfl
  | cons first rest inductionHypothesis =>
      rw [List.sum_cons, inductionHypothesis]
      rfl

end Counts

/-! ### One node -/

/-- What the rewriting of a node adds to the counts. -/
def FeatureSet.countsOf (features : FeatureSet) (node : Expr) : Counts :=
  if node.isMarkedAccess then
    if features.navigation then ⟨1, 0, 0, 0⟩ else 0
  else if features.arrays && node.isArray then ⟨0, 0, 0, 1⟩
  else 0

/-- What the rewriting of a node adds to the problems. -/
def FeatureSet.problemsOf (features : FeatureSet) (path : Path) (node : Expr) : List Problem :=
  if node.isMarkedAccess && !features.navigation then [.navigationDisabled path node.span] else []

/-- What has been counted, and the problems found. -/
def Progress.tally (progress : Progress) : Counts × List Problem :=
  (progress.counts, progress.problems)

theorem Rewrite.tally_node
    (path : Path)
    (features : FeatureSet)
    (expr : Expr)
    (progress : Progress) :
    (node path features expr progress).2.tally =
      (progress.counts + features.countsOf expr,
        progress.problems ++ features.problemsOf path expr) := by
  unfold node FeatureSet.countsOf FeatureSet.problemsOf Progress.tally
  split
  next marked =>
    split
    next on =>
      simp only [on, Bool.not_true, Bool.and_false, Bool.false_eq_true, ↓reduceIte, List.append_nil]
      rfl
    next off =>
      rw [Bool.not_eq_true] at off
      simp only [marked, off, Bool.not_false, Bool.and_true, ↓reduceIte, add_zero]
      rfl
  next unmarked =>
    rw [Bool.not_eq_true] at unmarked
    simp only [unmarked, Bool.false_and, Bool.false_eq_true, ↓reduceIte, List.append_nil]
    split
    · rfl
    · simp only [add_zero]
      rfl

/-! ### One task -/

namespace Task

/-- What performing the task adds to the counts. -/
def counts (task : Task) : Counts where
  navigations := if task.features.navigation then task.body.markers.length else 0
  guards := task.guarded.length
  guardedFunctions := if task.guarded.isEmpty then 0 else 1
  arrays := if task.features.arrays then task.body.literals.length else 0

/-- What performing the task adds to the problems. -/
def problems (task : Task) : List Problem :=
  if task.features.navigation then []
  else task.body.markers.map fun marker => .navigationDisabled task.path marker.span

theorem sum_countsOf (features : FeatureSet) (nodes : List Expr) :
    (nodes.map features.countsOf).sum =
      ⟨if features.navigation then (nodes.filter Expr.isMarkedAccess).length else 0, 0, 0,
        if features.arrays then (nodes.filter Expr.isArray).length else 0⟩ := by
  induction nodes with
  | nil => simp only [List.map_nil, List.filter_nil, List.length_nil, ite_self]; rfl
  | cons node rest inductionHypothesis =>
      have apart : node.isMarkedAccess → node.isArray = false := Expr.isArray_of_isMarkedAccess
      rw [List.map_cons, List.sum_cons, inductionHypothesis]
      unfold FeatureSet.countsOf
      cases marked : node.isMarkedAccess <;> cases isArray : node.isArray <;>
        cases features.navigation <;> cases features.arrays <;>
        simp_all [Counts.mk_add_mk, add_comm]

theorem flatMap_problemsOf (features : FeatureSet) (path : Path) (nodes : List Expr) :
    nodes.flatMap (features.problemsOf path) =
      if features.navigation then []
      else (nodes.filter Expr.isMarkedAccess).map fun marker =>
        .navigationDisabled path marker.span := by
  induction nodes with
  | nil => simp only [List.flatMap_nil, List.filter_nil, List.map_nil, ite_self]
  | cons node rest inductionHypothesis =>
      rw [List.flatMap_cons, inductionHypothesis]
      unfold FeatureSet.problemsOf
      cases marked : node.isMarkedAccess <;> cases features.navigation <;> simp [marked]

/-- The counts of a task are those of the nodes of its body and of its guards. -/
theorem counts_eq (task : Task) :
    (task.body.postOrder.map task.features.countsOf).sum +
        ⟨0, task.guarded.length, if task.guarded.isEmpty then 0 else 1, 0⟩ =
      task.counts := by
  rw [sum_countsOf, Counts.mk_add_mk]
  simp only [Nat.add_zero, Nat.zero_add]
  rfl

theorem problems_eq (task : Task) :
    task.body.postOrder.flatMap (task.features.problemsOf task.path) = task.problems :=
  flatMap_problemsOf task.features task.path task.body.postOrder

end Task

namespace Rewrite

theorem tally_body
    (path : Path)
    (features : FeatureSet)
    (expr : Expr)
    (progress : Progress) :
    (body path features expr progress).2.tally =
      (progress.counts + (expr.postOrder.map features.countsOf).sum,
        progress.problems ++ expr.postOrder.flatMap (features.problemsOf path)) := by
  have walked := Expr.mapUp_accumulates Progress.tally
    (fun tally node => (tally.1 + features.countsOf node, tally.2 ++ features.problemsOf path node))
    (tally_node path features)
    (fun tally node exprs => by simp [FeatureSet.countsOf, FeatureSet.problemsOf])
    expr progress
  have folded : ∀ (nodes : List Expr) (counts : Counts) (problems : List Problem),
      nodes.foldl (fun tally node =>
          (tally.1 + features.countsOf node, tally.2 ++ features.problemsOf path node))
          (counts, problems) =
        (counts + (nodes.map features.countsOf).sum,
          problems ++ nodes.flatMap (features.problemsOf path)) := by
    intro nodes
    induction nodes with
    | nil => intro counts problems; simp
    | cons node rest inductionHypothesis =>
        intro counts problems
        rw [List.foldl_cons, inductionHypothesis, List.map_cons, List.sum_cons, List.flatMap_cons,
          add_assoc, List.append_assoc]
  exact walked.trans (folded _ _ _)

theorem tally_guardBody
    (path : Path)
    (guarded : List Param)
    (body : Expr)
    (progress : Progress) :
    (guardBody path guarded body progress).2.tally =
      (progress.counts + ⟨0, guarded.length, if guarded.isEmpty then 0 else 1, 0⟩,
        progress.problems) := by
  unfold guardBody
  split
  next none =>
    rw [List.isEmpty_iff] at none
    subst none
    rfl
  next some => rfl

theorem tally_task (task : Task) (progress : Progress) :
    (Rewrite.task task progress).2.tally =
      (progress.counts + task.counts, progress.problems ++ task.problems) := by
  have parts : ∀ start : Progress, start.tally = progress.tally →
      (guardBody task.path task.guarded (body task.path task.features task.body start).1
        (body task.path task.features task.body start).2).2.tally =
          (progress.counts + task.counts, progress.problems ++ task.problems) := by
    intro start same
    obtain ⟨sameCounts, sameProblems⟩ := Prod.mk.inj same
    obtain ⟨walkedCounts, walkedProblems⟩ :=
      Prod.mk.inj (tally_body task.path task.features task.body start)
    rw [tally_guardBody, walkedCounts, walkedProblems, sameCounts, sameProblems,
      add_assoc, task.counts_eq, task.problems_eq]
  unfold Rewrite.task
  split
  · exact parts (progress.log (.idle task.path)) rfl
  · exact parts progress rfl

theorem tally_tasks (tasks : List Task) (progress : Progress) :
    (tasks.mapM Rewrite.task progress).2.tally =
      (progress.counts + (tasks.map Task.counts).sum,
        progress.problems ++ tasks.flatMap Task.problems) := by
  induction tasks generalizing progress with
  | nil => exact Prod.ext (add_zero _).symm (List.append_nil _).symm
  | cons task rest inductionHypothesis =>
      obtain ⟨counts, problems⟩ := Prod.mk.inj (tally_task task progress)
      rw [List.mapM_cons, List.map_cons, List.sum_cons, List.flatMap_cons]
      refine (inductionHypothesis (Rewrite.task task progress).2).trans ?_
      rw [counts, problems, add_assoc, List.append_assoc]

end Rewrite

/-! ### Units -/

namespace SourceUnit

section

variable (set : ActivationSet) (table : SymbolTable) (unit : SourceUnit)

/-- What rewriting a unit counts, should it find no problem. -/
def counts : Counts :=
  ((unit.tasks set table).map Task.counts).sum

/-- The problems that rewriting a unit finds. -/
def problems : List Problem :=
  (unit.tasks set table).flatMap Task.problems

end

theorem rewrite_result
    {set : ActivationSet}
    {table : SymbolTable}
    {unit : SourceUnit}
    (resolves : unit.resolves table) :
    (unit.rewrite set table).result =
      if unit.problems set table = [] then .ok (unit.counts set table)
      else .error (unit.problems set table) := by
  obtain ⟨counts, problems⟩ :=
    Prod.mk.inj (Rewrite.tally_tasks (unit.tasks set table) (.start table))
  have allCounts : (unit.performed set table).2.counts = unit.counts set table :=
    counts.trans (zero_add _)
  have allProblems : (unit.performed set table).2.problems = unit.problems set table :=
    problems.trans (List.nil_append _)
  rw [(rewrite_apply set resolves).2.2, allCounts, allProblems]

/-- Rewriting a unit finds problems if a declaration without navigation has a marked
access. -/
theorem problems_ne_nil_iff {set : ActivationSet} {table : SymbolTable} {unit : SourceUnit} :
    unit.problems set table ≠ [] ↔
      ∃ task ∈ unit.tasks set table,
        task.features.navigation = false ∧ task.body.markers ≠ [] := by
  unfold problems Task.problems
  rw [ne_eq, List.flatMap_eq_nil_iff, not_forall]
  simp only [not_forall, exists_prop, ite_eq_left_iff, Bool.not_eq_true, List.map_eq_nil_iff]

/-- Whatever is computed of the parameters that tasks guard comes from the functions that
settings guard. -/
theorem sum_guarded
    (set : ActivationSet)
    (table : SymbolTable)
    (unit : SourceUnit)
    (weight : List Param → Nat)
    (nothing : weight [] = 0) :
    ((unit.tasks set table).map fun task => weight task.guarded).sum =
      (((unit.members table).filter set.guards).map fun member =>
        weight (member.function.guardedParams table)).sum := by
  have ofMembers : ∀ members : List Member,
      ((members.map (Member.task set table)).map fun task => weight task.guarded).sum =
        ((members.filter set.guards).map fun member =>
          weight (member.function.guardedParams table)).sum := by
    intro members
    induction members with
    | nil => rfl
    | cons member rest inductionHypothesis =>
        rw [List.map_cons, List.map_cons, List.sum_cons, inductionHypothesis, List.filter_cons]
        cases guarded : set.guards member <;> simp [Member.task, guarded, nothing]
  unfold tasks members
  induction unit.decls with
  | nil => rfl
  | cons decl rest inductionHypothesis =>
      rw [List.flatMap_cons, List.map_append, List.sum_append, inductionHypothesis,
        List.flatMap_cons, List.filter_append, List.map_append, List.sum_append]
      congr 1
      cases decl with
      | function | record | extension => exact ofMembers _
      | constant => exact congrArg (· + 0) nothing

theorem counts_eq_sums (set : ActivationSet) (table : SymbolTable) (unit : SourceUnit) :
    unit.counts set table =
      ⟨((unit.tasks set table).map fun task => task.counts.navigations).sum,
        ((unit.tasks set table).map fun task => task.counts.guards).sum,
        ((unit.tasks set table).map fun task => task.counts.guardedFunctions).sum,
        ((unit.tasks set table).map fun task => task.counts.arrays).sum⟩ := by
  simp only [counts, Counts.sum_eq, List.map_map, Function.comp_def]

/-- Without problems every marked access is expanded. -/
theorem navigations_eq
    {set : ActivationSet}
    {table : SymbolTable}
    {unit : SourceUnit}
    (none : unit.problems set table = []) :
    (unit.counts set table).navigations =
      (unit.bodies.map fun body => body.markers.length).sum := by
  have each : ∀ task ∈ unit.tasks set table,
      task.counts.navigations = task.body.markers.length := by
    intro task isTask
    unfold Task.counts
    dsimp only
    split
    · rfl
    next off =>
      by_contra marked
      exact problems_ne_nil_iff.mpr ⟨task, isTask, by simpa using off, fun noMarkers =>
        marked (by rw [noMarkers]; rfl)⟩ none
  rw [counts_eq_sums, List.map_congr_left each, ← unit.map_body_tasks set table, List.map_map]
  rfl

theorem guards_eq (set : ActivationSet) (table : SymbolTable) (unit : SourceUnit) :
    (unit.counts set table).guards =
        (((unit.members table).filter set.guards).map fun member =>
          (member.function.guardedParams table).length).sum ∧
      (unit.counts set table).guardedFunctions =
        ((unit.members table).filter set.guards).countP fun member =>
          !(member.function.guardedParams table).isEmpty := by
  have lengths := unit.sum_guarded set table List.length rfl
  have functions := unit.sum_guarded set table
    (fun params => if params.isEmpty then 0 else 1) rfl
  have counted : ∀ members : List Member,
      (members.map fun member =>
        if (member.function.guardedParams table).isEmpty then 0 else 1).sum =
        members.countP fun member => !(member.function.guardedParams table).isEmpty := by
    intro members
    induction members with
    | nil => rfl
    | cons member rest inductionHypothesis =>
        rw [List.map_cons, List.sum_cons, inductionHypothesis, List.countP_cons, Nat.add_comm]
        cases (member.function.guardedParams table).isEmpty <;> rfl
  rw [counts_eq_sums]
  exact ⟨lengths, functions.trans (counted _)⟩

theorem arrays_eq (set : ActivationSet) (table : SymbolTable) (unit : SourceUnit) :
    (unit.counts set table).arrays =
      (((unit.tasks set table).filter (·.features.arrays)).map fun task =>
        task.body.literals.length).sum := by
  rw [counts_eq_sums]
  dsimp only
  induction unit.tasks set table with
  | nil => rfl
  | cons task rest inductionHypothesis =>
      rw [List.map_cons, List.sum_cons, inductionHypothesis, List.filter_cons]
      cases on : task.features.arrays <;> simp [Task.counts, on]

end SourceUnit

/-- **The outcome of rewriting a unit is exact.** A unit whose symbols the table knows
fails if some declaration without navigation has a marked access. It then reports one
problem for each such access, with the path of the declaration and the region of the
access: by declaration, and within one body children before parents and left to right,
which is the order of `Expr.markers`. Otherwise its counts are the marked accesses of
all its expressions, the parameters whose notes exclude nil and the functions that have
any, among the functions guarded by the settings, and the array literals where array
wrapping is on. -/
theorem rewrite_outcome_exact
    (set : ActivationSet)
    (unit : SourceUnit)
    (table : SymbolTable)
    (resolves : unit.resolves table) :
    let tasks := unit.tasks set table
    let refused := tasks.flatMap fun task =>
      if task.features.navigation then []
      else task.body.markers.map fun marker => Problem.navigationDisabled task.path marker.span
    let guarded := (unit.members table).filter set.guards
    ((∃ problems, (unit.rewrite set table).result = .error problems) ↔
        ∃ task ∈ tasks, task.features.navigation = false ∧ task.body.markers ≠ []) ∧
      (unit.rewrite set table).result =
        if refused ≠ [] then .error refused
        else .ok {
          navigations := (unit.bodies.map fun body => body.markers.length).sum
          guards := (guarded.map fun member =>
            (member.function.guardedParams table).length).sum
          guardedFunctions := guarded.countP fun member =>
            !(member.function.guardedParams table).isEmpty
          arrays := ((tasks.filter (·.features.arrays)).map fun task =>
            task.body.literals.length).sum } := by
  dsimp only
  have result : (unit.rewrite set table).result = _ := SourceUnit.rewrite_result resolves
  constructor
  · rw [result, ← SourceUnit.problems_ne_nil_iff]
    split
    next none => exact iff_of_false nofun (not_not_intro none)
    next some => exact iff_of_true ⟨_, rfl⟩ some
  · have problems : ((unit.tasks set table).flatMap fun task =>
        if task.features.navigation then []
        else task.body.markers.map fun marker => .navigationDisabled task.path marker.span) =
        unit.problems set table := rfl
    rw [result, problems, ite_not]
    split
    next none =>
      obtain ⟨guards, guardedFunctions⟩ := unit.guards_eq set table
      rw [← SourceUnit.navigations_eq none, ← guards, ← guardedFunctions, ← unit.arrays_eq set table]
    next some => rfl

/-! ### A unit with work for every feature -/

namespace Outcome

/-- The names of a unit with one function. -/
def sampleTable : SymbolTable :=
  (SymbolTable.empty.internAll ["greet", "person", "Person", "name", "friend"]).2

/-- A unit that declares `fn greet(person: Person) { [person?.friend?.name] }`. -/
def sampleUnit : SourceUnit where
  package := ⟨["app"]⟩
  decls := [.function {
    name := ⟨0⟩
    isStatic := false
    params := [⟨⟨1⟩, .named ⟨2⟩ default, ⟨9, 15, 1, 10⟩⟩]
    result := none
    body := .block [] (some (.array [.field
      (.field (.ident ⟨1⟩ default) ⟨4⟩ true ⟨29, 43, 1, 30⟩) ⟨3⟩ true ⟨29, 49, 1, 30⟩]
      default)) default
    visibility := .exposed
    span := default }]

end Outcome

theorem rewrite_outcome_exact_of_greet :
    (Outcome.sampleUnit.rewrite (.allInPackage "app") Outcome.sampleTable).result =
        .ok ⟨2, 1, 1, 1⟩ ∧
      (Outcome.sampleUnit.rewrite .empty Outcome.sampleTable).result =
        .error [.navigationDisabled ⟨["app", "greet"]⟩ ⟨29, 43, 1, 30⟩,
          .navigationDisabled ⟨["app", "greet"]⟩ ⟨29, 49, 1, 30⟩] :=
  ⟨(rewrite_outcome_exact (.allInPackage "app") Outcome.sampleUnit Outcome.sampleTable
      (by decide)).2.trans rfl,
    (rewrite_outcome_exact .empty Outcome.sampleUnit Outcome.sampleTable
      (by decide)).2.trans rfl⟩

end NilSafety
