import NilSafety.Proofs.Guards.Insertion
import NilSafety.Proofs.Rewriting.Normality

/-!
Contract: rewriting once more what was rewritten successfully.

Owns:
- tables that hold names, so that interning these changes nothing;
- the names that a task interns beside those of temporaries, and that the table it leaves
  behind holds them;
- what becomes of an expression without marked accesses under a table that holds the names:
  its array literals are wrapped and the guards put in front, with the symbols of the table;
- that success leaves such expressions and such a table behind, whose guards and wrapped
  literals are those that the task puts in place again;
- the outcome of the second rewriting: the counts of the first one without its expansions, and
  the same table.

Does not own: what the second guards and calls do when the unit runs.
-/

namespace NilSafety

/-! ### Tables that hold names -/

namespace SymbolTable

/-- The names were interned before. -/
def Holds (table : SymbolTable) (names : List String) : Prop :=
  ∀ name ∈ names, ∃ symbol, table.find? name = some symbol

theorem holds_internAll
    {table grown : SymbolTable}
    {names : List String}
    (grows : (table.internAll names).2.Grows grown) :
    grown.Holds names := by
  induction names generalizing table with
  | nil => exact nofun
  | cons name rest inductionHypothesis =>
      have first : (table.intern name).2.Grows grown :=
        (SymbolTable.extendsBy_internAll _ rest fun _ _ => trivial).trans grows
      exact List.forall_mem_cons.mpr
        ⟨⟨_, first.find?_eq_some (table.find?_intern name)⟩, inductionHypothesis grows⟩

namespace Holds

variable {table : SymbolTable} {names : List String}

theorem intern {name : String} (holds : table.Holds [name]) :
    table.intern name = (table.symbolOf name, table) := by
  obtain ⟨symbol, found⟩ := holds name List.mem_cons_self
  rw [intern_of_find? found, symbolOf, found, Option.getD_some]

theorem internAll (holds : table.Holds names) :
    table.internAll names = (names.map table.symbolOf, table) := by
  induction names with
  | nil => rfl
  | cons name rest inductionHypothesis =>
      obtain ⟨first, ofRest⟩ := List.forall_mem_cons.mp holds
      rw [SymbolTable.internAll, intern (List.forall_mem_singleton.mpr first)]
      dsimp only
      rw [inductionHypothesis ofRest, List.map_cons]

/-- The symbols of names that a table holds show these names. -/
theorem map_display (holds : table.Holds names) :
    (names.map table.symbolOf).map table.display = names := by
  have shown := (table.display_internAll names).1
  rwa [holds.internAll] at shown

end Holds

end SymbolTable

/-- The names that guards of the function at `path` call and pass on. -/
def Path.guardNames (path : Path) : List String :=
  [EntryPoint.module, EntryPoint.guardFailure, path.text]

/-- The symbols of a table for the guards of the function at `path`. -/
def GuardSymbols.within (table : SymbolTable) (path : Path) : GuardSymbols :=
  ⟨table.symbolOf EntryPoint.module, table.symbolOf EntryPoint.guardFailure,
    table.symbolOf path.text⟩

theorem SymbolTable.Holds.guardSymbols
    {table : SymbolTable}
    {path : Path}
    (holds : table.Holds path.guardNames) :
    GuardSymbols.intern table path = (GuardSymbols.within table path, table) := by
  obtain ⟨module, others⟩ := List.forall_mem_cons.mp holds
  obtain ⟨entry, function⟩ := List.forall_mem_cons.mp others
  unfold GuardSymbols.intern
  rw [intern (List.forall_mem_singleton.mpr module)]
  dsimp only
  rw [intern (List.forall_mem_singleton.mpr entry)]
  dsimp only
  rw [intern function]
  rfl

theorem SymbolTable.Holds.reports
    {table : SymbolTable}
    {path : Path}
    (holds : table.Holds path.guardNames) :
    (GuardSymbols.within table path).Reports table path := by
  have last : (GuardSymbols.intern table path).2.Grows (GuardSymbols.intern table path).2 :=
    .refl _
  have reports := GuardSymbols.reports_intern last
  rwa [holds.guardSymbols] at reports

theorem GuardSymbols.holds_intern
    {table grown : SymbolTable}
    {path : Path}
    (grows : (GuardSymbols.intern table path).2.Grows grown) :
    grown.Holds path.guardNames := by
  have interned : (table.internAll path.guardNames).2.Grows grown := grows
  exact SymbolTable.holds_internAll interned

/-! ### What a task interns -/

/-- The names that the task interns, but for those of temporaries. -/
def Task.names (task : Task) : List String :=
  (if task.guarded.isEmpty then [] else task.path.guardNames) ++
    if task.features.arrays && !task.body.literals.isEmpty then Expr.checkedArrayPath else []

/-- What becomes of the expression of a task without marked accesses under a table that holds
the names. -/
noncomputable def Task.repeated (table : SymbolTable) (task : Task) : Expr :=
  let plan := Rewrite.planFrom table table.symbolOf
  plan.guardBody task.path task.guarded (plan.wrapped task.features task.body)

namespace Task

variable {task : Task} {table : SymbolTable}

theorem holds_names_iff :
    table.Holds task.names ↔
      (task.guarded.isEmpty = false → table.Holds task.path.guardNames) ∧
        (task.features.arrays → task.body.literals.isEmpty = false →
          table.Holds Expr.checkedArrayPath) := by
  unfold names SymbolTable.Holds
  rw [List.forall_mem_append]
  cases task.guarded.isEmpty <;> cases task.features.arrays <;>
    cases task.body.literals.isEmpty <;> simp

end Task

namespace Rewrite

/-- A walk with array wrapping interns the constructor if it meets a literal. -/
theorem holds_body
    {features : FeatureSet}
    (on : features.arrays)
    (path : Path)
    (expr : Expr)
    (progress : Progress)
    {grown : SymbolTable}
    (last : (body path features expr progress).2.table.Grows grown)
    (some : expr.literals ≠ []) :
    grown.Holds Expr.checkedArrayPath := by
  refine (Expr.mapUp_ends (fun later : Progress => later.table.Grows grown)
    (fun expr _ => expr.literals ≠ [] → grown.Holds Expr.checkedArrayPath)
    ?_ expr progress last).2 some
  intro expr results middle fits last
  refine ⟨(grows_node _ _ _ _).trans last, fun ofChildren some => ?_⟩
  rw [Expr.literals_eq, ne_eq, List.append_eq_nil_iff, not_and_or] at some
  rcases some with inChildren | isLiteral
  · rw [List.flatMap_eq_nil_iff, not_forall₂] at inChildren
    obtain ⟨child, isChild, some⟩ := inChildren
    obtain ⟨result, -, holds, -⟩ := Expr.exists_mem_of_forall₂ ofChildren isChild
    exact holds some
  · have literal : expr.isArray := by
      by_contra other
      exact isLiteral (if_neg other)
    have refilled : (expr.refill results).isArray := by rwa [Expr.isArray_refill]
    have unmarked : ¬ (expr.refill results).isMarkedAccess := fun marked => by
      rw [Expr.isArray_of_isMarkedAccess marked] at refilled
      cases refilled
    unfold node at last
    rw [if_neg unmarked, if_pos (Bool.and_eq_true_iff.mpr ⟨on, refilled⟩),
      (wrap_apply path refilled middle).2.1] at last
    exact SymbolTable.holds_internAll last

/-- All tables that grow from the one a task leaves behind hold its names. -/
theorem holds_task
    (task : Task)
    (progress : Progress)
    {grown : SymbolTable}
    (last : (Rewrite.task task progress).2.table.Grows grown) :
    grown.Holds task.names := by
  have parts : ∀ start : Progress,
      (guardBody task.path task.guarded (body task.path task.features task.body start).1
        (body task.path task.features task.body start).2).2.table.Grows grown →
      grown.Holds task.names := by
    intro start last
    have walked := (grows_guardBody _ _ _ _).trans last
    refine Task.holds_names_iff.mpr ⟨fun some => ?_, fun on some => ?_⟩
    · unfold guardBody at last
      rw [some] at last
      exact GuardSymbols.holds_intern last
    · exact holds_body on task.path task.body start walked fun none => by
        rw [none] at some
        cases some
  unfold Rewrite.task at last
  exact parts _ last

/-- A walk over a tree without marked accesses, under a table that holds the names, wraps its
array literals and keeps the table. -/
theorem body_repeated
    (path : Path)
    {features : FeatureSet}
    {expr : Expr}
    (unmarked : expr.markers = [])
    (progress : Progress)
    (holds : features.arrays → expr.literals.isEmpty = false →
      progress.table.Holds Expr.checkedArrayPath) :
    (body path features expr progress).1 =
        (planFrom progress.table progress.table.symbolOf).wrapped features expr ∧
      (body path features expr progress).2.table = progress.table := by
  have plainNode : ∀ inner ∈ expr.postOrder, ∀ exprs, ¬ (inner.refill exprs).isMarkedAccess := by
    intro inner inside exprs marked
    rw [Expr.isMarkedAccess_refill] at marked
    have isMarker : inner ∈ expr.markers := List.mem_filter.mpr ⟨inside, marked⟩
    rw [unmarked] at isMarker
    cases isMarker
  unfold Plan.wrapped
  cases on : features.arrays with
  | false =>
      rw [if_neg Bool.false_ne_true]
      exact body_of_idle path (fun _ => unmarked) (fun on' => by rw [on] at on'; cases on') progress
  | true =>
      rw [if_pos rfl]
      refine expr.mapUp_image (Expr.wrappedBy (Expr.checkedArrayPath.map progress.table.symbolOf))
        Progress.table progress fun inner inside exprs present same => ?_
      unfold node
      rw [if_neg (plainNode inner inside exprs), on, Bool.true_and]
      split
      next isLiteral =>
        have some : expr.literals.isEmpty = false := by
          rw [Expr.isArray_refill] at isLiteral
          rw [List.isEmpty_eq_false_iff]
          exact List.ne_nil_of_mem (List.mem_filter.mpr ⟨inside, isLiteral⟩)
        obtain ⟨wrapped, table, -⟩ := wrap_apply path isLiteral present
        rw [same, (holds on some).internAll] at wrapped table
        exact ⟨wrapped, table⟩
      next other =>
        rw [Expr.wrappedBy_of_not_isArray _ (Bool.eq_false_of_not_eq_true other)]
        exact ⟨rfl, same⟩

/-- A task over an expression without marked accesses keeps a table that holds its names. -/
theorem task_repeated
    {task : Task}
    (unmarked : task.body.markers = [])
    (progress : Progress)
    (holds : progress.table.Holds task.names) :
    (Rewrite.task task progress).1 = task.repeated progress.table ∧
      (Rewrite.task task progress).2.table = progress.table := by
  obtain ⟨guards, arrays⟩ := Task.holds_names_iff.mp holds
  have parts : ∀ start : Progress, start.table = progress.table →
      (guardBody task.path task.guarded (body task.path task.features task.body start).1
          (body task.path task.features task.body start).2).1 = task.repeated progress.table ∧
        (guardBody task.path task.guarded (body task.path task.features task.body start).1
          (body task.path task.features task.body start).2).2.table = progress.table := by
    intro start same
    obtain ⟨walked, table⟩ := body_repeated task.path unmarked start (same ▸ arrays)
    rw [same] at walked table
    unfold Task.repeated guardBody Plan.guardBody
    cases none : task.guarded.isEmpty with
    | true => exact ⟨walked, table⟩
    | false =>
        rw [if_neg Bool.false_ne_true, table, (guards none).guardSymbols, walked]
        exact ⟨rfl, rfl⟩
  unfold Rewrite.task
  split
  · exact parts (progress.log (.idle task.path)) rfl
  · exact parts progress rfl

theorem tasks_repeated
    {tasks : List Task}
    {table : SymbolTable}
    (unmarked : ∀ task ∈ tasks, task.body.markers = [])
    (holds : ∀ task ∈ tasks, table.Holds task.names)
    (progress : Progress)
    (starts : progress.table = table) :
    (tasks.mapM Rewrite.task progress).1 = tasks.map (Task.repeated table) ∧
      (tasks.mapM Rewrite.task progress).2.table = table := by
  subst starts
  induction tasks generalizing progress with
  | nil => exact ⟨rfl, rfl⟩
  | cons task rest inductionHypothesis =>
      obtain ⟨unmarkedFirst, unmarkedRest⟩ := List.forall_mem_cons.mp unmarked
      obtain ⟨holdsFirst, holdsRest⟩ := List.forall_mem_cons.mp holds
      obtain ⟨first, same⟩ := task_repeated unmarkedFirst progress holdsFirst
      obtain ⟨others, last⟩ := inductionHypothesis unmarkedRest (Rewrite.task task progress).2
        (same.symm ▸ holdsRest)
      rw [mapM_cons_apply, List.map_cons, first]
      rw [same] at others last
      exact ⟨congrArg (task.repeated progress.table :: ·) others, last⟩

end Rewrite

/-! ### What success leaves behind -/

/-- The expression of the task is what the task makes of some expression: no marked access is in
it, its array literals are wrapped, and its guards stand in front; and the table holds the names. -/
structure Task.Settled (table : SymbolTable) (task : Task) : Prop where
  unmarked : task.body.markers = []
  holds : table.Holds task.names
  wrapped : task.features.arrays → task.body.ArraysWrapped table.display
  guarded : task.guarded.isEmpty = false → ∃ inner : Expr, task.body =
    inner.precededBy (task.guarded.map (GuardSymbols.within table task.path).check)

/-- The names of a task depend on whether there are array literals, not on which. -/
theorem Task.names_withBody
    {task : Task}
    {result : Expr}
    (same : result.literals.length = task.body.literals.length) :
    (task.withBody result).names = task.names := by
  have sameEmpty : result.literals.isEmpty = task.body.literals.isEmpty := by
    rw [Bool.eq_iff_iff, List.isEmpty_iff_length_eq_zero, List.isEmpty_iff_length_eq_zero, same]
  unfold names withBody
  dsimp only
  rw [sameEmpty]

theorem Task.forall_zipWith
    (predicate : Task → Prop)
    {tasks : List Task}
    {results : List Expr}
    (each : List.Forall₂ (fun task result => predicate (task.withBody result)) tasks results) :
    ∀ task ∈ tasks.zipWith Task.withBody results, predicate task := by
  induction each with
  | nil => exact nofun
  | cons first _ inductionHypothesis =>
      exact List.forall_mem_cons.mpr ⟨first, inductionHypothesis⟩

/-- Over what tasks leave behind without problems they count the same again, but for marked
accesses. -/
theorem Task.sum_counts_again
    {tasks : List Task}
    {results : List Expr}
    (each : List.Forall₂ (fun (task : Task) (result : Expr) =>
      result.markers = [] ∧ result.literals.length = task.body.literals.length) tasks results) :
    ((tasks.zipWith Task.withBody results).map Task.counts).sum =
      { (tasks.map Task.counts).sum with navigations := 0 } := by
  induction each with
  | nil => rfl
  | @cons task result rest results first _ inductionHypothesis =>
      obtain ⟨unmarked, sameLiterals⟩ := first
      have again : (task.withBody result).counts = { task.counts with navigations := 0 } := by
        unfold counts withBody
        dsimp only
        rw [unmarked, sameLiterals, List.length_nil, ite_self]
      rw [List.zipWith_cons_cons, List.map_cons, List.sum_cons, inductionHypothesis, again,
        List.map_cons, List.sum_cons]
      rfl

namespace SourceUnit

variable {set : ActivationSet} {table : SymbolTable} {unit : SourceUnit}

/-- As many array literals are in what a task leaves behind as were there before. -/
theorem length_literals_performed (resolves : unit.resolves table) :
    List.Forall₂ (fun (task : Task) (result : Expr) =>
        result.literals.length = task.body.literals.length)
      (unit.tasks set table) (unit.rewrite set table).unit.bodies :=
  forall₂_planned resolves (.refl _) fun task issued => Plan.length_literals_task _ task issued

/-- Rewriting puts the symbols of its table in front of the functions that it guards. -/
theorem guarded_performed (resolves : unit.resolves table) :
    List.Forall₂ (fun (task : Task) (result : Expr) => task.guarded.isEmpty = false →
        ∃ inner : Expr, result = inner.precededBy (task.guarded.map
          (GuardSymbols.within (unit.rewrite set table).table task.path).check))
      (unit.tasks set table) (unit.rewrite set table).unit.bodies :=
  forall₂_planned resolves (.refl _) fun task issued some => by
    unfold Plan.task Plan.guardBody
    rw [some]
    exact ⟨_, rfl⟩

/-- Rewriting that succeeds leaves settled tasks behind. -/
theorem settled_rewrite
    (resolves : unit.resolves table)
    (clean : unit.problems set table = []) :
    let done := unit.rewrite set table
    ∀ task ∈ done.unit.tasks set done.table, task.Settled done.table := by
  intro done task isTask
  have isBody : task.body ∈ done.unit.bodies := by
    rw [← map_body_tasks set done.table done.unit]
    exact List.mem_map_of_mem isTask
  have tasks : done.unit.tasks set done.table = _ :=
    tasks_rewritten set resolves (grows_rewrite set resolves)
  have holds : List.Forall₂ (fun (task : Task) _ => done.table.Holds task.names) _ _ :=
    forall₂_performed (fun grown task _ => grown.Holds task.names)
      (fun task progress _ last => Rewrite.holds_task task progress last) resolves (.refl _)
  have names := holds.mp (fun task result holds sameLiterals =>
      (Task.names_withBody sameLiterals).symm ▸ holds) (length_literals_performed resolves)
  have wrapped : List.Forall₂ (fun (task : Task) (result : Expr) =>
      task.features.arrays → result.ArraysWrapped done.table.display) _ _ :=
    (normal_rewrite resolves (.refl _)).imp fun _ _ normal => normal.wrapped
  rw [tasks] at isTask
  exact {
    unmarked := markers_rewrite resolves clean task.body isBody
    holds := Task.forall_zipWith (fun task => done.table.Holds task.names) names task isTask
    wrapped := Task.forall_zipWith
      (fun task => task.features.arrays → task.body.ArraysWrapped done.table.display)
      wrapped task isTask
    guarded := Task.forall_zipWith
      (fun task => task.guarded.isEmpty = false → ∃ inner : Expr, task.body = inner.precededBy
        (task.guarded.map (GuardSymbols.within done.table task.path).check))
      (guarded_performed resolves) task isTask }

/-- Rewriting once more after a success succeeds again, with the counts of the first time but
for marked accesses, of which there are none left. It interns nothing, and puts in place again
the guards and the calls around array literals. -/
theorem rewrite_again
    (resolves : unit.resolves table)
    {counts : Counts}
    (succeeded : (unit.rewrite set table).result = .ok counts) :
    let done := unit.rewrite set table
    let again := done.unit.rewrite set done.table
    (∀ task ∈ done.unit.tasks set done.table, task.Settled done.table) ∧
      again.result = .ok { counts with navigations := 0 } ∧
      again.table = done.table ∧
      again.unit = done.unit.withBodies
        ((done.unit.tasks set done.table).map (Task.repeated done.table)) := by
  intro done again
  have resolvesDone : done.unit.resolves done.table := resolves_rewrite set resolves
  have first : done.result = _ := rewrite_result resolves
  have second : again.result = _ := rewrite_result resolvesDone
  rw [first] at succeeded
  split at succeeded
  next clean =>
    cases succeeded
    have settled : ∀ task ∈ done.unit.tasks set done.table, task.Settled done.table :=
      settled_rewrite resolves clean
    have none : done.unit.problems set done.table = [] := problems_rewritten set _ resolves clean
    have counted : done.unit.counts set done.table =
        { unit.counts set table with navigations := 0 } := by
      have tasks : done.unit.tasks set done.table = _ :=
        tasks_rewritten set resolves (grows_rewrite set resolves)
      have unmarked := markers_rewrite resolves clean
      unfold counts
      rw [tasks]
      exact Task.sum_counts_again ((List.forall₂_and_left _ _).mpr
        ⟨unmarked, (length_literals_performed resolves).flip⟩).flip
    obtain ⟨ran, table, -⟩ := rewrite_apply set resolvesDone
    obtain ⟨bodies, kept⟩ := Rewrite.tasks_repeated
      (fun task isTask => (settled task isTask).unmarked)
      (fun task isTask => (settled task isTask).holds) (.start done.table) rfl
    rw [if_pos none, counted] at second
    exact ⟨settled, second, table.trans kept, ran.trans (congrArg done.unit.withBodies bodies)⟩
  next => cases succeeded

end SourceUnit

end NilSafety
