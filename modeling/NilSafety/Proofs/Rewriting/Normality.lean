import NilSafety.Proofs.Rewriting.Staging
import NilSafety.Proofs.Rewriting.Untouched

/-!
Contract: the normal form of rewritten expressions.

Owns:
- trees in which every array literal is wrapped, said of the nodes around the literals;
- that no form which rewriting puts in is an exception, and so neither is what a walk with
  array wrapping leaves behind;
- that a walk without navigation leaves the marked accesses where they were;
- that a rewritten unit is in normal form, whether or not the rewriting succeeded, and that
  rewriting it once more for navigation does nothing.

Does not own: how many literals or marked accesses there are.
-/

namespace NilSafety

/-! ### Wrapped literals -/

namespace Expr

/-- The node is the call that builds a checked array from the literal: to the constructor, by
its qualified name, with the literal as its only argument and without a label, all in the
literal's region. -/
def Wraps (display : Symbol → String) (node literal : Expr) : Prop :=
  ∃ segments, segments.map display = checkedArrayPath ∧
    node = call (path segments literal.span) [.plain literal] literal.span

/-- The tree is no array literal, and every array literal in it is wrapped. -/
structure ArraysWrapped (display : Symbol → String) (expr : Expr) : Prop where
  root : expr.isArray = false
  inside : ∀ node ∈ expr.postOrder, ∀ child ∈ node.children, child.isArray →
    node.Wraps display child

namespace ArraysWrapped

variable {display : Symbol → String}

theorem inside_of_children
    {expr : Expr}
    (children : ∀ child ∈ expr.children, child.ArraysWrapped display) :
    ∀ node ∈ expr.postOrder, ∀ child ∈ node.children, child.isArray →
      node.Wraps display child := by
  intro node inside child isChild isLiteral
  rw [postOrder_eq, List.mem_append, List.mem_singleton] at inside
  rcases inside with below | rfl
  · obtain ⟨between, isBetween, inBetween⟩ := List.mem_flatMap.mp below
    exact (children between isBetween).inside node inBetween child isChild isLiteral
  · rw [(children child isChild).root] at isLiteral
    cases isLiteral

/-- A node other than an array literal is as its children are. -/
theorem node
    {expr : Expr}
    (root : expr.isArray = false)
    (children : ∀ child ∈ expr.children, child.ArraysWrapped display) :
    expr.ArraysWrapped display :=
  ⟨root, inside_of_children children⟩

theorem leaf
    {expr : Expr}
    (root : expr.isArray = false)
    (none : expr.children = []) :
    expr.ArraysWrapped display :=
  node root fun child isChild => by
    rw [none] at isChild
    cases isChild

/-- What is inside a node that wraps nothing is as the node is. -/
theorem child
    {expr child : Expr}
    (wrapped : expr.ArraysWrapped display)
    (isChild : child ∈ expr.children)
    (other : ¬ expr.Wraps display child) :
    child.ArraysWrapped display where
  root := by
    rw [← Bool.not_eq_true]
    exact fun isLiteral => other
      (wrapped.inside expr expr.self_mem_postOrder child isChild isLiteral)
  inside := fun node inChild => wrapped.inside node (postOrder_subset isChild inChild)

theorem of_literals_eq_nil {expr : Expr} (none : expr.literals = []) :
    expr.ArraysWrapped display := by
  induction expr using childInduction with
  | node expr inductionHypothesis =>
      rw [literals_eq, List.append_eq_nil_iff] at none
      refine node ?_ fun child isChild =>
        inductionHypothesis child isChild (List.flatMap_eq_nil_iff.mp none.1 child isChild)
      rw [← Bool.not_eq_true]
      intro isLiteral
      rw [if_pos isLiteral] at none
      cases none.2

/-! ### Forms -/

theorem expandAccess
    (temp : Symbol)
    {expr : Expr}
    (marked : expr.isMarkedAccess)
    (children : ∀ child ∈ expr.children, child.ArraysWrapped display) :
    (expr.expandAccess temp).ArraysWrapped display := by
  have checked : ∀ {receiver access : Expr} {span : Span},
      receiver.ArraysWrapped display → access.ArraysWrapped display →
        (nilChecked temp receiver access span).ArraysWrapped display := by
    intro receiver access span ofReceiver ofAccess
    have braces : ∀ {inner : Expr}, inner.ArraysWrapped display →
        (inBraces inner span).ArraysWrapped display :=
      fun ofInner => node rfl (List.forall_mem_singleton.mpr ofInner)
    have isNil : (binary (ident temp span) .equal (nil span) span).ArraysWrapped display :=
      node rfl (List.forall_mem_cons.mpr ⟨leaf rfl rfl, List.forall_mem_singleton.mpr (leaf rfl rfl)⟩)
    refine node rfl (List.forall_mem_cons.mpr ⟨ofReceiver, List.forall_mem_singleton.mpr ?_⟩)
    exact node rfl (List.forall_mem_cons.mpr ⟨isNil, List.forall_mem_cons.mpr
      ⟨braces (leaf rfl rfl), List.forall_mem_singleton.mpr (braces ofAccess)⟩⟩)
  cases expr with
  | field object name isMarked span =>
      obtain rfl : isMarked = true := marked
      exact checked (children object List.mem_cons_self)
        (node rfl (List.forall_mem_singleton.mpr (leaf rfl rfl)))
  | method receiver name args isMarked span =>
      obtain rfl : isMarked = true := marked
      refine checked (children receiver List.mem_cons_self) (node rfl (List.forall_mem_cons.mpr
        ⟨leaf rfl rfl, fun child isArg => children child (List.mem_cons_of_mem _ isArg)⟩))
  | _ => cases marked

theorem wrappedBy
    {segments : List Symbol}
    (shown : segments.map display = checkedArrayPath)
    {expr : Expr}
    (isLiteral : expr.isArray)
    (children : ∀ child ∈ expr.children, child.ArraysWrapped display) :
    (expr.wrappedBy segments).ArraysWrapped display := by
  cases expr with
  | array elements span =>
      refine ⟨rfl, fun node inside child isChild isLiteral => ?_⟩
      have nodes : ((array elements span).wrappedBy segments).postOrder =
          [path segments span] ++ ((array elements span).postOrder ++ []) ++
            [(array elements span).wrappedBy segments] := rfl
      rw [nodes, List.append_nil, List.mem_append, List.mem_append, List.mem_singleton,
        List.mem_singleton] at inside
      rcases inside with (rfl | inLiteral) | rfl
      · cases isChild
      · exact inside_of_children children node inLiteral child isChild isLiteral
      · rcases List.mem_cons.mp isChild with rfl | isArg
        · cases isLiteral
        · obtain rfl := List.mem_singleton.mp isArg
          exact ⟨segments, shown, rfl⟩
  | _ => cases isLiteral

theorem precededBy
    {stmts : List Stmt}
    (none : ∀ child ∈ stmts.flatMap Stmt.children, child.ArraysWrapped display)
    {expr : Expr}
    (wrapped : expr.ArraysWrapped display) :
    (expr.precededBy stmts).ArraysWrapped display := by
  have around : ∀ span : Span, (block stmts (some expr) span).ArraysWrapped display := by
    intro span
    refine node rfl fun child isChild => ?_
    rcases List.mem_append.mp isChild with inStmts | isTail
    · exact none child inStmts
    · exact List.mem_singleton.mp isTail ▸ wrapped
  cases expr with
  | block body tail span =>
      refine node rfl fun child isChild => ?_
      rw [Expr.precededBy, Expr.children, List.flatMap_append, List.append_assoc] at isChild
      rcases List.mem_append.mp isChild with inStmts | inBody
      · exact none child inStmts
      · exact wrapped.child inBody (by rintro ⟨_, -, ⟨⟩⟩)
  | _ => exact around _

end ArraysWrapped

end Expr

/-! ### Walks with array wrapping -/

/-- The symbols of interned names show these names under every later table. -/
theorem SymbolTable.map_display_internAll
    {table grown : SymbolTable}
    {names : List String}
    (grows : (table.internAll names).2.Grows grown) :
    (table.internAll names).1.map grown.display = names := by
  obtain ⟨shown, known⟩ := table.display_internAll names
  exact (List.map_congr_left fun symbol isInterned =>
    grows.display_eq (known symbol isInterned)).trans shown

/-- Guards hold no array literal. -/
theorem GuardSymbols.arraysWrapped_check
    {display : Symbol → String}
    (symbols : GuardSymbols)
    (params : List Param) :
    ∀ child ∈ (params.map symbols.check).flatMap Stmt.children, child.ArraysWrapped display := by
  intro child isChild
  rw [List.flatMap_map, List.mem_flatMap] at isChild
  obtain ⟨param, -, inCheck⟩ := isChild
  obtain rfl := List.mem_singleton.mp inCheck
  exact .of_literals_eq_nil rfl

namespace Rewrite

variable {features : FeatureSet} (on : features.arrays)

include on

theorem arraysWrapped_node
    (path : Path)
    {expr : Expr}
    {progress : Progress}
    {grown : SymbolTable}
    (last : (node path features expr progress).2.table.Grows grown)
    (children : ∀ child ∈ expr.children, child.ArraysWrapped grown.display) :
    (node path features expr progress).1.ArraysWrapped grown.display := by
  unfold node at last ⊢
  split at last
  next marked =>
    rw [if_pos marked]
    split at last
    next navigates =>
      rw [if_pos navigates]
      exact .expandAccess _ marked children
    next refused =>
      rw [if_neg refused]
      exact .node (Expr.isArray_of_isMarkedAccess marked) children
  next unmarked =>
    rw [if_neg unmarked]
    split at last
    next wraps =>
      rw [if_pos wraps]
      have isLiteral := (Bool.and_eq_true_iff.mp wraps).2
      obtain ⟨wrapped, table, -⟩ := wrap_apply path isLiteral progress
      rw [table] at last
      rw [wrapped]
      exact .wrappedBy (SymbolTable.map_display_internAll last) isLiteral children
    next plain =>
      rw [if_neg plain]
      refine .node ?_ children
      rwa [on, Bool.true_and, Bool.not_eq_true] at plain

theorem arraysWrapped_body
    (path : Path)
    (expr : Expr)
    (progress : Progress)
    {grown : SymbolTable}
    (last : (body path features expr progress).2.table.Grows grown) :
    (body path features expr progress).1.ArraysWrapped grown.display := by
  refine (Expr.mapUp_ends (fun later : Progress => later.table.Grows grown)
    (fun _ result => result.ArraysWrapped grown.display) ?_ expr progress last).2
  intro expr results middle fits last
  refine ⟨(grows_node _ _ _ _).trans last, fun ofChildren => arraysWrapped_node on path last ?_⟩
  rw [expr.children_refill fits]
  intro result isResult
  obtain ⟨child, -, wrapped, -⟩ := Expr.exists_mem_of_forall₂ ofChildren.flip isResult
  exact wrapped

end Rewrite

theorem Rewrite.arraysWrapped_task
    {task : Task}
    (on : task.features.arrays)
    (progress : Progress)
    {grown : SymbolTable}
    (last : (Rewrite.task task progress).2.table.Grows grown) :
    (Rewrite.task task progress).1.ArraysWrapped grown.display := by
  have parts : ∀ start : Progress,
      (guardBody task.path task.guarded (body task.path task.features task.body start).1
        (body task.path task.features task.body start).2).2.table.Grows grown →
      (guardBody task.path task.guarded (body task.path task.features task.body start).1
        (body task.path task.features task.body start).2).1.ArraysWrapped grown.display := by
    intro start last
    have walked := arraysWrapped_body on task.path task.body start
      ((grows_guardBody _ _ _ _).trans last)
    unfold guardBody
    split
    next none => exact walked
    next some => exact .precededBy (GuardSymbols.arraysWrapped_check _ task.guarded) walked
  unfold Rewrite.task at last ⊢
  exact parts _ last

/-- What holds of the result of each task under all tables that grew from the one it leaves
behind holds of all results under those that grew from the last one. -/
theorem Rewrite.forall₂_tasks
    (relation : SymbolTable → Task → Expr → Prop)
    (each : ∀ task progress grown, (Rewrite.task task progress).2.table.Grows grown →
      relation grown task (Rewrite.task task progress).1)
    (tasks : List Task)
    (progress : Progress)
    {grown : SymbolTable}
    (last : (tasks.mapM Rewrite.task progress).2.table.Grows grown) :
    List.Forall₂ (relation grown) tasks (tasks.mapM Rewrite.task progress).1 := by
  induction tasks generalizing progress with
  | nil => exact .nil
  | cons task rest inductionHypothesis =>
      rw [mapM_cons_apply] at last ⊢
      exact .cons (each task progress grown ((grows_tasks rest _).trans last))
        (inductionHypothesis _ last)

/-! ### Marked accesses left in place -/

namespace Expr

theorem map_span_markers_refill
    (expr : Expr)
    {exprs : List Expr}
    (fits : exprs.length = expr.children.length) :
    (expr.refill exprs).markers.map span =
      exprs.flatMap (fun child => child.markers.map span) ++
        if expr.isMarkedAccess then [expr.span] else [] := by
  rw [markers_eq, children_refill expr fits, isMarkedAccess_refill, List.map_append,
    List.map_flatMap]
  cases expr.isMarkedAccess with
  | false => rfl
  | true => exact congrArg (_ ++ [·]) (expr.span_refill exprs)

/-- Wrapping keeps the marked accesses in their places. -/
theorem map_span_markers_wrapAll (segments : List Symbol) (expr : Expr) :
    (expr.wrapAll segments).markers.map span = expr.markers.map span := by
  induction expr using childInduction with
  | node expr inductionHypothesis =>
      have unwrapped : ∀ inner : Expr, (inner.wrappedBy segments).markers = inner.markers := by
        intro inner
        cases isLiteral : inner.isArray with
        | true => exact filter_postOrder_wrappedBy (fun _ => .inl) segments isLiteral
        | false => rw [wrappedBy_of_not_isArray segments isLiteral]
      have own := map_span_markers_refill expr (rfl : expr.children.length = _)
      rw [refill_children] at own
      rw [wrapAll_eq, unwrapped, map_span_markers_refill expr (List.length_map _), own,
        List.flatMap_map, List.flatMap_def, List.flatMap_def,
        List.map_congr_left inductionHypothesis]

end Expr

namespace Plan

variable (plan : Plan)

/-- A task without navigation keeps the marked accesses in their places. -/
theorem map_span_markers_task
    {task : Task}
    (off : task.features.navigation = false)
    (issued : Nat) :
    (plan.task task issued).1.markers.map Expr.span = task.body.markers.map Expr.span := by
  have guarded : ∀ body : Expr,
      (plan.guardBody task.path task.guarded body).markers = body.markers :=
    plan.filter_postOrder_guardBody (fun _ => .inl) task.path task.guarded
  unfold Plan.task
  dsimp only
  rw [guarded, plan.mapUp_of_off off]
  unfold wrapped
  split
  · exact Expr.map_span_markers_wrapAll _ task.body
  · rfl

end Plan

/-! ### Units -/

/-- The expression is what the task leaves behind, as far as marked accesses and array literals
tell: none of the former with navigation, all of them in their places without, and all of the
latter wrapped with array wrapping. -/
structure Task.Normal (display : Symbol → String) (task : Task) (result : Expr) : Prop where
  navigated : task.features.navigation → result.markers = []
  refused : task.features.navigation = false →
    result.markers.map Expr.span = task.body.markers.map Expr.span
  wrapped : task.features.arrays → result.ArraysWrapped display

/-- Over what it leaves behind, a task for navigation has nothing to do, and finds the problems
that it found before. -/
theorem Task.Normal.again
    {display : Symbol → String}
    {task : Task}
    {result : Expr}
    (normal : task.Normal display result) :
    ((task.only .navigation).withBody result).counts = 0 ∧
      ((task.only .navigation).withBody result).problems = task.problems := by
  have navigation : (task.features.only .navigation).navigation = task.features.navigation :=
    Bool.true_and _
  unfold counts problems withBody only
  dsimp only
  rw [navigation]
  cases on : task.features.navigation with
  | true =>
      rw [normal.navigated on]
      exact ⟨rfl, rfl⟩
  | false =>
      have spans := congrArg (List.map (Problem.navigationDisabled task.path)) (normal.refused on)
      rw [List.map_map, List.map_map] at spans
      exact ⟨rfl, spans⟩

theorem Task.again_of_normal
    {display : Symbol → String}
    {tasks : List Task}
    {results : List Expr}
    (normal : List.Forall₂ (Task.Normal display) tasks results) :
    let again := (tasks.map (Task.only .navigation)).zipWith Task.withBody results
    (again.map Task.counts).sum = 0 ∧ again.flatMap Task.problems = tasks.flatMap Task.problems := by
  dsimp only
  induction normal with
  | nil => exact ⟨rfl, rfl⟩
  | cons first _ inductionHypothesis =>
      obtain ⟨noCounts, sameProblems⟩ := first.again
      obtain ⟨noFurther, sameFurther⟩ := inductionHypothesis
      rw [List.map_cons, List.zipWith_cons_cons, List.map_cons, List.sum_cons, List.flatMap_cons,
        List.flatMap_cons, noCounts, noFurther, sameProblems, sameFurther]
      exact ⟨rfl, rfl⟩

namespace SourceUnit

variable {set : ActivationSet} {table grown : SymbolTable} {unit : SourceUnit}

/-- What holds of the result of each task under all tables that grew from the one it leaves
behind holds of the expressions of the rewritten unit under those that grew from its own. -/
theorem forall₂_performed
    (relation : SymbolTable → Task → Expr → Prop)
    (each : ∀ task progress grown, (Rewrite.task task progress).2.table.Grows grown →
      relation grown task (Rewrite.task task progress).1)
    (resolves : unit.resolves table)
    (later : (unit.rewrite set table).table.Grows grown) :
    List.Forall₂ (relation grown) (unit.tasks set table) (unit.rewrite set table).unit.bodies := by
  obtain ⟨ran, sameTable, -⟩ := rewrite_apply set resolves
  have ranBodies := congrArg bodies ran
  rw [bodies_withBodies unit (unit.length_performed set table)] at ranBodies
  rw [sameTable] at later
  rw [ranBodies]
  exact Rewrite.forall₂_tasks relation each (unit.tasks set table) (.start table) later

/-- What holds of the planned result of each task holds of the expressions of the rewritten
unit. -/
theorem forall₂_planned
    {relation : Task → Expr → Prop}
    (resolves : unit.resolves table)
    (later : (unit.rewrite set table).table.Grows grown)
    (each : ∀ task issued,
      relation task ((Rewrite.planFrom table grown.symbolOf).task task issued).1) :
    List.Forall₂ relation (unit.tasks set table) (unit.rewrite set table).unit.bodies := by
  have room : ((unit.tasks set table).mapM
      (Rewrite.planFrom table grown.symbolOf).task 0).1.length = unit.bodies.length := by
    rw [length_mapM, ← unit.map_body_tasks set table, List.length_map]
  have planned := congrArg bodies (rewrite_own resolves later).2
  rw [bodies_withBodies unit room] at planned
  rw [planned]
  exact forall₂_mapM each (unit.tasks set table) 0

/-- The expressions of a rewritten unit are normal for their tasks. -/
theorem normal_rewrite
    (resolves : unit.resolves table)
    (later : (unit.rewrite set table).table.Grows grown) :
    List.Forall₂ (Task.Normal grown.display) (unit.tasks set table)
      (unit.rewrite set table).unit.bodies := by
  have arrays := forall₂_performed
    (fun grown task result => task.features.arrays → result.ArraysWrapped grown.display)
    (fun _ progress _ last on => Rewrite.arraysWrapped_task on progress last) resolves later
  have navigated : List.Forall₂
      (fun (task : Task) (result : Expr) => task.features.navigation → result.markers = [])
      (unit.tasks set table) (unit.rewrite set table).unit.bodies :=
    forall₂_planned resolves later fun task issued on => List.length_eq_zero_iff.mp
      ((Plan.length_markers_task _ task issued).trans (if_pos on))
  have refused : List.Forall₂
      (fun (task : Task) (result : Expr) => task.features.navigation = false →
        result.markers.map Expr.span = task.body.markers.map Expr.span)
      (unit.tasks set table) (unit.rewrite set table).unit.bodies :=
    forall₂_planned resolves later fun _ issued off => Plan.map_span_markers_task _ off issued
  exact (navigated.mp (fun _ _ first second => And.intro first second) refused).mp
    (fun _ _ both wrapped => ⟨both.1, both.2, wrapped⟩) arrays

/-- What is left to do for navigation in a rewritten unit counts nothing, and finds the problems
that were found before. -/
theorem again_rewrite (resolves : unit.resolves table) :
    let done := unit.rewrite set table
    done.unit.counts (set.only .navigation) done.table = 0 ∧
      done.unit.problems (set.only .navigation) done.table = unit.problems set table := by
  intro done
  have normal : List.Forall₂ (Task.Normal done.table.display) (unit.tasks set table)
      done.unit.bodies := normal_rewrite resolves (.refl _)
  have tasks : done.unit.tasks (set.only .navigation) done.table = _ :=
    tasks_rewritten _ resolves (grows_rewrite set resolves)
  unfold counts problems
  rw [tasks, unit.tasks_only set .navigation table]
  exact Task.again_of_normal normal

end SourceUnit

/-- **Rewritten units are in normal form.** Whatever comes of it, rewriting a unit whose symbols
the table knows leaves no marked access in an expression for which navigation is in effect, and
in one for which it is not exactly the original ones, as many and with the same regions in the
same order. Where array wrapping is in effect, every array literal is the only argument, without
a label, of a call to the constructor of checked arrays with the literal's region. Rewriting the
result with the settings for navigation alone changes neither the unit nor the table. It fails
with the same problems where the first rewriting failed, and succeeds without counting anything
where it succeeded. -/
theorem rewrite_normal_form
    (set : ActivationSet)
    (unit : SourceUnit)
    (table : SymbolTable)
    (resolves : unit.resolves table) :
    let done := unit.rewrite set table
    let again := done.unit.rewrite (set.only .navigation) done.table
    List.Forall₂ (Task.Normal done.table.display) (unit.tasks set table) done.unit.bodies ∧
      again.unit = done.unit ∧
      again.table = done.table ∧
      (∀ problems, done.result = .error problems → again.result = .error problems) ∧
      ∀ counts, done.result = .ok counts → again.result = .ok 0 := by
  intro done again
  have resolvesDone : done.unit.resolves done.table := SourceUnit.resolves_rewrite set resolves
  obtain ⟨noCounts, sameProblems⟩ :
      done.unit.counts (set.only .navigation) done.table = 0 ∧ _ := SourceUnit.again_rewrite resolves
  have idle : (done.unit.counts (set.only .navigation) done.table).total = 0 :=
    congrArg Counts.total noCounts
  obtain ⟨sameUnit, sameTable⟩ := SourceUnit.rewrite_of_idle resolvesDone idle
  have first : done.result = _ := SourceUnit.rewrite_result resolves
  have second : again.result = _ := SourceUnit.rewrite_result resolvesDone
  rw [noCounts, sameProblems] at second
  refine ⟨SourceUnit.normal_rewrite resolves (.refl _), sameUnit, sameTable,
    fun problems failed => ?_, fun counts succeeded => ?_⟩
  · rw [first] at failed
    rw [second]
    split at failed
    next => cases failed
    next some => rw [if_neg some, failed]
  · rw [first] at succeeded
    rw [second]
    split at succeeded
    next none => rw [if_pos none]
    next => cases succeeded

/-- With all features, and with array wrapping alone, which refuses the accesses. -/
theorem rewrite_normal_form_of_greet :
    let set : ActivationSet := .allInPackage "app"
    let wrapping := set.only .arrays
    let done := Outcome.sampleUnit.rewrite set Outcome.sampleTable
    let refused := Outcome.sampleUnit.rewrite wrapping Outcome.sampleTable
    List.Forall₂ (Task.Normal done.table.display)
        (Outcome.sampleUnit.tasks set Outcome.sampleTable) done.unit.bodies ∧
      (done.unit.rewrite (set.only .navigation) done.table).result = .ok 0 ∧
      List.Forall₂ (Task.Normal refused.table.display)
        (Outcome.sampleUnit.tasks wrapping Outcome.sampleTable) refused.unit.bodies ∧
      (refused.unit.rewrite (wrapping.only .navigation) refused.table).result = .error [
        .navigationDisabled ⟨["app", "greet"]⟩ ⟨29, 43, 1, 30⟩,
        .navigationDisabled ⟨["app", "greet"]⟩ ⟨29, 49, 1, 30⟩] := by
  intro set wrapping done refused
  have succeeded : done.result = .ok ⟨2, 1, 1, 1⟩ :=
    (SourceUnit.rewrite_result (by decide)).trans rfl
  have failed : refused.result = .error [
      .navigationDisabled ⟨["app", "greet"]⟩ ⟨29, 43, 1, 30⟩,
      .navigationDisabled ⟨["app", "greet"]⟩ ⟨29, 49, 1, 30⟩] :=
    (SourceUnit.rewrite_result (by decide)).trans rfl
  obtain ⟨normal, -, -, -, counted⟩ :=
    rewrite_normal_form set Outcome.sampleUnit Outcome.sampleTable (by decide)
  obtain ⟨normalRefused, -, -, reported, -⟩ :=
    rewrite_normal_form wrapping Outcome.sampleUnit Outcome.sampleTable (by decide)
  exact ⟨normal, counted _ succeeded, normalRefused, reported _ failed⟩

end NilSafety
