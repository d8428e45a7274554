import NilSafety.Proofs.Rewriting.Outcome
import NilSafety.Proofs.Rewriting.Plan

/-!
Contract: the marked accesses and array literals that rewriting leaves in place.

Owns:
- that no form which rewriting puts in adds or drops any of them, but for the marked
  access that is expanded;
- how many of each a task, and a unit, leaves in place;
- what a further rewriting of a unit therefore counts and reports.

Does not own: where in the tree they are.
-/

namespace NilSafety

/-! ### Forms -/

namespace Expr

section

variable {kind : Expr → Bool} (plain : ∀ node, kind node → node.isMarkedAccess ∨ node.isArray)

include plain

theorem filter_postOrder_block (stmts : List Stmt) (tail : Option Expr) (span : Span) :
    (block stmts tail span).postOrder.filter kind =
      ((stmts.flatMap Stmt.children).flatMap postOrder).filter kind ++
        (tail.toList.flatMap postOrder).filter kind := by
  have noBlock : [block stmts tail span].filter kind = [] :=
    filter_eq_nil_of_plain plain (by simp [isMarkedAccess, isArray])
  rw [postOrder_eq, children, List.flatMap_append, List.filter_append, List.filter_append, noBlock,
    List.append_nil]

/-- Statements put in front of a body add only what is in them. -/
theorem filter_postOrder_precededBy
    {stmts : List Stmt}
    (none : ((stmts.flatMap Stmt.children).flatMap postOrder).filter kind = [])
    (expr : Expr) :
    (expr.precededBy stmts).postOrder.filter kind = expr.postOrder.filter kind := by
  have wrapped : ∀ span : Span, (block stmts (some expr) span).postOrder.filter kind =
      expr.postOrder.filter kind := by
    intro span
    rw [filter_postOrder_block plain, none, Option.toList_some, List.flatMap_singleton,
      List.nil_append]
  cases expr with
  | block body tail span =>
      rw [precededBy, filter_postOrder_block plain, filter_postOrder_block plain,
        List.flatMap_append, List.flatMap_append, List.filter_append, none, List.nil_append]
  | _ => exact wrapped _

/-- The form of a wrapped literal has no other one in it. -/
theorem filter_postOrder_wrappedBy
    (segments : List Symbol)
    {expr : Expr}
    (isLiteral : expr.isArray) :
    (expr.wrappedBy segments).postOrder.filter kind = expr.postOrder.filter kind := by
  cases expr with
  | array elements span =>
      have computed : ((array elements span).wrappedBy segments).postOrder =
          [path segments span] ++ ((array elements span).postOrder ++ []) ++
            [(array elements span).wrappedBy segments] := rfl
      have noPath : [path segments span].filter kind = [] :=
        filter_eq_nil_of_plain plain (by simp [isMarkedAccess, isArray])
      have noCall : [(array elements span).wrappedBy segments].filter kind = [] :=
        filter_eq_nil_of_plain plain (by simp [wrappedBy, isMarkedAccess, isArray])
      rw [computed, List.append_nil, List.filter_append, List.filter_append, noPath, noCall,
        List.append_nil, List.nil_append]
  | _ => cases isLiteral

end

end Expr

/-! ### Planned walks -/

namespace Plan

variable (plan : Plan)

/-- The action at a node expands as many marked accesses as it uses temporaries. -/
theorem length_markers_node (features : FeatureSet) (expr : Expr) (issued : Nat) :
    (plan.node features expr issued).1.markers.length + (plan.node features expr issued).2 =
      expr.markers.length + issued := by
  unfold node
  split
  next marked =>
    split
    next on =>
      rw [Expr.markers_expandAccess _ marked, expr.markers_eq, if_pos marked, List.length_append,
        List.length_singleton]
      dsimp only
      omega
    next off => rfl
  next unmarked =>
    split
    next wraps =>
      have kept : (expr.wrappedBy (Expr.checkedArrayPath.map plan.entry)).markers = expr.markers :=
        Expr.filter_postOrder_wrappedBy (fun _ => .inl) _ (Bool.and_eq_true_iff.mp wraps).2
      rw [kept]
    next plain => rfl

theorem length_literals_node (features : FeatureSet) (expr : Expr) (issued : Nat) :
    (plan.node features expr issued).1.literals.length = expr.literals.length := by
  unfold node
  split
  next marked =>
    split
    next on =>
      rw [Expr.literals_expandAccess _ marked, expr.literals_eq,
        Expr.isArray_of_isMarkedAccess marked, if_neg nofun, List.append_nil]
    next off => rfl
  next unmarked =>
    split
    next wraps =>
      have kept : (expr.wrappedBy (Expr.checkedArrayPath.map plan.entry)).literals =
          expr.literals :=
        Expr.filter_postOrder_wrappedBy (fun _ => .inr) _ (Bool.and_eq_true_iff.mp wraps).2
      rw [kept]
    next plain => rfl

/-- A walk with navigation leaves no marked access, and one without leaves all of them. -/
theorem length_markers_mapUp (features : FeatureSet) (expr : Expr) (issued : Nat) :
    (expr.mapUp (plan.node features) issued).1.markers.length =
      if features.navigation then 0 else expr.markers.length := by
  have balanced := Expr.mapUp_balances (fun expr => expr.markers.length)
    (fun expr => if expr.isMarkedAccess then 1 else 0) (fun _ => 0) id
    (fun expr exprs fits => by
      rw [Expr.markers_eq, Expr.children_refill expr fits, Expr.isMarkedAccess_refill,
        List.length_append, List.length_flatMap, Nat.add_comm]
      cases expr.isMarkedAccess <;> rfl)
    (plan.length_markers_node features) expr issued
  have used := plan.issued_mapUp features expr issued
  simp only [id, used] at balanced
  split at balanced
  next on =>
    rw [if_pos on]
    omega
  next off =>
    rw [if_neg off]
    omega

/-- A walk keeps the array literals, wrapped or not. -/
theorem length_literals_mapUp (features : FeatureSet) (expr : Expr) (issued : Nat) :
    (expr.mapUp (plan.node features) issued).1.literals.length = expr.literals.length := by
  have balanced := Expr.mapUp_balances (fun expr => expr.literals.length)
    (fun expr => if expr.isArray then 1 else 0) (fun _ => 0) (fun _ => 0)
    (fun expr exprs fits => by
      rw [Expr.literals_eq, Expr.children_refill expr fits, Expr.isArray_refill,
        List.length_append, List.length_flatMap, Nat.add_comm]
      cases expr.isArray <;> rfl)
    (fun expr issued => by rw [plan.length_literals_node features expr issued])
    expr issued
  omega

/-- Guards have neither marked accesses nor array literals in them. -/
theorem filter_postOrder_guardBody
    {kind : Expr → Bool}
    (plain : ∀ node, kind node → node.isMarkedAccess ∨ node.isArray)
    (path : Path)
    (guarded : List Param)
    (body : Expr) :
    (plan.guardBody path guarded body).postOrder.filter kind = body.postOrder.filter kind := by
  unfold guardBody
  split
  · rfl
  · refine Expr.filter_postOrder_precededBy plain (Expr.filter_eq_nil_of_plain plain ?_) body
    rw [List.flatMap_map, List.flatMap_assoc]
    intro node member
    obtain ⟨param, -, inCheck⟩ := List.mem_flatMap.mp member
    generalize plan.guardSymbols path = symbols at inCheck
    have computed : ((symbols.check param).children.flatMap Expr.postOrder).all (fun node =>
        !node.isMarkedAccess && !node.isArray) := rfl
    simpa using List.all_eq_true.mp computed node inCheck

theorem length_markers_task (task : Task) (issued : Nat) :
    (plan.task task issued).1.markers.length =
      if task.features.navigation then 0 else task.body.markers.length := by
  have guarded : ∀ body : Expr,
      (plan.guardBody task.path task.guarded body).markers = body.markers :=
    plan.filter_postOrder_guardBody (fun _ => .inl) task.path task.guarded
  unfold Plan.task
  dsimp only
  rw [guarded, length_markers_mapUp]

theorem length_literals_task (task : Task) (issued : Nat) :
    (plan.task task issued).1.literals.length = task.body.literals.length := by
  have guarded : ∀ body : Expr,
      (plan.guardBody task.path task.guarded body).literals = body.literals :=
    plan.filter_postOrder_guardBody (fun _ => .inr) task.path task.guarded
  unfold Plan.task
  dsimp only
  rw [guarded, length_literals_mapUp]

end Plan

/-! ### Units -/

/-- With navigation off, a task counts the same over a body with as many array literals. -/
theorem Task.counts_zipWith
    {tasks : List Task}
    {exprs : List Expr}
    (off : ∀ task ∈ tasks, task.features.navigation = false)
    (same : exprs.map (fun expr => expr.literals.length) =
      tasks.map fun task => task.body.literals.length) :
    (tasks.zipWith Task.withBody exprs).map Task.counts = tasks.map Task.counts := by
  induction tasks generalizing exprs with
  | nil => rfl
  | cons task rest inductionHypothesis =>
      obtain _ | ⟨expr, others⟩ := exprs
      · cases same
      · obtain ⟨sameFirst, sameRest⟩ := List.cons_eq_cons.mp same
        have sameFirst : expr.literals.length = task.body.literals.length := sameFirst
        have first : (task.withBody expr).counts = task.counts := by
          unfold Task.counts Task.withBody
          dsimp only
          rw [sameFirst, off task List.mem_cons_self]
          rfl
        rw [List.zipWith_cons_cons, List.map_cons, List.map_cons, first,
          inductionHypothesis (fun other member => off other (List.mem_cons_of_mem task member))
            sameRest]

namespace SourceUnit

variable {set : ActivationSet} {table later : SymbolTable} {unit : SourceUnit}

/-- What any settings have to do with a rewritten unit is what they have to do with the
original one, over the rewritten expressions. -/
theorem tasks_rewritten
    (set' : ActivationSet)
    (resolves : unit.resolves table)
    (grows : table.Grows later) :
    (unit.rewrite set table).unit.tasks set' later =
      (unit.tasks set' table).zipWith Task.withBody (unit.rewrite set table).unit.bodies := by
  have room := unit.length_performed set table
  rw [(rewrite_apply set resolves).1, tasks_withBodies set' later unit room,
    tasks_eq grows resolves, bodies_withBodies unit room]

theorem length_markers_rewrite (resolves : unit.resolves table) :
    (unit.rewrite set table).unit.bodies.map (fun body => body.markers.length) =
      (unit.tasks set table).map fun task =>
        if task.features.navigation then 0 else task.body.markers.length := by
  rw [(rewrite_own resolves (.refl _)).2, bodies_withBodies]
  · exact map_mapM (Plan.length_markers_task _) (unit.tasks set table) 0
  · rw [length_mapM, ← unit.map_body_tasks set table, List.length_map]

theorem length_literals_rewrite (set' : ActivationSet) (resolves : unit.resolves table) :
    (unit.rewrite set table).unit.bodies.map (fun body => body.literals.length) =
      (unit.tasks set' table).map fun task => task.body.literals.length := by
  have sameBodies : (unit.tasks set' table).map (fun task => task.body.literals.length) =
      (unit.tasks set table).map fun task => task.body.literals.length := by
    have bodies := (unit.map_body_tasks set' table).trans (unit.map_body_tasks set table).symm
    have lengths := congrArg (List.map fun body => body.literals.length) bodies
    rwa [List.map_map, List.map_map] at lengths
  rw [sameBodies, (rewrite_own resolves (.refl _)).2, bodies_withBodies]
  · exact map_mapM (Plan.length_literals_task _) (unit.tasks set table) 0
  · rw [length_mapM, ← unit.map_body_tasks set table, List.length_map]

/-- Rewriting that succeeds leaves no marked access. -/
theorem markers_rewrite
    (resolves : unit.resolves table)
    (clean : unit.problems set table = []) :
    ∀ body ∈ (unit.rewrite set table).unit.bodies, body.markers = [] := by
  intro body isBody
  have isLength := List.mem_map_of_mem isBody (f := fun body => body.markers.length)
  rw [length_markers_rewrite resolves] at isLength
  obtain ⟨task, isTask, same⟩ := List.mem_map.mp isLength
  rw [← List.length_eq_zero_iff, ← same]
  split
  · rfl
  next off =>
    by_contra marked
    exact problems_ne_nil_iff.mpr ⟨task, isTask, by simpa using off, fun none =>
      marked (by rw [none]; rfl)⟩ clean

/-- Once a rewriting has succeeded, no further one finds problems. -/
theorem problems_rewritten
    (set' : ActivationSet)
    (later : SymbolTable)
    (resolves : unit.resolves table)
    (clean : unit.problems set table = []) :
    (unit.rewrite set table).unit.problems set' later = [] := by
  by_contra some
  obtain ⟨task, isTask, -, marked⟩ := problems_ne_nil_iff.mp some
  refine marked (markers_rewrite resolves clean task.body ?_)
  rw [← map_body_tasks set' later]
  exact List.mem_map_of_mem isTask

/-- A rewriting without navigation counts the same before and after any other one. -/
theorem counts_rewritten
    {set' : ActivationSet}
    (resolves : unit.resolves table)
    (grows : table.Grows later)
    (off : ∀ task ∈ unit.tasks set' table, task.features.navigation = false) :
    (unit.rewrite set table).unit.counts set' later = unit.counts set' table := by
  unfold counts
  rw [tasks_rewritten set' resolves grows,
    Task.counts_zipWith off (length_literals_rewrite set' resolves)]

end SourceUnit

end NilSafety
