import NilSafety.Proofs.Rewriting.NormalForm

/-!
Contract: rewritings that change nothing.

Owns:
- by how many nodes a tree grows with every rewrite that is counted;
- that a task which counts nothing leaves its expression and the table as they are;
- that a unit comes out as it was exactly if nothing is counted.

Does not own: what is counted.

A tree that came out as it was may have been rewritten all the same, as far as its shape
tells. The number of its nodes settles this: every rewrite adds some, and none takes any.
-/

namespace NilSafety

/-! ### Sizes -/

namespace Expr

/-- The number of nodes of a tree. -/
def size (expr : Expr) : Nat :=
  expr.postOrder.length

theorem size_eq (expr : Expr) : expr.size = 1 + (expr.children.map size).sum := by
  unfold size
  rw [postOrder_eq, List.length_append, List.length_flatMap, List.length_singleton, Nat.add_comm]

theorem size_refill
    (expr : Expr)
    {exprs : List Expr}
    (fits : exprs.length = expr.children.length) :
    (expr.refill exprs).size = 1 + (exprs.map size).sum := by
  rw [size_eq, children_refill expr fits]

theorem size_expandAccess
    (temp : Symbol)
    {expr : Expr}
    (marked : expr.isMarkedAccess) :
    (expr.expandAccess temp).size = expr.size + 9 := by
  unfold size
  cases expr with
  | field object name isMarked span =>
      obtain rfl : isMarked = true := marked
      rw [expandAccess, postOrder_nilChecked, postOrder_field, postOrder_field]
      simp only [List.length_append, List.length_cons, List.length_nil]
      have ofTemp : (ident temp span).postOrder.length = 1 := rfl
      omega
  | method receiver name args isMarked span =>
      obtain rfl : isMarked = true := marked
      rw [expandAccess, postOrder_nilChecked, postOrder_method, postOrder_method]
      simp only [List.length_append, List.length_cons, List.length_nil]
      have ofTemp : (ident temp span).postOrder.length = 1 := rfl
      omega
  | _ => cases marked

theorem size_wrappedBy
    (segments : List Symbol)
    {expr : Expr}
    (isLiteral : expr.isArray) :
    (expr.wrappedBy segments).size = expr.size + 2 := by
  cases expr with
  | array elements span =>
      have ofPath : (path segments span).size = 1 := rfl
      rw [wrappedBy, size_eq, children, List.map_cons, List.map_map, List.sum_cons, ofPath]
      show 1 + (1 + ((array elements span).size + 0)) = _
      omega
  | _ => cases isLiteral

/-- A body with statements in front has their nodes beside its own. -/
theorem size_precededBy (stmts : List Stmt) (expr : Expr) :
    expr.size + ((stmts.flatMap Stmt.children).map size).sum ≤ (expr.precededBy stmts).size := by
  have wrapped : ∀ span : Span, expr.size + ((stmts.flatMap Stmt.children).map size).sum ≤
      (block stmts (some expr) span).size := by
    intro span
    rw [size_eq (block _ _ _), children, Option.toList_some, List.map_append, List.sum_append,
      List.map_singleton, List.sum_singleton]
    omega
  cases expr with
  | block body tail span =>
      rw [precededBy, size_eq, size_eq, children, children]
      simp only [List.flatMap_append, List.map_append, List.sum_append]
      omega
  | _ => exact wrapped _

end Expr

/-! ### Growth -/

/-- What holds of each result whatever the state holds of all. -/
theorem forall₂_mapM
    {σ α β : Type}
    {relation : α → β → Prop}
    {step : α → StateM σ β}
    (each : ∀ item state, relation item (step item state).1)
    (items : List α)
    (state : σ) :
    List.Forall₂ relation items (items.mapM step state).1 := by
  induction items generalizing state with
  | nil => exact .nil
  | cons first rest inductionHypothesis =>
      rw [mapM_cons_apply]
      exact .cons (each first state) (inductionHypothesis _)

namespace Counts

/-- The number of nodes that rewrites add, at the least. -/
def growth (counts : Counts) : Nat :=
  9 * counts.navigations + 9 * counts.guards + 2 * counts.arrays

theorem growth_add (counts counts' : Counts) :
    (counts + counts').growth = counts.growth + counts'.growth := by
  show 9 * (_ + _) + 9 * (_ + _) + 2 * (_ + _) = _
  unfold growth
  omega

theorem total_le_growth (counts : Counts) : counts.total ≤ counts.growth := by
  unfold total growth
  omega

theorem total_sum (counts : List Counts) : counts.sum.total = (counts.map total).sum := by
  induction counts with
  | nil => rfl
  | cons first rest inductionHypothesis =>
      rw [List.sum_cons, List.map_cons, List.sum_cons, ← inductionHypothesis]
      show (_ + _) + (_ + _) + (_ + _) = _
      unfold total
      omega

end Counts

namespace Rewrite

theorem size_node
    (path : Path)
    (features : FeatureSet)
    (expr : Expr)
    (progress : Progress) :
    (node path features expr progress).1.size + progress.counts.growth =
      expr.size + (node path features expr progress).2.counts.growth := by
  unfold node
  split
  next marked =>
    split
    next on =>
      have counted : (expand path expr progress).2.counts = progress.counts + ⟨1, 0, 0, 0⟩ := rfl
      have expanded : (expand path expr progress).1 = expr.expandAccess
        (progress.names.fresh progress.table).1 := rfl
      rw [counted, expanded, Counts.growth_add, Expr.size_expandAccess _ marked]
      show _ + 9 + _ = _ + (_ + 9)
      omega
    next off => rfl
  next unmarked =>
    split
    next wraps =>
      have isLiteral := (Bool.and_eq_true_iff.mp wraps).2
      have counted : (wrap path expr progress).2.counts = progress.counts + ⟨0, 0, 0, 1⟩ := rfl
      have wrapped : (wrap path expr progress).1 = (expr.wrapArray progress.table).1 := rfl
      rw [counted, wrapped, Counts.growth_add, Expr.wrapArray_eq _ isLiteral,
        Expr.size_wrappedBy _ isLiteral]
      show _ + 2 + _ = _ + (_ + 2)
      omega
    next plain => rfl

/-- A walk adds to a tree the nodes of what it counts. -/
theorem size_body
    (path : Path)
    (features : FeatureSet)
    (expr : Expr)
    (progress : Progress) :
    (body path features expr progress).1.size + progress.counts.growth =
      expr.size + (body path features expr progress).2.counts.growth :=
  Expr.mapUp_balances Expr.size (fun _ => 1) (fun progress => progress.counts.growth) (fun _ => 0)
    (fun inner _ fits => inner.size_refill fits) (size_node path features) expr progress

theorem size_guardBody
    (path : Path)
    (guarded : List Param)
    (body : Expr)
    (progress : Progress) :
    body.size + 9 * guarded.length ≤ (guardBody path guarded body progress).1.size := by
  have checks : ∀ symbols : GuardSymbols,
      (((guarded.map symbols.check).flatMap Stmt.children).map Expr.size).sum =
        9 * guarded.length := by
    intro symbols
    induction guarded with
    | nil => rfl
    | cons param rest inductionHypothesis =>
        have one : ((symbols.check param).children.map Expr.size).sum = 9 := rfl
        rw [List.map_cons, List.flatMap_cons, List.map_append, List.sum_append,
          inductionHypothesis, one, List.length_cons]
        omega
  unfold guardBody
  split
  next none =>
    rw [List.isEmpty_iff.mp none]
    exact le_refl _
  next some =>
    rw [← checks (GuardSymbols.intern progress.table path).1]
    exact Expr.size_precededBy _ body

/-- Performing a task adds at least the nodes of what it counts. -/
theorem size_task (task : Task) (progress : Progress) :
    task.body.size + task.counts.growth ≤ (Rewrite.task task progress).1.size := by
  have parts : ∀ start : Progress,
      task.body.size + task.counts.growth ≤
        (guardBody task.path task.guarded (body task.path task.features task.body start).1
          (body task.path task.features task.body start).2).1.size := by
    intro start
    have walked := size_body task.path task.features task.body start
    have counted := congrArg (fun tally => Counts.growth tally.1)
      (tally_body task.path task.features task.body start)
    have guarded := size_guardBody task.path task.guarded
      (body task.path task.features task.body start).1
      (body task.path task.features task.body start).2
    have ofGuards : Counts.growth ⟨0, task.guarded.length, if task.guarded.isEmpty then 0 else 1, 0⟩ =
        9 * task.guarded.length := by
      show 9 * 0 + 9 * task.guarded.length + 2 * 0 = _
      omega
    dsimp only [Progress.tally] at counted
    rw [Counts.growth_add] at counted
    rw [← task.counts_eq, Counts.growth_add, ofGuards]
    omega
  unfold Rewrite.task
  exact parts _

end Rewrite

/-! ### Idle tasks -/

/-- A walk whose action makes of every node of a tree its image, as long as a part of the state
is as it was, and keeps this part, makes of the tree its image, and keeps this part. -/
theorem Expr.mapUp_image
    {σ β : Type}
    {action : Expr → StateM σ Expr}
    (image : Expr → Expr)
    (view : σ → β)
    (expr : Expr)
    (state : σ)
    (atNode : ∀ inner ∈ expr.postOrder, ∀ exprs, ∀ present, view present = view state →
      (action (inner.refill exprs) present).1 = image (inner.refill exprs) ∧
        view (action (inner.refill exprs) present).2 = view state) :
    (expr.mapUp action state).1 = expr.foldUp (fun node inside => image (node.refill inside)) ∧
      view (expr.mapUp action state).2 = view state := by
  have fold : expr.mapUp (fun node => (pure (image node) : StateM β Expr)) (view state) =
      (expr.foldUp fun node inside => image (node.refill inside), view state) :=
    @mapUp_stateless β (fun node => pure (image node)) (fun node inside => image (node.refill inside))
      (fun _ _ _ _ => rfl) expr (view state)
  have children : ∀ expr : Expr, (id expr).children = expr.children.map id :=
    fun expr => (List.map_id _).symm
  have inStep : InStep (fun present total => view present = total ∧ total = view state)
      (fun _ => True) Eq
      (expr.mapUp action) ((id expr).mapUp fun node => (pure (image node) : StateM β Expr)) := by
    refine InStep.mapUp children expr ?_
    rintro inner inside exprs exprs' _ present total ⟨same, rfl⟩
    obtain ⟨isImage, sameView⟩ := atNode inner inside exprs present same
    refine ⟨⟨sameView, rfl⟩, fun _ => ⟨trivial, fun related => ?_⟩⟩
    rw [List.forall₂_eq_eq_eq] at related
    rw [isImage, related]
    rfl
  obtain ⟨⟨sameView, -⟩, related⟩ := inStep state (view state) ⟨rfl, rfl⟩
  have sameTree := (related trivial).2
  rw [id, fold] at sameView sameTree
  exact ⟨sameTree, sameView⟩

/-- A walk whose action changes no node of a tree leaves the tree as it is, and all of the
state that no action changes. -/
theorem Expr.mapUp_idle
    {σ β : Type}
    {action : Expr → StateM σ Expr}
    (view : σ → β)
    (expr : Expr)
    (idle : ∀ inner ∈ expr.postOrder, ∀ exprs, ∀ state,
      (action (inner.refill exprs) state).1 = inner.refill exprs ∧
        view (action (inner.refill exprs) state).2 = view state)
    (state : σ) :
    (expr.mapUp action state).1 = expr ∧ view (expr.mapUp action state).2 = view state := by
  have walked := expr.mapUp_image id view state fun inner inside exprs present same =>
    (idle inner inside exprs present).imp id fun kept => kept.trans same
  exact ⟨walked.1.trans (foldUp_refill expr), walked.2⟩

namespace Rewrite

/-- A walk that finds nothing to rewrite leaves tree and table as they are. -/
theorem body_of_idle
    (path : Path)
    {features : FeatureSet}
    {expr : Expr}
    (unmarked : features.navigation → expr.markers = [])
    (noLiterals : features.arrays → expr.literals = [])
    (progress : Progress) :
    (body path features expr progress).1 = expr ∧
      (body path features expr progress).2.table = progress.table := by
  refine expr.mapUp_idle Progress.table (fun inner inside exprs progress => ?_) progress
  unfold node
  rw [Expr.isMarkedAccess_refill, Expr.isArray_refill]
  split
  next marked =>
    split
    next on =>
      have isMarker : inner ∈ expr.markers := List.mem_filter.mpr ⟨inside, marked⟩
      rw [unmarked on] at isMarker
      cases isMarker
    next off => exact ⟨rfl, rfl⟩
  next =>
    split
    next wraps =>
      obtain ⟨on, isArray⟩ := Bool.and_eq_true_iff.mp wraps
      have isLiteral : inner ∈ expr.literals := List.mem_filter.mpr ⟨inside, isArray⟩
      rw [noLiterals on] at isLiteral
      cases isLiteral
    next plain => exact ⟨rfl, rfl⟩

theorem task_of_idle
    {task : Task}
    (idle : task.counts.total = 0)
    (progress : Progress) :
    (Rewrite.task task progress).1 = task.body ∧
      (Rewrite.task task progress).2.table = progress.table := by
  have none : task.counts.navigations = 0 ∧ task.counts.guards = 0 ∧ task.counts.arrays = 0 := by
    unfold Counts.total at idle
    omega
  obtain ⟨navigations, guards, arrays⟩ := none
  have unmarked : task.features.navigation → task.body.markers = [] := fun on =>
    List.length_eq_zero_iff.mp ((if_pos on).symm.trans navigations)
  have unguarded : task.guarded = [] := List.length_eq_zero_iff.mp guards
  have noLiterals : task.features.arrays → task.body.literals = [] := fun on =>
    List.length_eq_zero_iff.mp ((if_pos on).symm.trans arrays)
  unfold Rewrite.task
  dsimp only
  rw [unguarded]
  obtain ⟨sameBody, sameTable⟩ := body_of_idle task.path unmarked noLiterals
    (if task.isFunction && task.features.isEmpty then progress.log (.idle task.path) else progress)
  refine ⟨sameBody, sameTable.trans ?_⟩
  split <;> rfl

theorem tasks_of_idle
    {tasks : List Task}
    (idle : ∀ task ∈ tasks, task.counts.total = 0)
    (progress : Progress) :
    (tasks.mapM Rewrite.task progress).1 = tasks.map Task.body ∧
      (tasks.mapM Rewrite.task progress).2.table = progress.table := by
  induction tasks generalizing progress with
  | nil => exact ⟨rfl, rfl⟩
  | cons task rest inductionHypothesis =>
      obtain ⟨sameBody, sameTable⟩ := task_of_idle (idle task List.mem_cons_self) progress
      obtain ⟨sameBodies, sameLast⟩ := inductionHypothesis
        (fun other member => idle other (List.mem_cons_of_mem task member))
        (Rewrite.task task progress).2
      rw [mapM_cons_apply]
      dsimp only
      rw [sameBody, sameBodies]
      exact ⟨rfl, sameLast.trans sameTable⟩

end Rewrite

/-! ### Units -/

theorem Decl.withBodies_bodies (decl : Decl) : decl.withBodies decl.bodies = decl := by
  cases decl with
  | function | constant => rfl
  | record name fields methods visibility span =>
      exact congrArg (fun methods => record name fields methods visibility span)
        (Expr.zipWith_map_value (fun f : Function => (rfl : f.withBody f.body = f)) methods)
  | extension name methods span =>
      exact congrArg (fun methods => extension name methods span)
        (Expr.zipWith_map_value (fun f : Function => (rfl : f.withBody f.body = f)) methods)

namespace SourceUnit

theorem withBodies_bodies (unit : SourceUnit) : unit.withBodies unit.bodies = unit :=
  congrArg (SourceUnit.mk unit.package) (refillEach_flatMap Decl.withBodies_bodies unit.decls)

variable {set : ActivationSet} {table : SymbolTable} {unit : SourceUnit}

theorem total_counts_eq_zero_iff :
    (unit.counts set table).total = 0 ↔ ∀ task ∈ unit.tasks set table, task.counts.total = 0 := by
  unfold counts
  rw [Counts.total_sum, List.sum_eq_zero_iff_forall_eq_nat]
  simp only [List.mem_map, forall_exists_index, and_imp, forall_apply_eq_imp_iff₂]

/-- A rewriting that counts nothing leaves unit and table as they are. -/
theorem rewrite_of_idle
    (resolves : unit.resolves table)
    (idle : (unit.counts set table).total = 0) :
    (unit.rewrite set table).unit = unit ∧ (unit.rewrite set table).table = table := by
  obtain ⟨sameUnit, sameTable, -⟩ := rewrite_apply set resolves
  obtain ⟨bodies, last⟩ := Rewrite.tasks_of_idle (total_counts_eq_zero_iff.mp idle) (.start table)
  rw [map_body_tasks] at bodies
  refine ⟨?_, sameTable.trans last⟩
  rw [sameUnit, performed, bodies, withBodies_bodies]

/-- A unit comes out as it was exactly if nothing is counted. -/
theorem rewrite_eq_self_iff (resolves : unit.resolves table) :
    (unit.rewrite set table).unit = unit ↔ (unit.counts set table).total = 0 := by
  refine ⟨fun same => ?_, fun idle => (rewrite_of_idle resolves idle).1⟩
  rw [(rewrite_apply set resolves).1] at same
  have bodies := congrArg SourceUnit.bodies same
  rw [bodies_withBodies unit (unit.length_performed set table), ← unit.map_body_tasks set table]
    at bodies
  have grown : List.Forall₂ (fun task result => task.body.size + task.counts.growth ≤ result.size)
      (unit.tasks set table) (unit.performed set table).1 :=
    forall₂_mapM Rewrite.size_task _ _
  rw [bodies, List.forall₂_map_right_iff, List.forall₂_same] at grown
  refine total_counts_eq_zero_iff.mpr fun task isTask => ?_
  have least := task.counts.total_le_growth
  have ofTask := grown task isTask
  omega

end SourceUnit

end NilSafety
