import NilSafety.Proofs.Rewriting.NormalForm

/-!
Contract: one rewriting for all features against one rewriting for each.

Owns:
- the settings for one feature, and what they leave to do with a unit;
- walks without navigation, which wrap array literals and do nothing else;
- that a walk for all features is a walk for navigation, after which the array literals
  are wrapped and the guards put in front;
- that rewriting a unit for one feature after the other gives the unit that rewriting
  for all of them gives, name by name.

Does not own: the meaning of the rewritten unit.

The walk for all features wraps literals while it expands accesses. It may as well wrap
them afterwards, since an expansion keeps the trees inside it and holds no literal of
its own.
-/

namespace NilSafety

/-! ### Settings for one feature -/

/-- Of the features, one alone. -/
def FeatureSet.only (features : FeatureSet) (feature : Feature) : FeatureSet :=
  .ofTest fun other => decide (other = feature) && features.contains other

/-- The activations of one feature. -/
def ActivationSet.only (set : ActivationSet) (feature : Feature) : ActivationSet where
  activations := set.activations.filter (·.feature = feature)
  nodup := set.nodup.filter _
  not_root := fun activation member =>
    set.not_root activation (List.mem_of_mem_filter member)

/-- What is left to do for one feature. -/
def Task.only (feature : Feature) (task : Task) : Task :=
  { task with
    features := task.features.only feature
    guarded := if feature = .guards then task.guarded else [] }

theorem ActivationSet.featuresAt_only
    (set : ActivationSet)
    (feature : Feature)
    (place : Placement) :
    (set.only feature).featuresAt place = (set.featuresAt place).only feature := by
  have enables : ∀ other, (set.only feature).enables place other =
      (decide (other = feature) && set.enables place other) := by
    intro other
    unfold ActivationSet.enables ActivationSet.only
    rw [List.any_filter]
    by_cases same : other = feature
    · simp only [same, decide_true, Bool.true_and, ← Bool.and_assoc, Bool.and_self]
    · rw [decide_eq_false same, Bool.false_and, List.any_eq_false]
      intro activation _ both
      simp only [Bool.and_eq_true, decide_eq_true_eq] at both
      exact same (both.2.1.symm.trans both.1)
  unfold ActivationSet.featuresAt FeatureSet.only
  rw [funext enables]
  rfl

theorem Member.task_only
    (set : ActivationSet)
    (feature : Feature)
    (table : SymbolTable)
    (member : Member) :
    member.task (set.only feature) table = (member.task set table).only feature := by
  have guards : (set.only feature).guards member =
      (decide (feature = .guards) && set.guards member) := by
    unfold ActivationSet.guards
    rw [set.featuresAt_only]
    cases feature <;> rfl
  unfold Member.task Task.only
  rw [set.featuresAt_only, guards]
  cases feature <;> rfl

theorem SourceUnit.tasks_only
    (set : ActivationSet)
    (feature : Feature)
    (table : SymbolTable)
    (unit : SourceUnit) :
    unit.tasks (set.only feature) table = (unit.tasks set table).map (Task.only feature) := by
  have decl : ∀ decl : Decl, decl.tasks (set.only feature) table unit.package =
      (decl.tasks set table unit.package).map (Task.only feature) := by
    intro decl
    cases decl with
    | function | record | extension =>
        simp only [Decl.tasks, List.map_map]
        exact List.map_congr_left fun member _ => member.task_only set feature table
    | constant name note value visibility span =>
        simp only [Decl.tasks, List.map_cons, List.map_nil, Placement.valueTask, Task.only,
          set.featuresAt_only, ite_self]
  unfold tasks
  rw [List.map_flatMap, funext decl]

theorem Task.only_mapSymbols (feature : Feature) (rename : Symbol → Symbol) (task : Task) :
    (task.mapSymbols rename).only feature = (task.only feature).mapSymbols rename := by
  unfold Task.mapSymbols Task.only
  dsimp only
  split <;> rfl

/-! ### Walks without navigation -/

namespace Expr

/-- The tree with all its array literals wrapped. -/
def wrapAll (segments : List Symbol) : Expr → Expr :=
  foldUp fun node inside => (node.refill inside).wrappedBy segments

theorem wrappedBy_of_not_isArray
    (segments : List Symbol)
    {expr : Expr}
    (other : expr.isArray = false) :
    expr.wrappedBy segments = expr := by
  cases expr with
  | array => cases other
  | _ => rfl

theorem wrapAll_eq (segments : List Symbol) (expr : Expr) :
    expr.wrapAll segments =
      (expr.refill (expr.children.map (wrapAll segments))).wrappedBy segments :=
  foldUp_eq _ expr

theorem wrapAll_refill
    (segments : List Symbol)
    (expr : Expr)
    {exprs : List Expr}
    (fits : exprs.length = expr.children.length) :
    (expr.refill exprs).wrapAll segments =
      (expr.refill (exprs.map (wrapAll segments))).wrappedBy segments := by
  rw [wrapAll_eq, children_refill expr fits, refill_refill expr fits]
  exact (List.length_map _).trans fits

/-- An expansion holds no array literal but those in the access. -/
theorem wrapAll_expandAccess
    (segments : List Symbol)
    (temp : Symbol)
    {expr : Expr}
    (marked : expr.isMarkedAccess) :
    (expr.expandAccess temp).wrapAll segments =
      (expr.refill (expr.children.map (wrapAll segments))).expandAccess temp := by
  cases expr with
  | field object name isMarked span =>
      obtain rfl : isMarked = true := marked
      rfl
  | method receiver name args isMarked span =>
      obtain rfl : isMarked = true := marked
      have checked : ∀ access : Expr,
          (nilChecked temp receiver access span).wrapAll segments =
            nilChecked temp (receiver.wrapAll segments) (access.wrapAll segments) span :=
        fun _ => rfl
      rw [expandAccess, checked, wrapAll_eq segments (method _ _ _ _ _)]
      rfl
  | _ => cases marked

end Expr

namespace Plan

variable (plan : Plan)

/-- The tree with its array literals wrapped, should the features ask for it. -/
def wrapped (features : FeatureSet) (expr : Expr) : Expr :=
  if features.arrays then expr.wrapAll (Expr.checkedArrayPath.map plan.entry) else expr

theorem wrapped_refill
    (features : FeatureSet)
    (expr : Expr)
    {exprs : List Expr}
    (fits : exprs.length = expr.children.length) :
    plan.wrapped features (expr.refill exprs) =
      if features.arrays && expr.isArray then
        (expr.refill (exprs.map (plan.wrapped features))).wrappedBy
          (Expr.checkedArrayPath.map plan.entry)
      else expr.refill (exprs.map (plan.wrapped features)) := by
  unfold wrapped
  cases features.arrays with
  | false => simp only [Bool.false_and, Bool.false_eq_true, ↓reduceIte, List.map_id']
  | true =>
      simp only [Bool.true_and, ↓reduceIte, expr.wrapAll_refill _ fits]
      split
      next => rfl
      next other =>
        refine Expr.wrappedBy_of_not_isArray _ ?_
        rw [Expr.isArray_refill]
        exact Bool.eq_false_of_not_eq_true other

theorem wrapped_expandAccess
    (features : FeatureSet)
    (temp : Symbol)
    {expr : Expr}
    (marked : expr.isMarkedAccess) :
    plan.wrapped features (expr.expandAccess temp) =
      (expr.refill (expr.children.map (plan.wrapped features))).expandAccess temp := by
  unfold wrapped
  cases features.arrays with
  | false => simp only [Bool.false_eq_true, ↓reduceIte, List.map_id', Expr.refill_children]
  | true => exact Expr.wrapAll_expandAccess _ temp marked

theorem node_of_off
    {features : FeatureSet}
    (off : features.navigation = false)
    (expr : Expr)
    (issued : Nat) :
    plan.node features expr issued =
      (if features.arrays then expr.wrappedBy (Expr.checkedArrayPath.map plan.entry) else expr,
        issued) := by
  have unwrapped : expr.isArray = false →
      expr.wrappedBy (Expr.checkedArrayPath.map plan.entry) = expr :=
    Expr.wrappedBy_of_not_isArray _
  have apart : expr.isMarkedAccess → expr.isArray = false := Expr.isArray_of_isMarkedAccess
  unfold node
  cases marked : expr.isMarkedAccess <;> cases isLiteral : expr.isArray <;>
    cases features.arrays <;> simp_all

/-- A walk without navigation wraps array literals, if it does anything. -/
theorem mapUp_of_off
    {features : FeatureSet}
    (off : features.navigation = false)
    (expr : Expr)
    (issued : Nat) :
    expr.mapUp (plan.node features) issued = (plan.wrapped features expr, issued) := by
  have atNode := Expr.mapUp_stateless
    (fun node inside issued _ => plan.node_of_off off (node.refill inside) issued) expr issued
  unfold wrapped
  cases on : features.arrays with
  | false =>
      simp only [on, Bool.false_eq_true, ↓reduceIte] at atNode ⊢
      rw [atNode, Expr.foldUp_refill]
  | true =>
      simp only [on, ↓reduceIte] at atNode ⊢
      exact atNode

/-! ### Walks with navigation -/

theorem inStep_node_wrapped
    {features : FeatureSet}
    (inner : Expr)
    {exprs exprs' : List Expr}
    (fits : exprs.length = inner.children.length) :
    InStep Eq (fun _ => True)
      (fun result result' =>
        List.Forall₂ (fun expr expr' => plan.wrapped features expr = expr') exprs exprs' →
          plan.wrapped features result = result')
      (plan.node (features.only .navigation) (inner.refill exprs))
      (plan.node features (inner.refill exprs')) := by
  intro issued _ same
  obtain rfl := same
  have mapped : List.Forall₂ (fun expr expr' => plan.wrapped features expr = expr') exprs exprs' →
      exprs.map (plan.wrapped features) = exprs' := by
    intro related
    rwa [← List.forall₂_eq_eq_eq, List.forall₂_map_left_iff]
  have navigation : (features.only .navigation).navigation = features.navigation :=
    Bool.true_and _
  have arrays : (features.only .navigation).arrays = false := rfl
  unfold node
  rw [navigation, arrays]
  simp only [Expr.isMarkedAccess_refill, Expr.isArray_refill, Bool.false_and, Bool.false_eq_true,
    ↓reduceIte]
  split
  next marked =>
    split
    next on =>
      refine ⟨rfl, fun _ => ⟨trivial, fun related => ?_⟩⟩
      have isMarked : (inner.refill exprs).isMarkedAccess := by
        rwa [Expr.isMarkedAccess_refill]
      dsimp only
      rw [plan.wrapped_expandAccess features _ isMarked, Expr.children_refill inner fits,
        Expr.refill_refill inner fits, mapped related]
      exact (List.length_map _).trans fits
    next off =>
      refine ⟨rfl, fun _ => ⟨trivial, fun related => ?_⟩⟩
      rw [plan.wrapped_refill features inner fits, mapped related,
        Expr.isArray_of_isMarkedAccess marked, Bool.and_false, if_neg nofun]
  next unmarked =>
    split
    next wraps =>
      refine ⟨rfl, fun _ => ⟨trivial, fun related => ?_⟩⟩
      rw [plan.wrapped_refill features inner fits, mapped related, if_pos wraps]
    next plain =>
      refine ⟨rfl, fun _ => ⟨trivial, fun related => ?_⟩⟩
      rw [plan.wrapped_refill features inner fits, mapped related, if_neg plain]

/-- A walk expands marked accesses as one for navigation alone does, after which the array
literals are wrapped. -/
theorem mapUp_eq (features : FeatureSet) (expr : Expr) (issued : Nat) :
    expr.mapUp (plan.node features) issued =
      (plan.wrapped features (expr.mapUp (plan.node (features.only .navigation)) issued).1,
        (expr.mapUp (plan.node (features.only .navigation)) issued).2) := by
  have children : ∀ expr : Expr, (id expr).children = expr.children.map id :=
    fun expr => (List.map_id _).symm
  obtain ⟨sameIssued, related⟩ := InStep.mapUp children expr
    (fun inner _ _ _ fits => plan.inStep_node_wrapped inner fits) issued issued rfl
  exact Prod.ext (related trivial).2.symm sameIssued.symm

/-! ### Tasks for one feature after the other -/

section

variable {other : Plan} (same : other.entry = plan.entry) (task : Task)

theorem task_navigation (issued : Nat) :
    plan.task (task.only .navigation) issued =
      task.body.mapUp (plan.node (task.features.only .navigation)) issued := rfl

include same

theorem task_arrays (body : Expr) (issued : Nat) :
    other.task ((task.only .arrays).withBody body) issued =
      (plan.wrapped task.features body, issued) := by
  have walked := other.mapUp_of_off (rfl : (task.features.only .arrays).navigation = false)
    body issued
  have sameWrapped : other.wrapped (task.features.only .arrays) body =
      plan.wrapped task.features body := by
    have arrays : (task.features.only .arrays).arrays = task.features.arrays := Bool.true_and _
    unfold wrapped
    rw [arrays, same]
  rw [← sameWrapped, ← walked]
  rfl

theorem task_guards (body : Expr) (issued : Nat) :
    other.task ((task.only .guards).withBody body) issued =
      (plan.guardBody task.path task.guarded body, issued) := by
  have walked := other.mapUp_of_off (rfl : (task.features.only .guards).navigation = false)
    body issued
  have sameGuards : other.guardBody task.path task.guarded body =
      plan.guardBody task.path task.guarded body := by
    unfold guardBody guardSymbols
    rw [same]
  have task : other.task ((task.only .guards).withBody body) issued =
      (other.guardBody task.path task.guarded
          (body.mapUp (other.node (task.features.only .guards)) issued).1,
        (body.mapUp (other.node (task.features.only .guards)) issued).2) := rfl
  rw [task, walked, ← sameGuards]
  rfl

end

theorem task_eq (task : Task) (issued : Nat) :
    plan.task task issued =
      (plan.guardBody task.path task.guarded
          (plan.wrapped task.features (plan.task (task.only .navigation) issued).1),
        (plan.task (task.only .navigation) issued).2) := by
  rw [plan.task_navigation]
  unfold Plan.task
  rw [plan.mapUp_eq]

/-- Performing tasks for navigation, then for arrays over what this made of their bodies, then
for guards comes to performing them for all features. -/
theorem stages
    {forArrays forGuards : Plan}
    (sameArrays : forArrays.entry = plan.entry)
    (sameGuards : forGuards.entry = plan.entry)
    (tasks : List Task)
    (issued first second : Nat) :
    let navigated := ((tasks.map (Task.only .navigation)).mapM plan.task issued).1
    let wrapped := (((tasks.map (Task.only .arrays)).zipWith Task.withBody navigated).mapM
      forArrays.task first).1
    (((tasks.map (Task.only .guards)).zipWith Task.withBody wrapped).mapM
      forGuards.task second).1 = (tasks.mapM plan.task issued).1 := by
  dsimp only
  induction tasks generalizing issued first second with
  | nil => rfl
  | cons task rest inductionHypothesis =>
      simp only [List.map_cons, mapM_cons_apply, List.zipWith_cons_cons]
      rw [plan.task_arrays sameArrays, plan.task_guards sameGuards, inductionHypothesis,
        plan.task_eq task]

end Plan

/-! ### Units for one feature after the other -/

namespace SourceUnit

variable
  {set : ActivationSet}
  {table later grown : SymbolTable}
  {unit : SourceUnit}
  {rename : Symbol → Symbol}
  {names : String → Symbol}

/-- What is to do with a rewritten unit, once its symbols are replaced. -/
theorem mapSymbols_tasks_rewritten
    (set' : ActivationSet)
    (resolves : unit.resolves table)
    (last : (unit.rewrite set table).table.Grows grown)
    (agree : Names grown rename names)
    (grows : table.Grows later) :
    ((unit.rewrite set table).unit.tasks set' later).map (Task.mapSymbols rename) =
      ((unit.tasks set' table).map (Task.mapSymbols rename)).zipWith Task.withBody
        (unit.planned set table rename names).1 := by
  have room : (unit.planned set table rename names).1.length =
      (unit.mapSymbols rename).bodies.length := by
    rw [length_planned, bodies_mapSymbols, List.length_map]
  have bodies := congrArg SourceUnit.bodies (rewrite_planned resolves last agree).2
  rw [bodies_mapSymbols, bodies_withBodies _ room] at bodies
  rw [tasks_rewritten set' resolves grows, ← bodies, List.map_zipWith, List.zipWith_map]
  rfl

theorem mapSymbols_tasks_only
    (set : ActivationSet)
    (feature : Feature)
    (table : SymbolTable)
    (unit : SourceUnit)
    (rename : Symbol → Symbol) :
    (unit.tasks (set.only feature) table).map (Task.mapSymbols rename) =
      ((unit.tasks set table).map (Task.mapSymbols rename)).map (Task.only feature) := by
  rw [tasks_only, List.map_map, List.map_map]
  exact List.map_congr_left fun task _ => (task.only_mapSymbols feature rename).symm

/-- Rewriting for one feature after the other performs, once symbols are replaced by what
stands for their names, the plan for all features. -/
theorem rewrite_stages
    (resolves : unit.resolves table)
    (agree : Names grown rename names) :
    let navigated := unit.rewrite (set.only .navigation) table
    let wrapped := navigated.unit.rewrite (set.only .arrays) navigated.table
    let guarded := wrapped.unit.rewrite (set.only .guards) wrapped.table
    guarded.table.Grows grown →
      guarded.unit.resolves grown ∧
        guarded.unit.mapSymbols rename =
          (unit.mapSymbols rename).withBodies (unit.planned set table rename names).1 := by
  intro navigated wrapped guarded last
  have resolvesFirst : navigated.unit.resolves navigated.table := resolves_rewrite _ resolves
  have resolvesSecond : wrapped.unit.resolves wrapped.table := resolves_rewrite _ resolvesFirst
  have growsFirst : table.Grows navigated.table := grows_rewrite _ resolves
  have growsSecond : navigated.table.Grows wrapped.table := grows_rewrite _ resolvesFirst
  have growsThird : wrapped.table.Grows guarded.table := grows_rewrite _ resolvesSecond
  have lastSecond := growsThird.trans last
  have lastFirst := growsSecond.trans lastSecond
  obtain ⟨-, plannedFirst⟩ := rewrite_planned resolves lastFirst agree
  obtain ⟨-, plannedSecond⟩ := rewrite_planned resolvesFirst lastSecond agree
  obtain ⟨resolvesLater, plannedThird⟩ := rewrite_planned resolvesSecond last agree
  -- The tasks of each pass are those for its feature, over what the passes before have made.
  have tasksFirst := unit.mapSymbols_tasks_only set .navigation table rename
  have tasksSecond := mapSymbols_tasks_rewritten (set.only .arrays) resolves lastFirst agree
    growsFirst
  have tasksThird := mapSymbols_tasks_rewritten (set.only .guards) resolvesFirst lastSecond agree
    growsSecond
  rw [mapSymbols_tasks_rewritten (set.only .guards) resolves lastFirst agree growsFirst,
    Expr.zipWith_zipWith_withValue Task.withBody_withBody] at tasksThird
  · rw [mapSymbols_tasks_only set .arrays table unit] at tasksSecond
    rw [mapSymbols_tasks_only set .guards table unit] at tasksThird
    have performed := (Rewrite.planFrom table names).stages
      (rfl : (Rewrite.planFrom navigated.table names).entry = _)
      (rfl : (Rewrite.planFrom wrapped.table names).entry = _)
      ((unit.tasks set table).map (Task.mapSymbols rename)) 0 0 0
    -- Every pass has as many expressions to rewrite as the unit.
    have room : (unit.mapSymbols rename).bodies.length = unit.bodies.length := by
      rw [bodies_mapSymbols, List.length_map]
    have roomFirst := length_bodies_rewrite (set.only .navigation) resolves
    have roomSecond := (length_bodies_rewrite (set.only .arrays) resolvesFirst).trans roomFirst
    refine ⟨resolvesLater, ?_⟩
    rw [plannedThird, plannedSecond, plannedFirst,
      withBodies_withBodies _ (unit.length_planned.trans room.symm)
        ((navigated.unit.length_planned.trans roomFirst).trans room.symm),
      withBodies_withBodies _ ((navigated.unit.length_planned.trans roomFirst).trans room.symm)
        ((wrapped.unit.length_planned.trans roomSecond).trans room.symm)]
    unfold planned at tasksSecond tasksThird ⊢
    rw [tasksFirst] at tasksSecond
    rw [tasksSecond] at tasksThird
    rw [tasksThird, performed]
  · rw [length_planned, List.length_map, ← unit.map_body_tasks (set.only .guards) table,
      List.length_map]

/-- Only the settings for navigation matter for problems. -/
theorem problems_only_navigation
    (set : ActivationSet)
    (table : SymbolTable)
    (unit : SourceUnit) :
    unit.problems (set.only .navigation) table = unit.problems set table := by
  have task : ∀ task : Task, (task.only .navigation).problems = task.problems := by
    intro task
    have navigation : (task.only .navigation).features.navigation = task.features.navigation :=
      Bool.true_and _
    unfold Task.problems
    rw [navigation]
    rfl
  unfold problems
  rw [tasks_only, List.flatMap_map, funext task]

theorem navigation_off
    {feature : Feature}
    (other : feature ≠ .navigation) :
    ∀ task ∈ unit.tasks (set.only feature) table, task.features.navigation = false := by
  rw [tasks_only]
  intro task isTask
  obtain ⟨whole, -, rfl⟩ := List.mem_map.mp isTask
  have none : decide (Feature.navigation = feature) = false := decide_eq_false other.symm
  exact (congrArg (· && whole.features.contains .navigation) none).trans (Bool.false_and _)

/-- The counts are those for the features one by one. -/
theorem counts_only (set : ActivationSet) (table : SymbolTable) (unit : SourceUnit) :
    unit.counts set table =
      unit.counts (set.only .navigation) table + unit.counts (set.only .arrays) table +
        unit.counts (set.only .guards) table := by
  have task : ∀ task : Task, task.counts =
      (task.only .navigation).counts + (task.only .arrays).counts +
        (task.only .guards).counts := by
    intro task
    obtain ⟨path, isFunction, features, guarded, body⟩ := task
    obtain ⟨navigation, guards, arrays⟩ := features
    unfold Task.counts Task.only
    rw [Counts.mk_add_mk, Counts.mk_add_mk]
    cases navigation <;> cases arrays <;> simp [FeatureSet.only, FeatureSet.ofTest,
      FeatureSet.contains]
  unfold counts
  rw [tasks_only, tasks_only, tasks_only, List.map_map, List.map_map, List.map_map,
    ← List.sum_map_add, ← List.sum_map_add]
  exact congrArg List.sum (List.map_congr_left fun whole _ => task whole)

/-- Where rewriting under all settings finds no problem, the passes succeed, each with the
counts for its feature. -/
theorem results_of_stages
    (resolves : unit.resolves table)
    (clean : unit.problems set table = []) :
    let navigated := unit.rewrite (set.only .navigation) table
    let wrapped := navigated.unit.rewrite (set.only .arrays) navigated.table
    let guarded := wrapped.unit.rewrite (set.only .guards) wrapped.table
    navigated.result = .ok (unit.counts (set.only .navigation) table) ∧
      wrapped.result = .ok (unit.counts (set.only .arrays) table) ∧
      guarded.result = .ok (unit.counts (set.only .guards) table) := by
  intro navigated wrapped guarded
  have cleanAlone := (problems_only_navigation set table unit).trans clean
  have resolvesFirst : navigated.unit.resolves navigated.table := resolves_rewrite _ resolves
  have resolvesSecond : wrapped.unit.resolves wrapped.table := resolves_rewrite _ resolvesFirst
  have growsFirst : table.Grows navigated.table := grows_rewrite _ resolves
  have growsSecond : navigated.table.Grows wrapped.table := grows_rewrite _ resolvesFirst
  have cleanFirst : navigated.unit.problems (set.only .arrays) navigated.table = [] :=
    problems_rewritten _ _ resolves cleanAlone
  have cleanSecond : wrapped.unit.problems (set.only .guards) wrapped.table = [] :=
    problems_rewritten _ _ resolvesFirst cleanFirst
  have first : navigated.result = _ := rewrite_result resolves
  have second : wrapped.result = _ := rewrite_result resolvesFirst
  have third : guarded.result = _ := rewrite_result resolvesSecond
  rw [if_pos cleanAlone] at first
  rw [if_pos cleanFirst, counts_rewritten resolves growsFirst (navigation_off (by decide))]
    at second
  rw [if_pos cleanSecond, counts_rewritten resolvesFirst growsSecond (navigation_off (by decide)),
    counts_rewritten resolves growsFirst (navigation_off (by decide))] at third
  exact ⟨first, second, third⟩

/-- The passes leave behind, resolved to text, what rewriting under all settings does. -/
theorem spelled_stages (set : ActivationSet) (resolves : unit.resolves table) :
    let combined := unit.rewrite set table
    let navigated := unit.rewrite (set.only .navigation) table
    let wrapped := navigated.unit.rewrite (set.only .arrays) navigated.table
    let guarded := wrapped.unit.rewrite (set.only .guards) wrapped.table
    guarded.unit.resolves guarded.table ∧
      guarded.unit.spelled guarded.table.display =
        combined.unit.spelled combined.table.display := by
  intro combined navigated wrapped guarded
  have resolvesFirst : navigated.unit.resolves navigated.table := resolves_rewrite _ resolves
  have resolvesSecond : wrapped.unit.resolves wrapped.table := resolves_rewrite _ resolvesFirst
  -- Both units come to the same plan, in which a symbol stands for its text.
  have planned := (rewrite_planned resolves (.refl combined.table)
    (.ofDisplay combined.table .ofText)).2
  obtain ⟨resolvesLast, staged⟩ := rewrite_stages resolves
    (.ofDisplay guarded.table .ofText) (.refl guarded.table)
  have growsCombined : table.Grows combined.table := grows_rewrite _ resolves
  have growsLast : table.Grows guarded.table :=
    ((grows_rewrite _ resolves).trans (grows_rewrite _ resolvesFirst)).trans
      (grows_rewrite _ resolvesSecond)
  obtain ⟨sameUnit, samePlan⟩ := planned_congr set .ofText (.refl table) resolves
    fun symbol known => congrArg Symbol.ofText
      ((growsLast.display_eq known).trans (growsCombined.display_eq known).symm)
  refine ⟨resolvesLast, ?_⟩
  unfold spelled
  rw [planned, staged, sameUnit, samePlan]

end SourceUnit

/-- **Three rewritings for one feature each are one for all.** Under all settings a unit
whose symbols the table knows fails as it does under those for navigation alone, with the
same problems. If it succeeds, so does rewriting it for navigation, the result for arrays,
and that result for guards, each with the table that the one before left behind. The counts
add up, and resolved to text the last unit is the one that rewriting under all settings
gives. -/
theorem rewrite_in_stages
    (set : ActivationSet)
    (unit : SourceUnit)
    (table : SymbolTable)
    (resolves : unit.resolves table) :
    let combined := unit.rewrite set table
    let navigated := unit.rewrite (set.only .navigation) table
    let wrapped := navigated.unit.rewrite (set.only .arrays) navigated.table
    let guarded := wrapped.unit.rewrite (set.only .guards) wrapped.table
    (∀ problems, combined.result = .error problems ↔ navigated.result = .error problems) ∧
      ∀ counts, combined.result = .ok counts →
        ∃ navigations arrays guards,
          navigated.result = .ok navigations ∧
          wrapped.result = .ok arrays ∧
          guarded.result = .ok guards ∧
          counts = navigations + arrays + guards ∧
          combined.unit.resolves combined.table ∧
          guarded.unit.resolves guarded.table ∧
          guarded.unit.spelled guarded.table.display =
            combined.unit.spelled combined.table.display := by
  intro combined navigated wrapped guarded
  have result : combined.result = _ := SourceUnit.rewrite_result resolves
  have first : navigated.result = _ := SourceUnit.rewrite_result resolves
  rw [SourceUnit.problems_only_navigation] at first
  refine ⟨fun problems => ?_, fun counts succeeded => ?_⟩
  · rw [result, first]
    split
    · exact iff_of_false nofun nofun
    · exact Iff.rfl
  have clean : unit.problems set table = [] := by
    by_contra some
    rw [result, if_neg some] at succeeded
    cases succeeded
  rw [if_pos clean] at result
  obtain rfl : unit.counts set table = counts := Except.ok.inj (result.symm.trans succeeded)
  obtain ⟨navigations, arrays, guards⟩ := SourceUnit.results_of_stages resolves clean
  obtain ⟨resolvesLast, sameText⟩ := SourceUnit.spelled_stages set resolves
  exact ⟨_, _, _, navigations, arrays, guards, unit.counts_only set table,
    SourceUnit.resolves_rewrite set resolves, resolvesLast, sameText⟩

theorem rewrite_in_stages_of_greet :
    let set : ActivationSet := .allInPackage "app"
    let navigated := Outcome.sampleUnit.rewrite (set.only .navigation) Outcome.sampleTable
    let wrapped := navigated.unit.rewrite (set.only .arrays) navigated.table
    let guarded := wrapped.unit.rewrite (set.only .guards) wrapped.table
    ∃ navigations arrays guards : Counts,
      navigated.result = .ok navigations ∧
        wrapped.result = .ok arrays ∧
        guarded.result = .ok guards ∧
        navigations + arrays + guards = ⟨2, 1, 1, 1⟩ := by
  intro set navigated wrapped guarded
  have succeeded : (Outcome.sampleUnit.rewrite set Outcome.sampleTable).result =
      .ok ⟨2, 1, 1, 1⟩ :=
    (SourceUnit.rewrite_result (by decide)).trans rfl
  obtain ⟨navigations, arrays, guards, first, second, third, sum, -⟩ :=
    (rewrite_in_stages set Outcome.sampleUnit Outcome.sampleTable
      (by decide)).2 _ succeeded
  exact ⟨navigations, arrays, guards, first, second, third, sum.symm⟩

end NilSafety
