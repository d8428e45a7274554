import NilSafety.Proofs.Rewriting.Images
import NilSafety.Proofs.Rewriting.Plan

/-!
Contract: where the temporaries of a plan occur.

Owns:
- the expansions that a planned walk puts into a tree, one for each marked access where
  navigation is on, and their forms;
- how often a symbol occurs in the tree that a planned walk leaves behind.

Does not own: which symbols a plan uses.
-/

namespace NilSafety

/-! ### How often symbols occur -/

namespace Plan

variable (plan : Plan)

/-- The symbols of the temporaries from one position on. -/
def temporaries (first count : Nat) : List Symbol :=
  (List.range' first count).map plan.temporary

theorem temporaries_append (first count further : Nat) :
    plan.temporaries first count ++ plan.temporaries (first + count) further =
      plan.temporaries first (count + further) := by
  unfold temporaries
  rw [← List.map_append, List.range'_append_1]

/-- How often a symbol is among the first temporaries. -/
def uses (symbol : Symbol) (issued : Nat) : Nat :=
  (plan.temporaries 0 issued).count symbol

theorem uses_succ (symbol : Symbol) (issued : Nat) :
    plan.uses symbol (issued + 1) =
      plan.uses symbol issued + [plan.temporary issued].count symbol := by
  unfold uses
  rw [← plan.temporaries_append, List.count_append, Nat.zero_add]
  rfl

theorem count_node
    {symbol : Symbol}
    (notInterned : ∀ text ∈ Expr.checkedArrayPath, plan.entry text ≠ symbol)
    (features : FeatureSet)
    (expr : Expr)
    (issued : Nat) :
    (plan.node features expr issued).1.symbols.count symbol + 3 * plan.uses symbol issued =
      expr.symbols.count symbol + 3 * plan.uses symbol (plan.node features expr issued).2 := by
  unfold node
  split
  next marked =>
    split
    next on =>
      have counted := (Expr.symbols_expandAccess (plan.temporary issued) marked).count_eq symbol
      have thrice : [plan.temporary issued, plan.temporary issued, plan.temporary issued].count
          symbol = 3 * [plan.temporary issued].count symbol := by
        rw [List.count_cons, List.count_cons]
        by_cases same : plan.temporary issued = symbol <;> simp [same]
      rw [List.count_append, thrice] at counted
      dsimp only
      rw [uses_succ]
      omega
    next off => rfl
  next unmarked =>
    split
    next wraps =>
      have none : (Expr.checkedArrayPath.map plan.entry).count symbol = 0 := by
        rw [List.count_eq_zero, List.mem_map]
        rintro ⟨text, isSegment, same⟩
        exact notInterned text isSegment same
      dsimp only
      rw [Expr.symbols_wrappedBy _ (Bool.and_eq_true_iff.mp wraps).2, List.count_append, none,
        Nat.zero_add]
    next plain => rfl

/-- A walk adds three occurrences of every temporary that it uses, and no other
occurrence of what it does not intern. -/
theorem count_mapUp
    {symbol : Symbol}
    (notInterned : ∀ text ∈ Expr.checkedArrayPath, plan.entry text ≠ symbol)
    (features : FeatureSet)
    (expr : Expr)
    (issued : Nat) :
    (expr.mapUp (plan.node features) issued).1.symbols.count symbol +
        3 * plan.uses symbol issued =
      expr.symbols.count symbol +
        3 * plan.uses symbol (expr.mapUp (plan.node features) issued).2 := by
  have balanced := Expr.mapUp_balances (fun expr => expr.symbols.count symbol)
    (fun expr => expr.localSymbols.count symbol) (fun issued => 3 * plan.uses symbol issued)
    (fun _ => 0)
    (fun expr exprs fits => by
      rw [Expr.symbols_refill expr fits, List.count_append, List.count_flatMap]
      rfl)
    (plan.count_node notInterned features) expr issued
  exact balanced

/-- Nothing that rewriting puts in front of a body, or around a literal, is the
symbol. -/
structure Spares (symbol : Symbol) (task : Task) : Prop where
  literals : ∀ text ∈ Expr.checkedArrayPath, plan.entry text ≠ symbol
  module : (plan.guardSymbols task.path).module ≠ symbol
  entry : (plan.guardSymbols task.path).entry ≠ symbol
  function : (plan.guardSymbols task.path).function ≠ symbol
  params : ∀ param ∈ task.guarded, param.name ≠ symbol

theorem count_task
    {symbol : Symbol}
    {task : Task}
    (spares : plan.Spares symbol task)
    (issued : Nat) :
    (plan.task task issued).1.symbols.count symbol + 3 * plan.uses symbol issued =
      task.body.symbols.count symbol + 3 * plan.uses symbol (plan.task task issued).2 := by
  have walked := plan.count_mapUp spares.literals task.features task.body issued
  have guarded : ∀ body : Expr,
      (plan.guardBody task.path task.guarded body).symbols.count symbol =
        body.symbols.count symbol := by
    intro body
    unfold guardBody
    split
    · rfl
    · have none : ((task.guarded.map (plan.guardSymbols task.path).check).flatMap
          Stmt.symbols).count symbol = 0 := by
        rw [List.count_eq_zero, List.flatMap_map]
        intro member
        obtain ⟨param, isGuarded, inCheck⟩ := List.mem_flatMap.mp member
        rw [Rewrite.symbols_check] at inCheck
        simp only [List.mem_cons, List.not_mem_nil, or_false] at inCheck
        rcases inCheck with isParam | isModule | isEntry | isParam | isFunction
        · exact spares.params param isGuarded isParam.symm
        · exact spares.module isModule.symm
        · exact spares.entry isEntry.symm
        · exact spares.params param isGuarded isParam.symm
        · exact spares.function isFunction.symm
      rw [(Expr.symbols_precededBy _ body).count_eq, List.count_append, none, Nat.zero_add]
  unfold Plan.task
  dsimp only
  rw [guarded]
  exact walked

theorem count_tasks
    {symbol : Symbol}
    {tasks : List Task}
    (spares : ∀ task ∈ tasks, plan.Spares symbol task)
    (issued : Nat) :
    ((tasks.mapM plan.task issued).1.flatMap Expr.symbols).count symbol +
        3 * plan.uses symbol issued =
      (tasks.flatMap fun task => task.body.symbols).count symbol +
        3 * plan.uses symbol (tasks.mapM plan.task issued).2 := by
  induction tasks generalizing issued with
  | nil => rfl
  | cons task rest inductionHypothesis =>
      have first := plan.count_task (spares task List.mem_cons_self) issued
      have others := inductionHypothesis
        (fun other member => spares other (List.mem_cons_of_mem task member))
        (plan.task task issued).2
      rw [mapM_cons_apply]
      dsimp only
      rw [List.flatMap_cons, List.flatMap_cons, List.count_append, List.count_append]
      omega

end Plan

/-! ### Expansions in a tree -/

/-- A marked access of the source, the temporary chosen for it, and the block that stands
for it in the rewritten tree. -/
structure Expansion where
  marker : Expr
  temp : Symbol
  block : Expr

/-- The block of the expansion binds the temporary to a receiver, compares it with nil, and
accesses on it the member that the marked access names. Only statements that bind nothing
stand in front. -/
def Expansion.IsFormed (expansion : Expansion) : Prop :=
  ∃ (access access' : MemberAccess) (receiver receiver' : Expr) (span : Span) (front : List Stmt),
    (∀ stmt ∈ front, stmt.boundName? = none) ∧
      access'.name = access.name ∧
      expansion.marker = access.on receiver true span ∧
      expansion.block = Expr.precededBy front
        (.nilChecked expansion.temp receiver'
          (access'.on (.ident expansion.temp span) false span) span)

/-- A formed block binds its temporary and nothing else. -/
theorem Expansion.IsFormed.boundNames
    {expansion : Expansion}
    (formed : expansion.IsFormed) :
    expansion.block.statements.filterMap Stmt.boundName? = [expansion.temp] := by
  obtain ⟨access, access', receiver, receiver', span, front, bindsNothing, -, -, isBlock⟩ := formed
  rw [isBlock]
  unfold Expr.nilChecked Expr.precededBy Expr.statements
  rw [List.filterMap_append, List.filterMap_eq_nil_iff.mpr bindsNothing]
  rfl

/-- The expansion of a marked access whose receiver and arguments were rewritten is formed,
also behind statements that bind nothing. -/
theorem Expansion.isFormed_expandAccess
    {marker : Expr}
    (marked : marker.isMarkedAccess)
    {exprs : List Expr}
    (fits : exprs.length = marker.children.length)
    (temp : Symbol)
    {front : List Stmt}
    (bindsNothing : ∀ stmt ∈ front, stmt.boundName? = none) :
    (Expansion.mk marker temp
      (((marker.refill exprs).expandAccess temp).precededBy front)).IsFormed := by
  cases marker with
  | field object name isMarked span =>
      obtain rfl : isMarked = true := marked
      obtain ⟨object', rfl⟩ := List.length_eq_one_iff.mp fits
      exact ⟨.field name, .field name, object, object', span, front, bindsNothing, rfl, rfl, rfl⟩
  | method receiver name args isMarked span =>
      obtain rfl : isMarked = true := marked
      obtain _ | ⟨receiver', values⟩ := exprs
      · cases fits
      · exact ⟨.method name args, .method name (args.zipWith Arg.withValue values), receiver,
          receiver', span, front, bindsNothing, rfl, rfl, rfl⟩
  | _ => cases marked

namespace Plan

variable (plan : Plan)

theorem node_of_marked
    {features : FeatureSet}
    (on : features.navigation)
    {expr : Expr}
    (marked : expr.isMarkedAccess)
    (issued : Nat) :
    plan.node features expr issued =
      (expr.expandAccess (plan.temporary issued), issued + 1) := by
  unfold node
  rw [if_pos marked, if_pos on]

/-- Rewriting a node keeps what became of its children. -/
theorem postOrder_subset_node (features : FeatureSet) (expr : Expr) (issued : Nat) :
    expr.children.flatMap Expr.postOrder ⊆ (plan.node features expr issued).1.postOrder := by
  have within : expr.children.flatMap Expr.postOrder ⊆ expr.postOrder := by
    rw [expr.postOrder_eq]
    exact List.subset_append_left _ _
  unfold node
  split
  next marked =>
    split
    · exact Expr.postOrder_subset_expandAccess _ marked
    · exact within
  next =>
    split
    next wraps =>
      exact List.Subset.trans within
        (Expr.postOrder_subset_wrappedBy _ (Bool.and_eq_true_iff.mp wraps).2)
    next => exact within

/-- Among the nodes there is an expansion for each of the marked accesses, under temporaries
in their order from one position on. -/
def Expands (markers : List Expr) (issued : Nat) (nodes : List Expr) : Prop :=
  ∀ marker ∈ markers.zipIdx issued,
    ∃ exprs : List Expr, exprs.length = marker.1.children.length ∧
      (marker.1.refill exprs).expandAccess (plan.temporary marker.2) ∈ nodes

variable {plan} in
theorem Expands.append
    {markers others : List Expr}
    {issued : Nat}
    {nodes nodes' : List Expr}
    (first : plan.Expands markers issued nodes)
    (second : plan.Expands others (issued + markers.length) nodes') :
    plan.Expands (markers ++ others) issued (nodes ++ nodes') := by
  intro marker isMarker
  rw [List.zipIdx_append, List.mem_append] at isMarker
  rcases isMarker with inFirst | inSecond
  · obtain ⟨exprs, fits, isNode⟩ := first marker inFirst
    exact ⟨exprs, fits, List.mem_append_left _ isNode⟩
  · obtain ⟨exprs, fits, isNode⟩ := second marker inSecond
    exact ⟨exprs, fits, List.mem_append_right _ isNode⟩

variable {plan} in
theorem Expands.mono
    {markers : List Expr}
    {issued : Nat}
    {nodes nodes' : List Expr}
    (expands : plan.Expands markers issued nodes)
    (within : nodes ⊆ nodes') :
    plan.Expands markers issued nodes' := by
  intro marker isMarker
  obtain ⟨exprs, fits, isNode⟩ := expands marker isMarker
  exact ⟨exprs, fits, within isNode⟩

/-- A walk with navigation leaves an expansion behind for every marked access, under the
temporary with the position of the access. -/
theorem expands_mapUp
    {features : FeatureSet}
    (on : features.navigation)
    (expr : Expr)
    (issued : Nat) :
    plan.Expands expr.markers issued (expr.mapUp (plan.node features) issued).1.postOrder := by
  refine (Expr.mapUp_induction
    (fun expr issued result last => last = issued + expr.markers.length ∧
      plan.Expands expr.markers issued result.postOrder)
    (fun exprs issued results last => last = issued + (exprs.flatMap Expr.markers).length ∧
      plan.Expands (exprs.flatMap Expr.markers) issued (results.flatMap Expr.postOrder))
    (fun _ => ⟨rfl, nofun⟩) ?_ ?_ expr issued).2
  · rintro first rest issued result _ results _ ⟨rfl, ofFirst⟩ ⟨rfl, ofRest⟩
    rw [List.flatMap_cons, List.flatMap_cons, List.length_append]
    exact ⟨Nat.add_assoc _ _ _, ofFirst.append ofRest⟩
  · rintro expr issued results _ fits ⟨rfl, ofChildren⟩
    have kept := plan.postOrder_subset_node features (expr.refill results)
      (issued + (expr.children.flatMap Expr.markers).length)
    rw [Expr.children_refill expr fits] at kept
    rw [issued_node, Expr.isMarkedAccess_refill, on, Bool.and_true, Expr.markers_eq]
    cases marked : expr.isMarkedAccess with
    | false =>
        simp only [Bool.false_eq_true, ↓reduceIte, List.append_nil]
        exact ⟨trivial, ofChildren.mono kept⟩
    | true =>
        refine ⟨by rw [List.length_append]; rfl, ?_⟩
        have isExpansion := plan.node_of_marked on
          ((expr.isMarkedAccess_refill results).trans marked)
          (issued + (expr.children.flatMap Expr.markers).length)
        have self : plan.Expands [expr] (issued + (expr.children.flatMap Expr.markers).length)
            (plan.node features (expr.refill results)
              (issued + (expr.children.flatMap Expr.markers).length)).1.postOrder := by
          intro marker isMarker
          rw [List.zipIdx_singleton, List.mem_singleton] at isMarker
          rw [isMarker, isExpansion]
          exact ⟨results, fits, Expr.self_mem_postOrder _⟩
        refine (ofChildren.append self).mono ?_
        exact List.append_subset.mpr ⟨kept, List.Subset.refl _⟩

/-- An expansion that is in a body is in the guarded body, perhaps behind the guards. -/
theorem exists_front_of_mem
    (path : Path)
    (guarded : List Param)
    {temp : Symbol}
    {marker body : Expr}
    (marked : marker.isMarkedAccess)
    (inside : marker.expandAccess temp ∈ body.postOrder) :
    ∃ front : List Stmt, (∀ stmt ∈ front, stmt.boundName? = none) ∧
      (marker.expandAccess temp).precededBy front ∈
        (plan.guardBody path guarded body).postOrder := by
  have behindNothing : (marker.expandAccess temp).precededBy [] = marker.expandAccess temp := by
    obtain ⟨access, receiver, span, rfl⟩ := MemberAccess.exists_of_isMarkedAccess marked
    rw [MemberAccess.expandAccess_on]
    rfl
  unfold guardBody
  split
  · exact ⟨[], nofun, by rwa [behindNothing]⟩
  · rcases Expr.mem_postOrder_precededBy (guarded.map (plan.guardSymbols path).check) inside with
      isNode | isBody
    · exact ⟨[], nofun, by rwa [behindNothing]⟩
    · refine ⟨guarded.map (plan.guardSymbols path).check, ?_, ?_⟩
      · intro stmt isCheck
        obtain ⟨param, -, rfl⟩ := List.mem_map.mp isCheck
        rfl
      · rw [isBody]
        exact Expr.self_mem_postOrder _

/-- Performing a task leaves an expansion behind for each of its marked accesses where
navigation is on. -/
theorem exists_expansions_of_task (task : Task) (issued : Nat) :
    ∃ expansions : List Expansion,
      expansions.map Expansion.marker =
          (if task.features.navigation then task.body.markers else []) ∧
        expansions.map Expansion.temp = plan.temporaries issued task.expansions ∧
        ∀ expansion ∈ expansions, expansion.IsFormed ∧
          expansion.block ∈ (plan.task task issued).1.postOrder := by
  by_cases on : task.features.navigation
  · have each : ∀ marker : Expr × Nat, ∃ block, marker ∈ task.body.markers.zipIdx issued →
        (Expansion.mk marker.1 (plan.temporary marker.2) block).IsFormed ∧
          block ∈ (plan.task task issued).1.postOrder := by
      intro marker
      by_cases isMarker : marker ∈ task.body.markers.zipIdx issued
      · obtain ⟨exprs, fits, isNode⟩ := plan.expands_mapUp on task.body issued marker isMarker
        have isListed : marker.1 ∈ task.body.markers := by
          rw [← List.zipIdx_map_fst issued task.body.markers]
          exact List.mem_map_of_mem isMarker
        have marked := List.of_mem_filter isListed
        obtain ⟨front, bindsNothing, isBlock⟩ := plan.exists_front_of_mem task.path
          task.guarded (by rwa [Expr.isMarkedAccess_refill]) isNode
        refine ⟨_, fun _ => ⟨?_, isBlock⟩⟩
        exact Expansion.isFormed_expandAccess marked fits _ bindsNothing
      · exact ⟨marker.1, fun isOther => absurd isOther isMarker⟩
    choose block formed using each
    refine ⟨(task.body.markers.zipIdx issued).map fun marker =>
      ⟨marker.1, plan.temporary marker.2, block marker⟩, ?_, ?_, ?_⟩
    · rw [if_pos on, List.map_map]
      exact List.zipIdx_map_fst issued task.body.markers
    · rw [List.map_map, Task.expansions, if_pos on, temporaries, ← List.zipIdx_map_snd issued,
        List.map_map]
      rfl
    · intro expansion isExpansion
      obtain ⟨marker, isMarker, rfl⟩ := List.mem_map.mp isExpansion
      exact formed marker isMarker
  · refine ⟨[], (if_neg on).symm, ?_, nofun⟩
    rw [Task.expansions, if_neg on]
    rfl

/-- Performing tasks leaves an expansion behind for each of their marked accesses where
navigation is on, each under a temporary of its own. -/
theorem exists_expansions_of_tasks (tasks : List Task) (issued : Nat) :
    ∃ expansions : List Expansion,
      expansions.map Expansion.marker =
          (tasks.flatMap fun task => if task.features.navigation then task.body.markers else []) ∧
        expansions.map Expansion.temp =
          plan.temporaries issued (tasks.map Task.expansions).sum ∧
        ∀ expansion ∈ expansions, expansion.IsFormed ∧
          expansion.block ∈ (tasks.mapM plan.task issued).1.flatMap Expr.postOrder := by
  induction tasks generalizing issued with
  | nil => exact ⟨[], rfl, rfl, nofun⟩
  | cons task rest inductionHypothesis =>
      obtain ⟨ofFirst, firstMarkers, firstTemps, firstFormed⟩ :=
        plan.exists_expansions_of_task task issued
      obtain ⟨ofRest, markers, temps, formed⟩ :=
        inductionHypothesis (plan.task task issued).2
      rw [mapM_cons_apply, List.flatMap_cons, List.map_cons, List.sum_cons, List.flatMap_cons]
      refine ⟨ofFirst ++ ofRest, ?_, ?_, ?_⟩
      · rw [List.map_append, firstMarkers, markers]
      · rw [List.map_append, firstTemps, temps, plan.issued_task, temporaries_append]
      · intro expansion isExpansion
        rcases List.mem_append.mp isExpansion with inFirst | inRest
        · obtain ⟨isFormed, isNode⟩ := firstFormed expansion inFirst
          exact ⟨isFormed, List.mem_append_left _ isNode⟩
        · obtain ⟨isFormed, isNode⟩ := formed expansion inRest
          exact ⟨isFormed, List.mem_append_right _ isNode⟩

end Plan

end NilSafety
