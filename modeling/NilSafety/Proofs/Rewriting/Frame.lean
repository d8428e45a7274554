import NilSafety.Proofs.Rewriting.Untouched
import NilSafety.Proofs.Tree.Spans

/-!
Contract: what rewriting keeps of a unit.

Owns:
- declarations over other expressions, related to the original ones task by task;
- the regions in the forms that rewriting builds, each that of the access, the literal or
  the parameter that the form is for;
- that a rewritten unit differs from the original one in bodies and values alone, and these
  have no region from elsewhere;
- that a unit is unchanged, and the table with it, exactly if nothing is counted.

Does not own: what becomes of bodies and values apart from their regions.
-/

namespace NilSafety

/-! ### Declarations task by task -/

/-- `f'` is the function of one of the members over another body, which stands in the
relation to the member's task. -/
def Member.Performed
    (relation : Task → Expr → Prop)
    (set : ActivationSet)
    (table : SymbolTable)
    (members : List Member)
    (f f' : Function) :
    Prop :=
  ∃ member ∈ members, member.function = f ∧
    ∃ body, relation (member.task set table) body ∧ f' = f.withBody body

/-- The second value stands in the relation to the task for the first one. -/
def Placement.Performed
    (relation : Task → Expr → Prop)
    (set : ActivationSet)
    (value value' : Expr) :
    Prop :=
  ∃ place : Placement, relation (place.valueTask set value) value'

section

variable {relation : Task → Expr → Prop} {set : ActivationSet} {table : SymbolTable}

theorem Member.forall₂_performed
    {place : Function → Member}
    (isFunction : ∀ f, (place f).function = f)
    {members : List Member}
    {methods : List Function}
    {exprs : List Expr}
    (among : ∀ f ∈ methods, place f ∈ members)
    (each : List.Forall₂ relation (methods.map fun f => (place f).task set table) exprs) :
    List.Forall₂ (Member.Performed relation set table members) methods
      (methods.zipWith Function.withBody exprs) := by
  induction methods generalizing exprs with
  | nil => exact .nil
  | cons f rest inductionHypothesis =>
      obtain _ | ⟨body, others⟩ := exprs
      · cases each
      · obtain ⟨first, ofRest⟩ := List.forall₂_cons.mp each
        rw [List.zipWith_cons_cons]
        exact .cons ⟨place f, among f List.mem_cons_self, isFunction f, body, first, rfl⟩
          (inductionHypothesis
            (fun other member => among other (List.mem_cons_of_mem f member)) ofRest)

/-- What holds of the tasks of a declaration and of other expressions relates the declaration
to itself over these. -/
theorem Decl.related_withBodies
    (package : Path)
    {decl : Decl}
    {exprs : List Expr}
    (each : List.Forall₂ relation (decl.tasks set table package) exprs) :
    decl.Related (Member.Performed relation set table (decl.members table package))
      (Placement.Performed relation set) (decl.withBodies exprs) := by
  cases decl with
  | function f =>
      obtain ⟨body, rfl⟩ := List.length_eq_one_iff.mp each.length_eq.symm
      have first := (List.forall₂_cons.mp each).1
      exact ⟨f.withBody body, ⟨_, List.mem_cons_self, rfl, body, first, rfl⟩, rfl⟩
  | record name fields methods visibility span =>
      rw [Decl.tasks, Decl.members, List.map_map] at each
      · exact ⟨_, Member.forall₂_performed (fun _ => rfl)
          (fun f isMethod => List.mem_map_of_mem isMethod) each, rfl⟩
      · intro _ _ _ _ _ same
        cases same
  | extension name methods span =>
      rw [Decl.tasks, Decl.members, List.map_map] at each
      · exact ⟨_, Member.forall₂_performed (fun _ => rfl)
          (fun f isMethod => List.mem_map_of_mem isMethod) each, rfl⟩
      · intro _ _ _ _ _ same
        cases same
  | constant name note value visibility span =>
      obtain ⟨value', rfl⟩ := List.length_eq_one_iff.mp each.length_eq.symm
      exact ⟨value', ⟨_, (List.forall₂_cons.mp each).1⟩, rfl⟩

/-- What holds of the tasks of a unit and of other expressions relates the declarations of the
unit to those over these. -/
theorem SourceUnit.related_withBodies
    (unit : SourceUnit)
    {exprs : List Expr}
    (each : List.Forall₂ relation (unit.tasks set table) exprs) :
    List.Forall₂
      (Decl.Related (Member.Performed relation set table (unit.members table))
        (Placement.Performed relation set))
      unit.decls (unit.withBodies exprs).decls := by
  obtain ⟨package, decls⟩ := unit
  unfold withBodies members
  unfold tasks at each
  dsimp only at each ⊢
  induction decls generalizing exprs with
  | nil => exact .nil
  | cons decl rest inductionHypothesis =>
      rw [List.flatMap_cons] at each
      have room : (decl.tasks set table package).length = decl.bodies.length := by
        rw [← Decl.map_body_tasks set table package, List.length_map]
      obtain ⟨first, ofRest⟩ := forall₂_split each
      rw [room] at first ofRest
      rw [refillEach]
      refine .cons ((Decl.related_withBodies package first).mono ?_)
        ((inductionHypothesis ofRest).imp fun _ _ holds => holds.mono ?_)
      · rintro f f' ⟨member, inDecl, holds⟩
        exact ⟨member, List.mem_append_left _ inDecl, holds⟩
      · rintro f f' ⟨member, inRest, holds⟩
        exact ⟨member, List.mem_append_right _ inRest, holds⟩

end

/-! ### Regions of forms -/

namespace Expr

theorem mem_spans_nilChecked
    {temp : Symbol}
    {receiver access : Expr}
    {span item : Span} :
    item ∈ (nilChecked temp receiver access span).spans ↔
      item = span ∨ item ∈ receiver.spans ∨ item ∈ access.spans := by
  have ofName : (ident temp span).localSpans = [span] := rfl
  have ofNil : (nil span).localSpans = [span] := rfl
  have ofBinary : (binary (ident temp span) .equal (nil span) span).localSpans = [span] := rfl
  have ofBraces : ∀ inner : Expr, (inBraces inner span).localSpans = [span] := fun _ => rfl
  have ofCond : ∀ condition thenBranch elseBranch,
      (cond condition thenBranch elseBranch span).localSpans = [span] := fun _ _ _ => rfl
  have ofBlock : (nilChecked temp receiver access span).localSpans = [span, span] := rfl
  rw [mem_spans, mem_spans, mem_spans, postOrder_nilChecked]
  simp only [List.mem_append, List.mem_cons, List.not_mem_nil, or_false, or_and_right, exists_or,
    exists_eq_left, ofName, ofNil, ofBinary, ofBraces, ofCond, ofBlock]
  grind

/-- Every region in an expansion is one of the access. -/
theorem spans_expandAccess
    (temp : Symbol)
    {expr : Expr}
    (marked : expr.isMarkedAccess) :
    (expr.expandAccess temp).spans ⊆ expr.spans := by
  intro item
  cases expr with
  | field object name isMarked span =>
      obtain rfl : isMarked = true := marked
      have original : (field object name true span).spans = span :: object.spans := by
        rw [spans_eq, children, List.flatMap_singleton]
        rfl
      have access : (field (ident temp span) name false span).spans = [span, span] := rfl
      rw [expandAccess, mem_spans_nilChecked, original, access]
      grind
  | method receiver name args isMarked span =>
      obtain rfl : isMarked = true := marked
      have spans : ∀ (receiver : Expr) (marked : Bool),
          (method receiver name args marked span).spans =
            span :: (receiver.spans ++ (args.map Arg.value).flatMap Expr.spans) := by
        intro receiver marked
        rw [spans_eq, children, List.flatMap_cons]
        rfl
      have ofTemp : (ident temp span).spans = [span] := rfl
      rw [expandAccess, mem_spans_nilChecked, spans, spans, ofTemp]
      grind
  | _ => cases marked

theorem span_expandAccess (temp : Symbol) (expr : Expr) :
    (expr.expandAccess temp).span = expr.span := by
  unfold expandAccess
  split <;> rfl

theorem spans_wrappedBy (segments : List Symbol) (expr : Expr) :
    (expr.wrappedBy segments).spans ⊆ expr.spans := by
  cases expr with
  | array elements span =>
      have wrapped : ((array elements span).wrappedBy segments).spans =
          [span] ++ ([span] ++ ((array elements span).spans ++ [])) := rfl
      have own := span_mem_spans (array elements span)
      rw [wrapped, List.append_nil]
      intro item
      simp only [List.mem_append, List.mem_singleton]
      rintro (rfl | rfl | inside)
      · exact own
      · exact own
      · exact inside
  | _ => exact List.Subset.refl _

theorem span_wrappedBy (segments : List Symbol) (expr : Expr) :
    (expr.wrappedBy segments).span = expr.span := by
  cases expr <;> rfl

/-- Every region in a body with statements in front is one of its own or of the statements. -/
theorem mem_spans_precededBy
    {stmts : List Stmt}
    {expr : Expr}
    {item : Span}
    (inside : item ∈ (expr.precededBy stmts).spans) :
    item ∈ expr.spans ∨ ∃ stmt ∈ stmts, item ∈ stmt.spans := by
  have wrapped : item ∈ (block stmts (some expr) expr.span).spans →
      item ∈ expr.spans ∨ ∃ stmt ∈ stmts, item ∈ stmt.spans := by
    rw [mem_spans_block]
    rintro (rfl | inStmts | ⟨inner, isTail, inTail⟩)
    · exact .inl expr.span_mem_spans
    · exact .inr inStmts
    · rw [Option.mem_some_iff] at isTail
      exact .inl (isTail ▸ inTail)
  cases expr with
  | block body tail span =>
      rw [precededBy, mem_spans_block] at inside
      rw [mem_spans_block]
      rcases inside with rfl | ⟨stmt, isStmt, inStmt⟩ | inTail
      · exact .inl (.inl rfl)
      · rcases List.mem_append.mp isStmt with isNew | isOld
        · exact .inr ⟨stmt, isNew, inStmt⟩
        · exact .inl (.inr (.inl ⟨stmt, isOld, inStmt⟩))
      · exact .inl (.inr (.inr inTail))
  | _ => exact wrapped inside

theorem span_precededBy (stmts : List Stmt) (expr : Expr) :
    (expr.precededBy stmts).span = expr.span := by
  cases expr <;> rfl

end Expr

/-- Every region in a guard is that of the parameter. -/
theorem GuardSymbols.eq_of_mem_spans_check
    {symbols : GuardSymbols}
    {param : Param}
    {item : Span}
    (inside : item ∈ (symbols.check param).spans) :
    item = param.span := by
  have all : (symbols.check param).spans = List.replicate 11 param.span := rfl
  rw [all] at inside
  exact List.eq_of_mem_replicate inside

/-! ### Planned walks -/

/-- The second expression has the region of the first one, and none from elsewhere. -/
def Expr.SameFrame (expr expr' : Expr) : Prop :=
  expr'.span = expr.span ∧ expr'.spans ⊆ expr.spans

/-- What a task makes of its expression has the region of the expression, and none but those in
the expression and those of the parameters that it guards. -/
def Task.SameFrame (task : Task) (result : Expr) : Prop :=
  result.span = task.body.span ∧
    ∀ item ∈ result.spans, item ∈ task.body.spans ∨ item ∈ task.guarded.map Param.span

namespace Plan

variable (plan : Plan)

theorem sameFrame_node (features : FeatureSet) (expr : Expr) (issued : Nat) :
    expr.SameFrame (plan.node features expr issued).1 := by
  unfold node
  split
  next marked =>
    split
    next on => exact ⟨expr.span_expandAccess _, expr.spans_expandAccess _ marked⟩
    next off => exact ⟨rfl, List.Subset.refl _⟩
  next unmarked =>
    split
    next wraps => exact ⟨expr.span_wrappedBy _, expr.spans_wrappedBy _⟩
    next plain => exact ⟨rfl, List.Subset.refl _⟩

theorem sameFrame_mapUp (features : FeatureSet) (expr : Expr) (issued : Nat) :
    expr.SameFrame (expr.mapUp (plan.node features) issued).1 := by
  refine Expr.mapUp_induction (fun expr _ result _ => expr.SameFrame result)
    (fun exprs _ results _ => results.flatMap Expr.spans ⊆ exprs.flatMap Expr.spans)
    (fun _ => List.Subset.refl _) ?_ ?_ expr issued
  · intro first rest _ result _ results _ ofFirst ofRest
    rw [List.flatMap_cons, List.flatMap_cons]
    exact List.append_subset.mpr ⟨List.subset_append_of_subset_left _ ofFirst.2,
      List.subset_append_of_subset_right _ ofRest⟩
  · intro expr _ results issued fits ofChildren
    obtain ⟨span, spans⟩ := plan.sameFrame_node features (expr.refill results) issued
    refine ⟨span.trans (expr.span_refill results), List.Subset.trans spans ?_⟩
    rw [expr.spans_refill fits, expr.spans_eq]
    exact List.append_subset.mpr ⟨List.subset_append_left _ _,
      List.subset_append_of_subset_right _ ofChildren⟩

theorem sameFrame_task (task : Task) (issued : Nat) :
    task.SameFrame (plan.task task issued).1 := by
  obtain ⟨span, spans⟩ := plan.sameFrame_mapUp task.features task.body issued
  unfold Plan.task guardBody
  dsimp only
  split
  next none => exact ⟨span, fun item inside => .inl (spans inside)⟩
  next some =>
    refine ⟨(Expr.span_precededBy _ _).trans span, fun item inside => ?_⟩
    rcases Expr.mem_spans_precededBy inside with inBody | ⟨check, isCheck, inCheck⟩
    · exact .inl (spans inBody)
    · obtain ⟨param, isGuarded, rfl⟩ := List.mem_map.mp isCheck
      rw [GuardSymbols.eq_of_mem_spans_check inCheck]
      exact .inr (List.mem_map_of_mem isGuarded)

end Plan

/-! ### Units -/

/-- `f'` is `f` but for its body, which has the region of the body of `f`; no region in `f'`
is from elsewhere. -/
structure Function.SameFrame (f f' : Function) : Prop where
  head : f' = f.withBody f'.body
  root : f'.body.span = f.body.span
  spans : f'.spans ⊆ f.spans

theorem Member.sameFrame
    {set : ActivationSet}
    {table : SymbolTable}
    {members : List Member}
    {f f' : Function}
    (performed : Member.Performed Task.SameFrame set table members f f') :
    f.SameFrame f' := by
  obtain ⟨member, -, rfl, body, ⟨root, spans⟩, rfl⟩ := performed
  refine ⟨rfl, root, fun item inside => ?_⟩
  rcases List.mem_append.mp inside with inHead | inBody
  · exact List.mem_append_left _ inHead
  · rcases spans item inBody with inOriginal | ofParam
    · exact List.mem_append_right _ inOriginal
    · obtain ⟨param, isGuarded, rfl⟩ := List.mem_map.mp ofParam
      refine Function.paramSpan_mem_spans (f := member.function) ?_
      unfold task at isGuarded
      dsimp only at isGuarded
      split at isGuarded
      · exact List.mem_of_mem_filter isGuarded
      · cases isGuarded

theorem Placement.sameFrame
    {set : ActivationSet}
    {value value' : Expr}
    (performed : Placement.Performed Task.SameFrame set value value') :
    value.SameFrame value' := by
  obtain ⟨place, root, spans⟩ := performed
  exact ⟨root, fun item inside => (spans item inside).resolve_right List.not_mem_nil⟩

theorem Decl.spans_subset_of_related
    {functions : Function → Function → Prop}
    {values : Expr → Expr → Prop}
    (ofFunctions : ∀ f f', functions f f' → f'.spans ⊆ f.spans)
    (ofValues : ∀ value value', values value value' → value'.spans ⊆ value.spans)
    {decl decl' : Decl}
    (related : decl.Related functions values decl') :
    decl'.spans ⊆ decl.spans := by
  have ofMethods : ∀ {methods methods' : List Function},
      List.Forall₂ functions methods methods' →
        methods'.flatMap Function.spans ⊆ methods.flatMap Function.spans := by
    intro methods methods' each
    induction each with
    | nil => exact List.Subset.refl _
    | cons first _ inductionHypothesis =>
        rw [List.flatMap_cons, List.flatMap_cons]
        exact List.append_subset.mpr
          ⟨List.subset_append_of_subset_left _ (ofFunctions _ _ first),
            List.subset_append_of_subset_right _ inductionHypothesis⟩
  cases decl with
  | function f =>
      obtain ⟨f', becomes, rfl⟩ := related
      exact ofFunctions f f' becomes
  | record name fields methods visibility span =>
      obtain ⟨methods', each, rfl⟩ := related
      exact List.cons_subset_cons span (List.append_subset.mpr
        ⟨List.subset_append_left _ _, List.subset_append_of_subset_right _ (ofMethods each)⟩)
  | extension name methods span =>
      obtain ⟨methods', each, rfl⟩ := related
      exact List.cons_subset_cons span (ofMethods each)
  | constant name note value visibility span =>
      obtain ⟨value', becomes, rfl⟩ := related
      exact List.cons_subset_cons span (List.append_subset.mpr
        ⟨List.subset_append_left _ _,
          List.subset_append_of_subset_right _ (ofValues value value' becomes)⟩)

/-- **The frame of rewriting.** Whatever comes of it, rewriting a unit whose symbols the table
knows keeps its package and, one by one and in order, its declarations: each is the original
one but for the bodies of its functions and its value, which have the regions of the original
ones at their roots, and every region in it occurred in the original one. Where rewriting
succeeds, nothing is counted exactly if the unit comes out as it was, and then the table does
too. -/
theorem rewrite_frame
    (set : ActivationSet)
    (unit : SourceUnit)
    (table : SymbolTable)
    (resolves : unit.resolves table) :
    let done := unit.rewrite set table
    done.unit.package = unit.package ∧
      List.Forall₂ (fun decl decl' =>
          decl.Related Function.SameFrame Expr.SameFrame decl' ∧ decl'.spans ⊆ decl.spans)
        unit.decls done.unit.decls ∧
      ∀ counts, done.result = .ok counts →
        (counts.isZero ↔ done.unit = unit) ∧ (counts.isZero → done.table = table) := by
  intro done
  have rewritten : done.unit = _ := (SourceUnit.rewrite_own resolves (.refl _)).2
  refine ⟨?_, ?_, fun counts succeeded => ?_⟩
  · rw [rewritten]
    rfl
  · rw [rewritten]
    have framed := unit.related_withBodies (forall₂_mapM
      (Plan.sameFrame_task (Rewrite.planFrom table done.table.symbolOf)) (unit.tasks set table) 0)
    refine framed.imp fun decl decl' related => ?_
    have related := related.weaken (fun _ _ => Member.sameFrame) (fun _ _ => Placement.sameFrame)
    exact ⟨related, Decl.spans_subset_of_related (fun _ _ same => same.spans)
      (fun _ _ same => same.2) related⟩
  · have result : done.result = _ := SourceUnit.rewrite_result resolves
    rw [succeeded] at result
    split at result
    next none =>
      obtain rfl := Except.ok.inj result
      have zero : (unit.counts set table).isZero ↔ (unit.counts set table).total = 0 :=
        beq_iff_eq
      rw [zero]
      exact ⟨(SourceUnit.rewrite_eq_self_iff resolves).symm,
        fun idle => (SourceUnit.rewrite_of_idle resolves idle).2⟩
    next => cases result

theorem rewrite_frame_of_greet :
    let done := Outcome.sampleUnit.rewrite (.allInPackage "app") Outcome.sampleTable
    done.result = .ok ⟨2, 1, 1, 1⟩ ∧
      done.unit.package = ⟨["app"]⟩ ∧
      List.Forall₂ (fun decl decl' =>
          decl.Related Function.SameFrame Expr.SameFrame decl' ∧ decl'.spans ⊆ decl.spans)
        Outcome.sampleUnit.decls done.unit.decls ∧
      done.unit ≠ Outcome.sampleUnit := by
  intro done
  have succeeded : done.result = .ok ⟨2, 1, 1, 1⟩ :=
    (SourceUnit.rewrite_result (by decide)).trans rfl
  obtain ⟨package, framed, untouched⟩ :=
    rewrite_frame (.allInPackage "app") Outcome.sampleUnit Outcome.sampleTable (by decide)
  refine ⟨succeeded, package, framed, fun same => ?_⟩
  have isZero := (untouched _ succeeded).1.mpr same
  revert isZero
  decide

end NilSafety
