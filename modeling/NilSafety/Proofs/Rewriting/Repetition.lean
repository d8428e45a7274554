import NilSafety.Proofs.Evaluation.Congruence
import NilSafety.Proofs.Rewriting.Frame
import NilSafety.Proofs.Rewriting.SecondPass

/-!
Contract: rewriting twice is observationally the same as rewriting once.

Owns:
- that a settled expression evaluates alike once its wrapped literals are wrapped again;
- that activations of a function and of the same function behind the same guards once more
  agree;
- calls one after another in a session;
- that whole uses of a unit that was rewritten successfully and of the unit rewritten once more
  agree.

Does not own: what a second rewriting makes of a unit.

The second call around a literal is given the checked array that the first one built, and
returns it. The second guards are reached first: they fail where the first ones would have
failed, with the same report, and otherwise let the first ones pass as well.
-/

namespace NilSafety

/-! ### Literals wrapped twice -/

namespace Expr.Alike

variable {context : Context} {segments : List Symbol}

/-- The call around a literal is alike with the literal wrapped again inside it. -/
theorem wrapsAgain
    (plain : context.rules.checksLiterals = false)
    (shown : segments.map context.program.table.display = checkedArrayPath)
    {expr literal : Expr}
    (wraps : expr.Wraps context.program.table.display literal)
    (isLiteral : literal.isArray)
    (elements : literal.Alike context (literal.refill (literal.children.map (wrapAll segments)))) :
    expr.Alike context (expr.refill (expr.children.map (wrapAll segments))) := by
  obtain ⟨segments', named, rfl⟩ := wraps
  cases literal with
  | array items span =>
      have twice := Eval.expr_wrappedTwice context plain named shown
        (items.map (wrapAll segments)) span
      have children : List.Forall₂ (Alike context)
          (call (path segments' span) [.plain (array items span)] span).children
          [path segments' span, array (items.map (wrapAll segments)) span] :=
        .cons (.refl context _) (.cons elements .nil)
      have once :
          (Eval.expr context (call (path segments' span) [.plain (array items span)] span)).Alike
            (Eval.expr context (call (path segments' span)
              [.plain (array (items.map (wrapAll segments)) span)] span)) :=
        valueOfNode children
      rw [← twice] at once
      have again : (array items span).wrapAll segments =
          call (path segments span) [.plain (array (items.map (wrapAll segments)) span)] span :=
        wrapAll_eq segments (array items span)
      refine ⟨?_, fun _ _ => ?_, calleeOfNode _ _⟩
      · show (Eval.expr context _).Alike (Eval.expr context
          (call (path segments' span) [.plain ((array items span).wrapAll segments)] span))
        rw [again]
        exact once
      · simp only [Eval.assign]
        exact .refl _
  | _ => cases isLiteral

/-- A tree whose literals are wrapped is alike with the literals inside it wrapped again. -/
theorem wrapInside
    (plain : context.rules.checksLiterals = false)
    {expr : Expr}
    (shown : ∀ literal ∈ expr.postOrder, literal.isArray →
      segments.map context.program.table.display = checkedArrayPath)
    (inside : ∀ node ∈ expr.postOrder, ∀ child ∈ node.children, child.isArray →
      node.Wraps context.program.table.display child) :
    expr.Alike context (expr.refill (expr.children.map (wrapAll segments))) := by
  induction expr using childInduction with
  | node expr inductionHypothesis =>
      have below : ∀ child ∈ expr.children,
          child.Alike context (child.refill (child.children.map (wrapAll segments))) :=
        fun child isChild => inductionHypothesis child isChild
          (fun literal within => shown literal (postOrder_subset isChild within))
          (fun node within => inside node (postOrder_subset isChild within))
      by_cases literal : ∃ child ∈ expr.children, child.isArray
      · obtain ⟨child, isChild, isLiteral⟩ := literal
        exact wrapsAgain plain
          (shown child (postOrder_subset isChild child.self_mem_postOrder) isLiteral)
          (inside expr expr.self_mem_postOrder child isChild isLiteral) isLiteral
          (below child isChild)
      · refine .refill ?_
        rw [List.forall₂_map_right_iff, List.forall₂_same]
        intro child isChild
        have other : child.isArray = false := by
          rw [← Bool.not_eq_true]
          exact fun isLiteral => literal ⟨child, isChild, isLiteral⟩
        rw [wrapAll_eq, wrappedBy_of_not_isArray segments (by rwa [isArray_refill])]
        exact below child isChild

end Expr.Alike

/-- The expression of a settled task evaluates alike once its literals are wrapped again. -/
theorem Task.Settled.alike_wrapped
    {context : Context}
    (plain : context.rules.checksLiterals = false)
    {task : Task}
    (settled : task.Settled context.program.table) :
    task.body.Alike context
      ((Rewrite.planFrom context.program.table context.program.table.symbolOf).wrapped
        task.features task.body) := by
  unfold Plan.wrapped
  split
  next on =>
    obtain ⟨root, inside⟩ := settled.wrapped on
    rw [Expr.wrapAll_eq, Expr.wrappedBy_of_not_isArray _ (by rwa [Expr.isArray_refill])]
    refine .wrapInside plain (fun literal within isLiteral => ?_) inside
    have some : task.body.literals.isEmpty = false := by
      rw [List.isEmpty_eq_false_iff]
      exact List.ne_nil_of_mem (List.mem_filter.mpr ⟨within, isLiteral⟩)
    exact ((Task.holds_names_iff.mp settled.holds).2 on some).map_display
  next => exact .refl context task.body

/-! ### Guards twice -/

theorem Expr.isUnmarked_of_markers {expr : Expr} (none : expr.markers = []) : expr.isUnmarked := by
  induction expr using childInduction with
  | node expr inductionHypothesis =>
      rw [markers_eq, List.append_eq_nil_iff, List.flatMap_eq_nil_iff] at none
      have own : (!expr.isMarkedAccess) = true := by
        rw [Bool.not_eq_true']
        by_contra marked
        rw [if_pos (by simpa using marked)] at none
        cases none.2
      unfold isUnmarked at inductionHypothesis ⊢
      rw [everywhere_eq, own, Bool.true_and, Bool.and_eq_true, List.all_eq_true, List.all_eq_true]
      exact ⟨fun _ _ => rfl, fun child isChild =>
        inductionHypothesis child isChild (none.1 child isChild)⟩

/-- Without marked accesses a tree realizes itself under the plain rules. -/
theorem Expr.realizes_self
    {table : SymbolTable}
    {expr : Expr}
    (resolves : expr.resolves table)
    (unmarked : expr.markers = []) :
    expr.Realizes .plain table table expr := by
  let features : FeatureSet := ⟨false, false, false⟩
  have suits : Rewrite.Suits .plain features := rfl
  have yields := Rewrite.yields_body ⟨[]⟩ suits (Rewrite.fits_unmarked .plain table)
    (Expr.everywhere_and expr resolves (Expr.isUnmarked_of_markers unmarked))
  have clean := yields.keeps rfl (.start table) (.refl table)
  have noArrays : features.arrays → expr.literals = [] := nofun
  obtain ⟨same, sameTable⟩ :=
    Rewrite.body_of_idle ⟨[]⟩ (fun _ => unmarked) noArrays (.start table)
  have realizes := yields.yields (.start table) (.refl table) clean table (sameTable ▸ .refl table)
  rwa [same] at realizes

/-- Variables that agree are nil or absent alike. -/
theorem Function.firstNilIn?_congr
    {known : Symbol → Bool}
    {pairing : Pairing}
    {shape : List Layer}
    {env env' : Env}
    (envs : env.Matches known (Value.Matches pairing) shape env')
    {f : Function}
    (params : ∀ param ∈ f.params, known param.name)
    (table : SymbolTable) :
    f.firstNilIn? table env' = f.firstNilIn? table env := by
  unfold firstNilIn?
  rw [← List.head?_filter, ← List.head?_filter]
  congr 1
  refine List.filter_congr fun param isGuarded => ?_
  have found := envs.get? (params param (List.mem_of_mem_filter isGuarded))
  generalize env.get? param.name = value at found ⊢
  generalize env'.get? param.name = value' at found ⊢
  cases found with
  | none => rfl
  | some holds => exact holds.isNil_eq.symm

namespace Repetition

/-- `f'` is what rewriting once more makes of a function `f` whose task is settled. -/
structure Repeats (table : SymbolTable) (f f' : Function) : Prop where
  resolves : f.resolves table
  becomes : ∃ task : Task, task.Settled table ∧ task.body = f.body ∧
    (task.guarded.isEmpty = false → task.guarded = f.guardedParams table) ∧
    f' = f.withBody (task.repeated table)

theorem Repeats.named
    {table : SymbolTable}
    {f f' : Function}
    (repeats : Repeats table f f') :
    f'.name = f.name ∧ table.knows f.name := by
  obtain ⟨task, -, -, -, rfl⟩ := repeats.becomes
  exact ⟨rfl, (Function.resolves_parts repeats.resolves).1⟩

/-- The comparison of a unit with what rewriting once more makes of it. -/
def comparison (table : SymbolTable) : Comparison :=
  .exact .plain Rules.checksLiterals_plain table table (.refl table) (Repeats table) Repeats.named
    (fun _ _ _ => True)
    (fun _ _ _ => False)

variable
  {table : SymbolTable}
  {pairing : Pairing}
  {shape : List Layer}
  {context context' : Context}

/-- The expression of a settled task agrees with itself with its literals wrapped again. -/
theorem simulates_wrapped
    (agree : (comparison table).ContextsMatch pairing context context')
    {task : Task}
    (settled : task.Settled table)
    (resolves : task.body.resolves table)
    (shape : List Layer) :
    (comparison table).Simulates pairing shape ValuesMatch (Eval.expr context task.body)
      (Eval.expr context'
        ((Rewrite.planFrom table table.symbolOf).wrapped task.features task.body)) := by
  have self := Comparison.simulates_expr agree task.body task.body
    (Expr.realizes_self resolves settled.unmarked) shape
  have usesTable : context'.program.table = table := agree.programs.grown
  have plain := agree.unchecked
  subst usesTable
  exact self.alike (fun _ _ _ => id) (settled.alike_wrapped plain).value

/-- At the start of an activation, a body behind guards and the same body behind the same guards
once more either fail with the same report, or agree. -/
theorem simulates_guardedTwice
    (agree : (comparison table).ContextsMatch pairing context context')
    {f f' : Function}
    (functions : (comparison table).functions f f')
    (resolves : f.resolves table)
    {symbols : GuardSymbols}
    {path : Path}
    (reports : symbols.Reports table path)
    {inner again : Expr}
    (behind : f.body = inner.precededBy ((f.guardedParams table).map symbols.check))
    (bodies : ∀ shape, (comparison table).Simulates pairing shape ValuesMatch
      (Eval.expr context f.body) (Eval.expr context' again))
    {receiver receiver' : Option Value}
    (receivers : Option.Rel (Value.Matches pairing) receiver receiver')
    {args args' : List Value}
    (arguments : ListsMatch pairing args args')
    (sameLength : args.length = f.params.length)
    (site : Span) :
    (comparison table).Simulates pairing shape ValuesMatch
      (Eval.asInvocation f receiver args site
        (Eval.inEnv (context.program.frame f.params receiver args)
          (Eval.duringCall site (Eval.expr context f.body))))
      (Eval.asInvocation f' receiver' args' site
        (Eval.inEnv (context'.program.frame f.params receiver' args')
          (Eval.duringCall site (Eval.expr context'
            (again.precededBy ((f.guardedParams table).map symbols.check)))))) := by
  have sameLength' : args'.length = f.params.length := arguments.length_eq.symm.trans sameLength
  have usesTable : context.program.table = table := agree.programs.table
  have usesTable' : context'.program.table = table := agree.programs.grown
  have reports' : symbols.Reports context'.program.table path := usesTable' ▸ reports
  have frames := Comparison.frame_matches agree.programs f.params receivers arguments
  have sameNil := Function.firstNilIn?_congr frames (fun param isParam =>
    ((Function.resolves_parts resolves).2.1 param isParam).1) table
  apply Comparison.Simulates.asInvocation site functions trivial receivers arguments
  cases found : f.firstNilIn? table (context.program.frame f.params receiver args) with
  | some param =>
      have first := Eval.inEnv_guarded_of_nil (usesTable ▸ reports) receiver sameLength site inner
        (by rw [usesTable]) found
      have second := Eval.inEnv_guarded_of_nil reports' receiver' sameLength' site again
        (by rw [usesTable']) (sameNil.trans found)
      rw [behind, first, second]
      exact .fail (.refl _)
  | none =>
      obtain ⟨rest, same, form⟩ := Eval.inEnv_guarded_of_none reports' receiver' sameLength' site
        again (sameNil.trans found)
      rw [same]
      apply Comparison.Simulates.inEnv frames
      apply Comparison.Simulates.duringCall site
      rcases form with rfl | rfl
      · exact bodies [.shared]
      · exact .inBlockAdded (bodies [.added, .shared])

theorem activationsAgree : (comparison table).ActivationsAgree := by
  intro pairing context context' agree shape f f' receiver receiver' args args' site functions
    receivers arguments
  have repeats : Repeats table f f' := functions
  obtain ⟨resolves, task, settled, sameBody, guarded, becomes⟩ := repeats
  have bodyResolves : task.body.resolves table := sameBody ▸ (Function.resolves_parts resolves).2.2
  have bodies := simulates_wrapped agree settled bodyResolves
  have body : f'.body = task.repeated table := becomes ▸ rfl
  apply Comparison.simulates_activate_of_bodies agree functions (becomes ▸ rfl) arguments site
  intro sameLength
  cases none : task.guarded.isEmpty with
  | true =>
      rw [body, Task.repeated, Plan.guardBody, if_pos none, ← sameBody]
      apply Comparison.Simulates.asInvocation site functions trivial receivers arguments
      apply Comparison.Simulates.inEnv
        (Comparison.frame_matches agree.programs f.params receivers arguments)
      exact .duringCall site (bodies [.shared])
  | false =>
      obtain ⟨inner, behind⟩ := settled.guarded none
      have reports := ((Task.holds_names_iff.mp settled.holds).1 none).reports
      rw [guarded none] at behind
      rw [body, Task.repeated, Plan.guardBody, none, if_neg Bool.false_ne_true, guarded none]
      exact simulates_guardedTwice agree functions resolves reports (sameBody ▸ behind)
        (fun shape => sameBody.symm ▸ bodies shape) receivers arguments sameLength site

/-! ### Units -/

/-- The expression is what the settled task makes of its own, whose symbols the table knows. -/
structure Performs (table : SymbolTable) (task : Task) (result : Expr) : Prop where
  settled : task.Settled table
  resolves : task.body.resolves table
  becomes : result = task.repeated table

theorem repeats_of_performed
    {set : ActivationSet}
    {unit : SourceUnit}
    (resolves : unit.resolves table)
    {f f' : Function}
    (performed : Member.Performed (Performs table) set table (unit.members table) f f') :
    Repeats table f f' := by
  obtain ⟨member, inUnit, rfl, body, performs, rfl⟩ := performed
  refine ⟨?_, member.task set table, performs.settled, rfl, fun some => ?_, ?_⟩
  · exact (SourceUnit.resolves_parts resolves).2.1 _ (SourceUnit.function_of_member inUnit)
  · unfold Member.task at some ⊢
    cases guards : set.guards member with
    | true => rfl
    | false =>
        rw [guards] at some
        cases some
  · rw [performs.becomes]

theorem evaluationsAgree_of_performed
    {set : ActivationSet}
    {value value' : Expr}
    (performed : Placement.Performed (Performs table) set value value') :
    (comparison table).EvaluationsAgree value value' := by
  obtain ⟨place, performs⟩ := performed
  intro pairing context context' agree
  have simulates := simulates_wrapped agree performs.settled performs.resolves [.shared]
  rw [performs.becomes]
  exact simulates

/-- What rewriting once more makes of a unit with settled tasks is related to it, declaration by
declaration. -/
theorem related_repeated
    {set : ActivationSet}
    {unit : SourceUnit}
    (resolves : unit.resolves table)
    (settled : ∀ task ∈ unit.tasks set table, task.Settled table) :
    List.Forall₂ (Decl.Related (Repeats table) (comparison table).EvaluationsAgree) unit.decls
      (unit.withBodies ((unit.tasks set table).map (Task.repeated table))).decls := by
  have each : List.Forall₂ (Performs table) (unit.tasks set table)
      ((unit.tasks set table).map (Task.repeated table)) := by
    rw [List.forall₂_map_right_iff, List.forall₂_same]
    intro task isTask
    have isBody : task.body ∈ unit.bodies := by
      rw [← unit.map_body_tasks set table]
      exact List.mem_map_of_mem isTask
    exact ⟨settled task isTask, (SourceUnit.resolves_parts resolves).1 _ isBody, rfl⟩
  refine (unit.related_withBodies each).imp fun decl decl' related => ?_
  exact related.weaken (fun _ _ => repeats_of_performed resolves)
    (fun _ _ => evaluationsAgree_of_performed)

end Repetition

/-! ### Calls one after another -/

/-- Calls functions one after another, each within a bound, and lists the outcomes. -/
def Session.callAll (session : Session) :
    List (Nat × String × List Value) → List (Flow Value × Session)
  | [] => []
  | (bound, name, args) :: rest =>
      let outcome := session.call bound name args
      outcome :: outcome.2.callAll rest

namespace Repetition

theorem callAll_agrees
    {table : SymbolTable}
    {session session' : Session}
    (sessions : (comparison table).SessionsMatch .identity session session')
    (calls : List (Nat × String × List Value)) :
    List.Forall₂ OutcomesAgree (session.callAll calls) (session'.callAll calls) := by
  induction calls generalizing session session' with
  | nil => exact .nil
  | cons first rest inductionHypothesis =>
      obtain ⟨bound, name, args⟩ := first
      have arguments : ListsMatch .identity args args := Value.forall₂_matches_identity.mpr rfl
      obtain ⟨agree, after⟩ := Comparison.outcomesAgree rfl (fun _ _ _ => id)
        (fun _ _ => Value.matches_identity_iff.mp)
        (Comparison.usesMatch_call activationsAgree rfl sessions bound name arguments)
      exact .cons agree (inductionHypothesis after)

end Repetition

/-- **Rewriting twice is observationally the same as rewriting once.** Where rewriting a unit
whose symbols the table knows succeeds, rewriting the result once more with the same settings
succeeds as well. It expands no marked access, counts as many guards, guarded functions and array
literals as the first time, and interns nothing. In the tree the guards stand twice now and the
literals are wrapped twice. Loading it ends as loading the unit that was rewritten once, and so do
calls of any functions one after another, with any native functions, over any containers and
within any bounds: with the same value or an error of the same kind at the same place, which for
a failed guard names the same parameter, function and place of the call, and with the same calls
of native functions and the same containers under the same identities. -/
theorem rewrite_twice_means_once
    (set : ActivationSet)
    (unit : SourceUnit)
    (table : SymbolTable)
    (resolves : unit.resolves table)
    (counts : Counts)
    (succeeds : (unit.rewrite set table).result = .ok counts) :
    let once := unit.rewrite set table
    let twice := once.unit.rewrite set once.table
    twice.result = .ok { counts with navigations := 0 } ∧
      twice.table = once.table ∧
      twice.unit = once.unit.withBodies
        ((once.unit.tasks set once.table).map (Task.repeated once.table)) ∧
      ∀ natives heap loadBound,
        let reference := (Session.opened .plain once.table natives heap).load loadBound once.unit
        let actual := (Session.opened .plain twice.table natives heap).load loadBound twice.unit
        OutcomesAgree reference actual ∧
          ∀ heap calls, List.Forall₂ OutcomesAgree ((reference.2.withHeap heap).callAll calls)
            ((actual.2.withHeap heap).callAll calls) := by
  intro once twice
  obtain ⟨settled, result, sameTable, repeated⟩ := SourceUnit.rewrite_again resolves succeeds
  refine ⟨result, sameTable, repeated, fun natives heap loadBound => ?_⟩
  intro reference actual
  have resolvesOnce : once.unit.resolves once.table := SourceUnit.resolves_rewrite set resolves
  have declsKnown := (SourceUnit.resolves_parts resolvesOnce).2.2
  have related := Repetition.related_repeated resolvesOnce settled
  have sameHeap : heap.Matches .identity heap := Heap.matches_identity_iff.mpr rfl
  have opened := (Repetition.comparison once.table).sessionsMatch_opened natives
    (fun entry _ => Native.carries_identity entry.1 entry.2) trivial sameHeap
  have loads := Comparison.usesMatch_loadDecls_of_agree Repetition.activationsAgree rfl opened
    loadBound declsKnown related
  obtain ⟨loadsAgree, sessions⟩ :=
    Comparison.outcomesAgree rfl (fun _ _ _ => id) (fun _ _ same => same) loads
  have loaded : actual = (Session.opened .plain once.table natives heap).loadDecls loadBound
      (once.unit.withBodies
        ((once.unit.tasks set once.table).map (Task.repeated once.table))).decls := by
    unfold actual Session.load
    rw [sameTable, repeated]
  rw [loaded]
  exact ⟨loadsAgree, fun heap calls =>
    Repetition.callAll_agrees (Comparison.sessionsMatch_withHeap sessions heap) calls⟩

/-- A call that passes both guards and builds the array of the literal, and then one that the
first of the guards stops. -/
theorem rewrite_twice_means_once_of_greet :
    let once := Outcome.sampleUnit.rewrite (.allInPackage "app") Outcome.sampleTable
    let twice := once.unit.rewrite (.allInPackage "app") once.table
    let heap := (Heap.empty.newObject ⟨2⟩ (.ofList [(⟨4⟩, .nil)])).2
    let calls := [(9, "greet", [.object ⟨2⟩ 0]), (9, "greet", [.nil])]
    let reference := (Session.opened .plain once.table [] .empty).load 1 once.unit
    let actual := (Session.opened .plain twice.table [] .empty).load 1 twice.unit
    once.result = .ok ⟨2, 1, 1, 1⟩ ∧
      twice.result = .ok ⟨0, 1, 1, 1⟩ ∧
      List.Forall₂ OutcomesAgree ((reference.2.withHeap heap).callAll calls)
        ((actual.2.withHeap heap).callAll calls) ∧
      ((actual.2.withHeap heap).callAll calls).map Prod.fst =
        [.next (.checkedArray 0), .error (.guardFailed ⟨"person", "app.greet", none⟩)] := by
  intro once twice heap calls reference actual
  have succeeded : once.result = .ok ⟨2, 1, 1, 1⟩ :=
    (SourceUnit.rewrite_result (by decide)).trans rfl
  obtain ⟨result, -, -, uses⟩ := rewrite_twice_means_once (.allInPackage "app") Outcome.sampleUnit
    Outcome.sampleTable (by decide) ⟨2, 1, 1, 1⟩ succeeded
  exact ⟨succeeded, result, (uses [] .empty 1).2 heap calls, by decide +kernel⟩

end NilSafety
