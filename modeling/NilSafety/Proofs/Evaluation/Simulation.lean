import NilSafety.Proofs.Evaluation.Calls
import NilSafety.Proofs.Evaluation.Templates
import NilSafety.Proofs.Rewriting.Realization
import NilSafety.Proofs.Tree.Assignments

/-!
Contract: an expression and its realization evaluate alike.

Owns:
- the accesses and array literals that realization replaces;
- the simulation, one case per shape of expression and of statement.

Does not own: activations of functions, whose agreement is part of what is
assumed of the contexts.

The first side evaluates the expression under the rules of the comparison, the
second one its realization under the plain rules. The simulation is an induction
on the expression, for all shapes of scopes at once: a check for nil evaluates its
receiver inside a scope that the first side does not have.
-/

namespace NilSafety

/-! ### What stands in front of arguments, and what is assigned to -/

namespace Expr

/-- Whether the expression is a name, which may be called. -/
def isName : Expr → Bool
  | ident .. | path .. => true
  | _ => false

variable {rules : Rules} {table grown : SymbolTable} {expr realized : Expr}

theorem isName_refill (expr : Expr) (exprs : List Expr) :
    (expr.refill exprs).isName = expr.isName := by
  cases expr <;> rfl

theorem RealizesNode.head (realizes : expr.RealizesNode rules table grown realized) :
    (expr.isName = false → realized.isName = false) ∧
      (expr.isTarget = false → realized.isTarget = false) := by
  cases expr with
  | method | field =>
      obtain ⟨-, access⟩ := realizes
      unfold RealizesAccess at access
      split at access
      · obtain ⟨temp, -, rfl⟩ := access
        exact ⟨fun _ => rfl, fun _ => rfl⟩
      · rw [access]
        exact ⟨id, id⟩
  | array elements span =>
      simp only [RealizesNode, RealizesArray] at realizes
      split at realizes
      · obtain ⟨segments, -, rfl⟩ := realizes
        exact ⟨fun _ => rfl, fun _ => rfl⟩
      · rw [realizes]
        exact ⟨id, id⟩
  | str | ident | path =>
      rw [realizes.2]
      exact ⟨id, id⟩
  | _ =>
      rw [show realized = _ from realizes]
      exact ⟨id, id⟩

/-- What cannot be called, or assigned to, is realized by what cannot either. -/
theorem Realizes.head (realizes : expr.Realizes rules table grown realized) :
    (expr.isName = false → realized.isName = false) ∧
      (expr.isTarget = false → realized.isTarget = false) := by
  obtain ⟨-, exprs, -, ofNode⟩ := realizes_iff.mp realizes
  have atNode := ofNode.head
  rwa [isName_refill, isTarget_refill] at atNode

end Expr

theorem Context.callExpr_of_not_isName
    (context : Context)
    {callee : Expr}
    (noName : callee.isName = false)
    (args : List Value)
    (span : Span) :
    context.callExpr callee args span = Eval.fail (.type (.notCallable callee) span) := by
  cases callee with
  | ident | path => cases noName
  | _ => rfl

theorem Eval.assign_of_not_isTarget
    (context : Context)
    {target : Expr}
    (noTarget : target.isTarget = false)
    (value : Value)
    (span : Span) :
    Eval.assign context value span target = Eval.fail (.type .target span) := by
  cases target with
  | ident | field | index => cases noTarget
  | _ => simp only [Eval.assign]

namespace Comparison

variable
  {S : Comparison}
  {pairing : Pairing}
  {context context' : Context}
  {shape : List Layer}

/-! ### What realization replaces -/

/-- A receiver is evaluated once on both sides; where it is nil, neither side goes
on with a marked access that the rules skip. -/
theorem simulates_access
    (agree : S.ContextsMatch pairing context context')
    {rest : Value → Eval Value}
    (access : Expr → Bool → Expr)
    (rest' : Value → Eval Value)
    (evaluates : ∀ on marked, Eval.expr context' (access on marked) = (do
      let value ← Eval.expr context' on
      if context'.skips marked value then Eval.result .nil else rest' value))
    {marked : Bool}
    {receiver : Eval Value}
    {receiver' realized : Expr}
    {span : Span}
    (realizes : Expr.RealizesAccess S.rules S.table marked receiver' access span realized)
    (receivers : ∀ shape,
      S.Simulates pairing shape ValuesMatch receiver (Eval.expr context' receiver'))
    (grows : ∀ value, (rest value).Growing)
    (rests : ∀ later, pairing ≤ later → ∀ shape value value', value.Matches later value' →
      S.Simulates later shape ValuesMatch (rest value) (rest' value')) :
    S.Simulates pairing shape ValuesMatch
      (do
        let value ← receiver
        if context.skips marked value then Eval.result .nil else rest value)
      (Eval.expr context' realized) := by
  have growsRest : ∀ value, (if context.skips marked value = true then Eval.result .nil
      else rest value).Growing := fun value => .ite (.result _) (grows value)
  unfold Expr.RealizesAccess at realizes
  split at realizes
  next skips =>
    obtain ⟨temp, isForeign, becomes⟩ := realizes
    rw [becomes, Eval.expr_nilChecked context' evaluates]
    refine .inBlockAdded ((receivers (.added :: shape)).bind growsRest ?_)
    intro later further value value' values
    refine .defineAdded isForeign value' ?_
    have skipsNil : context.skips marked value = value'.isNil := by
      unfold Context.skips
      rw [agree.rules, skips, Bool.true_and, values.isNil_eq]
    rw [skipsNil]
    split
    · exact .resultValue .nil
    · exact .inBlockAdded (rests later further _ value value' values)
  next never =>
    rw [Bool.not_eq_true] at never
    rw [realizes, evaluates]
    apply (receivers shape).bind growsRest
    intro later further value value' values
    have goesOn : context.skips marked value = false := by
      unfold Context.skips
      rw [agree.rules, never, Bool.false_and]
    have goesOn' : context'.skips marked value' = false := by
      unfold Context.skips
      rw [agree.plain]
      rfl
    rw [goesOn, goesOn']
    exact rests later further shape value value' values

/-- Elements are evaluated in order on both sides, and then a container of the sort
that the rules ask for holds them. -/
theorem simulates_array
    (agree : S.ContextsMatch pairing context context')
    {elements' : List Expr}
    {values : Eval (List Value)}
    {span : Span}
    {realized : Expr}
    (realizes : Expr.RealizesArray S.rules S.grown elements' span realized)
    (lists : S.Simulates pairing shape ListsMatch values (Eval.exprs context' elements')) :
    S.Simulates pairing shape ValuesMatch
      (do
        let values ← values
        context.newLiteral values)
      (Eval.expr context' realized) := by
  have grows : ∀ values, (context.newLiteral values).Growing := .newLiteral context
  unfold Expr.RealizesArray at realizes
  have plain := agree.unchecked
  split at realizes
  next checks =>
    obtain ⟨segments, named, becomes⟩ := realizes
    rw [← agree.programs.grown] at named
    rw [becomes, Eval.expr_wrappedLiteral context' plain named]
    apply lists.bind grows
    intro later _ values values' related
    apply Simulates.ofMachine
    intro last beyond admitted machine machine' machines
    rw [agree.rules, if_pos checks]
    have elements : ArraysRelated (Value.Matches last) values.toArray values'.toArray :=
      related.imp fun _ _ holds => holds.mono beyond
    exact .of_yield machines (S.newLiteral checks admitted machines.heap elements)
  next unchecked =>
    rw [realizes]
    simp only [Eval.expr]
    apply lists.bind grows
    intro later _ values values' related
    apply Simulates.ofMachine
    intro last beyond admitted machine machine' machines
    rw [agree.rules, if_neg unchecked, plain]
    have elements : ArraysRelated (Value.Matches last) values.toArray values'.toArray :=
      related.imp fun _ _ holds => holds.mono beyond
    exact .of_yield machines (S.newArray admitted machines.heap elements)

/-! ### Expressions and statements -/

theorem simulates_callExpr
    (agree : S.ContextsMatch pairing context context')
    {callee callee' : Expr}
    (realizes : callee.Realizes S.rules S.table S.grown callee')
    {args args' : List Value}
    (arguments : ListsMatch pairing args args')
    (span : Span) :
    S.Simulates pairing shape ValuesMatch (context.callExpr callee args span)
      (context'.callExpr callee' args' span) := by
  cases isName : callee.isName with
  | false =>
      rw [context.callExpr_of_not_isName isName,
        context'.callExpr_of_not_isName (realizes.head.1 isName)]
      exact .fail (.notCallable _ _ span)
  | true =>
      cases callee with
      | ident name calleeSpan =>
          simp only [Expr.Realizes] at realizes
          rw [realizes.2]
          unfold Context.callExpr
          dsimp only
          rw [agree.name_eq realizes.1]
          exact agree.callNamed _ arguments span
      | path segments calleeSpan =>
          simp only [Expr.Realizes] at realizes
          rw [realizes.2]
          exact agree.callPath realizes.1 arguments span
      | _ => cases isName

/-- An operator between operands that agree. -/
theorem simulates_binary
    (grows : context.Growing)
    {pairing : Pairing}
    {shape : List Layer}
    {left right left' right' : Expr}
    (op : BinaryOp)
    (span : Span)
    (first : S.Simulates pairing shape ValuesMatch (Eval.expr context left)
      (Eval.expr context' left'))
    (second : ∀ later, pairing ≤ later →
      S.Simulates later shape ValuesMatch (Eval.expr context right) (Eval.expr context' right')) :
    S.Simulates pairing shape ValuesMatch (Eval.expr context (.binary left op right span))
      (Eval.expr context' (.binary left' op right' span)) := by
  have growsRight := Eval.Growing.expr grows right
  have growsTruth : (do
      let value ← Eval.expr context right
      let value ← Eval.truth span value
      Eval.result (Value.bool value)).Growing :=
    growsRight.bind fun _ => (Eval.Growing.truth _ _).bind fun _ => .result _
  have secondTruth : ∀ later, pairing ≤ later → S.Simulates later shape ValuesMatch
      (do
        let value ← Eval.expr context right
        let value ← Eval.truth span value
        Eval.result (Value.bool value))
      (do
        let value ← Eval.expr context' right'
        let value ← Eval.truth span value
        Eval.result (Value.bool value)) := by
    intro later further
    refine (second later further).bind (fun _ => (Eval.Growing.truth _ _).bind fun _ =>
      .result _) ?_
    intro last _ value value' values
    refine (Simulates.truth span values).bind (fun _ => .result _) ?_
    intro _ _ truth truth' same
    subst same
    exact .resultValue (.bool truth)
  cases op with
  | and =>
      simp only [Eval.expr]
      refine first.bind (fun _ => (Eval.Growing.truth _ _).bind fun _ =>
        .ite growsTruth (.result _)) ?_
      intro later further value value' values
      refine (Simulates.truth span values).bind (fun _ => .ite growsTruth (.result _)) ?_
      intro last beyond truth truth' same
      subst same
      cases truth with
      | true => exact secondTruth last (further.trans beyond)
      | false => exact .resultValue (.bool false)
  | or =>
      simp only [Eval.expr]
      refine first.bind (fun _ => (Eval.Growing.truth _ _).bind fun _ =>
        .ite (.result _) growsTruth) ?_
      intro later further value value' values
      refine (Simulates.truth span values).bind (fun _ => .ite (.result _) growsTruth) ?_
      intro last beyond truth truth' same
      subst same
      cases truth with
      | true => exact .resultValue (.bool true)
      | false => exact secondTruth last (further.trans beyond)
  | _ =>
      simp only [Eval.expr]
      refine first.bind (fun _ => growsRight.bind fun _ => .orFault _ _) ?_
      intro later further value value' values
      refine (second later further).bind (fun _ => .orFault _ _) ?_
      intro last beyond other other' others
      exact .orFault span (BinaryOp.apply_eq _ (values.mono beyond) others)
        fun _ applied => BinaryOp.matches_apply applied

mutual

/-- An expression and its realization have outcomes that agree. -/
theorem simulates_expr
    {pairing : Pairing}
    (agree : S.ContextsMatch pairing context context')
    (expr realized : Expr)
    (realizes : expr.Realizes S.rules S.table S.grown realized)
    (shape : List Layer) :
    S.Simulates pairing shape ValuesMatch (Eval.expr context expr)
      (Eval.expr context' realized) := by
  cases expr with
  | int value span =>
      simp only [Expr.Realizes] at realizes
      subst realizes
      simp only [Eval.expr]
      exact .resultValue (.int value)
  | str value span =>
      simp only [Expr.Realizes] at realizes
      obtain ⟨known, rfl⟩ := realizes
      simp only [Eval.expr]
      rw [agree.name_eq known]
      exact .resultValue (.str _)
  | bool value span =>
      simp only [Expr.Realizes] at realizes
      subst realizes
      simp only [Eval.expr]
      exact .resultValue (.bool value)
  | nil span =>
      simp only [Expr.Realizes] at realizes
      subst realizes
      simp only [Eval.expr]
      exact .resultValue .nil
  | ident name span =>
      simp only [Expr.Realizes] at realizes
      obtain ⟨known, rfl⟩ := realizes
      simp only [Eval.expr]
      exact agree.readVariable known span
  | path segments span =>
      simp only [Expr.Realizes] at realizes
      obtain ⟨known, rfl⟩ := realizes
      have qualified : context'.program.qualifiedName segments =
          context.program.qualifiedName segments :=
        congrArg (String.intercalate "::")
          (List.map_congr_left fun symbol member => agree.name_eq (known symbol member))
      simp only [Eval.expr]
      rw [qualified]
      exact .fail (.refl _)
  | unary op operand span =>
      simp only [Expr.Realizes] at realizes
      obtain ⟨operand', realizesOperand, rfl⟩ := realizes
      simp only [Eval.expr]
      refine (simulates_expr agree operand operand' realizesOperand shape).bind
        (fun _ => .orFault _ _) ?_
      intro later further value value' values
      exact .orFault span (op.apply_eq values) fun _ applied => UnaryOp.matches_apply applied
  | binary left op right span =>
      simp only [Expr.Realizes] at realizes
      obtain ⟨left', right', realizesLeft, realizesRight, rfl⟩ := realizes
      exact simulates_binary agree.grows op span
        (simulates_expr agree left left' realizesLeft shape)
        fun later further => simulates_expr (agree.mono further) right right' realizesRight shape
  | cond condition thenBranch elseBranch span =>
      simp only [Expr.Realizes] at realizes
      obtain ⟨condition', thenBranch', elseBranch', realizesCondition, realizesThen, realizesElse,
        rfl⟩ := realizes
      have growsBranches : ∀ truth : Bool, (if truth = true then Eval.expr context thenBranch
          else Eval.optional context .unit elseBranch).Growing :=
        fun _ => .ite (.expr agree.grows thenBranch) (.optional agree.grows .unit elseBranch)
      simp only [Eval.expr]
      refine (simulates_expr agree condition condition' realizesCondition shape).bind
        (fun _ => (Eval.Growing.truth _ _).bind growsBranches) ?_
      intro later further value value' values
      apply (Simulates.truth span values).bind growsBranches
      intro last beyond truth truth' same
      subst same
      have agreeLast := agree.mono (further.trans beyond)
      cases truth with
      | true => exact simulates_expr agreeLast thenBranch thenBranch' realizesThen shape
      | false => exact simulates_optional agreeLast .unit elseBranch elseBranch' realizesElse shape
  | block body tail span =>
      simp only [Expr.Realizes] at realizes
      obtain ⟨body', tail', realizesBody, realizesTail, rfl⟩ := realizes
      simp only [Eval.expr]
      apply Simulates.inBlock
      refine (simulates_stmts agree body body' realizesBody shape).bind
        (fun _ => .optional agree.grows .unit tail) ?_
      intro later further _ _ _
      exact simulates_optional (agree.mono further) .unit tail tail' realizesTail _
  | call callee given span =>
      simp only [Expr.Realizes] at realizes
      obtain ⟨callee', given', realizesCallee, realizesGiven, rfl⟩ := realizes
      simp only [Eval.expr]
      refine (simulates_args agree given given' realizesGiven shape).bind
        (fun _ => agree.grows.callExpr _ _ _) ?_
      intro later further values values' arguments
      exact simulates_callExpr (agree.mono further) realizesCallee arguments span
  | method receiver name given marked span =>
      simp only [Expr.Realizes] at realizes
      obtain ⟨receiver', given', known, realizesReceiver, realizesGiven, becomes⟩ := realizes
      simp only [Eval.expr]
      refine simulates_access agree
        (fun on marked => .method on name given' marked span)
        (fun value => do
          let values ← Eval.args context' given'
          context'.callMethod value name values span)
        (fun on marked => by simp only [Eval.expr]) becomes
        (fun shape => simulates_expr agree receiver receiver' realizesReceiver shape)
        (fun value => (Eval.Growing.args agree.grows given).bind fun _ =>
          agree.grows.callMethod _ _ _ _) ?_
      intro later further shape value value' receivers
      refine (simulates_args (agree.mono further) given given' realizesGiven shape).bind
        (fun _ => agree.grows.callMethod _ _ _ _) ?_
      intro last beyond values values' arguments
      exact (agree.mono (further.trans beyond)).callMethod (receivers.mono beyond) known arguments
        span
  | field object name marked span =>
      simp only [Expr.Realizes] at realizes
      obtain ⟨object', known, realizesObject, becomes⟩ := realizes
      simp only [Eval.expr]
      refine simulates_access agree
        (fun on marked => .field on name marked span)
        (fun value => do
          let machine ← Eval.machine
          Eval.ofExcept
            (Member.readField context'.program.table machine.heap value name span))
        (fun on marked => by simp only [Eval.expr]) becomes
        (fun shape => simulates_expr agree object object' realizesObject shape)
        (fun value => Eval.Growing.machine.bind fun _ => .ofExcept _) ?_
      intro later further shape value value' objects
      apply Simulates.ofMachine
      intro last beyond admitted machine machine' machines
      rw [agree.programs.table, agree.programs.grown]
      exact .of_except admitted
        (Member.readField_agrees S.grows machines.heap (objects.mono beyond) known span) machines
  | index collection position span =>
      simp only [Expr.Realizes] at realizes
      obtain ⟨collection', position', realizesCollection, realizesPosition, rfl⟩ := realizes
      simp only [Eval.expr]
      refine (simulates_expr agree collection collection' realizesCollection shape).bind
        (fun _ => (Eval.Growing.expr agree.grows position).bind fun _ =>
          Eval.Growing.machine.bind fun _ => .ofExcept _) ?_
      intro later further value value' collections
      refine (simulates_expr (agree.mono further) position position' realizesPosition shape).bind
        (fun _ => Eval.Growing.machine.bind fun _ => .ofExcept _) ?_
      intro last beyond place place' positions
      apply Simulates.ofMachine
      intro final above admitted machine machine' machines
      exact .of_except admitted
        (Member.readElement_agrees machines.heap (collections.mono (beyond.trans above))
          (positions.mono above) span) machines
  | construct name given span =>
      simp only [Expr.Realizes] at realizes
      obtain ⟨given', realizesGiven, rfl⟩ := realizes
      simp only [Eval.expr]
      refine (simulates_inits agree given given' realizesGiven shape).bind
        (fun _ => Eval.Growing.machine.bind fun _ => .yieldWith _) ?_
      intro later further fields fields' related
      apply Simulates.ofMachine
      intro last beyond admitted machine machine' machines
      have objects : SymbolMap.Related (Value.Matches last) (SymbolMap.ofList fields)
          (SymbolMap.ofList fields') :=
        (SymbolMap.Related.ofList related).mono fun _ _ holds => holds.mono beyond
      exact .of_yield machines (S.newObject admitted machines.heap name objects)
  | array elements span =>
      simp only [Expr.Realizes] at realizes
      obtain ⟨elements', realizesElements, becomes⟩ := realizes
      simp only [Eval.expr]
      exact simulates_array agree becomes
        (simulates_exprs agree elements elements' realizesElements shape)
  | paren inner span =>
      simp only [Expr.Realizes] at realizes
      obtain ⟨inner', realizesInner, rfl⟩ := realizes
      simp only [Eval.expr]
      exact simulates_expr agree inner inner' realizesInner shape
termination_by structural expr

theorem simulates_optional
    {pairing : Pairing}
    (agree : S.ContextsMatch pairing context context')
    (default : Value)
    (given realized : Option Expr)
    (realizes : Expr.RealizesOption S.rules S.table S.grown given realized)
    (shape : List Layer)
    (closed : default.Matches pairing default := by constructor) :
    S.Simulates pairing shape ValuesMatch (Eval.optional context default given)
      (Eval.optional context' default realized) := by
  cases given with
  | none =>
      simp only [Expr.RealizesOption] at realizes
      subst realizes
      simp only [Eval.optional]
      exact .resultValue closed
  | some given =>
      simp only [Expr.RealizesOption] at realizes
      obtain ⟨given', realizesGiven, rfl⟩ := realizes
      simp only [Eval.optional]
      exact simulates_expr agree given given' realizesGiven shape
termination_by structural given

theorem simulates_exprs
    {pairing : Pairing}
    (agree : S.ContextsMatch pairing context context')
    (list realized : List Expr)
    (realizes : Expr.RealizesList S.rules S.table S.grown list realized)
    (shape : List Layer) :
    S.Simulates pairing shape ListsMatch (Eval.exprs context list)
      (Eval.exprs context' realized) := by
  cases list with
  | nil =>
      simp only [Expr.RealizesList] at realizes
      subst realizes
      simp only [Eval.exprs]
      exact .result fun _ _ => .nil
  | cons first rest =>
      simp only [Expr.RealizesList] at realizes
      obtain ⟨first', rest', realizesFirst, realizesRest, rfl⟩ := realizes
      simp only [Eval.exprs]
      refine (simulates_expr agree first first' realizesFirst shape).bind
        (fun _ => (Eval.Growing.exprs agree.grows rest).bind fun _ => .result _) ?_
      intro later further value value' values
      refine (simulates_exprs (agree.mono further) rest rest' realizesRest shape).bind
        (fun _ => .result _) ?_
      intro last beyond list list' lists
      exact .result fun final above => .cons (values.mono (beyond.trans above))
        (lists.imp fun _ _ holds => holds.mono above)
termination_by structural list

theorem simulates_args
    {pairing : Pairing}
    (agree : S.ContextsMatch pairing context context')
    (list realized : List Arg)
    (realizes : Expr.RealizesArgs S.rules S.table S.grown list realized)
    (shape : List Layer) :
    S.Simulates pairing shape ListsMatch (Eval.args context list)
      (Eval.args context' realized) := by
  cases list with
  | nil =>
      simp only [Expr.RealizesArgs] at realizes
      subst realizes
      simp only [Eval.args]
      exact .result fun _ _ => .nil
  | cons arg rest =>
      obtain ⟨label, first⟩ := arg
      simp only [Expr.RealizesArgs] at realizes
      obtain ⟨first', rest', realizesFirst, realizesRest, rfl⟩ := realizes
      simp only [Eval.args]
      refine (simulates_expr agree first first' realizesFirst shape).bind
        (fun _ => (Eval.Growing.args agree.grows rest).bind fun _ => .result _) ?_
      intro later further value value' values
      refine (simulates_args (agree.mono further) rest rest' realizesRest shape).bind
        (fun _ => .result _) ?_
      intro last beyond list list' lists
      exact .result fun final above => .cons (values.mono (beyond.trans above))
        (lists.imp fun _ _ holds => holds.mono above)
termination_by structural list

theorem simulates_inits
    {pairing : Pairing}
    (agree : S.ContextsMatch pairing context context')
    (list realized : List Init)
    (realizes : Expr.RealizesInits S.rules S.table S.grown list realized)
    (shape : List Layer) :
    S.Simulates pairing shape FieldsMatch (Eval.inits context list)
      (Eval.inits context' realized) := by
  cases list with
  | nil =>
      simp only [Expr.RealizesInits] at realizes
      subst realizes
      simp only [Eval.inits]
      exact .result fun _ _ => .nil
  | cons init rest =>
      obtain ⟨name, first⟩ := init
      simp only [Expr.RealizesInits] at realizes
      obtain ⟨first', rest', realizesFirst, realizesRest, rfl⟩ := realizes
      simp only [Eval.inits]
      refine (simulates_expr agree first first' realizesFirst shape).bind
        (fun _ => (Eval.Growing.inits agree.grows rest).bind fun _ => .result _) ?_
      intro later further value value' values
      refine (simulates_inits (agree.mono further) rest rest' realizesRest shape).bind
        (fun _ => .result _) ?_
      intro last beyond list list' lists
      exact .result fun final above => .cons ⟨rfl, values.mono (beyond.trans above)⟩
        (lists.imp fun _ _ holds => ⟨holds.1, holds.2.mono above⟩)
termination_by structural list

theorem simulates_assign
    {pairing : Pairing}
    (agree : S.ContextsMatch pairing context context')
    {value value' : Value}
    (values : value.Matches pairing value')
    (span : Span)
    (target realized : Expr)
    (unmarked : target.isMarkedAccess = false)
    (realizes : target.Realizes S.rules S.table S.grown realized)
    (shape : List Layer) :
    S.Simulates pairing shape SameResult (Eval.assign context value span target)
      (Eval.assign context' value' span realized) := by
  cases isTarget : target.isTarget with
  | false =>
      rw [Eval.assign_of_not_isTarget context isTarget,
        Eval.assign_of_not_isTarget context' (realizes.head.2 isTarget)]
      exact .fail (.refl _)
  | true =>
      cases target with
      | ident name targetSpan =>
          simp only [Expr.Realizes] at realizes
          obtain ⟨known, rfl⟩ := realizes
          simp only [Eval.assign]
          exact agree.writeVariable known values span
      | field object name marked targetSpan =>
          simp only [Expr.Realizes] at realizes
          obtain ⟨object', known, realizesObject, becomes⟩ := realizes
          have plain : marked = false := unmarked
          subst plain
          rw [Expr.RealizesAccess, Bool.and_false, if_neg (by decide)] at becomes
          subst becomes
          simp only [Eval.assign]
          refine (simulates_expr agree object object' realizesObject shape).bind
            (fun _ => .setHeapFrom _) ?_
          intro later further owner owner' objects
          apply Simulates.setHeapFrom
          intro last beyond machine machine' machines
          rw [agree.programs.table, agree.programs.grown]
          exact Member.writeField_agrees S.grows machines.heap (objects.mono beyond) known
            (values.mono (further.trans beyond)) span
      | index collection position targetSpan =>
          simp only [Expr.Realizes] at realizes
          obtain ⟨collection', position', realizesCollection, realizesPosition, rfl⟩ := realizes
          simp only [Eval.assign]
          refine (simulates_expr agree collection collection' realizesCollection shape).bind
            (fun _ => (Eval.Growing.expr agree.grows position).bind fun _ => .setHeapFrom _) ?_
          intro later further owner owner' collections
          refine (simulates_expr (agree.mono further) position position' realizesPosition
            shape).bind (fun _ => .setHeapFrom _) ?_
          intro last beyond place place' positions
          apply Simulates.setHeapFrom
          intro final above machine machine' machines
          exact Member.writeElement_agrees machines.heap (collections.mono (beyond.trans above))
            (positions.mono above) (values.mono (further.trans (beyond.trans above))) span
      | _ => cases isTarget
termination_by structural target

theorem simulates_stmt
    {pairing : Pairing}
    (agree : S.ContextsMatch pairing context context')
    (stmt realized : Stmt)
    (realizes : Expr.RealizesStmt S.rules S.table S.grown stmt realized)
    (shape : List Layer) :
    S.Simulates pairing (.shared :: shape) SameResult (Eval.stmt context stmt)
      (Eval.stmt context' realized) := by
  cases stmt with
  | bind name isMutable note init span =>
      simp only [Expr.RealizesStmt] at realizes
      obtain ⟨init', realizesInit, rfl⟩ := realizes
      simp only [Eval.stmt]
      refine (simulates_optional agree .nil init init' realizesInit _).bind
        (fun _ => .defineVariable _ _) ?_
      intro later further value value' values
      exact .defineVariable name values
  | ret value span =>
      simp only [Expr.RealizesStmt] at realizes
      obtain ⟨value', realizesValue, rfl⟩ := realizes
      simp only [Eval.stmt]
      refine (simulates_optional agree .unit value value' realizesValue _).bind
        (fun _ => .leave _) ?_
      intro later further result result' results
      exact .leave results
  | assign target value span =>
      simp only [Expr.RealizesStmt] at realizes
      obtain ⟨target', value', unmarked, realizesTarget, realizesValue, rfl⟩ := realizes
      simp only [Eval.stmt]
      refine (simulates_expr agree value value' realizesValue _).bind
        (fun _ => .assign agree.grows _ _ _) ?_
      intro later further result result' results
      exact simulates_assign (agree.mono further) results span target target' unmarked
        realizesTarget _
  | loop condition body span =>
      simp only [Expr.RealizesStmt] at realizes
      obtain ⟨condition', body', realizesCondition, realizesBody, rfl⟩ := realizes
      simp only [Eval.stmt]
      rw [agree.turns]
      refine .repeatWhile context.turns
        ((Eval.Growing.expr agree.grows body).bind fun _ => .result _)
        ((Eval.Growing.expr agree.grows condition).bind fun _ => .truth _ _) ?_ ?_
      · refine (simulates_expr agree condition condition' realizesCondition _).bind
          (fun _ => .truth _ _) ?_
        intro later further value value' values
        exact .truth span values
      · refine (simulates_expr agree body body' realizesBody _).bind (fun _ => .result _) ?_
        intro later further _ _ _
        exact .result fun _ _ => rfl
  | eval inner span =>
      simp only [Expr.RealizesStmt] at realizes
      obtain ⟨inner', realizesInner, rfl⟩ := realizes
      simp only [Eval.stmt]
      refine (simulates_expr agree inner inner' realizesInner _).bind (fun _ => .result _) ?_
      intro later further _ _ _
      exact .result fun _ _ => rfl
termination_by structural stmt

theorem simulates_stmts
    {pairing : Pairing}
    (agree : S.ContextsMatch pairing context context')
    (list realized : List Stmt)
    (realizes : Expr.RealizesStmts S.rules S.table S.grown list realized)
    (shape : List Layer) :
    S.Simulates pairing (.shared :: shape) SameResult (Eval.stmts context list)
      (Eval.stmts context' realized) := by
  cases list with
  | nil =>
      simp only [Expr.RealizesStmts] at realizes
      subst realizes
      simp only [Eval.stmts]
      exact .result fun _ _ => rfl
  | cons first rest =>
      simp only [Expr.RealizesStmts] at realizes
      obtain ⟨first', rest', realizesFirst, realizesRest, rfl⟩ := realizes
      simp only [Eval.stmts]
      refine (simulates_stmt agree first first' realizesFirst shape).bind
        (fun _ => .stmts agree.grows rest) ?_
      intro later further _ _ _
      exact simulates_stmts (agree.mono further) rest rest' realizesRest shape
termination_by structural list

end

end Comparison

end NilSafety
