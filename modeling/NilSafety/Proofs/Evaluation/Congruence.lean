import NilSafety.Proofs.Evaluation.Exact
import NilSafety.Proofs.Tree.Children

/-!
Contract: expressions that evaluate alike.

Owns:
- computations that end alike on every machine, but for the texts of two errors, and leave
  the same machine behind, with one rule for each way in which computations are put together;
- expressions that are alike wherever a program may use one: for their values, as what is
  assigned to, and in front of arguments;
- that a node over children that are alike is alike;
- that a computation may be replaced by one that is alike on the second side of a comparison
  in which nothing is refused.

Does not own: which expressions are alike, and activations of functions, which are the same
here.

Both sides run under one context. Only the text of an expression that cannot be called can
differ, since an error carries that expression.
-/

namespace NilSafety

/-! ### Computations -/

/-- The computations end alike on every machine, but for the texts of two errors, and leave
the same machine behind. -/
def Eval.Alike {α : Type} (computation computation' : Eval α) : Prop :=
  ∀ machine, (computation machine).1.Agrees (computation' machine).1 ∧
    (computation' machine).2 = (computation machine).2

namespace Eval.Alike

variable {α β : Type}

theorem refl (computation : Eval α) : computation.Alike computation :=
  fun _ => ⟨.refl _, rfl⟩

theorem fail {error error' : EvalError} (agrees : error.Agrees error') :
    (Eval.fail error : Eval α).Alike (Eval.fail error') :=
  fun _ => ⟨.error agrees, rfl⟩

theorem bind
    {first first' : Eval α}
    {rest rest' : α → Eval β}
    (agree : first.Alike first')
    (agreeRest : ∀ value, (rest value).Alike (rest' value)) :
    (first >>= rest).Alike (first' >>= rest') := by
  intro machine
  have outcome := agree machine
  show (first.andThen rest machine).1.Agrees (first'.andThen rest' machine).1 ∧
    (first'.andThen rest' machine).2 = (first.andThen rest machine).2
  unfold Eval.andThen
  rcases ran : first machine with ⟨flow, after⟩
  rcases ran' : first' machine with ⟨flow', after'⟩
  rw [ran, ran'] at outcome
  obtain ⟨flows, same⟩ := outcome
  dsimp only at same
  subst same
  cases flows with
  | error agrees => exact ⟨.error agrees, rfl⟩
  | refl =>
      cases flow with
      | next value => exact agreeRest value after'
      | ret | error | exhausted => exact ⟨.refl _, rfl⟩

/-- Computations go on alike after the same one. -/
theorem andThen
    (first : Eval α)
    {rest rest' : α → Eval β}
    (agreeRest : ∀ value, (rest value).Alike (rest' value)) :
    (first >>= rest).Alike (first >>= rest') :=
  (refl first).bind agreeRest

theorem inBlock {computation computation' : Eval α} (agree : computation.Alike computation') :
    (Eval.inBlock computation).Alike (Eval.inBlock computation') := by
  intro machine
  obtain ⟨flows, same⟩ := agree { machine with env := machine.env.push }
  exact ⟨flows, congrArg (fun after : Machine => { after with env := after.env.pop }) same⟩

theorem repeatWhile
    (turns : Nat)
    {wanted wanted' : Eval Bool}
    {body body' : Eval Unit}
    (agreeWanted : wanted.Alike wanted')
    (agreeBody : body.Alike body') :
    (Eval.repeatWhile turns wanted body).Alike (Eval.repeatWhile turns wanted' body') := by
  induction turns with
  | zero => exact refl _
  | succ turns inductionHypothesis =>
      refine agreeWanted.bind fun again => ?_
      cases again with
      | true => exact agreeBody.bind fun _ => inductionHypothesis
      | false => exact refl _

end Eval.Alike

/-! ### Expressions -/

namespace Expr

/-- Each of the expressions may take the other one's place, wherever it stands. -/
structure Alike (context : Context) (expr expr' : Expr) : Prop where
  value : (Eval.expr context expr).Alike (Eval.expr context expr')
  target : ∀ value span,
    (Eval.assign context value span expr).Alike (Eval.assign context value span expr')
  callee : ∀ args span,
    (context.callExpr expr args span).Alike (context.callExpr expr' args span)

namespace Alike

variable {context : Context}

theorem refl (context : Context) (expr : Expr) : expr.Alike context expr :=
  ⟨.refl _, fun _ _ => .refl _, fun _ _ => .refl _⟩

/-! ### Parts of nodes -/

theorem optional
    (default : Value)
    {option : Option Expr}
    {exprs : List Expr}
    (children : List.Forall₂ (Alike context) option.toList exprs) :
    (Eval.optional context default option).Alike (Eval.optional context default exprs.head?) := by
  cases option with
  | none =>
      cases children
      exact .refl _
  | some expr =>
      obtain _ | ⟨first, ⟨⟩⟩ := children
      simp only [List.head?_cons, Eval.optional]
      exact first.value

theorem exprs
    {list list' : List Expr}
    (children : List.Forall₂ (Alike context) list list') :
    (Eval.exprs context list).Alike (Eval.exprs context list') := by
  induction children with
  | nil => exact .refl _
  | cons first _ inductionHypothesis =>
      simp only [Eval.exprs]
      exact first.value.bind fun _ => inductionHypothesis.bind fun _ => .refl _

theorem args
    {args : List Arg}
    {exprs : List Expr}
    (children : List.Forall₂ (Alike context) (args.map Arg.value) exprs) :
    (Eval.args context args).Alike (Eval.args context (args.zipWith Arg.withValue exprs)) := by
  induction args generalizing exprs with
  | nil => exact .refl _
  | cons arg rest inductionHypothesis =>
      obtain _ | ⟨first, others⟩ := children
      obtain ⟨label, expr⟩ := arg
      simp only [List.zipWith_cons_cons, Arg.withValue, Eval.args]
      exact first.value.bind fun _ => (inductionHypothesis others).bind fun _ => .refl _

theorem inits
    {inits : List Init}
    {exprs : List Expr}
    (children : List.Forall₂ (Alike context) (inits.map Init.value) exprs) :
    (Eval.inits context inits).Alike (Eval.inits context (inits.zipWith Init.withValue exprs)) := by
  induction inits generalizing exprs with
  | nil => exact .refl _
  | cons init rest inductionHypothesis =>
      obtain _ | ⟨first, others⟩ := children
      obtain ⟨name, expr⟩ := init
      simp only [List.zipWith_cons_cons, Init.withValue, Eval.inits]
      exact first.value.bind fun _ => (inductionHypothesis others).bind fun _ => .refl _

theorem stmt
    {stmt : Stmt}
    {exprs : List Expr}
    (children : List.Forall₂ (Alike context) stmt.children exprs) :
    (Eval.stmt context stmt).Alike (Eval.stmt context (stmt.refill exprs)) := by
  cases stmt with
  | bind name isMutable note init span =>
      simp only [Stmt.refill, Eval.stmt]
      exact (optional .nil children).bind fun _ => .refl _
  | ret value span =>
      simp only [Stmt.refill, Eval.stmt]
      exact (optional .unit children).bind fun _ => .refl _
  | assign target value span =>
      obtain _ | ⟨first, _ | ⟨second, ⟨⟩⟩⟩ := children
      simp only [Stmt.refill, Eval.stmt]
      exact second.value.bind fun result => first.target result span
  | loop condition body span =>
      obtain _ | ⟨first, _ | ⟨second, ⟨⟩⟩⟩ := children
      simp only [Stmt.refill, Eval.stmt]
      exact .repeatWhile _ (first.value.bind fun _ => .refl _) (second.value.bind fun _ => .refl _)
  | eval inner span =>
      obtain _ | ⟨first, ⟨⟩⟩ := children
      simp only [Stmt.refill, Eval.stmt]
      exact first.value.bind fun _ => .refl _

theorem stmts
    {stmts : List Stmt}
    {exprs : List Expr}
    (children : List.Forall₂ (Alike context) (stmts.flatMap Stmt.children) exprs) :
    (Eval.stmts context stmts).Alike
      (Eval.stmts context (refillEach Stmt.children Stmt.refill stmts exprs)) := by
  induction stmts generalizing exprs with
  | nil => exact .refl _
  | cons first rest inductionHypothesis =>
      rw [List.flatMap_cons] at children
      obtain ⟨ofFirst, ofRest⟩ := forall₂_split children
      simp only [refillEach, Eval.stmts]
      exact (stmt ofFirst).bind fun _ => inductionHypothesis ofRest

/-! ### Nodes -/

theorem binary
    {left right left' right' : Expr}
    (op : BinaryOp)
    (span : Span)
    (first : left.Alike context left')
    (second : right.Alike context right') :
    (Eval.expr context (.binary left op right span)).Alike
      (Eval.expr context (.binary left' op right' span)) := by
  cases op with
  | and =>
      simp only [Eval.expr]
      refine first.value.bind fun value => .andThen _ fun isTrue => ?_
      cases isTrue with
      | true => exact second.value.bind fun _ => .refl _
      | false => exact .refl _
  | or =>
      simp only [Eval.expr]
      refine first.value.bind fun value => .andThen _ fun isTrue => ?_
      cases isTrue with
      | true => exact .refl _
      | false => exact second.value.bind fun _ => .refl _
  | _ =>
      simp only [Eval.expr]
      exact first.value.bind fun _ => second.value.bind fun _ => .refl _

/-- The value of a node over children that are alike. -/
theorem valueOfNode
    {expr : Expr}
    {exprs : List Expr}
    (children : List.Forall₂ (Alike context) expr.children exprs) :
    (Eval.expr context expr).Alike (Eval.expr context (expr.refill exprs)) := by
  cases expr with
  | int | str | bool | nil | ident | path => exact .refl _
  | unary op operand span =>
      obtain _ | ⟨first, ⟨⟩⟩ := children
      simp only [refill, List.getD_cons_zero, Eval.expr]
      exact first.value.bind fun _ => .refl _
  | binary left op right span =>
      obtain _ | ⟨first, _ | ⟨second, ⟨⟩⟩⟩ := children
      exact binary op span first second
  | cond condition thenBranch elseBranch span =>
      obtain _ | ⟨first, _ | ⟨second, others⟩⟩ := children
      simp only [refill, List.getD_cons_zero, List.getD_cons_succ, List.drop_succ_cons,
        List.drop_zero, Eval.expr]
      refine first.value.bind fun value => .andThen _ fun isTrue => ?_
      cases isTrue with
      | true => exact second.value
      | false => exact optional .unit others
  | block body tail span =>
      have room := children.length_eq.symm
      rw [Expr.children, List.length_append] at room
      obtain ⟨ofBody, ofTail⟩ := forall₂_split children
      rw [refill_block room]
      simp only [Eval.expr]
      exact ((stmts ofBody).bind fun _ => optional .unit ofTail).inBlock
  | call callee given span =>
      obtain _ | ⟨first, others⟩ := children
      simp only [refill, List.getD_cons_zero, List.tail_cons, Eval.expr]
      exact (args others).bind fun values => first.callee values span
  | method receiver name given marked span =>
      obtain _ | ⟨first, others⟩ := children
      simp only [refill, List.getD_cons_zero, List.tail_cons, Eval.expr]
      refine first.value.bind fun value => ?_
      split
      · exact .refl _
      · exact (args others).bind fun _ => .refl _
  | field object name marked span =>
      obtain _ | ⟨first, ⟨⟩⟩ := children
      simp only [refill, List.getD_cons_zero, Eval.expr]
      exact first.value.bind fun _ => .refl _
  | index collection position span =>
      obtain _ | ⟨first, _ | ⟨second, ⟨⟩⟩⟩ := children
      simp only [refill, List.getD_cons_zero, List.getD_cons_succ, Eval.expr]
      exact first.value.bind fun _ => second.value.bind fun _ => .refl _
  | construct name given span =>
      simp only [refill, Eval.expr]
      exact (inits children).bind fun _ => .refl _
  | array elements span =>
      simp only [refill, Eval.expr]
      exact (Alike.exprs children).bind fun _ => .refl _
  | paren inner span =>
      obtain _ | ⟨first, ⟨⟩⟩ := children
      simp only [refill, List.getD_cons_zero, Eval.expr]
      exact first.value

theorem targetOfNode
    {expr : Expr}
    {exprs : List Expr}
    (children : List.Forall₂ (Alike context) expr.children exprs)
    (value : Value)
    (span : Span) :
    (Eval.assign context value span expr).Alike
      (Eval.assign context value span (expr.refill exprs)) := by
  cases expr with
  | field object name marked targetSpan =>
      obtain _ | ⟨first, ⟨⟩⟩ := children
      simp only [refill, List.getD_cons_zero, Eval.assign]
      exact first.value.bind fun _ => .refl _
  | index collection position targetSpan =>
      obtain _ | ⟨first, _ | ⟨second, ⟨⟩⟩⟩ := children
      simp only [refill, List.getD_cons_zero, List.getD_cons_succ, Eval.assign]
      exact first.value.bind fun _ => second.value.bind fun _ => .refl _
  | _ =>
      simp only [refill, Eval.assign]
      exact .refl _

theorem calleeOfNode (expr : Expr) (exprs : List Expr) (args : List Value) (span : Span) :
    (context.callExpr expr args span).Alike (context.callExpr (expr.refill exprs) args span) := by
  cases expr with
  | ident | path => exact .refl _
  | _ => exact .fail (.notCallable _ _ span)

/-- A node over children that are alike is alike. -/
theorem refill
    {expr : Expr}
    {exprs : List Expr}
    (children : List.Forall₂ (Alike context) expr.children exprs) :
    expr.Alike context (expr.refill exprs) :=
  ⟨valueOfNode children, targetOfNode children, calleeOfNode expr exprs⟩

end Alike

end Expr

/-! ### Comparisons -/

theorem EvalError.Agrees.trans
    {first second third : EvalError}
    (agrees : first.Agrees second)
    (further : second.Agrees third) :
    first.Agrees third := by
  cases agrees with
  | refl => exact further
  | notCallable callee callee' span =>
      cases further with
      | refl => exact .notCallable callee callee' span
      | notCallable _ callee'' => exact .notCallable callee callee'' span
  | unknownOwner owner member span =>
      cases further with
      | refl => exact .unknownOwner owner member span
      | unknownOwner owner' => exact .unknownOwner owner' member span

theorem Flow.Matches.of_agrees
    {α β : Type}
    {pairing : Pairing}
    {results : α → β → Prop}
    {flow : Flow α}
    {flow' flow'' : Flow β}
    (agree : flow.Matches pairing results flow')
    (further : flow'.Agrees flow'') :
    flow.Matches pairing results flow'' := by
  cases further with
  | refl => exact agree
  | error agrees =>
      cases agree with
      | error before => exact .error (before.trans agrees)

/-- Where nothing is refused, the second side may run any computation that is alike. -/
theorem Comparison.Simulates.alike
    {S : Comparison}
    {pairing : Pairing}
    {α β : Type}
    (refusesNothing : ∀ invocation invocation' error, ¬ S.refused invocation invocation' error)
    {shape : List Layer}
    {results : Pairing → α → β → Prop}
    {computation : Eval α}
    {computation' computation'' : Eval β}
    (agree : S.Simulates pairing shape results computation computation')
    (further : computation'.Alike computation'') :
    S.Simulates pairing shape results computation computation'' := by
  intro later beyond admitted machine machine' machines
  rcases agree later beyond admitted machine machine' machines with
    ⟨last, above, admittedLast, flows, after⟩ | stopped
  · obtain ⟨agrees, same⟩ := further machine'
    exact .inl ⟨last, above, admittedLast, flows.of_agrees agrees, same ▸ after⟩
  · obtain ⟨_, _, _, _, _, _, _, _, _, _, _, refused, _⟩ := stopped.refusal
    exact absurd refused (refusesNothing _ _ _)

end NilSafety
