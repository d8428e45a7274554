import NilSafety.Eval.Session
import NilSafety.Proofs.Tree.Assignments

/-!
Contract: properties of computations that the meaning of trees keeps.

Owns:
- regimes: properties of computations that hold where at most containers are replaced and
  every error is an admitted one, and that carry over to sequences;
- that operators, members and run-time checks do not complain about the left sides of
  assignments;
- that a regime which the functions of a program obey holds of a node other than a block
  if it holds of its children, and likewise of a statement.

Does not own: what a regime says of variables, of blocks and of the records of calls, and
activations of functions.

The complaint about a left side is the one error that a tree provokes by its shape, not by
its values. So a regime may single out some assignments; it admits all other errors.
-/

namespace NilSafety

/-- A program calls this function under some name, or as a method. -/
def Program.Defines (program : Program) (f : Function) : Prop :=
  (∃ name, program.function? name = some f) ∨ ∃ cls name, program.method? cls name = some f

theorem Program.defines_of_staticMethod?
    {program : Program}
    {names : List String}
    {f : Function}
    (isMethod : program.staticMethod? names = some f) :
    program.Defines f := by
  unfold staticMethod? at isMethod
  split at isMethod
  · simp only [Option.bind_eq_bind, Option.bind_eq_some_iff] at isMethod
    obtain ⟨cls, -, name, -, isMethod⟩ := isMethod
    exact .inr ⟨cls, name, isMethod⟩
  · cases isMethod

/-- The error is not the complaint that the left side of an assignment is no target. -/
def EvalError.IsOther (error : EvalError) : Prop :=
  ∀ span, error ≠ .type .target span

/-- A property of computations that is kept where they follow one another, as long as they
raise only the errors that it admits. -/
structure Eval.Regime where
  holds : {α : Type} → Eval α → Prop
  admits : EvalError → Prop
  /-- It holds of what replaces at most containers and raises what it admits. -/
  still : ∀ {α : Type} {computation : Eval α},
    (∀ machine, ∃ heap, (computation machine).2 = { machine with heap }) →
    (∀ machine error, (computation machine).1 = .error error → admits error) →
    holds computation
  bind : ∀ {α β : Type} {first : Eval α} {rest : α → Eval β},
    holds first → (∀ value, holds (rest value)) → holds (first >>= rest)
  others : ∀ error : EvalError, error.IsOther → admits error

/-! ### Errors of operators, members and checks -/

theorem UnaryOp.apply_ne_target {op : UnaryOp} {operand : Value} :
    op.apply operand ≠ .error .target := by
  unfold UnaryOp.apply
  split <;> nofun

theorem BinaryOp.apply_ne_target {op : BinaryOp} {left right : Value} :
    op.apply left right ≠ .error .target := by
  unfold BinaryOp.apply
  split <;> nofun

namespace Member

variable {table : SymbolTable} {heap : Heap} {span : Span} {error : EvalError}

theorem isOther_of_readField
    {object : Value}
    {name : Symbol}
    (fails : readField table heap object name span = .error error) :
    error.IsOther := by
  unfold readField at fails
  split at fails
  · cases fails; nofun
  · cases fails; nofun
  · split at fails <;> cases fails
    nofun
  · cases fails; nofun

theorem isOther_of_readElement
    {collection position : Value}
    (fails : readElement heap collection position span = .error error) :
    error.IsOther := by
  unfold readElement at fails
  split at fails
  · split at fails <;> cases fails <;> nofun
  · cases fails; nofun

theorem isOther_of_writeField
    {object value : Value}
    {name : Symbol}
    (fails : writeField table heap object name value span = .error error) :
    error.IsOther := by
  unfold writeField at fails
  split at fails <;> cases fails <;> nofun

theorem isOther_of_writeElement
    {collection position value : Value}
    (fails : writeElement heap collection position value span = .error error) :
    error.IsOther := by
  unfold writeElement at fails
  split at fails
  · split at fails
    · split at fails <;> cases fails
      nofun
    · split at fails <;> cases fails
      nofun
    · cases fails; nofun
  · cases fails; nofun

end Member

namespace Eval.Regime

variable {α : Type} (regime : Regime)

/-! ### Single steps -/

theorem result (value : α) : regime.holds (result value) :=
  regime.still (fun machine => ⟨machine.heap, rfl⟩) fun _ _ fails => by cases fails

theorem leave (value : Value) : regime.holds (leave value : Eval α) :=
  regime.still (fun machine => ⟨machine.heap, rfl⟩) fun _ _ fails => by cases fails

theorem exhausted : regime.holds (exhausted : Eval α) :=
  regime.still (fun machine => ⟨machine.heap, rfl⟩) fun _ _ fails => by cases fails

theorem machine : regime.holds machine :=
  regime.still (fun machine => ⟨machine.heap, rfl⟩) fun _ _ fails => by cases fails

theorem setHeap (heap : Heap) : regime.holds (setHeap heap) :=
  regime.still (fun _ => ⟨heap, rfl⟩) fun _ _ fails => by cases fails

theorem yieldWith (outcome : α × Heap) : regime.holds (yieldWith outcome) :=
  regime.still (fun _ => ⟨outcome.2, rfl⟩) fun _ _ fails => by cases fails

theorem fail {error : EvalError} (admitted : regime.admits error) :
    regime.holds (fail error : Eval α) := by
  refine regime.still (fun machine => ⟨machine.heap, rfl⟩) ?_
  intro _ raised same
  cases same
  exact admitted

theorem failOther {error : EvalError} (isOther : error.IsOther) :
    regime.holds (Eval.fail error : Eval α) :=
  regime.fail (regime.others error isOther)

theorem ofExcept
    {outcome : Except EvalError α}
    (others : ∀ error, outcome = .error error → error.IsOther) :
    regime.holds (ofExcept outcome) := by
  cases outcome with
  | ok value => exact regime.result value
  | error error => exact regime.failOther (others error rfl)

theorem truth (span : Span) (value : Value) : regime.holds (truth span value) := by
  cases value with
  | bool value => exact regime.result value
  | _ => exact regime.failOther nofun

theorem orFault
    (span : Span)
    {outcome : Except TypeFault Value}
    (noTarget : outcome ≠ .error .target) :
    regime.holds (orFault span outcome) := by
  cases outcome with
  | ok value => exact regime.result value
  | error fault =>
      refine regime.failOther fun _ same => noTarget ?_
      cases same
      rfl

/-! ### Ways of putting computations together -/

theorem ite
    {condition : Prop}
    [Decidable condition]
    {first second : Eval α}
    (holdsFirst : regime.holds first)
    (holdsSecond : regime.holds second) :
    regime.holds (if condition then first else second) := by
  split
  · exact holdsFirst
  · exact holdsSecond

theorem repeatWhile
    (turns : Nat)
    {wanted : Eval Bool}
    {body : Eval Unit}
    (holdsWanted : regime.holds wanted)
    (holdsBody : regime.holds body) :
    regime.holds (repeatWhile turns wanted body) := by
  induction turns with
  | zero => exact regime.exhausted
  | succ turns inductionHypothesis =>
      apply regime.bind holdsWanted
      intro again
      refine regime.ite ?_ (regime.result ())
      exact regime.bind holdsBody fun _ => inductionHypothesis

theorem setHeapFrom
    {outcome : Machine → Except EvalError Heap}
    (others : ∀ machine error, outcome machine = .error error → error.IsOther) :
    regime.holds (setHeapFrom outcome) :=
  regime.bind regime.machine fun _ =>
    regime.bind (regime.ofExcept (others _)) regime.setHeap

theorem entryCall (names : List String) (args : List Value) (span : Span) :
    regime.holds (EntryCall.call names args span) := by
  unfold EntryCall.call
  split
  next entry _ =>
    unfold EntryCall.run
    split
    · apply regime.bind regime.machine
      intro _
      split
      · exact regime.failOther nofun
      · exact regime.exhausted
    · refine regime.bind regime.machine fun _ =>
        regime.bind (regime.ofExcept ?_) regime.yieldWith
      intro error fails
      unfold EntryCall.checkedOf at fails
      split at fails <;> cases fails
      nofun
    · exact regime.result _
    · split
      · exact regime.result _
      · exact regime.failOther nofun
    · exact regime.failOther nofun
  next => exact regime.failOther nofun

theorem readVariable (context : Context) (name : Symbol) (span : Span) :
    regime.holds (context.readVariable name span) := by
  apply regime.bind regime.machine
  intro machine
  split
  · exact regime.result _
  · split
    · exact regime.result _
    · exact regime.failOther nofun

theorem newLiteral (context : Context) (elements : List Value) :
    regime.holds (context.newLiteral elements) :=
  regime.bind regime.machine fun _ =>
    regime.ite (regime.yieldWith _) (regime.yieldWith _)

/-! ### Calls -/

/-- The functions and the native functions of a program obey the regime. -/
structure Invokes (regime : Regime) (context : Context) : Prop where
  functions : ∀ f, context.program.Defines f → ∀ receiver args span,
    regime.holds (context.invoke f receiver args span)
  natives : ∀ name native, context.program.native? name = some native → ∀ args,
    regime.holds (callNative name native args)

section

variable {regime} {context : Context} (invokes : regime.Invokes context)

include invokes

theorem callNamed (name : String) (args : List Value) (span : Span) :
    regime.holds (context.callNamed name args span) := by
  unfold Context.callNamed
  split
  next f isFunction => exact invokes.functions f (.inl ⟨name, isFunction⟩) _ _ _
  next =>
    split
    next native isNative => exact invokes.natives name native isNative args
    next => exact regime.failOther nofun

theorem callExpr (callee : Expr) (args : List Value) (span : Span) :
    regime.holds (context.callExpr callee args span) := by
  unfold Context.callExpr
  split
  · exact callNamed invokes _ _ _
  · unfold Context.callPath
    dsimp only
    split
    · exact regime.entryCall _ _ _
    · split
      next f isMethod =>
        exact invokes.functions f (Program.defines_of_staticMethod? isMethod) _ _ _
      next => exact callNamed invokes _ _ _
  · exact regime.failOther nofun

theorem callMethod (receiver : Value) (method : Symbol) (args : List Value) (span : Span) :
    regime.holds (context.callMethod receiver method args span) := by
  unfold Context.callMethod
  split
  · exact regime.failOther nofun
  · exact regime.failOther nofun
  · split
    next f isMethod => exact invokes.functions f (.inr ⟨_, _, isMethod⟩) _ _ _
    next => exact regime.failOther nofun
  · apply regime.bind regime.machine
    intro _
    split
    · exact regime.yieldWith _
    · exact regime.failOther nofun

end

/-! ### Nodes over their children -/

/-- The regime holds of an expression. -/
def Evaluates (regime : Regime) (context : Context) (expr : Expr) : Prop :=
  regime.holds (Eval.expr context expr)

section

variable {context : Context}

theorem optional
    (default : Value)
    {given : Option Expr}
    (each : ∀ expr ∈ given.toList, regime.Evaluates context expr) :
    regime.holds (Eval.optional context default given) := by
  cases given with
  | none =>
      simp only [Eval.optional]
      exact regime.result default
  | some given =>
      simp only [Eval.optional]
      exact each given List.mem_cons_self

theorem exprs {list : List Expr} (each : ∀ expr ∈ list, regime.Evaluates context expr) :
    regime.holds (Eval.exprs context list) := by
  induction list with
  | nil =>
      simp only [Eval.exprs]
      exact regime.result []
  | cons first rest inductionHypothesis =>
      rw [List.forall_mem_cons] at each
      simp only [Eval.exprs]
      exact regime.bind each.1 fun _ => regime.bind (inductionHypothesis each.2) fun _ =>
        regime.result _

theorem args
    {list : List Arg}
    (each : ∀ expr ∈ list.map Arg.value, regime.Evaluates context expr) :
    regime.holds (Eval.args context list) := by
  induction list with
  | nil =>
      simp only [Eval.args]
      exact regime.result []
  | cons arg rest inductionHypothesis =>
      obtain ⟨label, first⟩ := arg
      rw [List.map_cons, List.forall_mem_cons] at each
      simp only [Eval.args]
      exact regime.bind each.1 fun _ => regime.bind (inductionHypothesis each.2) fun _ =>
        regime.result _

theorem inits
    {list : List Init}
    (each : ∀ expr ∈ list.map Init.value, regime.Evaluates context expr) :
    regime.holds (Eval.inits context list) := by
  induction list with
  | nil =>
      simp only [Eval.inits]
      exact regime.result []
  | cons init rest inductionHypothesis =>
      obtain ⟨name, first⟩ := init
      rw [List.map_cons, List.forall_mem_cons] at each
      simp only [Eval.inits]
      exact regime.bind each.1 fun _ => regime.bind (inductionHypothesis each.2) fun _ =>
        regime.result _

/-- An assignment replaces the value of a variable or the contents of a container. Only one
to what is no target raises the complaint itself. -/
theorem assign
    {value : Value}
    {span : Span}
    {target : Expr}
    (each : target.isTarget → ∀ expr ∈ target.children, regime.Evaluates context expr)
    (writes : ∀ name region, target = .ident name region →
      regime.holds (context.writeVariable name value span))
    (admitted : target.isTarget = false → regime.admits (.type .target span)) :
    regime.holds (Eval.assign context value span target) := by
  cases target with
  | ident name region =>
      simp only [Eval.assign]
      exact writes name region rfl
  | field object name marked _ =>
      simp only [Eval.assign]
      exact regime.bind (each rfl object List.mem_cons_self) fun _ =>
        regime.setHeapFrom fun _ _ => Member.isOther_of_writeField
  | index collection position _ =>
      simp only [Eval.assign]
      exact regime.bind (each rfl collection List.mem_cons_self) fun _ =>
        regime.bind (each rfl position (List.mem_cons_of_mem _ List.mem_cons_self)) fun _ =>
          regime.setHeapFrom fun _ _ => Member.isOther_of_writeElement
  | _ =>
      simp only [Eval.assign]
      exact regime.fail (admitted rfl)

/-- The regime holds of a statement if it holds of the expressions inside, of bindings and,
if the statement is an assignment, of what this does to its target. -/
theorem stmt
    {stmt : Stmt}
    (each : ∀ expr ∈ stmt.children, regime.Evaluates context expr)
    (defines : ∀ name value, regime.holds (defineVariable name value))
    (assigns : ∀ assignment ∈ stmt.ownAssignments, ∀ value,
      regime.holds (Eval.assign context value assignment.span assignment.target)) :
    regime.holds (Eval.stmt context stmt) := by
  cases stmt with
  | bind name isMutable note init span =>
      simp only [Eval.stmt]
      exact regime.bind (regime.optional .nil each) fun _ => defines _ _
  | ret value span =>
      simp only [Eval.stmt]
      exact regime.bind (regime.optional .unit each) fun _ => regime.leave _
  | assign target value span =>
      simp only [Eval.stmt]
      exact regime.bind (each value (List.mem_cons_of_mem _ List.mem_cons_self)) fun _ =>
        assigns _ List.mem_cons_self _
  | loop condition body span =>
      simp only [Eval.stmt]
      exact regime.repeatWhile _
        (regime.bind (each condition List.mem_cons_self) fun _ => regime.truth _ _)
        (regime.bind (each body (List.mem_cons_of_mem _ List.mem_cons_self)) fun _ =>
          regime.result _)
  | eval inner span =>
      simp only [Eval.stmt]
      exact regime.bind (each inner List.mem_cons_self) fun _ => regime.result _

variable {regime}

/-- The regime holds of a node if it holds of its children and of blocks. -/
theorem node
    (invokes : regime.Invokes context)
    {expr : Expr}
    (each : ∀ child ∈ expr.children, regime.Evaluates context child)
    (blocks : ∀ stmts tail span, expr = .block stmts tail span → regime.Evaluates context expr) :
    regime.Evaluates context expr := by
  unfold Evaluates
  cases expr with
  | int | str | bool | nil =>
      simp only [Eval.expr]
      exact regime.result _
  | ident name span =>
      simp only [Eval.expr]
      exact regime.readVariable context name span
  | path segments span =>
      simp only [Eval.expr]
      exact regime.failOther nofun
  | unary op operand span =>
      simp only [Eval.expr]
      exact regime.bind (each operand List.mem_cons_self) fun _ =>
        regime.orFault _ UnaryOp.apply_ne_target
  | binary left op right span =>
      have holdsLeft := each left List.mem_cons_self
      have holdsRight := each right (List.mem_cons_of_mem _ List.mem_cons_self)
      cases op with
      | and =>
          simp only [Eval.expr]
          refine regime.bind holdsLeft fun _ => regime.bind (regime.truth _ _) fun _ =>
            regime.ite ?_ (regime.result _)
          exact regime.bind holdsRight fun _ => regime.bind (regime.truth _ _) fun _ =>
            regime.result _
      | or =>
          simp only [Eval.expr]
          refine regime.bind holdsLeft fun _ => regime.bind (regime.truth _ _) fun _ =>
            regime.ite (regime.result _) ?_
          exact regime.bind holdsRight fun _ => regime.bind (regime.truth _ _) fun _ =>
            regime.result _
      | _ =>
          simp only [Eval.expr]
          exact regime.bind holdsLeft fun _ => regime.bind holdsRight fun _ =>
            regime.orFault _ BinaryOp.apply_ne_target
  | cond condition thenBranch elseBranch span =>
      simp only [Expr.children, List.forall_mem_cons] at each
      simp only [Eval.expr]
      exact regime.bind each.1 fun _ => regime.bind (regime.truth _ _) fun _ =>
        regime.ite each.2.1 (regime.optional .unit each.2.2)
  | block stmts tail span => exact blocks stmts tail span rfl
  | call callee given span =>
      rw [Expr.children, List.forall_mem_cons] at each
      simp only [Eval.expr]
      exact regime.bind (regime.args each.2) fun _ => callExpr invokes _ _ _
  | method receiver name given marked span =>
      rw [Expr.children, List.forall_mem_cons] at each
      simp only [Eval.expr]
      refine regime.bind each.1 fun _ => regime.ite (regime.result _) ?_
      exact regime.bind (regime.args each.2) fun _ => callMethod invokes _ _ _ _
  | field object name marked span =>
      simp only [Eval.expr]
      refine regime.bind (each object List.mem_cons_self) fun _ =>
        regime.ite (regime.result _) ?_
      exact regime.bind regime.machine fun _ =>
        regime.ofExcept fun _ => Member.isOther_of_readField
  | index collection position span =>
      simp only [Eval.expr]
      exact regime.bind (each collection List.mem_cons_self) fun _ =>
        regime.bind (each position (List.mem_cons_of_mem _ List.mem_cons_self)) fun _ =>
          regime.bind regime.machine fun _ =>
            regime.ofExcept fun _ => Member.isOther_of_readElement
  | construct name given span =>
      simp only [Eval.expr]
      exact regime.bind (regime.inits each) fun _ => regime.bind regime.machine fun _ =>
        regime.yieldWith _
  | array elements span =>
      simp only [Eval.expr]
      exact regime.bind (regime.exprs each) fun _ => regime.newLiteral _ _
  | paren inner span =>
      simp only [Eval.expr]
      exact each inner List.mem_cons_self

end

end Eval.Regime

end NilSafety
