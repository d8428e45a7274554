import NilSafety.Eval.Run
import NilSafety.Rewrite.ArrayLiteral
import NilSafety.Rewrite.SafeAccess

/-!
Contract: what generated code evaluates to.

Owns:
- what follows a computation that ended in a known way;
- the meaning of a check for nil in front of an access: the receiver is evaluated
  once, and the access acts on its value or is left out;
- the meaning of a wrapped array literal: a plain array is built, then a checked
  one with its elements.

Does not own: where such code is generated.
-/

namespace NilSafety

/-! ### Variables just bound -/

theorem Env.get?_define_self (env : Env) (name : Symbol) (value : Value) :
    (env.define name value).get? name = some value := by
  unfold get? define
  rw [lookup, SymbolMap.get?_set_self]

theorem Env.get?_push (env : Env) (name : Symbol) : env.push.get? name = env.get? name := rfl

namespace Eval

variable {α β : Type}

section

variable {first : Eval α} {machine after : Machine}

/-- What follows a computation that ended with a result. -/
theorem bind_of_next
    {value : α}
    (ended : first machine = (.next value, after))
    (rest : α → Eval β) :
    (first >>= rest) machine = rest value after := by
  show first.andThen rest machine = _
  unfold andThen
  rw [ended]

/-- Nothing follows a computation that failed. -/
theorem bind_of_error
    {error : EvalError}
    (failed : first machine = (.error error, after))
    (rest : α → Eval β) :
    (first >>= rest) machine = (.error error, after) := by
  show first.andThen rest machine = _
  unfold andThen
  rw [failed]

/-- A sequence that ended with a result got past its first part. -/
theorem exists_of_bind_eq_next
    {rest : α → Eval β}
    {value : β}
    (ended : (first >>= rest) machine = (.next value, after)) :
    ∃ middle between, first machine = (.next middle, between) ∧
      rest middle between = (.next value, after) := by
  change first.andThen rest machine = _ at ended
  unfold andThen at ended
  rcases ran : first machine with ⟨flow, between⟩
  rw [ran] at ended
  cases flow with
  | next middle => exact ⟨middle, between, rfl, ended⟩
  | ret | error | exhausted => cases ended

end

theorem result_bind (value : α) (rest : α → Eval β) : (result value >>= rest) = rest value := rfl

/-- A block that only yields a value changes nothing. -/
theorem inBlock_result (value : α) : inBlock (result value) = result value := rfl

/-- Reading a variable that has a value. -/
theorem readVariable_of_get?
    (context : Context)
    {name : Symbol}
    {value : Value}
    {machine : Machine}
    (bound : machine.env.get? name = some value)
    (span : Span) :
    context.readVariable name span machine = (.next value, machine) := by
  have read : Eval.machine machine = (.next machine, machine) := rfl
  unfold Context.readVariable
  rw [bind_of_next read, bound]
  rfl

/-- Reading a variable that was bound just before. -/
theorem define_readVariable
    (context : Context)
    (name : Symbol)
    (value : Value)
    (span : Span)
    (rest : Value → Eval α) :
    (do
        defineVariable name value
        let found ← context.readVariable name span
        rest found) =
      (do
        defineVariable name value
        rest value) := by
  funext machine
  have bound := machine.env.get?_define_self name value
  exact bind_of_next (readVariable_of_get? context bound span) rest

/-- Reading it in a scope opened since. -/
theorem define_inBlock_readVariable
    (context : Context)
    (name : Symbol)
    (value : Value)
    (span : Span)
    (rest : Value → Eval α) :
    (do
        defineVariable name value
        inBlock (do
          let found ← context.readVariable name span
          rest found)) =
      (do
        defineVariable name value
        inBlock (rest value)) := by
  funext machine
  have bound : (machine.env.define name value).push.get? name = some value :=
    machine.env.get?_define_self name value
  have reads : (context.readVariable name span >>= rest)
        { machine with env := (machine.env.define name value).push } =
      rest value { machine with env := (machine.env.define name value).push } :=
    bind_of_next (readVariable_of_get? context bound span) rest
  show inBlock (context.readVariable name span >>= rest)
      { machine with env := machine.env.define name value } =
    inBlock (rest value) { machine with env := machine.env.define name value }
  unfold inBlock
  dsimp only
  rw [reads]

/-! ### Accesses behind a check for nil -/

/-- Host equality with nil is nil or absence, and nothing else: a present nil is
not equal to nil. -/
theorem hostEq_nil (value : Value) : value.hostEq .nil = value.isNil := by
  cases value <;> rfl

/-- The code of a check for nil, in front of an access that evaluates its receiver
and then does `rest`. -/
theorem expr_nilChecked
    (context : Context)
    {access : Expr → Bool → Expr}
    {rest : Value → Eval Value}
    (evaluates : ∀ on marked, expr context (access on marked) = (do
      let value ← expr context on
      if context.skips marked value then result .nil else rest value))
    (temp : Symbol)
    (receiver : Expr)
    (span : Span) :
    expr context (.nilChecked temp receiver (access (.ident temp span) false) span) =
      inBlock (do
        let value ← expr context receiver
        defineVariable temp value
        if value.isNil then result .nil else inBlock (rest value)) := by
  have unmarked : expr context (access (.ident temp span) false) =
      (context.readVariable temp span >>= rest) := by
    rw [evaluates]
    simp only [expr, Context.skips, Bool.and_false, Bool.false_and, Bool.false_eq_true, if_false]
  have checks : ∀ value : Value, (do
        defineVariable temp value
        let found ← context.readVariable temp span
        let wanted ← truth span (.bool (found.hostEq .nil))
        if wanted then result Value.nil
        else inBlock (expr context (access (.ident temp span) false))) =
      (do
        defineVariable temp value
        if value.isNil then result .nil else inBlock (rest value)) := by
    intro value
    rw [define_readVariable, hostEq_nil]
    cases value.isNil with
    | true => rfl
    | false =>
        rw [unmarked]
        exact define_inBlock_readVariable context temp value span rest
  unfold Expr.nilChecked Expr.inBraces
  simp only [expr, stmts, stmt, optional, BinaryOp.apply, orFault, bind_assoc, result_bind,
    inBlock_result, checks]

/-! ### Wrapped literals -/

/-- Calling the constructor of checked arrays, by a path that names it. -/
theorem callExpr_checkedArray
    (context : Context)
    {segments : List Symbol}
    (named : segments.map context.program.table.display = Expr.checkedArrayPath)
    (calleeSpan : Span)
    (args : List Value)
    (span : Span) :
    context.callExpr (.path segments calleeSpan) args span =
      EntryCall.call [EntryPoint.checkedArray, EntryPoint.fromArray] args span := by
  unfold Context.callExpr Context.callPath Context.name
  dsimp only
  rw [named]
  rfl

/-- A wrapped literal, if its path names the constructor. -/
theorem expr_wrappedLiteral
    (context : Context)
    (plain : context.rules.checksLiterals = false)
    {segments : List Symbol}
    (named : segments.map context.program.table.display = Expr.checkedArrayPath)
    (elements : List Expr)
    (span : Span) :
    expr context (.call (.path segments span) [.plain (.array elements span)] span) =
      (do
        let values ← exprs context elements
        let machine ← machine
        yieldWith ((machine.heap.newArray values.toArray).2.newChecked values.toArray)) := by
  have constructs := fun args => callExpr_checkedArray context named span args span
  have builds : ∀ values : List Value, (do
        let array ← context.newLiteral values
        EntryCall.call [EntryPoint.checkedArray, EntryPoint.fromArray] [array] span) =
      (do
        let machine ← machine
        yieldWith ((machine.heap.newArray values.toArray).2.newChecked values.toArray)) := by
    intro values
    funext machine
    have contents : (machine.heap.newArray values.toArray).2.elements machine.heap.arrays.next =
        values.toArray := by
      unfold Heap.elements Heap.newArray Store.read Store.alloc Store.next
      simp
    show (context.newLiteral values).andThen _ machine = _
    have plainly : context.newLiteral values machine =
        (.next (.array machine.heap.arrays.next),
          { machine with heap := (machine.heap.newArray values.toArray).2 }) := by
      show (if context.rules.checksLiterals = true then _ else _ : Eval Value) machine = _
      rw [plain]
      rfl
    unfold andThen
    rw [plainly]
    show (_ : Flow Value × Machine) = _
    show yieldWith ((machine.heap.newArray values.toArray).2.newChecked
      ((machine.heap.newArray values.toArray).2.elements machine.heap.arrays.next)) _ = _
    rw [contents]
    rfl
  simp only [expr, args, Arg.plain, constructs, bind_assoc, result_bind, builds]

/-- A literal that is wrapped twice yields the array that it yields when it is wrapped once. -/
theorem expr_wrappedTwice
    (context : Context)
    (plain : context.rules.checksLiterals = false)
    {segments segments' : List Symbol}
    (named : segments.map context.program.table.display = Expr.checkedArrayPath)
    (named' : segments'.map context.program.table.display = Expr.checkedArrayPath)
    (elements : List Expr)
    (span : Span) :
    expr context (.call (.path segments span)
        [.plain (.call (.path segments' span) [.plain (.array elements span)] span)] span) =
      expr context (.call (.path segments span) [.plain (.array elements span)] span) := by
  have once := expr_wrappedLiteral context plain named elements span
  have inner := expr_wrappedLiteral context plain named' elements span
  have again : expr context (.call (.path segments span)
        [.plain (.call (.path segments' span) [.plain (.array elements span)] span)] span) =
      (do
        let value ← expr context (.call (.path segments' span) [.plain (.array elements span)] span)
        EntryCall.call [EntryPoint.checkedArray, EntryPoint.fromArray] [value] span) := by
    rw [expr]
    simp only [args, Arg.plain, callExpr_checkedArray context named, bind_assoc, result_bind]
  have passes : ∀ values : List Value, (do
        let machine ← machine
        let value ← yieldWith ((machine.heap.newArray values.toArray).2.newChecked values.toArray)
        EntryCall.call [EntryPoint.checkedArray, EntryPoint.fromArray] [value] span) =
      (do
        let machine ← machine
        yieldWith ((machine.heap.newArray values.toArray).2.newChecked values.toArray)) := by
    intro values
    funext machine
    rfl
  rw [again, inner, once]
  simp only [bind_assoc, passes]

end Eval

end NilSafety
