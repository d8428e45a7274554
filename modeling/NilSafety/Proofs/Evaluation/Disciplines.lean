import NilSafety.Proofs.Evaluation.Regimes

/-!
Contract: properties of all computations that fail only as expected.

Owns:
- disciplines: properties of computations that hold where the records of calls and of
  invocations stay as they are and every error is an admitted one, and that carry over to
  sequences and blocks;
- that a discipline which the functions of a program obey holds of every expression whose
  assignments it admits.

Does not own: particular disciplines, and activations of functions.

A discipline is a regime that asks nothing of variables, so it holds of bindings and of
assignments to variables too.
-/

namespace NilSafety

/-- A property of computations that is kept where they are put together, as long as they
raise only the errors that it admits. -/
structure Eval.Discipline where
  holds : {α : Type} → Eval α → Prop
  admits : EvalError → Prop
  /-- It holds of what records nothing and raises what it admits. -/
  quiet : ∀ {α : Type} {computation : Eval α},
    (∀ machine : Machine, (computation machine).2.calls = machine.calls ∧
      (computation machine).2.invocations = machine.invocations) →
    (∀ machine error, (computation machine).1 = .error error → admits error) →
    holds computation
  bind : ∀ {α β : Type} {first : Eval α} {rest : α → Eval β},
    holds first → (∀ value, holds (rest value)) → holds (first >>= rest)
  inBlock : ∀ {α : Type} {computation : Eval α},
    holds computation → holds (inBlock computation)
  others : ∀ error : EvalError, error.IsOther → admits error

namespace Eval.Discipline

variable {α : Type} (discipline : Discipline)

/-- The discipline as a regime. -/
def regime : Regime where
  holds := discipline.holds
  admits := discipline.admits
  still keeps raises := by
    refine discipline.quiet (fun machine => ?_) raises
    obtain ⟨heap, same⟩ := keeps machine
    rw [same]
    exact ⟨rfl, rfl⟩
  bind := discipline.bind
  others := discipline.others

/-! ### Variables -/

theorem setEnv (env : Env) : discipline.holds (setEnv env) :=
  discipline.quiet (fun _ => ⟨rfl, rfl⟩) fun _ _ fails => by cases fails

theorem defineVariable (name : Symbol) (value : Value) :
    discipline.holds (defineVariable name value) :=
  discipline.bind discipline.regime.machine fun _ => discipline.setEnv _

theorem writeVariable (context : Context) (name : Symbol) (value : Value) (span : Span) :
    discipline.holds (context.writeVariable name value span) := by
  apply discipline.bind discipline.regime.machine
  intro machine
  split
  · exact discipline.setEnv _
  · exact discipline.regime.failOther nofun

/-! ### Calls -/

/-- The functions and the native functions of a program obey the discipline. -/
structure Invokes (discipline : Discipline) (context : Context) : Prop where
  functions : ∀ f, context.program.Defines f → ∀ receiver args span,
    discipline.holds (context.invoke f receiver args span)
  natives : ∀ name native, context.program.native? name = some native → ∀ args,
    discipline.holds (callNative name native args)

theorem Invokes.regime
    {discipline : Discipline}
    {context : Context}
    (invokes : discipline.Invokes context) :
    discipline.regime.Invokes context :=
  ⟨invokes.functions, invokes.natives⟩

/-! ### Nodes over their children -/

/-- The discipline holds of an expression. -/
def Evaluates (discipline : Discipline) (context : Context) (expr : Expr) : Prop :=
  discipline.holds (Eval.expr context expr)

section

variable {context : Context}

/-- Only an assignment to what is no target raises the complaint itself. -/
theorem assign
    (value : Value)
    {span : Span}
    {target : Expr}
    (each : ∀ expr ∈ target.children, discipline.Evaluates context expr)
    (admitted : target.isTarget = false → discipline.admits (.type .target span)) :
    discipline.holds (Eval.assign context value span target) :=
  discipline.regime.assign (fun _ => each)
    (fun name _ _ => discipline.writeVariable context name value span) admitted

theorem stmts
    {list : List Stmt}
    (each : ∀ expr ∈ list.flatMap Stmt.children, discipline.Evaluates context expr)
    (assigns : ∀ assignment ∈ list.flatMap Stmt.ownAssignments, ∀ value,
      discipline.holds (Eval.assign context value assignment.span assignment.target)) :
    discipline.holds (Eval.stmts context list) := by
  induction list with
  | nil =>
      simp only [Eval.stmts]
      exact discipline.regime.result ()
  | cons first rest inductionHypothesis =>
      rw [List.flatMap_cons, List.forall_mem_append] at each assigns
      simp only [Eval.stmts]
      refine discipline.bind ?_ fun _ => inductionHypothesis each.2 assigns.2
      exact discipline.regime.stmt each.1 discipline.defineVariable assigns.1

variable {discipline}

/-- The discipline holds of a node if it holds of its children and of its assignments. -/
theorem node
    (invokes : discipline.Invokes context)
    {expr : Expr}
    (each : ∀ child ∈ expr.children, discipline.Evaluates context child)
    (assigns : ∀ assignment ∈ expr.ownAssignments, ∀ value,
      discipline.holds (Eval.assign context value assignment.span assignment.target)) :
    discipline.Evaluates context expr := by
  refine Regime.node invokes.regime each ?_
  rintro stmts tail span rfl
  rw [Expr.children, List.forall_mem_append] at each
  unfold Regime.Evaluates
  simp only [Eval.expr]
  exact discipline.inBlock (discipline.bind (discipline.stmts each.1 assigns) fun _ =>
    discipline.regime.optional .unit each.2)

/-! ### Whole trees -/

/-- The discipline admits the complaints about the assignments in a tree whose left sides
are no targets. -/
def Admits (discipline : Discipline) (expr : Expr) : Prop :=
  ∀ assignment ∈ expr.assignments, assignment.target.isTarget = false →
    discipline.admits (.type .target assignment.span)

theorem Admits.child
    {child expr : Expr}
    (admits : discipline.Admits expr)
    (inside : child ∈ expr.children) :
    discipline.Admits child :=
  fun assignment isInside => admits assignment (Expr.assignments_subset inside isInside)

/-- The discipline holds of every expression whose assignments it admits. -/
theorem expr
    (invokes : discipline.Invokes context)
    {expr : Expr}
    (admits : discipline.Admits expr) :
    discipline.Evaluates context expr := by
  -- What stands on a left side is not evaluated itself, only what is inside it.
  suffices both : discipline.Evaluates context expr ∧
      ∀ child ∈ expr.children, discipline.Evaluates context child from both.1
  induction expr using Expr.childInduction with
  | node expr inductionHypothesis =>
      have each : ∀ child ∈ expr.children, discipline.Evaluates context child ∧
          ∀ inner ∈ child.children, discipline.Evaluates context inner :=
        fun child inside => inductionHypothesis child inside (admits.child inside)
      refine ⟨node invokes (fun child inside => (each child inside).1) ?_,
        fun child inside => (each child inside).1⟩
      intro assignment isOwn value
      exact discipline.assign value (each _ (Expr.mem_children_of_mem_ownAssignments isOwn).1).2
        (admits assignment (expr.ownAssignments_subset isOwn))

end

end Eval.Discipline

end NilSafety
