import NilSafety.Proofs.Evaluation.Templates
import NilSafety.Proofs.Tree.Everywhere
import NilSafety.Rewrite.ParamGuard

/-!
Contract: what the guards of a function evaluate to.

Owns:
- the first parameter of an invocation whose note excludes nil and whose argument,
  or whose variable, is nil or absent, and the failure that reports it;
- the meaning of one check, and of the checks of a function in order, at the start
  of its activation;
- the meaning of a body behind checks: that of the body if all of them pass, and
  the failure alone if one does not.

Does not own: which functions have guards, or runs of a program.
-/

namespace NilSafety

namespace Function

/-- The first parameter whose note excludes nil and whose argument is nil or
absent. -/
def firstNil? (table : SymbolTable) (f : Function) (args : List Value) : Option Param :=
  ((f.params.zip args).find? fun pair =>
    decide (pair.1.note.nullability table = .nonNullable) && pair.2.isNil).map Prod.fst

/-- The first parameter whose note excludes nil and whose variable is nil or absent. It
can differ from the first such argument if parameters share a name. -/
def firstNilIn? (table : SymbolTable) (f : Function) (env : Env) : Option Param :=
  (f.guardedParams table).find? fun param => (env.get? param.name).any Value.isNil

end Function

/-- The failure that reports a parameter of the function at `path`, for a call at a
region: generated regions are no place of a call. -/
def GuardFailure.ofParam (table : SymbolTable) (path : Path) (param : Param) (site : Span) :
    GuardFailure :=
  let place := (some site).filter (!·.isGenerated)
  ⟨table.display param.name, path.text, place.map fun span => .clamped span.line span.column⟩

/-! ### The variables of an activation -/

namespace Env

theorem get?_define_of_ne
    (env : Env)
    {name other : Symbol}
    (different : name ≠ other)
    (value : Value) :
    (env.define other value).get? name = env.get? name := by
  unfold get? define
  rw [lookup, lookup, SymbolMap.get?_set_of_ne _ different]

variable {pairs : List (Param × Value)}

theorem get?_foldl_define_of_not_mem
    (env : Env)
    {name : Symbol}
    (isForeign : name ∉ pairs.map (·.1.name)) :
    (pairs.foldl (fun env pair => env.define pair.1.name pair.2) env).get? name =
      env.get? name := by
  induction pairs generalizing env with
  | nil => rfl
  | cons pair rest inductionHypothesis =>
      rw [List.map_cons, List.mem_cons, not_or] at isForeign
      rw [List.foldl_cons, inductionHypothesis _ isForeign.2]
      exact env.get?_define_of_ne isForeign.1 pair.2

theorem get?_foldl_define
    (env : Env)
    (distinct : (pairs.map (·.1.name)).Nodup)
    {pair : Param × Value}
    (isBound : pair ∈ pairs) :
    (pairs.foldl (fun env pair => env.define pair.1.name pair.2) env).get? pair.1.name =
      some pair.2 := by
  induction pairs generalizing env with
  | nil => cases isBound
  | cons first rest inductionHypothesis =>
      rw [List.map_cons, List.nodup_cons] at distinct
      rw [List.foldl_cons]
      rcases List.mem_cons.mp isBound with isFirst | isLater
      · subst isFirst
        rw [get?_foldl_define_of_not_mem _ distinct.1]
        exact env.get?_define_self _ _
      · exact inductionHypothesis _ distinct.2 isLater

theorem exists_get?_foldl_define
    (env : Env)
    {name : Symbol}
    (isBound : name ∈ pairs.map (·.1.name)) :
    ∃ value, (pairs.foldl (fun env pair => env.define pair.1.name pair.2) env).get? name =
      some value := by
  induction pairs generalizing env with
  | nil => cases isBound
  | cons pair rest inductionHypothesis =>
      rw [List.foldl_cons]
      by_cases isLater : name ∈ rest.map (·.1.name)
      · exact inductionHypothesis _ isLater
      · rw [List.map_cons, List.mem_cons, or_iff_left isLater] at isBound
        subst isBound
        rw [get?_foldl_define_of_not_mem _ isLater]
        exact ⟨pair.2, env.get?_define_self _ _⟩

end Env

/-- The names of parameters that are zipped with as many arguments. -/
theorem map_name_zip
    {params : List Param}
    {args : List Value}
    (sameLength : args.length = params.length) :
    (params.zip args).map (·.1.name) = params.map Param.name := by
  have firsts : (params.zip args).map Prod.fst = params :=
    List.map_fst_zip (Nat.le_of_eq sameLength.symm)
  calc
    (params.zip args).map (·.1.name)
      = ((params.zip args).map Prod.fst).map Param.name := by rw [List.map_map]; rfl
    _ = params.map Param.name := by rw [firsts]

/-- Every parameter starts with some value. -/
theorem Program.exists_get?_frame
    (program : Program)
    {params : List Param}
    (receiver : Option Value)
    {args : List Value}
    (sameLength : args.length = params.length)
    {param : Param}
    (isParam : param ∈ params) :
    ∃ value, (program.frame params receiver args).get? param.name = some value := by
  unfold frame
  refine Env.exists_get?_foldl_define _ ?_
  rw [map_name_zip sameLength]
  exact List.mem_map_of_mem isParam

/-- Parameters of distinct names start with their arguments. -/
theorem Program.get?_frame
    (program : Program)
    {f : Function}
    (distinct : f.hasDistinctParams)
    (receiver : Option Value)
    {args : List Value}
    (sameLength : args.length = f.params.length)
    {pair : Param × Value}
    (isBound : pair ∈ f.params.zip args) :
    (program.frame f.params receiver args).get? pair.1.name = some pair.2 := by
  have distinctNames : (f.params.map Param.name).Nodup := of_decide_eq_true distinct
  unfold frame
  exact Env.get?_foldl_define _ (map_name_zip sameLength ▸ distinctNames) isBound

/-! ### One check -/

/-- The names that the symbols of guards stand for. -/
structure GuardSymbols.Reports (table : SymbolTable) (path : Path) (symbols : GuardSymbols) : Prop
    where
  module : table.display symbols.module = EntryPoint.module
  entry : table.display symbols.entry = EntryPoint.guardFailure
  function : table.display symbols.function = path.text

namespace Eval

variable
  {context : Context}
  {path : Path}
  {symbols : GuardSymbols}
  {machine : Machine}

theorem expr_reportGuard
    (reports : symbols.Reports context.program.table path)
    (param : Param)
    (machine : Machine) :
    expr context (.call (.path [symbols.module, symbols.entry] param.span)
        [.plain (.str param.name param.span), .plain (.str symbols.function param.span)]
        param.span) machine =
      (.error (.guardFailed (EntryCall.guardFailure machine
        (context.program.table.display param.name) path.text)), machine) := by
  have names : [symbols.module, symbols.entry].map context.name =
      [EntryPoint.module, EntryPoint.guardFailure] := by
    simp only [List.map_cons, List.map_nil, Context.name, reports.module, reports.entry]
  have called : ∀ args, context.callExpr (.path [symbols.module, symbols.entry] param.span) args
      param.span = EntryCall.call [EntryPoint.guardFailure] args param.span := by
    intro args
    unfold Context.callExpr Context.callPath
    dsimp only
    rw [names]
    rfl
  have texts : ∀ text, machine.heap.text? (.str text) = some text := by
    intro text
    unfold Heap.text?
    cases machine.heap.arrays.next + machine.heap.checkedArrays.next <;> rfl
  simp only [expr, args, Arg.plain, result_bind, called, Context.name, reports.function]
  have read : Eval.machine machine = (.next machine, machine) := rfl
  show EntryCall.run .reportGuard [EntryPoint.guardFailure] [.str _, .str _] param.span machine = _
  unfold EntryCall.run
  dsimp only
  rw [bind_of_next read, texts, texts]
  rfl

/-- A check lets everything pass but nil and absence, and leaves no trace. -/
theorem stmt_check
    (reports : symbols.Reports context.program.table path)
    {param : Param}
    {value : Value}
    (isBound : machine.env.get? param.name = some value) :
    stmt context (symbols.check param) machine =
      if value.isNil then
        (.error (.guardFailed (EntryCall.guardFailure machine
          (context.program.table.display param.name) path.text)), machine)
      else (.next (), machine) := by
  have reads := readVariable_of_get? context isBound param.span
  have tests : expr context (.binary (.ident param.name param.span) .equal (.nil param.span)
      param.span) machine = (.next (.bool value.isNil), machine) := by
    simp only [expr, BinaryOp.apply, orFault, result_bind]
    rw [bind_of_next reads, hostEq_nil]
    rfl
  have failing := expr_reportGuard reports param { machine with env := machine.env.push }
  unfold GuardSymbols.check
  dsimp only
  rw [stmt, expr]
  cases isNil : value.isNil with
  | false =>
      rw [isNil] at tests
      exact bind_of_next (bind_of_next tests _) _
  | true =>
      rw [isNil] at tests
      refine bind_of_error ((bind_of_next tests _).trans ?_) _
      show expr context (.block _ none param.span) machine = _
      rw [expr, stmts, stmt]
      unfold inBlock
      rw [bind_of_error (bind_of_error (bind_of_error failing _) _) _]
      rfl

/-! ### Several checks, and what stands behind them -/

/-- Checks stop at the first variable that is nil or absent. -/
theorem stmts_checks
    (reports : symbols.Reports context.program.table path)
    {params : List Param}
    (areBound : ∀ param ∈ params, ∃ value, machine.env.get? param.name = some value) :
    stmts context (params.map symbols.check) machine =
      match params.find? fun param => (machine.env.get? param.name).any Value.isNil with
      | some param =>
          (.error (.guardFailed (EntryCall.guardFailure machine
            (context.program.table.display param.name) path.text)), machine)
      | none => (.next (), machine) := by
  induction params with
  | nil => rfl
  | cons param rest inductionHypothesis =>
      obtain ⟨value, isBound⟩ := areBound param List.mem_cons_self
      have first := stmt_check reports isBound
      have others := inductionHypothesis fun other member =>
        areBound other (List.mem_cons_of_mem param member)
      rw [List.map_cons, List.find?_cons, stmts, isBound, Option.any_some]
      cases isNil : value.isNil with
      | false =>
          rw [isNil, if_neg Bool.false_ne_true] at first
          exact (bind_of_next first _).trans others
      | true =>
          rw [isNil, if_pos rfl] at first
          exact bind_of_error first _

theorem stmts_append (context : Context) (first rest : List Stmt) :
    stmts context (first ++ rest) = (do
      stmts context first
      stmts context rest) := by
  induction first with
  | nil => rfl
  | cons stmt others inductionHypothesis =>
      rw [List.cons_append, stmts, stmts, inductionHypothesis, bind_assoc]

/-- Statements in front of a body are carried out in its scope, or in a scope
around it. -/
theorem expr_precededBy (context : Context) (added : List Stmt) (body : Expr) :
    ∃ rest : Eval Value,
      expr context (body.precededBy added) = inBlock (do
        stmts context added
        rest) ∧
      (inBlock rest = expr context body ∨ rest = expr context body) := by
  have inBraces : ∀ other span, expr context (.block added (some other) span) = inBlock (do
      stmts context added
      expr context other) := by
    intro other span
    rw [expr, optional]
  cases body with
  | block inner tail span =>
      refine ⟨do
        stmts context inner
        optional context .unit tail, ?_, .inl ?_⟩
      · unfold Expr.precededBy
        rw [expr, stmts_append, bind_assoc]
      · rw [expr]
  | _ => exact ⟨_, inBraces _ _, .inr rfl⟩

end Eval

/-! ### Activations -/

namespace Function

variable {f : Function} {table : SymbolTable} {args : List Value}

/-- The parameters of an invocation that are checked, with their arguments. -/
def guardedArgs (table : SymbolTable) (f : Function) (args : List Value) : List (Param × Value) :=
  (f.params.zip args).filter fun pair => pair.1.note.nullability table = .nonNullable

theorem map_guardedArgs (sameLength : args.length = f.params.length) :
    (f.guardedArgs table args).map Prod.fst = f.guardedParams table := by
  have firsts : (f.params.zip args).map Prod.fst = f.params :=
    List.map_fst_zip (Nat.le_of_eq sameLength.symm)
  unfold guardedArgs guardedParams
  calc
    ((f.params.zip args).filter fun pair => pair.1.note.nullability table = .nonNullable).map
        Prod.fst
      = ((f.params.zip args).map Prod.fst).filter fun param =>
          param.note.nullability table = .nonNullable := by rw [List.filter_map]; rfl
    _ = f.params.filter fun param => param.note.nullability table = .nonNullable := by rw [firsts]

theorem firstNil?_eq (table : SymbolTable) (f : Function) (args : List Value) :
    f.firstNil? table args = ((f.guardedArgs table args).find? (·.2.isNil)).map Prod.fst := by
  unfold firstNil? guardedArgs
  simp only [List.find?_filter, Bool.decide_and, Bool.decide_eq_true]

/-- With parameters of distinct names, variables are nil as arguments are. -/
theorem firstNilIn?_frame
    (program : Program)
    (table : SymbolTable)
    (distinct : f.hasDistinctParams)
    (receiver : Option Value)
    (sameLength : args.length = f.params.length) :
    f.firstNilIn? table (program.frame f.params receiver args) = f.firstNil? table args := by
  rw [firstNil?_eq, firstNilIn?, ← map_guardedArgs sameLength, List.find?_map]
  congr 1
  rw [← List.head?_filter, ← List.head?_filter]
  congr 1
  refine List.filter_congr fun pair member => ?_
  rw [Function.comp_apply, program.get?_frame distinct receiver sameLength
    (List.mem_of_mem_filter member), Option.any_some]

end Function

namespace Eval

variable
  {context : Context}
  {table : SymbolTable}
  {path : Path}
  {symbols : GuardSymbols}
  {f : Function}
  {args : List Value}

/-- The checks of a function at the start of its activation. -/
theorem stmts_guards
    (table : SymbolTable)
    (reports : symbols.Reports context.program.table path)
    (receiver : Option Value)
    (sameLength : args.length = f.params.length)
    (machine : Machine)
    (starts : ∀ name, machine.env.get? name =
      (context.program.frame f.params receiver args).get? name) :
    stmts context ((f.guardedParams table).map symbols.check) machine =
      match f.firstNilIn? table (context.program.frame f.params receiver args) with
      | some param =>
          (.error (.guardFailed (EntryCall.guardFailure machine
            (context.program.table.display param.name) path.text)), machine)
      | none => (.next (), machine) := by
  have areBound : ∀ param ∈ f.guardedParams table,
      ∃ value, machine.env.get? param.name = some value := by
    intro param isGuarded
    rw [starts]
    exact context.program.exists_get?_frame receiver sameLength (List.mem_of_mem_filter isGuarded)
  have checked := stmts_checks reports areBound
  simp only [starts] at checked
  exact checked

/-- A guarded body is not reached if a variable is nil where it must not be. -/
theorem inEnv_guarded_of_nil
    (reports : symbols.Reports context.program.table path)
    (receiver : Option Value)
    (sameLength : args.length = f.params.length)
    (site : Span)
    (body : Expr)
    {param : Param}
    (shown : context.program.table.display param.name = table.display param.name)
    (found : f.firstNilIn? table (context.program.frame f.params receiver args) = some param) :
    inEnv (context.program.frame f.params receiver args)
        (duringCall site (expr context
          (body.precededBy ((f.guardedParams table).map symbols.check)))) =
      fail (.guardFailed (.ofParam table path param site)) := by
  obtain ⟨rest, guarded, -⟩ := expr_precededBy context
    ((f.guardedParams table).map symbols.check) body
  funext machine
  have checked := stmts_guards table reports receiver sameLength
    { machine with
      env := (context.program.frame f.params receiver args).push
      callSites := site :: machine.callSites }
    (Env.get?_push _)
  rw [found] at checked
  dsimp only at checked
  rw [shown] at checked
  unfold inEnv duringCall
  rw [guarded]
  unfold inBlock
  dsimp only
  rw [bind_of_error checked]
  rfl

/-- A guarded body evaluates as without guards, if no variable is nil where it must
not be. The guards leave at most a scope around it. -/
theorem inEnv_guarded_of_none
    (reports : symbols.Reports context.program.table path)
    (receiver : Option Value)
    (sameLength : args.length = f.params.length)
    (site : Span)
    (body : Expr)
    (found : f.firstNilIn? table (context.program.frame f.params receiver args) = none) :
    ∃ inner : Eval Value,
      inEnv (context.program.frame f.params receiver args)
          (duringCall site (expr context
            (body.precededBy ((f.guardedParams table).map symbols.check)))) =
        inEnv (context.program.frame f.params receiver args) (duringCall site inner) ∧
      (inner = expr context body ∨ inner = inBlock (expr context body)) := by
  obtain ⟨rest, guarded, inner⟩ := expr_precededBy context
    ((f.guardedParams table).map symbols.check) body
  refine ⟨inBlock rest, ?_, inner.imp id (congrArg inBlock)⟩
  funext machine
  have checked := stmts_guards table reports receiver sameLength
    { machine with
      env := (context.program.frame f.params receiver args).push
      callSites := site :: machine.callSites }
    (Env.get?_push _)
  rw [found] at checked
  unfold inEnv duringCall
  rw [guarded]
  unfold inBlock
  dsimp only
  rw [bind_of_next checked]

end Eval

end NilSafety
