import NilSafety.Proofs.Evaluation.KeptScopes
import NilSafety.Proofs.Evaluation.Sessions

/-!
Contract: evaluation restores the variables around it, however it ends.

Owns:
- the variables that an expression assigns to, apart from those of blocks inside it;
- computations that relate the variables after them to those before and restore the calls
  under way, as a regime for each preorder of environments;
- that calls restore all variables, and that expressions keep all scopes but for the values
  of the variables that they assign to;
- what a session keeps when it is used.

Does not own: what is done to containers, and what is recorded.

Statements bind names in the scope of their block, so they are in a weaker regime than
expressions: they keep the scopes around the innermost one. A block turns the weaker
regime into the stronger one.
-/

namespace NilSafety

/-! ### Variables that are assigned to -/

mutual

/-- The expression assigns to a variable of this name that no block inside it binds. -/
inductive Expr.Writes (name : Symbol) : Expr → Prop where
  | child {expr child : Expr}
      (noBlock : ∀ stmts tail span, expr ≠ .block stmts tail span)
      (inside : child ∈ expr.children)
      (writes : Expr.Writes name child) :
      Expr.Writes name expr
  | block {stmts : List Stmt} {tail : Option Expr} {span : Span}
      (writes : Expr.BlockWrites name stmts tail) :
      Expr.Writes name (.block stmts tail span)

/-- The statement assigns to a variable of this name. -/
inductive Stmt.Writes (name : Symbol) : Stmt → Prop where
  | child {stmt : Stmt} {child : Expr}
      (inside : child ∈ stmt.children)
      (writes : Expr.Writes name child) :
      Stmt.Writes name stmt
  | target {region span : Span} {value : Expr} :
      Stmt.Writes name (.assign (.ident name region) value span)

/-- Statements and the expression after them assign to a variable of this name before they
bind it. -/
inductive Expr.BlockWrites (name : Symbol) : List Stmt → Option Expr → Prop where
  | tail {tail : Expr} (writes : Expr.Writes name tail) : Expr.BlockWrites name [] (some tail)
  | first {first : Stmt} {rest : List Stmt} {tail : Option Expr}
      (writes : Stmt.Writes name first) :
      Expr.BlockWrites name (first :: rest) tail
  | later {first : Stmt} {rest : List Stmt} {tail : Option Expr}
      (notBound : first.boundName? ≠ some name)
      (writes : Expr.BlockWrites name rest tail) :
      Expr.BlockWrites name (first :: rest) tail

end

namespace Expr

variable {name : Symbol} {expr : Expr} {span : Span}

theorem exists_child_of_writes
    (writes : expr.Writes name)
    (noBlock : ∀ stmts tail span, expr ≠ .block stmts tail span) :
    ∃ child ∈ expr.children, child.Writes name := by
  cases writes with
  | child _ inside writes => exact ⟨_, inside, writes⟩
  | block => exact absurd rfl (noBlock _ _ _)

theorem not_writes_of_leaf
    (isLeaf : expr.children = [])
    (noBlock : ∀ stmts tail span, expr ≠ .block stmts tail span) :
    ¬expr.Writes name := by
  intro writes
  obtain ⟨child, inside, -⟩ := exists_child_of_writes writes noBlock
  rw [isLeaf] at inside
  cases inside

theorem blockWrites_of_writes
    {stmts : List Stmt}
    {tail : Option Expr}
    (writes : (block stmts tail span).Writes name) :
    BlockWrites name stmts tail := by
  cases writes with
  | child noBlock => exact absurd rfl (noBlock _ _ _)
  | block writes => exact writes

theorem writes_of_inBraces (writes : (inBraces expr span).Writes name) : expr.Writes name := by
  cases blockWrites_of_writes writes with
  | tail writes => exact writes

theorem writes_of_binary
    {op : BinaryOp}
    {left right : Expr}
    (writes : (binary left op right span).Writes name) :
    left.Writes name ∨ right.Writes name := by
  obtain ⟨operand, inside, byOperand⟩ := exists_child_of_writes writes nofun
  simp only [children, List.mem_cons, List.not_mem_nil, or_false] at inside
  rcases inside with rfl | rfl
  · exact .inl byOperand
  · exact .inr byOperand

theorem writes_of_cond
    {condition thenBranch elseBranch : Expr}
    (writes : (cond condition thenBranch (some elseBranch) span).Writes name) :
    condition.Writes name ∨ thenBranch.Writes name ∨ elseBranch.Writes name := by
  obtain ⟨part, inside, byPart⟩ := exists_child_of_writes writes nofun
  simp only [children, Option.toList_some, List.mem_cons, List.not_mem_nil, or_false] at inside
  rcases inside with rfl | rfl | rfl
  · exact .inl byPart
  · exact .inr (.inl byPart)
  · exact .inr (.inr byPart)

/-- A check for nil assigns to what its two parts assign to, except that it binds its
temporary before the second one. -/
theorem writes_of_nilChecked
    {temp : Symbol}
    {receiver access : Expr}
    (writes : (nilChecked temp receiver access span).Writes name) :
    receiver.Writes name ∨ name ≠ temp ∧ access.Writes name := by
  cases blockWrites_of_writes writes with
  | first byBinding =>
      cases byBinding with
      | child inside byReceiver =>
          obtain rfl := List.mem_singleton.mp inside
          exact .inl byReceiver
  | later notBound byTail =>
      refine .inr ⟨fun same => notBound (congrArg some same.symm), ?_⟩
      cases byTail with
      | tail byChoice =>
          rcases writes_of_cond byChoice with compares | isNil | accesses
          · rcases writes_of_binary compares with ofTemp | ofNil
            · exact absurd ofTemp (not_writes_of_leaf rfl nofun)
            · exact absurd ofNil (not_writes_of_leaf rfl nofun)
          · exact absurd (writes_of_inBraces isNil) (not_writes_of_leaf rfl nofun)
          · exact writes_of_inBraces accesses

end Expr

/-! ### Computations -/

namespace Eval

variable {α β : Type} {relation wider : Env → Env → Prop}

/-- The computation relates the variables before it to those after it and restores the calls
under way, however it ends. -/
def Preserves (relation : Env → Env → Prop) (computation : Eval α) : Prop :=
  ∀ machine : Machine, relation machine.env (computation machine).2.env ∧
    (computation machine).2.callSites = machine.callSites

namespace Preserves

theorem mono
    {computation : Eval α}
    (preserves : computation.Preserves relation)
    (implied : ∀ env env', relation env env' → wider env env') :
    computation.Preserves wider :=
  fun machine => ⟨implied _ _ (preserves machine).1, (preserves machine).2⟩

/-- To restore all variables is the strongest preorder. -/
theorem of_eq
    [IsPreorder Env relation]
    {computation : Eval α}
    (restores : computation.Preserves Eq) :
    computation.Preserves relation :=
  restores.mono fun env _ same => same ▸ refl_of relation env

theorem bind
    [IsPreorder Env relation]
    {first : Eval α}
    {rest : α → Eval β}
    (ofFirst : first.Preserves relation)
    (ofRest : ∀ value, (rest value).Preserves relation) :
    (first >>= rest).Preserves relation := by
  intro machine
  have start := ofFirst machine
  show relation _ (first.andThen rest machine).2.env ∧ (first.andThen rest machine).2.callSites = _
  unfold andThen
  rcases ran : first machine with ⟨flow, middle⟩
  rw [ran] at start
  cases flow with
  | next value =>
      have onward := ofRest value middle
      exact ⟨trans_of relation start.1 onward.1, onward.2.trans start.2⟩
  | ret | error | exhausted => exact start

/-- To preserve a preorder is a regime. -/
def regime (relation : Env → Env → Prop) [IsPreorder Env relation] : Regime where
  holds computation := computation.Preserves relation
  admits _ := True
  still keeps _ machine := by
    obtain ⟨heap, same⟩ := keeps machine
    rw [same]
    exact ⟨refl_of relation machine.env, rfl⟩
  bind := bind
  others _ _ := trivial

/-! ### Variables -/

section

variable {written : Symbol → Prop} {name : Symbol}

theorem writeVariable
    (context : Context)
    (isWritten : written name)
    (value : Value)
    (span : Span) :
    (context.writeVariable name value span).Preserves (Env.Kept written) := by
  intro machine
  unfold Context.writeVariable
  rw [bind_of_next (rfl : Eval.machine machine = (.next machine, machine))]
  cases assigned : machine.env.assign? name value with
  | none => exact ⟨refl_of (Env.Kept written) machine.env, rfl⟩
  | some env => exact ⟨.assign? isWritten assigned, rfl⟩

theorem defineVariable (name : Symbol) (value : Value) :
    (defineVariable name value).Preserves (Env.KeptAround written) :=
  fun machine => ⟨.define machine.env name value, rfl⟩

/-- What follows a binding finds its name bound. -/
theorem defineVariable_bind
    {rest : Eval α}
    {wider : Symbol → Prop}
    (preserves : rest.Preserves (Env.KeptAround written))
    (implied : ∀ other, other ≠ name → written other → wider other)
    (value : Value) :
    (Eval.defineVariable name value >>= fun _ => rest).Preserves (Env.KeptAround wider) := by
  intro machine
  have onward := preserves { machine with env := machine.env.define name value }
  exact ⟨.of_define onward.1 implied, onward.2⟩

theorem inBlock
    {computation : Eval α}
    (preserves : computation.Preserves (Env.KeptAround written)) :
    (inBlock computation).Preserves (Env.Kept written) := by
  intro machine
  have within := preserves { machine with env := machine.env.push }
  exact ⟨within.1.pop, within.2⟩

end

/-! ### Calls -/

theorem inEnv (env : Env) {computation : Eval Value} (preserves : computation.Preserves relation) :
    (inEnv env computation).Preserves Eq :=
  fun machine => ⟨rfl, (preserves { machine with env }).2⟩

theorem duringCall
    (site : Span)
    {computation : Eval α}
    (preserves : computation.Preserves relation) :
    (duringCall site computation).Preserves relation := by
  intro machine
  have within := preserves { machine with callSites := site :: machine.callSites }
  exact ⟨within.1, congrArg List.tail within.2⟩

theorem asInvocation
    (f : Function)
    (receiver : Option Value)
    (args : List Value)
    (site : Span)
    {computation : Eval α}
    (preserves : computation.Preserves relation) :
    (asInvocation f receiver args site computation).Preserves relation := by
  intro machine
  have within := preserves { machine with
    invocations := ⟨f, receiver, args, site, machine.heap, machine.calls⟩ :: machine.invocations }
  exact within

theorem callNative (name : String) (native : Native) (args : List Value) :
    (callNative name native args).Preserves Eq := by
  intro machine
  unfold Eval.callNative
  rcases native.respond machine.calls args machine.heap with ⟨answer, heap⟩
  cases answer with
  | ok | error => exact ⟨rfl, rfl⟩

end Preserves

end Eval

/-! ### Expressions -/

/-- Activations of functions restore all variables. -/
def Context.Restores (context : Context) : Prop :=
  ∀ f receiver args span, (context.invoke f receiver args span).Preserves Eq

theorem Context.Restores.invokes
    {context : Context}
    (restores : context.Restores)
    (relation : Env → Env → Prop)
    [IsPreorder Env relation] :
    (Eval.Preserves.regime relation).Invokes context where
  functions f _ receiver args span := (restores f receiver args span).of_eq
  natives name native _ args := (Eval.Preserves.callNative name native args).of_eq

/-- The evaluation of the expression keeps all scopes, but for what the expression assigns
to. -/
def Expr.KeepsScopes (context : Context) (expr : Expr) : Prop :=
  (Eval.expr context expr).Preserves (Env.Kept fun name => expr.Writes name)

theorem Expr.KeepsScopes.around
    {context : Context}
    {expr : Expr}
    (keeps : expr.KeepsScopes context)
    {written : Symbol → Prop}
    (implied : ∀ name, expr.Writes name → written name) :
    (Eval.expr context expr).Preserves (Env.KeptAround written) :=
  keeps.mono fun _ _ kept => .of_kept (kept.mono implied)

namespace Eval.Preserves

variable {context : Context}

/-- A statement keeps the scopes around its block, but for what it assigns to. -/
theorem stmt
    {stmt : Stmt}
    (each : ∀ child ∈ stmt.children, child.KeepsScopes context ∧
      ∀ inner ∈ child.children, inner.KeepsScopes context) :
    (Eval.stmt context stmt).Preserves (Env.KeptAround fun name => stmt.Writes name) := by
  refine (regime _).stmt ?_ defineVariable ?_
  · intro child inside
    exact (each child inside).1.around fun _ => .child inside
  · intro assignment isOwn value
    cases stmt with
    | assign target _ span =>
        obtain rfl := List.mem_singleton.mp isOwn
        refine (regime _).assign (fun isTarget inner inside => ?_) ?_ fun _ => trivial
        · have keeps := (each target List.mem_cons_self).2 inner inside
          refine keeps.around fun name writes => .child List.mem_cons_self (.child ?_ inside writes)
          rintro _ _ _ rfl
          cases isTarget
        · rintro name region rfl
          exact (writeVariable context .target value span).mono fun _ _ => .of_kept
    | _ => cases isOwn

/-- A binding takes its name from what the statements after it are known to assign to. -/
theorem block
    {stmts : List Stmt}
    {tail : Option Expr}
    (each : ∀ child ∈ stmts.flatMap Stmt.children ++ tail.toList, child.KeepsScopes context ∧
      ∀ inner ∈ child.children, inner.KeepsScopes context) :
    (Eval.stmts context stmts >>= fun _ => Eval.optional context .unit tail).Preserves
      (Env.KeptAround fun name => Expr.BlockWrites name stmts tail) := by
  induction stmts with
  | nil =>
      simp only [Eval.stmts]
      refine bind ((regime _).result ()) fun _ => (regime _).optional .unit fun expr isTail => ?_
      obtain rfl := Option.mem_toList.mp isTail
      exact (each expr isTail).1.around fun _ => .tail
  | cons first rest inductionHypothesis =>
      rw [List.flatMap_cons, List.append_assoc, List.forall_mem_append] at each
      have ofRest := inductionHypothesis each.2
      simp only [Eval.stmts, bind_assoc]
      cases first with
      | bind name isMutable note init span =>
          simp only [Eval.stmt, bind_assoc]
          refine bind ((regime _).optional .nil fun expr isInit => ?_) fun value =>
            defineVariable_bind ofRest ?_ value
          · exact (each.1 expr isInit).1.around fun _ writes => .first (.child isInit writes)
          · -- What is assigned to after the binding is outside it only under another name.
            intro other different writes
            exact .later (fun same => different (Option.some.inj same).symm) writes
      | _ =>
          refine bind ((stmt each.1).mono fun _ _ kept => kept.mono fun _ => .first) fun _ => ?_
          exact ofRest.mono fun _ _ kept => kept.mono fun _ => .later nofun

/-- Every expression keeps all scopes, but for what it assigns to. -/
theorem expr (restores : context.Restores) (expr : Expr) : expr.KeepsScopes context := by
  -- What stands on a left side is not evaluated itself, only what is inside it.
  suffices both : expr.KeepsScopes context ∧ ∀ child ∈ expr.children, child.KeepsScopes context from
    both.1
  induction expr using Expr.childInduction with
  | node expr inductionHypothesis =>
      refine ⟨?_, fun child inside => (inductionHypothesis child inside).1⟩
      by_cases isBlock : ∃ stmts tail span, expr = .block stmts tail span
      · obtain ⟨stmts, tail, span, rfl⟩ := isBlock
        unfold Expr.KeepsScopes
        simp only [Eval.expr]
        exact (inBlock (block inductionHypothesis)).mono fun _ _ kept => kept.mono fun _ => .block
      · have noBlock : ∀ stmts tail span, expr ≠ .block stmts tail span :=
          fun stmts tail span same => isBlock ⟨stmts, tail, span, same⟩
        refine Regime.node (restores.invokes _) (fun child inside => ?_) fun stmts tail span same =>
          absurd same (noBlock stmts tail span)
        exact (inductionHypothesis child inside).1.mono fun _ _ kept =>
          kept.mono fun _ => .child noBlock inside

end Eval.Preserves

/-! ### Activations -/

theorem Context.Restores.activate
    {context : Context}
    (restores : context.Restores)
    (f : Function)
    (receiver : Option Value)
    (args : List Value)
    (span : Span) :
    (context.activate f receiver args span).Preserves Eq := by
  unfold Context.activate
  refine (Eval.Preserves.regime Eq).ite ?_ ((Eval.Preserves.regime Eq).fail trivial)
  exact .asInvocation _ _ _ _ (.inEnv _ (.duringCall _ (.expr restores f.body)))

theorem Program.invokeWithin_restores
    (program : Program)
    (rules : Rules)
    (bound : Nat)
    (f : Function)
    (receiver : Option Value)
    (args : List Value)
    (span : Span) :
    (program.invokeWithin rules bound f receiver args span).Preserves Eq := by
  induction bound generalizing f receiver args span with
  | zero => exact (Eval.Preserves.regime Eq).exhausted
  | succ bound inductionHypothesis =>
      have restores : Context.Restores
          ⟨program, rules, bound, program.invokeWithin rules bound⟩ := inductionHypothesis
      exact restores.activate f receiver args span

theorem Program.context_restores (program : Program) (rules : Rules) (bound : Nat) :
    (program.context rules bound).Restores :=
  program.invokeWithin_restores rules bound

/-! ### Use from outside -/

/-- The variables and the calls under way are as before. Containers may have changed, and
more may have been recorded. -/
structure Machine.Restored (machine after : Machine) : Prop where
  env : after.env = machine.env
  callSites : after.callSites = machine.callSites

instance : IsPreorder Machine Machine.Restored where
  refl _ := ⟨rfl, rfl⟩
  trans _ _ _ first second :=
    ⟨second.env.trans first.env, second.callSites.trans first.callSites⟩

theorem Eval.Preserves.restored
    {α : Type}
    {computation : Eval α}
    (preserves : computation.Preserves Eq)
    (machine : Machine) :
    machine.Restored (computation machine).2 :=
  ⟨(preserves machine).1.symm, (preserves machine).2⟩

namespace Session

/-- Besides, what is loaded is as before, and so are the rules. -/
structure Restored (session after : Session) : Prop where
  program : after.program = session.program
  rules : after.rules = session.rules
  machine : session.machine.Restored after.machine

theorem call_restored (session : Session) (bound : Nat) (name : String) (args : List Value) :
    session.Restored (session.call bound name args).2 := by
  have invokes := (session.program.context_restores session.rules bound).invokes Eq
  have restores : (session.program.call session.rules bound name args).Preserves Eq :=
    Eval.Regime.callNamed invokes name args .generated
  exact ⟨rfl, rfl, restores.restored session.machine⟩

theorem evaluate_restored (session : Session) (bound : Nat) (expr : Expr) :
    session.Restored (session.evaluate bound expr).2 := by
  have restores : (session.program.evaluate session.rules bound expr).Preserves Eq :=
    .inEnv .start (.expr (session.program.context_restores session.rules bound) expr)
  exact ⟨rfl, rfl, restores.restored session.machine⟩

theorem loadDecls_restored (session : Session) (bound : Nat) (decls : List Decl) :
    session.machine.Restored (session.loadDecls bound decls).2.machine :=
  loadDecls_relates (fun session expr => (session.evaluate_restored bound expr).machine) session
    decls

end Session

/-- However it ends, the evaluation of an expression leaves the same scopes with the same
names in them and the same calls under way, so nothing that a block inside it binds can be
seen after it. The variables that it does not assign to have their old values, among them
those that blocks inside it hide, and the temporary of a check for nil. An activation of a
function leaves its caller's variables as they were. So does the use of a session, which
changes nothing but containers, the records and, where declarations are loaded, the
program. -/
theorem evaluation_restores_scopes (bound : Nat) :
    (∀ (program : Program) (rules : Rules) (machine : Machine),
      (∀ expr : Expr,
        let after := (Eval.expr (program.context rules bound) expr machine).2
        List.Forall₂ SymbolMap.SameNames machine.env.scopes after.env.scopes ∧
          after.callSites = machine.callSites ∧
          (∀ name, (after.env.get? name).isSome = (machine.env.get? name).isSome) ∧
          ∀ name, ¬expr.Writes name → after.env.get? name = machine.env.get? name) ∧
      (∀ temp receiver access span, ¬receiver.Writes temp →
        let check := Expr.nilChecked temp receiver access span
        let after := (Eval.expr (program.context rules bound) check machine).2
        after.env.get? temp = machine.env.get? temp) ∧
      ∀ f receiver args span,
        machine.Restored (program.invokeWithin rules bound f receiver args span machine).2) ∧
    ∀ session : Session,
      (∀ name args, session.Restored (session.call bound name args).2) ∧
      (∀ expr, session.Restored (session.evaluate bound expr).2) ∧
      ∀ unit, session.machine.Restored (session.load bound unit).2.machine := by
  have keeps : ∀ (program : Program) (rules : Rules) (expr : Expr),
      expr.KeepsScopes (program.context rules bound) :=
    fun program rules => Eval.Preserves.expr (program.context_restores rules bound)
  refine ⟨fun program rules machine => ⟨fun expr => ?_, ?_, ?_⟩, fun session => ⟨?_, ?_, ?_⟩⟩
  · obtain ⟨kept, sameCalls⟩ := keeps program rules expr machine
    exact ⟨kept.sameNames, sameCalls, kept.isSome_get?, fun name => kept.get?_eq⟩
  · intro temp receiver access span notWritten check after
    refine (keeps program rules check machine).1.get?_eq fun writes => ?_
    rcases Expr.writes_of_nilChecked writes with byReceiver | byAccess
    · exact notWritten byReceiver
    · exact byAccess.1 rfl
  · exact fun f receiver args span =>
      (program.invokeWithin_restores rules bound f receiver args span).restored machine
  · exact session.call_restored bound
  · exact session.evaluate_restored bound
  · exact fun unit => session.loadDecls_restored bound unit.decls

/-- A block that binds a name anew and assigns to it leaves the outer variable alone. -/
theorem evaluation_restores_scopes_of_shadowing :
    let name : Symbol := ⟨0⟩
    let shadowing : Expr := .block
      [.bind name true none (some (.int 1 .generated)) .generated,
        .assign (.ident name .generated) (.int 2 .generated) .generated]
      none .generated
    let machine := { Machine.start .empty with env := Env.start.define name (.int 0) }
    ¬shadowing.Writes name ∧
      (Eval.expr ((Program.start .empty).context .plain 1) shadowing machine).2.env.get? name =
        some (.int 0) := by
  intro name shadowing machine
  have notWritten : ¬shadowing.Writes name := by
    intro writes
    cases Expr.blockWrites_of_writes writes with
    | first byBinding =>
        cases byBinding with
        | child inside byLiteral =>
            obtain rfl := List.mem_singleton.mp inside
            exact absurd byLiteral (Expr.not_writes_of_leaf rfl nofun)
    | later notBound => exact notBound rfl
  have ofExprs := ((evaluation_restores_scopes 1).1 (.start .empty) .plain machine).1
  exact ⟨notWritten, (ofExprs shadowing).2.2.2 name notWritten⟩

end NilSafety
