import NilSafety.Proofs.Evaluation.Logs
import NilSafety.Proofs.Evaluation.Members
import NilSafety.Proofs.Evaluation.Templates
import NilSafety.Proofs.Rewriting.Images
import NilSafety.Proofs.Scope.Sets

/-!
Contract: how expanded accesses end, by the value of their receiver.

Owns:
- present nils, on which the two notions of nil differ;
- when an access to a member is refused as one on nil;
- that an expanded access yields nil on nil and absence, and fails for its own
  receiver exactly on a present nil.

Does not own: errors that the receiver or the arguments end with themselves.

The check in front of an access compares its receiver with nil by host equality, to
which a present nil is not equal. The access itself looks through present layers
before it asks whether it stands on nil. A nil that was stored in a checked array
passes the check, therefore, and is then refused.
-/

namespace NilSafety

/-! ### Present nils -/

namespace Value

/-- Whether the value is nil or absence under one present layer or more. -/
def isPresentNil : Value → Bool
  | present inner => inner.core.isNil
  | _ => false

/-- Accesses stand on nil where the check for nil stops them, and on present
nils. -/
theorem isNil_core (value : Value) : value.core.isNil = (value.isNil || value.isPresentNil) := by
  cases value with
  | present inner => rfl
  | _ => rfl

theorem isNil_of_isPresentNil {value : Value} (isPresentNil : value.isPresentNil) :
    value.isNil = false := by
  cases value with
  | present inner => rfl
  | _ => cases isPresentNil

end Value

/-! ### Accesses to the value of a receiver -/

/-- An activation whose arguments fit is recorded. -/
theorem Context.Growing.activate_records
    {context : Context}
    (grows : context.Growing)
    {f : Function}
    {args : List Value}
    (fit : args.length = f.params.length)
    (receiver : Option Value)
    (span : Span)
    (machine : Machine) :
    machine.invocations.length <
      (context.activate f receiver args span machine).2.invocations.length := by
  have within : (Eval.inEnv (context.program.frame f.params receiver args)
      (Eval.duringCall span (Eval.expr context f.body))).Growing :=
    .inEnv _ (.duringCall _ (.expr grows f.body))
  unfold Context.activate
  rw [if_pos fit]
  have recorded := (within { machine with
    invocations := ⟨f, receiver, args, span, machine.heap, machine.calls⟩ ::
      machine.invocations }).invocations
  exact Nat.lt_of_succ_le recorded.length_le

/-- A call that invokes a function never ends with a null reference of its own. -/
theorem Program.invokeWithin_ne_nullReference
    (program : Program)
    (rules : Rules)
    (bound : Nat)
    (f : Function)
    (receiver : Option Value)
    (args : List Value)
    (span : Span)
    (machine : Machine)
    (member : String)
    (place : Span) :
    ¬ ((program.invokeWithin rules bound f receiver args span machine).1 =
        .error (.nullReference member place) ∧
      (program.invokeWithin rules bound f receiver args span machine).2.invocations =
        machine.invocations) := by
  rintro ⟨failed, same⟩
  cases bound with
  | zero => cases failed
  | succ bound =>
      by_cases fit : args.length = f.params.length
      · have recorded := (program.context_growing rules bound).activate_records fit receiver span
          machine
        have longer : machine.invocations.length <
            (program.invokeWithin rules (bound + 1) f receiver args span
              machine).2.invocations.length :=
          recorded
        rw [same] at longer
        exact absurd longer (Nat.lt_irrefl _)
      · unfold invokeWithin Context.activate at failed
        rw [if_neg fit] at failed
        cases failed

/-- What arrays and texts answer by themselves is never a null reference. -/
theorem Context.callMethod_ne_nullReference
    (context : Context)
    {receiver : Value}
    (notNil : receiver.core.isNil = false)
    (notObject : ∀ cls address, receiver.core ≠ .object cls address)
    (method : Symbol)
    (args : List Value)
    (span : Span)
    (machine : Machine)
    (member : String)
    (place : Span) :
    (context.callMethod receiver method args span machine).1 ≠
      .error (.nullReference member place) := by
  rw [context.callMethod_eq_callBuiltin notNil notObject]
  have read : Eval.machine machine = (.next machine, machine) := rfl
  unfold callBuiltin
  rw [Eval.bind_of_next read]
  cases Member.callBuiltin machine.heap receiver.core (context.name method) args with
  | some outcome => nofun
  | none => nofun

/-- A field is refused as one of nil exactly where the object holds nil or absence
under its present layers. -/
theorem Member.readField_refused_iff
    (table : SymbolTable)
    (heap : Heap)
    (object : Value)
    (name : Symbol)
    (span : Span) :
    readField table heap object name span = .error (.nullReference (table.display name) span) ↔
      object.core.isNil := by
  unfold readField
  cases object.core with
  | nil | absent => exact iff_of_true rfl rfl
  | object cls address =>
      refine iff_of_false ?_ Bool.false_ne_true
      dsimp only
      cases (heap.fields address).get? name with
      | some value => nofun
      | none => nofun
  | _ => exact iff_of_false nofun Bool.false_ne_true

/-- So is a method. -/
theorem Program.callMethod_refused_iff
    (program : Program)
    (rules : Rules)
    (bound : Nat)
    (receiver : Value)
    (method : Symbol)
    (args : List Value)
    (span : Span)
    (machine : Machine) :
    let outcome := (program.context rules bound).callMethod receiver method args span machine
    outcome.1 = .error (.nullReference (program.table.display method) span) ∧
        outcome.2.invocations = machine.invocations ↔
      receiver.core.isNil := by
  dsimp only
  cases isCore : receiver.core with
  | nil | absent =>
      unfold Context.callMethod
      rw [isCore]
      exact iff_of_true ⟨rfl, rfl⟩ rfl
  | object cls address =>
      refine iff_of_false ?_ Bool.false_ne_true
      unfold Context.callMethod
      rw [isCore]
      dsimp only
      cases (program.context rules bound).program.method? cls method with
      | some f => exact program.invokeWithin_ne_nullReference rules bound _ _ _ _ _ _ _
      | none => exact fun refused => nomatch refused.1
  | _ =>
      refine iff_of_false ?_ Bool.false_ne_true
      rintro ⟨failed, -⟩
      refine Context.callMethod_ne_nullReference _ ?_ ?_ _ _ _ _ _ _ failed
      · rw [isCore]
        rfl
      · rw [isCore]
        nofun

namespace MemberAccess

/-- The arguments of an access. -/
def args : MemberAccess → List Arg
  | field _ => []
  | method _ args => args

/-- What an access does to the values of its receiver and its arguments. -/
def apply (access : MemberAccess) (context : Context) (span : Span) (receiver : Value)
    (args : List Value) : Eval Value :=
  match access with
  | field name => do
      let machine ← Eval.machine
      Eval.ofExcept (Member.readField context.program.table machine.heap receiver name span)
  | method name _ => context.callMethod receiver name args span

/-- An access evaluates its receiver, then its arguments, and then acts on their
values; a mark may end it in between. -/
theorem expr_on
    (context : Context)
    (access : MemberAccess)
    (receiver : Expr)
    (marked : Bool)
    (span : Span) :
    Eval.expr context (access.on receiver marked span) = (do
      let value ← Eval.expr context receiver
      if context.skips marked value then Eval.result .nil
      else
        let values ← Eval.args context access.args
        access.apply context span value values) := by
  cases access with
  | field name =>
      simp only [on, args, apply, Eval.expr, Eval.args, Eval.result_bind]
  | method name given =>
      simp only [on, args, apply, Eval.expr]

/-- An access is refused as one on nil, with no function invoked, exactly where its
receiver holds nil or absence under its present layers. -/
theorem apply_refused_iff
    (access : MemberAccess)
    (program : Program)
    (rules : Rules)
    (bound : Nat)
    (span : Span)
    (receiver : Value)
    (args : List Value)
    (machine : Machine) :
    let outcome := access.apply (program.context rules bound) span receiver args machine
    outcome.1 = .error (.nullReference (program.table.display access.name) span) ∧
        outcome.2.invocations = machine.invocations ↔
      receiver.core.isNil := by
  intro outcome
  cases access with
  | field name =>
      have reads : outcome = Eval.ofExcept
          (Member.readField program.table machine.heap receiver name span) machine := rfl
      rw [reads, ← Member.readField_refused_iff program.table machine.heap receiver name span]
      cases Member.readField program.table machine.heap receiver name span with
      | ok value => exact iff_of_false (fun refused => nomatch refused.1) nofun
      | error error =>
          constructor
          · intro refused
            cases refused.1
            rfl
          · intro refused
            cases refused
            exact ⟨rfl, rfl⟩
  | method name given =>
      exact program.callMethod_refused_iff rules bound receiver name args span machine

end MemberAccess

/-! ### Expanded accesses -/

/-- The code of an expanded access: the access acts on the value of its receiver
unless this is nil or absent. -/
theorem Eval.expr_expanded
    (context : Context)
    (access : MemberAccess)
    (temp : Symbol)
    (receiver : Expr)
    (span : Span) :
    Eval.expr context
        (.nilChecked temp receiver (access.on (.ident temp span) false span) span) =
      Eval.inBlock (do
        let value ← Eval.expr context receiver
        Eval.defineVariable temp value
        if value.isNil then Eval.result .nil
        else Eval.inBlock (do
          let values ← Eval.args context access.args
          access.apply context span value values)) :=
  Eval.expr_nilChecked context (fun on marked => access.expr_on context on marked span) temp
    receiver span

/-- How an expanded access ends once its receiver has a value, in every program,
within every bound and from every state. -/
structure EndsByReceiver
    (access : MemberAccess)
    (receiver : Expr)
    (temp : Symbol)
    (span : Span) :
    Prop where
  /-- On nil and absence it yields nil, and evaluates nothing more. -/
  skips : ∀ (program : Program) (bound : Nat) (machine after : Machine) (value : Value),
    let context := program.context .plain bound
    Eval.expr context receiver { machine with env := machine.env.push } = (.next value, after) →
    value.isNil →
    Eval.expr context
        (.nilChecked temp receiver (access.on (.ident temp span) false span) span) machine =
      (.next .nil, { after with env := (after.env.define temp value).pop })
  /-- With its arguments evaluated, it ends with a null reference at its own region,
  and with no function invoked since, exactly if the value is a present nil. -/
  fails : ∀ (program : Program) (bound : Nat) (machine after ready : Machine) (value : Value)
    (values : List Value),
    let context := program.context .plain bound
    let outcome := Eval.expr context
      (.nilChecked temp receiver (access.on (.ident temp span) false span) span) machine
    Eval.expr context receiver { machine with env := machine.env.push } = (.next value, after) →
    Eval.args context access.args
        { after with env := (after.env.define temp value).push } = (.next values, ready) →
    (outcome.1 = .error (.nullReference (program.table.display access.name) span) ∧
        outcome.2.invocations = ready.invocations ↔
      value.isPresentNil)

/-- An expanded access on a receiver without a value for it is left out. -/
theorem Eval.expr_expanded_of_isNil
    (context : Context)
    (access : MemberAccess)
    (temp : Symbol)
    {receiver : Expr}
    (span : Span)
    {machine after : Machine}
    {value : Value}
    (receives : Eval.expr context receiver { machine with env := machine.env.push } =
      (.next value, after))
    (isNil : value.isNil) :
    Eval.expr context
        (.nilChecked temp receiver (access.on (.ident temp span) false span) span) machine =
      (.next .nil, { after with env := (after.env.define temp value).pop }) := by
  rw [expr_expanded]
  unfold inBlock
  rw [bind_of_next receives, isNil]
  rfl

/-- On any other receiver it goes on with the arguments. -/
theorem Eval.expr_expanded_of_args
    (context : Context)
    (access : MemberAccess)
    (temp : Symbol)
    {receiver : Expr}
    (span : Span)
    {machine after ready : Machine}
    {value : Value}
    {values : List Value}
    (receives : Eval.expr context receiver { machine with env := machine.env.push } =
      (.next value, after))
    (notNil : value.isNil = false)
    (given : Eval.args context access.args
      { after with env := (after.env.define temp value).push } = (.next values, ready)) :
    let outcome := access.apply context span value values ready
    Eval.expr context
        (.nilChecked temp receiver (access.on (.ident temp span) false span) span) machine =
      (outcome.1, { outcome.2 with env := outcome.2.env.pop.pop }) := by
  intro outcome
  have acts : (Eval.args context access.args >>= access.apply context span value)
      { after with env := (after.env.define temp value).push } = outcome :=
    bind_of_next given _
  have within : inBlock (Eval.args context access.args >>= access.apply context span value)
      { after with env := after.env.define temp value } =
        (outcome.1, { outcome.2 with env := outcome.2.env.pop }) := by
    unfold inBlock
    rw [acts]
  rw [expr_expanded]
  unfold inBlock
  rw [bind_of_next receives, notNil]
  exact congrArg (fun ended : Flow Value × Machine =>
    (ended.1, { ended.2 with env := ended.2.env.pop })) within

theorem endsByReceiver
    (access : MemberAccess)
    (receiver : Expr)
    (temp : Symbol)
    (span : Span) :
    EndsByReceiver access receiver temp span where
  skips program bound machine after value := by
    intro context receives isNil
    exact Eval.expr_expanded_of_isNil context access temp span receives isNil
  fails program bound machine after ready value values := by
    intro context outcome receives given
    cases isNil : value.isNil with
    | true =>
        have ends : outcome = _ :=
          Eval.expr_expanded_of_isNil context access temp span receives isNil
        rw [ends]
        refine iff_of_false ?_ ?_
        · rintro ⟨failed, -⟩
          cases failed
        · intro isPresentNil
          rw [Value.isNil_of_isPresentNil isPresentNil] at isNil
          cases isNil
    | false =>
        have ends : outcome = _ :=
          Eval.expr_expanded_of_args context access temp span receives isNil given
        have refused : (access.apply context span value values ready).1 =
              .error (.nullReference (program.table.display access.name) span) ∧
            (access.apply context span value values ready).2.invocations = ready.invocations ↔
              value.core.isNil :=
          access.apply_refused_iff program .plain bound span value values ready
        rw [value.isNil_core, isNil, Bool.false_or] at refused
        rw [ends]
        exact refused

/-- What became of the marked accesses of a body: each has an expansion in what the
walk made of the body, over the images of its receiver and its arguments, and this
expansion ends by the value of its receiver. Guards may stand in front. -/
def MarkedEndByReceivers (body body' : Expr) : Prop :=
  ∃ (declaration : Path) (features : FeatureSet) (walked : Expr),
    (body' = walked ∨ ∃ checks, body' = walked.precededBy checks) ∧
      ∀ expr ∈ body.nodes, expr.isMarkedAccess →
        ∃ (access access' : MemberAccess) (receiver receiver' : Expr) (temp : Symbol)
          (span : Span),
          expr = access.on receiver true span ∧
            Rewrite.Image declaration features receiver receiver' ∧
            Rewrite.AccessImage declaration features access access' ∧
            access'.name = access.name ∧
            .nilChecked temp receiver' (access'.on (.ident temp span) false span) span ∈
              walked.nodes ∧
            EndsByReceiver access' receiver' temp span

/-- In a unit that was rewritten, with whatever mix of features, every marked access
of the original became an expansion that ends by the value of its receiver: on nil
and absence it yields nil, and it fails for its own receiver exactly on a present
nil. -/
theorem marked_access_fails_iff_presentNil
    (set : ActivationSet)
    (unit : SourceUnit)
    (table : SymbolTable)
    (counts : Counts)
    (succeeds : (unit.rewrite set table).result = .ok counts) :
    List.Forall₂ MarkedEndByReceivers unit.bodies (unit.rewrite set table).unit.bodies := by
  apply (SourceUnit.rewrite_covers succeeds).imp
  intro body body' bodies
  obtain ⟨declaration, features, walked, covers, around⟩ := bodies
  refine ⟨declaration, features, walked, around, fun expr isInside marked => ?_⟩
  obtain ⟨image, isNode, isImage⟩ := covers expr isInside
  obtain ⟨access, receiver, span, rfl⟩ := MemberAccess.exists_of_isMarkedAccess marked
  obtain ⟨access', receiver', temp, isAccess, isReceiver, rfl⟩ := isImage.of_marked
  exact ⟨access, access', receiver, receiver', temp, span, rfl, isReceiver, isAccess,
    isAccess.name_eq, isNode, endsByReceiver access' receiver' temp span⟩

/-! ### A nil that was stored in a checked array -/

namespace NullLinks

/-- The names of a unit with one function. -/
def sampleTable : SymbolTable :=
  (SymbolTable.empty.internAll ["first", "name"]).2

/-- A unit that declares `fn first() { [nil][0]?.name }`. -/
def sampleUnit : SourceUnit where
  package := ⟨["app"]⟩
  decls := [.function {
    name := ⟨0⟩
    isStatic := false
    params := []
    result := none
    body := .block [] (some (.field
      (.index (.array [.nil default] default) (.int 0 default) default) ⟨1⟩ true default)) default
    visibility := .exposed
    span := default }]

end NullLinks

theorem marked_access_fails_iff_presentNil_of_first :
    let rewritten := NullLinks.sampleUnit.rewrite (.allInPackage "app") NullLinks.sampleTable
    rewritten.result = .ok ⟨1, 0, 0, 1⟩ ∧
      List.Forall₂ MarkedEndByReceivers NullLinks.sampleUnit.bodies rewritten.unit.bodies := by
  intro rewritten
  have succeeds : rewritten.result = .ok ⟨1, 0, 0, 1⟩ := by
    with_unfolding_all rfl
  exact ⟨succeeds, marked_access_fails_iff_presentNil _ _ _ _ succeeds⟩

/-- A marked access fails on a nil read out of a checked array, where it should
yield nil. -/
theorem marked_access_fails_on_storedNil :
    let rewritten := NullLinks.sampleUnit.rewrite (.allInPackage "app") NullLinks.sampleTable
    let loaded := ((Session.start rewritten.table .empty).load 1 rewritten.unit).2
    rewritten.result = .ok ⟨1, 0, 0, 1⟩ ∧
      (loaded.call 2 "first" []).1 = .error (.nullReference "name" default) := by
  refine ⟨?_, ?_⟩
  · with_unfolding_all rfl
  · decide +kernel

end NilSafety
