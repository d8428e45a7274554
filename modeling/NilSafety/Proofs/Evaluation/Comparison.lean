import NilSafety.Eval.Expression
import NilSafety.Proofs.Evaluation.Heaps
import NilSafety.Proofs.Evaluation.Scopes
import NilSafety.Proofs.Symbols.Growth

/-!
Contract: what it means that two evaluations agree.

Owns:
- what native functions keep from the calls so far, and native functions that answer
  alike when they are asked alike;
- what is fixed in a comparison: the rules of the first side, the tables of both
  sides, the pairings that may come up, what native functions keep, the functions
  that stand for each other, and the invocations that both sides go on with or that
  the second one refuses;
- machines that agree, endings that agree, and outcomes that agree unless the
  second side stopped at a refused invocation.

Does not own: which computations agree.

The first side evaluates under the comparison's rules, the second one under the
plain rules. Pairings only grow while two evaluations proceed.
-/

namespace NilSafety

/-- The calls have the same name, and agreed when they happened. -/
structure NativeCall.Matches
    (admits : Pairing → Prop)
    (pairing : Pairing)
    (call call' : NativeCall) :
    Prop where
  name : call.name = call'.name
  recorded : ∃ earlier ≤ pairing, admits earlier ∧
    List.Forall₂ (Value.Matches earlier) call.args call'.args ∧
      call.heap.Matches earlier call'.heap

/-- The invocations are of functions that stand for each other, are made at the
same place, and agreed when they happened. -/
structure Invocation.Matches
    (admits : Pairing → Prop)
    (functions : Function → Function → Prop)
    (pairing : Pairing)
    (invocation invocation' : Invocation) :
    Prop where
  functions : functions invocation.function invocation'.function
  site : invocation.site = invocation'.site
  recorded : ∃ earlier ≤ pairing, admits earlier ∧
    Option.Rel (Value.Matches earlier) invocation.receiver invocation'.receiver ∧
      List.Forall₂ (Value.Matches earlier) invocation.args invocation'.args ∧
      invocation.heap.Matches earlier invocation'.heap ∧
      List.Forall₂ (NativeCall.Matches admits earlier) invocation.calls invocation'.calls

section

variable {admits : Pairing → Prop} {pairing later : Pairing}

theorem NativeCall.Matches.mono
    {call call' : NativeCall}
    (agree : call.Matches admits pairing call')
    (further : pairing ≤ later) :
    call.Matches admits later call' := by
  obtain ⟨earlier, before, recorded⟩ := agree.recorded
  exact ⟨agree.name, earlier, before.trans further, recorded⟩

/-- The calls agree if more pairings may come up. -/
theorem NativeCall.Matches.imp
    {admits' : Pairing → Prop}
    {call call' : NativeCall}
    (agree : call.Matches admits pairing call')
    (implied : ∀ earlier, admits earlier → admits' earlier) :
    call.Matches admits' pairing call' := by
  obtain ⟨earlier, before, admitted, recorded⟩ := agree.recorded
  exact ⟨agree.name, earlier, before, implied earlier admitted, recorded⟩

theorem Invocation.Matches.mono
    {functions : Function → Function → Prop}
    {invocation invocation' : Invocation}
    (agree : invocation.Matches admits functions pairing invocation')
    (further : pairing ≤ later) :
    invocation.Matches admits functions later invocation' := by
  obtain ⟨earlier, before, recorded⟩ := agree.recorded
  exact ⟨agree.functions, agree.site, earlier, before.trans further, recorded⟩

end

/-- What an allocation or a native function yields agrees under a pairing that
has grown to an admitted one. -/
def ExtendsTo
    (admits : Pairing → Prop)
    (pairing : Pairing)
    (results : Pairing → Prop) :
    Prop :=
  ∃ later, pairing ≤ later ∧ admits later ∧ results later

/-- A value with a heap agrees with another. -/
def YieldMatches (outcome outcome' : Value × Heap) (pairing : Pairing) : Prop :=
  outcome.1.Matches pairing outcome'.1 ∧ outcome.2.Matches pairing outcome'.2

/-! ### Native functions -/

/-- When what native functions keep from the calls so far agrees on both sides. It
still does when the pairing has grown. -/
structure Native.Memory where
  agrees : Pairing → List NativeCall → List NativeCall → Prop
  mono : ∀ {pairing later : Pairing} {calls calls' : List NativeCall},
    pairing ≤ later → agrees pairing calls calls' → agrees later calls calls'

/-- Nothing is kept but the calls themselves. -/
def Native.Memory.none : Native.Memory where
  agrees := fun _ _ _ => True
  mono := fun _ _ => trivial

/-- The calls of native functions agree one by one, and so does what is kept from
them. -/
structure Native.CallsMatch
    (admits : Pairing → Prop)
    (memory : Native.Memory)
    (pairing : Pairing)
    (calls calls' : List NativeCall) :
    Prop where
  each : List.Forall₂ (NativeCall.Matches admits pairing) calls calls'
  kept : memory.agrees pairing calls calls'

theorem Native.CallsMatch.mono
    {admits : Pairing → Prop}
    {memory : Native.Memory}
    {pairing later : Pairing}
    {calls calls' : List NativeCall}
    (agree : CallsMatch admits memory pairing calls calls')
    (further : pairing ≤ later) :
    CallsMatch admits memory later calls calls' :=
  ⟨agree.each.imp fun _ _ holds => holds.mono further, memory.mono further agree.kept⟩

/-- A native function, called by a name, answers alike when it is asked alike, and what
is kept goes on to agree. -/
def Native.Carries
    (admits : Pairing → Prop)
    (memory : Native.Memory)
    (name : String)
    (native : Native) :
    Prop :=
  ∀ {pairing : Pairing} {history history' : List NativeCall} {args args' : List Value}
    {heap heap' : Heap},
    admits pairing →
    CallsMatch admits memory pairing history history' →
    List.Forall₂ (Value.Matches pairing) args args' →
    heap.Matches pairing heap' →
    ExtendsTo admits pairing fun later =>
      ExceptAgrees (Value.Matches later) (native.respond history args heap).1
          (native.respond history' args' heap').1 ∧
        (native.respond history args heap).2.Matches later
          (native.respond history' args' heap').2 ∧
        memory.agrees later (⟨name, args, heap⟩ :: history) (⟨name, args', heap'⟩ :: history')

/-! ### Evaluations -/

/-- What is fixed while two evaluations are compared. -/
structure Comparison where
  /-- The rules of the first side. -/
  rules : Rules
  /-- The names of the first side. -/
  table : SymbolTable
  /-- The names of the second side. -/
  grown : SymbolTable
  grows : table.Later grown
  /-- The pairings that may come up. -/
  admits : Pairing → Prop
  /-- What native functions keep from their calls. -/
  memory : Native.Memory
  /-- The functions that stand for each other. -/
  functions : Function → Function → Prop
  /-- They have the same name, which the first side knows. -/
  named : ∀ {f f'}, functions f f' → f'.name = f.name ∧ table.knows f.name
  /-- The invocations that both sides go on with: of a function, with arguments, and
  of the one that stands for it. -/
  passes : Function → List Value → Function → Prop
  /-- The invocations that the second side ends at once, with an error. -/
  refused : Invocation → Invocation → EvalError → Prop
  newObject : ∀ {pairing : Pairing} {heap heap' : Heap}, admits pairing →
    heap.Matches pairing heap' →
    ∀ cls {fields fields' : SymbolMap Value},
      SymbolMap.Related (Value.Matches pairing) fields fields' →
      ExtendsTo admits pairing
        (YieldMatches (heap.newObject cls fields) (heap'.newObject cls fields'))
  newArray : ∀ {pairing : Pairing} {heap heap' : Heap}, admits pairing →
    heap.Matches pairing heap' →
    ∀ {elements elements' : Array Value}, ArraysRelated (Value.Matches pairing) elements elements' →
      ExtendsTo admits pairing
        (YieldMatches (heap.newArray elements) (heap'.newArray elements'))
  newChecked : ∀ {pairing : Pairing} {heap heap' : Heap}, admits pairing →
    heap.Matches pairing heap' →
    ∀ {elements elements' : Array Value}, ArraysRelated (Value.Matches pairing) elements elements' →
      ExtendsTo admits pairing
        (YieldMatches (heap.newChecked elements) (heap'.newChecked elements'))
  /-- Where literals are checked, the second side builds a plain array first. -/
  newLiteral : rules.checksLiterals →
    ∀ {pairing : Pairing} {heap heap' : Heap}, admits pairing →
    heap.Matches pairing heap' →
    ∀ {elements elements' : Array Value}, ArraysRelated (Value.Matches pairing) elements elements' →
      ExtendsTo admits pairing
        (YieldMatches (heap.newChecked elements)
          ((heap'.newArray elements').2.newChecked elements'))
  text : ∀ {pairing : Pairing} {heap heap' : Heap}, admits pairing →
    heap.Matches pairing heap' →
    ∀ {value value' : Value}, value.Matches pairing value' → heap.text? value = heap'.text? value'

namespace Comparison

variable (S : Comparison)

/-- The invocations agree, and both sides went on with them. -/
def InvocationsMatch (pairing : Pairing) (invocation invocation' : Invocation) : Prop :=
  invocation.Matches S.admits S.functions pairing invocation' ∧
    S.passes invocation.function invocation.args invocation'.function

/-- The machines agree under a pairing, their variables along a shape. -/
structure MachinesMatch
    (shape : List Layer)
    (pairing : Pairing)
    (machine machine' : Machine) :
    Prop where
  heap : machine.heap.Matches pairing machine'.heap
  env : machine.env.Matches S.table.knows (Value.Matches pairing) shape machine'.env
  callSites : machine.callSites = machine'.callSites
  calls : Native.CallsMatch S.admits S.memory pairing machine.calls machine'.calls
  invocations : List.Forall₂ (S.InvocationsMatch pairing) machine.invocations machine'.invocations

/-- The second side ended at its latest invocation, which it refused. The first
side went through the same invocations up to that one, and may have gone on. -/
structure Stopped {β : Type} (invocations : List Invocation) (outcome' : Flow β × Machine) :
    Prop where
  refusal : ∃ invocation invocation' earlier earlier' pairing error,
    invocation :: earlier <:+ invocations ∧
      outcome'.2.invocations = invocation' :: earlier' ∧
      S.admits pairing ∧
      invocation.Matches S.admits S.functions pairing invocation' ∧
      List.Forall₂ (S.InvocationsMatch pairing) earlier earlier' ∧
      S.refused invocation invocation' error ∧
      outcome'.1 = .error error ∧
      outcome'.2.heap = invocation'.heap ∧
      outcome'.2.calls = invocation'.calls

end Comparison

/-- The endings agree: related results, returned values that agree, or errors that
agree, or neither side ends within its bound. -/
inductive Flow.Matches {α β : Type} (pairing : Pairing) (results : α → β → Prop) :
    Flow α → Flow β → Prop where
  | next {result : α} {result' : β} (related : results result result') :
      Matches pairing results (.next result) (.next result')
  | ret {value value' : Value} (agree : value.Matches pairing value') :
      Matches pairing results (.ret value) (.ret value')
  | error {error error' : EvalError} (agrees : error.Agrees error') :
      Matches pairing results (.error error) (.error error')
  | exhausted : Matches pairing results .exhausted .exhausted

namespace Comparison

variable (S : Comparison) {α β : Type}

/-- The outcomes agree under a pairing that has grown, or the second side
stopped. -/
def OutcomesMatch
    (shape : List Layer)
    (pairing : Pairing)
    (results : Pairing → α → β → Prop)
    (outcome : Flow α × Machine)
    (outcome' : Flow β × Machine) :
    Prop :=
  (ExtendsTo S.admits pairing fun later =>
    outcome.1.Matches later (results later) outcome'.1 ∧
      S.MachinesMatch shape later outcome.2 outcome'.2) ∨
    S.Stopped outcome.2.invocations outcome'

/-- Started on machines that agree, the computations have outcomes that agree. -/
def Simulates
    (pairing : Pairing)
    (shape : List Layer)
    (results : Pairing → α → β → Prop)
    (computation : Eval α)
    (computation' : Eval β) :
    Prop :=
  ∀ later, pairing ≤ later → S.admits later →
    ∀ machine machine', S.MachinesMatch shape later machine machine' →
      S.OutcomesMatch shape later results (computation machine) (computation' machine')

end Comparison

/-- Values that agree, as a relation between results. -/
abbrev ValuesMatch (pairing : Pairing) : Value → Value → Prop :=
  Value.Matches pairing

/-- Sequences of values that agree one by one. -/
abbrev ListsMatch (pairing : Pairing) : List Value → List Value → Prop :=
  List.Forall₂ (Value.Matches pairing)

/-- Initial fields of the same names whose values agree. -/
abbrev FieldsMatch (pairing : Pairing) : List (Symbol × Value) → List (Symbol × Value) → Prop :=
  List.Forall₂ fun field field' => field.1 = field'.1 ∧ field.2.Matches pairing field'.2

/-- The same result on both sides. -/
abbrev SameResult {α : Type} (_ : Pairing) : α → α → Prop :=
  Eq

end NilSafety
