import NilSafety.EntryPoint
import NilSafety.Eval.Machine
import NilSafety.Presence.Combinators

/-!
Contract: the run-time checks as programs call them.

Owns:
- recognition of an entry point by its name inside the module;
- the number of arguments each takes, and what it does.

Does not own: the names themselves, and who calls them.

A failed guard names the place of the call under way, unless that is generated
code. A failed insistence names its own place.
-/

namespace NilSafety

/-- An entry point of the run-time checks. -/
inductive EntryCall where
  /-- Reports nil for a parameter: takes the parameter's name and the
  function's. -/
  | reportGuard
  /-- Builds a checked array from a plain one. -/
  | buildChecked
  /-- Takes a value and another one for its absence. -/
  | orElse
  /-- Insists on a value's presence. -/
  | insist
deriving DecidableEq

namespace EntryCall

/-- The entry point of a name inside the module. -/
def ofNames? : List String → Option EntryCall
  | [name] =>
      if name = EntryPoint.guardFailure then some reportGuard
      else if name = EntryPoint.or then some orElse
      else if name = EntryPoint.sure then some insist
      else none
  | [type, name] =>
      if type = EntryPoint.checkedArray ∧ name = EntryPoint.fromArray then some buildChecked
      else none
  | _ => none

/-- The number of arguments. -/
def arity : EntryCall → Nat
  | reportGuard | orElse => 2
  | buildChecked | insist => 1

/-- A name inside the module with the module's name before it. -/
def qualified (names : List String) : String :=
  EntryPoint.module ++ "::" ++ "::".intercalate names

/-- The failure of a guard, called where the machine says. -/
def guardFailure (machine : Machine) (parameter function : String) : GuardFailure :=
  let site := machine.callSites.head?.filter (!·.isGenerated)
  ⟨parameter, function, site.map fun span => .clamped span.line span.column⟩

/-- Builds a checked array with the elements of a plain one; a checked array is
its own. -/
def checkedOf (heap : Heap) (value : Value) (span : Span) : Except EvalError (Value × Heap) :=
  match value with
  | .array address => .ok (heap.newChecked (heap.elements address))
  | .checkedArray address => .ok (.checkedArray address, heap)
  | other => .error (.type (.notArray other.kind) span)

/-- Carries out an entry point that was called by the name `names`. -/
def run (entry : EntryCall) (names : List String) (args : List Value) (span : Span) :
    Eval Value :=
  match entry, args with
  | reportGuard, [parameter, function] => do
      let machine ← Eval.machine
      match machine.heap.text? parameter, machine.heap.text? function with
      | some parameter, some function =>
          Eval.fail (.guardFailed (guardFailure machine parameter function))
      | _, _ => Eval.exhausted
  | buildChecked, [value] => do
      let machine ← Eval.machine
      let built ← Eval.ofExcept (checkedOf machine.heap value span)
      Eval.yieldWith built
  | orElse, [value, default] => Eval.result (Presence.orElse value.toOption default)
  | insist, [value] =>
      match Presence.insist value.toOption (.clamped span.line span.column) with
      | .ok value => Eval.result value
      | .error failure => Eval.fail (.valueAbsent failure)
  | entry, args => Eval.fail (.arity (qualified names) entry.arity args.length span)

/-- Calls what the module offers under a name. -/
def call (names : List String) (args : List Value) (span : Span) : Eval Value :=
  match ofNames? names with
  | some entry => entry.run names args span
  | none => Eval.fail (.unknownFunction (qualified names) span)

end EntryCall

end NilSafety
