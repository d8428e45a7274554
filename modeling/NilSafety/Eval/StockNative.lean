import NilSafety.Eval.Machine

/-!
Contract: native functions for general use.

Owns: functions with fixed answers, functions that answer from their arguments,
and functions that count their own calls.

Does not own: registration.

A function that counts is told under which name it goes and how many calls of
native functions came before its registration; those are not its own.
-/

namespace NilSafety.Native

/-- Always answers the same value. -/
def constant (value : Value) : Native :=
  ⟨fun _ _ heap => (.ok value, heap)⟩

/-- Always fails in the same way. -/
def failing (error : EvalError) : Native :=
  ⟨fun _ _ heap => (.error error, heap)⟩

/-- Answers its first argument, or nil without one. -/
def echo : Native :=
  ⟨fun _ args heap => (.ok (args.headD .nil), heap)⟩

/-- Answers its arguments as a new plain array. -/
def gather : Native :=
  ⟨fun _ args heap =>
    let (array, heap) := heap.newArray args.toArray
    (.ok array, heap)⟩

/-- Answers its arguments as a new checked array. -/
def gatherChecked : Native :=
  ⟨fun _ args heap =>
    let (array, heap) := heap.newChecked args.toArray
    (.ok array, heap)⟩

/-- The number of calls under a name in a history, apart from the `earlier` ones
at its beginning. -/
def ownCalls (name : String) (earlier : Nat) (history : List NativeCall) : Nat :=
  (history.take (history.length - earlier)).countP (·.name == name)

/-- Answers how often it was called, this call included. -/
def counter (name : String) (earlier : Nat) : Native :=
  ⟨fun history _ heap => (.ok (.int (.ofNat (ownCalls name earlier history + 1))), heap)⟩

/-- Answers the given values one after another, then nil. -/
def sequence (name : String) (earlier : Nat) (values : List Value) : Native :=
  ⟨fun history _ heap => (.ok (values.getD (ownCalls name earlier history) .nil), heap)⟩

end NilSafety.Native
