import NilSafety.Eval.Env
import NilSafety.Eval.EvalError
import NilSafety.Eval.Heap
import NilSafety.Tree.Decl

/-!
Contract: the state of an evaluation and the ways in which a computation ends.

Owns:
- the machine: the containers, the variables of the present activation, the
  places of the calls under way, every call of a native function so far, and
  every invocation of a declared one;
- computations over it, which go on, return from the enclosing function, fail,
  or exceed the bound they were given;
- blocks, activations and calls of native functions, with what each restores.

Does not own: the meaning of trees.

A block closes its scope and an activation restores the variables of its caller
on every ending.
-/

namespace NilSafety

/-- A call of a native function, with the containers as they were at the call. -/
structure NativeCall where
  name : String
  args : List Value
  heap : Heap
deriving DecidableEq

/-- A function that is no tree. Its answer may depend on all calls of native
functions before this one, the latest first. -/
structure Native where
  respond : (history : List NativeCall) → (args : List Value) → Heap →
    Except EvalError Value × Heap

/-- An invocation of a declared function, with the containers and the calls of
native functions as they were before anything of its body was evaluated. -/
structure Invocation where
  function : Function
  receiver : Option Value
  args : List Value
  site : Span
  heap : Heap
  calls : List NativeCall
deriving DecidableEq

/-- The state of an evaluation. -/
structure Machine where
  heap : Heap
  env : Env
  /-- The places of the calls under way, the innermost first. -/
  callSites : List Span
  /-- The calls of native functions so far, the latest first. -/
  calls : List NativeCall
  /-- The invocations of declared functions so far, the latest first. -/
  invocations : List Invocation
deriving DecidableEq

/-- The state in which nothing was evaluated yet, over given containers. -/
def Machine.start (heap : Heap) : Machine :=
  ⟨heap, .start, [], [], []⟩

/-- How a computation ends. -/
inductive Flow (α : Type) where
  /-- With a result. -/
  | next (result : α)
  /-- By leaving the enclosing function with a value. -/
  | ret (value : Value)
  /-- With an error. -/
  | error (error : EvalError)
  /-- Not within its bound. -/
  | exhausted
deriving DecidableEq

/-- The ending of a function whose body ends so: a return is its result. -/
def Flow.finish : Flow Value → Flow Value
  | ret value => next value
  | other => other

/-- A computation over a machine. -/
def Eval (α : Type) : Type :=
  Machine → Flow α × Machine

namespace Eval

variable {α β : Type}

/-- Ends with a result and changes nothing. -/
def result (value : α) : Eval α := fun machine => (.next value, machine)

/-- Goes on after a computation that ends with a result. -/
def andThen (first : Eval α) (rest : α → Eval β) : Eval β := fun machine =>
  match first machine with
  | (.next value, machine) => rest value machine
  | (.ret value, machine) => (.ret value, machine)
  | (.error error, machine) => (.error error, machine)
  | (.exhausted, machine) => (.exhausted, machine)

instance : Monad Eval where
  pure := result
  bind := andThen

theorem result_andThen (value : α) (rest : α → Eval β) :
    (result value).andThen rest = rest value := rfl

theorem andThen_result (first : Eval α) : first.andThen result = first := by
  funext machine
  unfold andThen result
  rcases first machine with ⟨flow, after⟩
  cases flow <;> rfl

theorem andThen_assoc
    {γ : Type}
    (first : Eval α)
    (second : α → Eval β)
    (third : β → Eval γ) :
    (first.andThen second).andThen third =
      first.andThen fun value => (second value).andThen third := by
  funext machine
  unfold andThen
  rcases first machine with ⟨flow, after⟩
  cases flow <;> rfl

instance : LawfulMonad Eval :=
  .mk' Eval andThen_result result_andThen andThen_assoc

/-- Leaves the enclosing function with a value. -/
def leave (value : Value) : Eval α := fun machine => (.ret value, machine)

/-- Fails. -/
def fail (error : EvalError) : Eval α := fun machine => (.error error, machine)

/-- Exceeds the bound. -/
def exhausted : Eval α := fun machine => (.exhausted, machine)

/-- The machine as it is. -/
def machine : Eval Machine := fun machine => (.next machine, machine)

/-- Replaces the variables. -/
def setEnv (env : Env) : Eval Unit := fun machine => (.next (), { machine with env })

/-- Replaces the contents of containers. -/
def setHeap (heap : Heap) : Eval Unit := fun machine => (.next (), { machine with heap })

/-- Takes over a result and containers. -/
def yieldWith (outcome : α × Heap) : Eval α := fun machine =>
  (.next outcome.1, { machine with heap := outcome.2 })

/-- A result or an error. -/
def ofExcept : Except EvalError α → Eval α
  | .ok value => result value
  | .error error => fail error

/-- Runs a computation in a new innermost scope. -/
def inBlock (computation : Eval α) : Eval α := fun machine =>
  match computation { machine with env := machine.env.push } with
  | (flow, machine) => (flow, { machine with env := machine.env.pop })

/-- Runs a computation over variables of its own, up to a return. -/
def inEnv (env : Env) (computation : Eval Value) : Eval Value := fun machine =>
  match computation { machine with env } with
  | (flow, after) => (flow.finish, { after with env := machine.env })

/-- Runs a computation as the body of a function that is invoked with a receiver,
if there is one, and with arguments. -/
def asInvocation
    (f : Function)
    (receiver : Option Value)
    (args : List Value)
    (site : Span)
    (computation : Eval α) :
    Eval α := fun machine =>
  let invocation := ⟨f, receiver, args, site, machine.heap, machine.calls⟩
  computation { machine with invocations := invocation :: machine.invocations }

/-- Runs a computation while a call at `site` is under way. -/
def duringCall (site : Span) (computation : Eval α) : Eval α := fun machine =>
  match computation { machine with callSites := site :: machine.callSites } with
  | (flow, machine) => (flow, { machine with callSites := machine.callSites.tail })

/-- Calls a native function. -/
def callNative (name : String) (native : Native) (args : List Value) : Eval Value :=
  fun machine =>
    match native.respond machine.calls args machine.heap with
    | (answer, heap) =>
        ofExcept answer
          { machine with heap, calls := ⟨name, args, machine.heap⟩ :: machine.calls }

/-- Repeats a computation as long as another one asks for it, at most `turns`
times. -/
def repeatWhile (turns : Nat) (wanted : Eval Bool) (body : Eval Unit) : Eval Unit :=
  match turns with
  | 0 => exhausted
  | turns + 1 => do
      if ← wanted then
        body
        repeatWhile turns wanted body

end Eval

end NilSafety
