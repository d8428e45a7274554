import NilSafety.Eval.Value
import NilSafety.SymbolMap

/-!
Contract: the variables of one function activation.

Owns:
- nested scopes, of which at least one is always open;
- opening and closing of a scope, binding, look-up and assignment.

Does not own: loaded constants, which are looked up where no scope binds a name.
-/

namespace NilSafety

/-- Nested scopes: the innermost one and those around it, the outermost last. -/
structure Env where
  inner : SymbolMap Value
  outer : List (SymbolMap Value)
deriving DecidableEq

namespace Env

/-- One scope without bindings. -/
def start : Env := ⟨.empty, []⟩

/-- Opens a scope inside the innermost one. -/
def push (env : Env) : Env :=
  ⟨.empty, env.inner :: env.outer⟩

/-- Closes the innermost scope. The outermost one stays open. -/
def pop (env : Env) : Env :=
  match env.outer with
  | [] => env
  | scope :: rest => ⟨scope, rest⟩

/-- Binds a name in the innermost scope. -/
def define (env : Env) (name : Symbol) (value : Value) : Env :=
  { env with inner := env.inner.set name value }

/-- The value a name is bound to in the innermost of several scopes that binds
it. -/
def lookup (name : Symbol) : List (SymbolMap Value) → Option Value
  | [] => none
  | scope :: rest =>
      match scope.get? name with
      | some value => some value
      | none => lookup name rest

/-- The value of a variable. -/
def get? (env : Env) (name : Symbol) : Option Value :=
  lookup name (env.inner :: env.outer)

/-- Several scopes with the innermost binding of a name replaced, if one of them
binds it. -/
def assignIn (name : Symbol) (value : Value) :
    List (SymbolMap Value) → Option (List (SymbolMap Value))
  | [] => none
  | scope :: rest =>
      if scope.contains name then some (scope.set name value :: rest)
      else (assignIn name value rest).map (scope :: ·)

/-- Replaces the innermost binding of a variable; without one there is no
result. -/
def assign? (env : Env) (name : Symbol) (value : Value) : Option Env :=
  if env.inner.contains name then some { env with inner := env.inner.set name value }
  else (assignIn name value env.outer).map fun outer => { env with outer }

end Env

end NilSafety
