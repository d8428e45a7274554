import NilSafety.Rewrite.Body
import NilSafety.Rewrite.ParamGuard
import NilSafety.Scope.ActivationSet

/-!
Contract: rewriting of one unit.

Owns:
- the order of the declarations and of the methods inside them;
- the features consulted for each function and constant;
- which functions are guarded: exposed ones, for methods of a class only if the
  class is exposed too, where guards are in effect; and that guards follow the
  rewriting of the body;
- the outcome: the counts, or every problem found.

Does not own: the rewriting of a body, or units beside this one.

A unit with problems is left as far as it was rewritten; it must not be used.
-/

namespace NilSafety

namespace Rewrite

/-- Puts the guards of the function at `path` in place. -/
def guards (path : Path) (f : Function) : Rewrite Function := fun progress =>
  let count := (f.guardedParams progress.table).length
  if count = 0 then (f, progress)
  else
    let (f, table) := f.withGuards progress.table path
    let counts := { progress.counts with
      guards := progress.counts.guards + count
      guardedFunctions := progress.counts.guardedFunctions + 1 }
    (f, { progress with table, counts }.log (.guarded path count))

/-- Rewrites a function that sits at `place`; `ownerExposed` tells whether what
it is declared in admits guards. -/
def function
    (set : ActivationSet)
    (place : Placement)
    (ownerExposed : Bool)
    (f : Function) :
    Rewrite Function := do
  let features := set.featuresAt place
  if features.isEmpty then
    modify (·.log (.idle place.path))
  let body ← body place.path features f.body
  let f := { f with body }
  if features.guards && ownerExposed && f.visibility = .exposed then guards place.path f
  else return f

/-- Rewrites the methods of an owner, in order. -/
def methods
    (set : ActivationSet)
    (package : Path)
    (owner : String)
    (ownerExposed : Bool) :
    List Function → Rewrite (List Function)
  | [] => return []
  | method :: rest => do
      let name := (← get).table.display method.name
      let method ← function set (.method package owner name) ownerExposed method
      let rest ← methods set package owner ownerExposed rest
      return method :: rest

/-- Rewrites a declaration of a unit in `package`. -/
def decl (set : ActivationSet) (package : Path) : Decl → Rewrite Decl
  | .function f => do
      let name := (← get).table.display f.name
      let f ← function set (.item package name) true f
      return .function f
  | .record name fields members visibility span => do
      let owner := (← get).table.display name
      let members ← methods set package owner (visibility = .exposed) members
      return .record name fields members visibility span
  | .extension name members span => do
      let owner := (← get).table.display name
      let members ← methods set package owner true members
      return .extension name members span
  | .constant name note value visibility span => do
      let place := Placement.item package ((← get).table.display name)
      let value ← body place.path (set.featuresAt place) value
      return .constant name note value visibility span

/-- Rewrites declarations in order. -/
def decls (set : ActivationSet) (package : Path) : List Decl → Rewrite (List Decl)
  | [] => return []
  | first :: rest => do
      let first ← decl set package first
      let rest ← decls set package rest
      return first :: rest

end Rewrite

/-- What the rewriting of a unit leaves behind. -/
structure UnitOutcome where
  unit : SourceUnit
  table : SymbolTable
  result : Except (List Problem) Counts
  events : List Event

/-- Rewrites a unit with the features that `set` puts into effect. -/
def SourceUnit.rewrite
    (set : ActivationSet)
    (unit : SourceUnit)
    (table : SymbolTable) :
    UnitOutcome :=
  let (decls, progress) := (Rewrite.decls set unit.package unit.decls).run (.start table)
  let unit := { unit with decls }
  match progress.problems with
  | [] =>
      { unit
        table := progress.table
        result := .ok progress.counts
        events := progress.events ++ [.rewritten unit.package progress.counts] }
  | problems =>
      { unit
        table := progress.table
        result := .error problems
        events := progress.events ++ problems.map .failed }

end NilSafety
