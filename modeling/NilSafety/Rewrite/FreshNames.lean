import NilSafety.Symbol

/-!
Contract: names for the bindings that rewriting introduces.

Owns:
- the numbered form of these names;
- the choice of the least number, at or past a counter, whose name is not in the
  symbol table.

Does not own: the symbol table. A name that the source uses already is in it, so
it is never chosen.

The search looks at as many numbers as the table has names. Should all of them
be taken, the next number cannot be: its name would be one more than the table
holds.
-/

namespace NilSafety

/-- The number to try next, and how many names were handed out. -/
structure FreshNames where
  next : Nat
  issued : Nat
deriving DecidableEq

namespace FreshNames

/-- Nothing handed out yet. -/
def start : FreshNames := ⟨0, 0⟩

/-- The name with a given number. -/
def candidate (number : Nat) : String :=
  "__nullsafe_nav" ++ toString number

/-- The first of the numbers from `number` on whose name the table lacks,
looking at no more than `limit` of them. -/
def firstFree (table : SymbolTable) : (limit number : Nat) → Nat
  | 0, number => number
  | limit + 1, number =>
      if (table.find? (candidate number)).isSome then firstFree table limit (number + 1)
      else number

/-- A name that the table lacks, interned in it. -/
def fresh (names : FreshNames) (table : SymbolTable) : Symbol × FreshNames × SymbolTable :=
  let number := firstFree table table.size names.next
  let (symbol, table) := table.intern (candidate number)
  (symbol, ⟨number + 1, names.issued + 1⟩, table)

end FreshNames

end NilSafety
