import NilSafety.Symbol

/-!
Contract: the store that symbols are handed out from.

Owns:
- the texts by symbol and the symbols by text, as two tables that are written side by side;
- numbers of symbols, which have 32 bits;
- interning, look-up in both directions, and the text shown for a symbol that the store does
  not hold.

Does not own: that the two tables say the same. Trees resolve their names in a `SymbolTable`,
which has one list in place of the two tables and numbers without a bound.
-/

namespace NilSafety

/-- The symbol for a position. Its number keeps the last 32 bits. -/
def Symbol.ofPosition (position : Nat) : Symbol :=
  ⟨position % UInt32.size⟩

/-- The interned texts in the order in which they came, and the symbols that they got, the
newest first. -/
structure Interner where
  texts : Array String
  symbols : List (String × Symbol)
deriving DecidableEq

namespace Interner

/-- The store without texts. -/
def empty : Interner := ⟨#[], []⟩

/-- The number of texts. -/
def size (interner : Interner) : Nat :=
  interner.texts.size

/-- Whether no text was interned yet. -/
def isEmpty (interner : Interner) : Bool :=
  interner.texts.isEmpty

/-- The symbol of a text that was interned before. -/
def find? (interner : Interner) (text : String) : Option Symbol :=
  interner.symbols.lookup text

/-- The text of a symbol. -/
def name? (interner : Interner) (symbol : Symbol) : Option String :=
  interner.texts[symbol.number]?

/-- The text shown for a symbol, with a fixed one for a symbol that is not in the store. -/
def display (interner : Interner) (symbol : Symbol) : String :=
  (interner.name? symbol).getD "<unknown>"

/-- The symbol of a text, which is added to both tables unless it is there. -/
def intern (interner : Interner) (text : String) : Symbol × Interner :=
  match interner.find? text with
  | some symbol => (symbol, interner)
  | none =>
      let symbol := Symbol.ofPosition interner.texts.size
      (symbol, ⟨interner.texts.push text, (text, symbol) :: interner.symbols⟩)

end Interner

end NilSafety
