/-!
Contract: interned names.

Owns:
- symbols, which trees carry in place of names;
- the symbol table, a list of distinct texts in which a symbol is a position;
- interning, look-up in both directions, and the text shown for a symbol that
  the table does not hold.

Does not own: which names are interned, or in what order.
-/

namespace NilSafety

/-- A name as trees carry it: a position in a symbol table. -/
structure Symbol where
  number : Nat
deriving DecidableEq, Inhabited

/-- The text by which a symbol itself, not its name, is shown. -/
def Symbol.text (symbol : Symbol) : String :=
  s!"Symbol({symbol.number})"

/-- The names interned so far, in the order of their symbols. -/
structure SymbolTable where
  texts : Array String
  nodup : texts.toList.Nodup

namespace SymbolTable

/-- The table without names. -/
def empty : SymbolTable := ⟨#[], by simp⟩

instance : Inhabited SymbolTable := ⟨empty⟩

/-- The number of names. -/
def size (table : SymbolTable) : Nat :=
  table.texts.size

/-- Whether no name was interned yet. -/
def isEmpty (table : SymbolTable) : Bool :=
  table.texts.isEmpty

/-- The symbol of a name that was interned before. -/
def find? (table : SymbolTable) (name : String) : Option Symbol :=
  (table.texts.toList.findIdx? (· == name)).map Symbol.mk

/-- The name of a symbol. -/
def name? (table : SymbolTable) (symbol : Symbol) : Option String :=
  table.texts[symbol.number]?

/-- The name shown for a symbol, with a fixed text for one that is not in the
table. -/
def display (table : SymbolTable) (symbol : Symbol) : String :=
  (table.name? symbol).getD "<unknown>"

theorem not_mem_of_find?_eq_none
    {table : SymbolTable}
    {name : String}
    (absent : table.find? name = none) :
    name ∉ table.texts.toList := by
  simp only [find?, Option.map_eq_none_iff, List.findIdx?_eq_none_iff] at absent
  intro member
  simpa using absent name member

/-- The table with a name added that it does not hold. -/
def push
    (table : SymbolTable)
    (name : String)
    (absent : name ∉ table.texts.toList) :
    SymbolTable where
  texts := table.texts.push name
  nodup := by
    rw [Array.toList_push, List.nodup_append]
    refine ⟨table.nodup, by simp, ?_⟩
    intro text member other isName same
    rw [List.mem_singleton] at isName
    exact absent (isName ▸ same ▸ member)

/-- The symbol of a name, which is added to the table unless it is there. -/
def intern (table : SymbolTable) (name : String) : Symbol × SymbolTable :=
  match found : table.find? name with
  | some symbol => (symbol, table)
  | none => (⟨table.size⟩, table.push name (not_mem_of_find?_eq_none found))

/-- The symbols of several names, interned one after another. -/
def internAll (table : SymbolTable) : List String → List Symbol × SymbolTable
  | [] => ([], table)
  | name :: rest =>
      let (symbol, table) := table.intern name
      let (symbols, table) := table.internAll rest
      (symbol :: symbols, table)

end SymbolTable

end NilSafety
