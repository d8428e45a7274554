import NilSafety.Symbol

/-!
Contract: finite maps from symbols.

Owns: the map as entries in the order in which their symbols were first set,
with look-up and update.

Does not own: what the maps are for. Scopes of variables, fields of objects and
loaded constants are such maps.
-/

namespace NilSafety

/-- A finite map from symbols. -/
structure SymbolMap (α : Type) where
  entries : List (Symbol × α)
deriving DecidableEq

namespace SymbolMap

variable {α : Type}

/-- The map without entries. -/
def empty : SymbolMap α := ⟨[]⟩

instance : Inhabited (SymbolMap α) := ⟨empty⟩

/-- The value of the first entry for a symbol. -/
def lookup (symbol : Symbol) : List (Symbol × α) → Option α
  | [] => none
  | (key, value) :: rest => if key = symbol then some value else lookup symbol rest

/-- The entries with the first one for `symbol` replaced, or one added at the
end. -/
def update (symbol : Symbol) (value : α) : List (Symbol × α) → List (Symbol × α)
  | [] => [(symbol, value)]
  | (key, old) :: rest =>
      if key = symbol then (key, value) :: rest else (key, old) :: update symbol value rest

/-- The value that a symbol is mapped to. -/
def get? (map : SymbolMap α) (symbol : Symbol) : Option α :=
  lookup symbol map.entries

/-- Whether a symbol is mapped to something. -/
def contains (map : SymbolMap α) (symbol : Symbol) : Bool :=
  (map.get? symbol).isSome

/-- The map with a symbol mapped to a value. -/
def set (map : SymbolMap α) (symbol : Symbol) (value : α) : SymbolMap α :=
  ⟨update symbol value map.entries⟩

/-- The map of the given entries; of several for one symbol, the last counts. -/
def ofList (entries : List (Symbol × α)) : SymbolMap α :=
  entries.foldl (fun map entry => map.set entry.1 entry.2) empty

theorem lookup_update_self (symbol : Symbol) (value : α) (entries : List (Symbol × α)) :
    lookup symbol (update symbol value entries) = some value := by
  induction entries with
  | nil => simp [update, lookup]
  | cons entry rest inductionHypothesis =>
      by_cases same : entry.1 = symbol
      · simp [update, lookup, same]
      · simp [update, lookup, same, inductionHypothesis]

theorem lookup_update_of_ne
    {symbol other : Symbol}
    (different : other ≠ symbol)
    (value : α)
    (entries : List (Symbol × α)) :
    lookup other (update symbol value entries) = lookup other entries := by
  induction entries with
  | nil => simp [update, lookup, different.symm]
  | cons entry rest inductionHypothesis =>
      by_cases same : entry.1 = symbol
      · simp [update, lookup, same, different.symm]
      · by_cases found : entry.1 = other
        · simp [update, lookup, found, different]
        · simp [update, lookup, same, found, inductionHypothesis]

@[simp] theorem get?_empty (symbol : Symbol) : (empty : SymbolMap α).get? symbol = none := rfl

@[simp] theorem get?_set_self (map : SymbolMap α) (symbol : Symbol) (value : α) :
    (map.set symbol value).get? symbol = some value :=
  lookup_update_self symbol value map.entries

theorem get?_set_of_ne
    (map : SymbolMap α)
    {symbol other : Symbol}
    (different : other ≠ symbol)
    (value : α) :
    (map.set symbol value).get? other = map.get? other :=
  lookup_update_of_ne different value map.entries

end SymbolMap

end NilSafety
