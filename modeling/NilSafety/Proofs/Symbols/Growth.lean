import NilSafety.Symbol
import Mathlib.Data.List.Infix
import Mathlib.Data.List.Nodup

/-!
Contract: symbol tables that grow.

Owns:
- which symbols a table knows, and that look-up by name and by symbol are
  inverse to each other;
- tables that hold the names of another one under the same symbols and further
  names of a given sort;
- what interning adds.

Does not own: the names that rewriting chooses.
-/

namespace NilSafety

namespace SymbolTable

/-- Whether a symbol has a name in the table. -/
def knows (table : SymbolTable) (symbol : Symbol) : Bool :=
  (table.name? symbol).isSome

theorem knows_iff {table : SymbolTable} {symbol : Symbol} :
    table.knows symbol = true ↔ symbol.number < table.size := by
  unfold knows name? size
  rw [Option.isSome_iff_ne_none, ne_eq, Array.getElem?_eq_none_iff, not_le]

theorem knows_of_name?
    {table : SymbolTable}
    {symbol : Symbol}
    {name : String}
    (named : table.name? symbol = some name) :
    table.knows symbol := by
  unfold knows
  rw [named]
  rfl

theorem name?_of_find?
    {table : SymbolTable}
    {name : String}
    {symbol : Symbol}
    (found : table.find? name = some symbol) :
    table.name? symbol = some name := by
  unfold find? at found
  rw [Option.map_eq_some_iff] at found
  obtain ⟨position, atPosition, rfl⟩ := found
  rw [List.findIdx?_eq_some_iff_getElem] at atPosition
  obtain ⟨inside, same, -⟩ := atPosition
  have inArray : position < table.texts.size := by simpa using inside
  have holds : table.texts[position] = name := by simpa using same
  unfold name?
  rw [Array.getElem?_eq_getElem inArray, holds]

theorem find?_of_name?
    {table : SymbolTable}
    {name : String}
    {symbol : Symbol}
    (named : table.name? symbol = some name) :
    table.find? name = some symbol := by
  unfold name? at named
  obtain ⟨inside, holds⟩ := Array.getElem?_eq_some_iff.mp named
  unfold find?
  rw [Option.map_eq_some_iff]
  refine ⟨symbol.number, ?_, rfl⟩
  rw [List.findIdx?_eq_some_iff_getElem]
  refine ⟨by simpa using inside, by simpa using holds, ?_⟩
  intro earlier before
  have earlierInside : earlier < table.texts.toList.length := by
    simpa using Nat.lt_trans before inside
  have distinct : table.texts.toList[earlier] ≠ table.texts.toList[symbol.number] := by
    intro equal
    exact Nat.ne_of_lt before ((List.Nodup.getElem_inj_iff table.nodup).mp equal)
  have current : table.texts.toList[symbol.number] = name := by simpa using holds
  rw [current] at distinct
  simpa using distinct

theorem find?_eq_some_iff {table : SymbolTable} {name : String} {symbol : Symbol} :
    table.find? name = some symbol ↔ table.name? symbol = some name :=
  ⟨name?_of_find?, find?_of_name?⟩

theorem find?_eq_none_iff {table : SymbolTable} {name : String} :
    table.find? name = none ↔ name ∉ table.texts.toList := by
  refine ⟨not_mem_of_find?_eq_none, fun absent => ?_⟩
  unfold find?
  rw [Option.map_eq_none_iff, List.findIdx?_eq_none_iff]
  intro text member
  have other : text ≠ name := by
    intro same
    rw [same] at member
    exact absent member
  simpa using other

theorem find?_display {table : SymbolTable} {symbol : Symbol} (known : table.knows symbol) :
    table.find? (table.display symbol) = some symbol := by
  obtain ⟨name, named⟩ := Option.isSome_iff_exists.mp known
  unfold display
  rw [named]
  exact find?_of_name? named

/-- The symbol of a text in the table, or one that the table does not know. -/
def symbolOf (table : SymbolTable) (text : String) : Symbol :=
  (table.find? text).getD ⟨table.size⟩

theorem symbolOf_eq_iff {table : SymbolTable} {symbol : Symbol} {text : String}
    (known : table.knows symbol) :
    table.symbolOf text = symbol ↔ table.name? symbol = some text := by
  rw [← find?_eq_some_iff]
  unfold symbolOf
  cases found : table.find? text with
  | some other => rw [Option.getD_some, Option.some_inj]
  | none =>
      refine iff_of_false (fun same => ?_) nofun
      rw [← same, Option.getD_none, knows_iff] at known
      exact Nat.lt_irrefl _ known

/-- `later` holds the names of `table` under the same symbols, and after them
only names of the sort `added`. -/
def ExtendsBy (added : String → Prop) (table later : SymbolTable) : Prop :=
  ∃ names, later.texts.toList = table.texts.toList ++ names ∧ ∀ name ∈ names, added name

namespace ExtendsBy

variable {added : String → Prop} {table middle later : SymbolTable}

theorem refl (table : SymbolTable) : ExtendsBy added table table :=
  ⟨[], by simp, by simp⟩

theorem trans
    (first : ExtendsBy added table middle)
    (second : ExtendsBy added middle later) :
    ExtendsBy added table later := by
  obtain ⟨names, texts, sorts⟩ := first
  obtain ⟨names', texts', sorts'⟩ := second
  refine ⟨names ++ names', by rw [texts', texts, List.append_assoc], ?_⟩
  intro name member
  rcases List.mem_append.mp member with isFirst | isSecond
  · exact sorts name isFirst
  · exact sorts' name isSecond

theorem imp
    {added' : String → Prop}
    (extends_ : ExtendsBy added table later)
    (implied : ∀ name, added name → added' name) :
    ExtendsBy added' table later := by
  obtain ⟨names, texts, sorts⟩ := extends_
  exact ⟨names, texts, fun name member => implied name (sorts name member)⟩

theorem size_le (extends_ : ExtendsBy added table later) : table.size ≤ later.size := by
  obtain ⟨names, texts, -⟩ := extends_
  have lengths := congrArg List.length texts
  simp only [List.length_append, Array.length_toList] at lengths
  unfold size
  omega

theorem name?_eq
    (extends_ : ExtendsBy added table later)
    {symbol : Symbol}
    (known : table.knows symbol) :
    later.name? symbol = table.name? symbol := by
  obtain ⟨names, texts, -⟩ := extends_
  have inside : symbol.number < table.texts.toList.length := by
    simpa [size] using knows_iff.mp known
  unfold name?
  rw [← Array.getElem?_toList, texts, List.getElem?_append_left inside, Array.getElem?_toList]

theorem knows (extends_ : ExtendsBy added table later) {symbol : Symbol}
    (known : table.knows symbol) : later.knows symbol := by
  rw [knows_iff] at known ⊢
  exact Nat.lt_of_lt_of_le known extends_.size_le

theorem display_eq
    (extends_ : ExtendsBy added table later)
    {symbol : Symbol}
    (known : table.knows symbol) :
    later.display symbol = table.display symbol := by
  unfold display
  rw [extends_.name?_eq known]

theorem find?_eq_some
    (extends_ : ExtendsBy added table later)
    {name : String}
    {symbol : Symbol}
    (found : table.find? name = some symbol) :
    later.find? name = some symbol := by
  rw [find?_eq_some_iff] at found ⊢
  rw [extends_.name?_eq (knows_of_name? found), found]

/-- A name of another sort than the added ones is found in both tables or in
neither. -/
theorem find?_eq
    (extends_ : ExtendsBy added table later)
    {name : String}
    (other : ¬ added name) :
    later.find? name = table.find? name := by
  cases found : table.find? name with
  | some symbol => exact extends_.find?_eq_some found
  | none =>
      rw [find?_eq_none_iff] at found ⊢
      obtain ⟨names, texts, sorts⟩ := extends_
      rw [texts, List.mem_append]
      rintro (old | new)
      · exact found old
      · exact other (sorts name new)

/-- What the later table finds and the earlier one does not know is not found in
the earlier one. -/
theorem find?_eq_of_knows
    (extends_ : ExtendsBy added table later)
    {name : String}
    {symbol : Symbol}
    (found : later.find? name = some symbol)
    (known : table.knows symbol) :
    table.find? name = some symbol := by
  rw [find?_eq_some_iff] at found ⊢
  rw [← extends_.name?_eq known, found]

/-- A symbol that only the later table knows has a name that only this table has. -/
theorem find?_eq_none
    (extends_ : ExtendsBy added table later)
    {name : String}
    {symbol : Symbol}
    (isNew : table.knows symbol = false)
    (named : later.name? symbol = some name) :
    table.find? name = none := by
  cases found : table.find? name with
  | none => rfl
  | some other =>
      have same : other = symbol := by
        have foundLater := extends_.find?_eq_some found
        rw [find?_of_name? named] at foundLater
        exact (Option.some_inj.mp foundLater).symm
      rw [same, find?_eq_some_iff] at found
      unfold SymbolTable.knows at isNew
      rw [found] at isNew
      cases isNew

end ExtendsBy

/-- `later` holds the names of `table` and further ones, the name under which
methods know their receiver not among them. -/
abbrev Later : SymbolTable → SymbolTable → Prop := ExtendsBy (· ≠ "self")

/-! ### Interning -/

theorem intern_of_find?
    {table : SymbolTable}
    {name : String}
    {symbol : Symbol}
    (found : table.find? name = some symbol) :
    table.intern name = (symbol, table) := by
  unfold intern
  split
  next other isOther => rw [found] at isOther; cases isOther; rfl
  next isNone => rw [found] at isNone; cases isNone

theorem intern_of_absent
    {table : SymbolTable}
    {name : String}
    (absent : table.find? name = none) :
    (table.intern name).1 = ⟨table.size⟩ ∧
      (table.intern name).2.texts.toList = table.texts.toList ++ [name] := by
  unfold intern
  split
  next other isOther => rw [absent] at isOther; cases isOther
  next isNone => exact ⟨rfl, by simp [push]⟩

theorem name?_intern (table : SymbolTable) (name : String) :
    (table.intern name).2.name? (table.intern name).1 = some name := by
  cases found : table.find? name with
  | some symbol => rw [intern_of_find? found]; exact name?_of_find? found
  | none =>
      obtain ⟨isNext, texts⟩ := intern_of_absent found
      rw [isNext]
      unfold name?
      rw [← Array.getElem?_toList, texts]
      simp [size]

theorem find?_intern (table : SymbolTable) (name : String) :
    (table.intern name).2.find? name = some (table.intern name).1 :=
  find?_of_name? (name?_intern table name)

theorem extendsBy_intern
    {added : String → Prop}
    (table : SymbolTable)
    (name : String)
    (sort : table.find? name = none → added name) :
    ExtendsBy added table (table.intern name).2 := by
  cases found : table.find? name with
  | some symbol => rw [intern_of_find? found]; exact .refl table
  | none =>
      refine ⟨[name], (intern_of_absent found).2, ?_⟩
      intro other member
      rw [List.mem_singleton] at member
      rw [member]
      exact sort found

theorem extendsBy_internAll
    {added : String → Prop}
    (table : SymbolTable)
    (names : List String)
    (sorts : ∀ name ∈ names, added name) :
    ExtendsBy added table (table.internAll names).2 := by
  induction names generalizing table with
  | nil => exact .refl table
  | cons name rest inductionHypothesis =>
      have first : ExtendsBy added table (table.intern name).2 :=
        extendsBy_intern table name fun _ => sorts name (by simp)
      exact first.trans (inductionHypothesis (table.intern name).2 fun other member =>
        sorts other (by simp [member]))

theorem knows_intern (table : SymbolTable) (name : String) :
    (table.intern name).2.knows (table.intern name).1 :=
  knows_of_name? (name?_intern table name)

/-- The symbol of an interned name shows this name from then on. -/
theorem display_intern
    {added : String → Prop}
    {table later : SymbolTable}
    {name : String}
    (grows : ExtendsBy added (table.intern name).2 later) :
    later.display (table.intern name).1 = name := by
  rw [grows.display_eq (knows_intern table name)]
  unfold display
  rw [name?_intern]
  rfl

/-- The symbols of several interned names show these names. -/
theorem display_internAll (table : SymbolTable) (names : List String) :
    (table.internAll names).1.map (table.internAll names).2.display = names ∧
      ∀ symbol ∈ (table.internAll names).1, (table.internAll names).2.knows symbol := by
  induction names generalizing table with
  | nil => simp [internAll]
  | cons name rest inductionHypothesis =>
      obtain ⟨shown, known⟩ := inductionHypothesis (table.intern name).2
      have grows : ExtendsBy (fun _ => True) (table.intern name).2
          ((table.intern name).2.internAll rest).2 :=
        extendsBy_internAll _ rest fun _ _ => trivial
      constructor
      · simp only [internAll, List.map_cons]
        rw [display_intern grows, shown]
      · intro symbol member
        simp only [internAll, List.mem_cons] at member
        rcases member with rfl | inRest
        · exact grows.knows (knows_intern table name)
        · exact known symbol inRest

end SymbolTable

end NilSafety
