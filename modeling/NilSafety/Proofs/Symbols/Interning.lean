import Mathlib.Data.Finset.Card
import NilSafety.Interner
import NilSafety.Proofs.Runs
import NilSafety.Proofs.Symbols.Growth

/-!
Contract: texts that are interned one after another.

Owns:
- which texts a symbol table holds after a sequence of texts, and under which symbols;
- that an interner holds what the symbol table holds, with numbers cut to 32 bits;
- up to how many texts the two tables of an interner are inverse to each other;
- the symbols and the interner that a sequence of texts comes to.

Does not own: which texts are interned, or in what order.

The two look-ups of a symbol table are inverse because they read one list. An interner writes
two tables, and each step has to keep them in line. This is shown through the symbol table,
which takes the same step: texts stand where they stand there, and the symbol found for a text
is the one found there with its number cut. Nothing is cut as long as 32 bits suffice.
-/

namespace NilSafety

/-- The number of distinct texts before the first occurrence of a text. -/
def distinctBefore (text : String) (texts : List String) : Nat :=
  (texts.takeWhile (· ≠ text)).toFinset.card

/-! ### Symbol tables -/

namespace SymbolTable

theorem mem_texts_intern {table : SymbolTable} {name text : String} :
    text ∈ (table.intern name).2.texts.toList ↔ text ∈ table.texts.toList ∨ text = name := by
  cases found : table.find? name with
  | some symbol =>
      have member : name ∈ table.texts.toList := by
        by_contra absent
        rw [← find?_eq_none_iff, found] at absent
        cases absent
      rw [intern_of_find? found]
      exact ⟨.inl, fun held => held.elim id fun same => same ▸ member⟩
  | none => rw [(intern_of_absent found).2, List.mem_append, List.mem_singleton]

theorem mem_texts_internAll {table : SymbolTable} {texts : List String} {text : String} :
    text ∈ (table.internAll texts).2.texts.toList ↔ text ∈ table.texts.toList ∨ text ∈ texts := by
  induction texts generalizing table with
  | nil => simp [internAll]
  | cons first rest inductionHypothesis =>
      simp only [internAll, inductionHypothesis, mem_texts_intern, List.mem_cons, or_assoc]

theorem mem_texts_internAll_empty {texts : List String} {text : String} :
    text ∈ (empty.internAll texts).2.texts.toList ↔ text ∈ texts := by
  rw [mem_texts_internAll]
  exact or_iff_right List.not_mem_nil

/-- The table holds each text once. -/
theorem size_internAll_empty (texts : List String) :
    (empty.internAll texts).2.size = texts.toFinset.card := by
  have sameTexts : (empty.internAll texts).2.texts.toList.toFinset = texts.toFinset := by
    ext text
    rw [List.mem_toFinset, List.mem_toFinset, mem_texts_internAll_empty]
  rw [← sameTexts, List.toFinset_card_of_nodup (empty.internAll texts).2.nodup]
  rfl

/-- What is found stays found under its symbol. -/
theorem find?_internAll_of_find?
    {table : SymbolTable}
    {text : String}
    {symbol : Symbol}
    (found : table.find? text = some symbol)
    (texts : List String) :
    (table.internAll texts).2.find? text = some symbol := by
  have grows : ExtendsBy (fun _ => True) table (table.internAll texts).2 :=
    extendsBy_internAll table texts fun _ _ => trivial
  exact grows.find?_eq_some found

/-- A new text gets the position that is free when it first occurs, and keeps it. -/
theorem find?_internAll
    {table : SymbolTable}
    {texts : List String}
    {text : String}
    (absent : table.find? text = none)
    (member : text ∈ texts) :
    (table.internAll texts).2.find? text =
      some ⟨(table.internAll (texts.takeWhile (· ≠ text))).2.size⟩ := by
  induction texts generalizing table with
  | nil => cases member
  | cons first rest inductionHypothesis =>
      by_cases same : first = text
      · subst same
        have found := find?_internAll_of_find? (find?_intern table first) rest
        rw [(intern_of_absent absent).1] at found
        simpa [internAll] using found
      · have inRest : text ∈ rest := (List.mem_cons.mp member).resolve_left (Ne.symm same)
        have growsBy : ExtendsBy (· = first) table (table.intern first).2 :=
          extendsBy_intern table first fun _ => rfl
        have stillAbsent : (table.intern first).2.find? text = none := by
          rw [growsBy.find?_eq (Ne.symm same), absent]
        simpa [internAll, same] using inductionHypothesis stillAbsent inRest

theorem find?_internAll_empty {texts : List String} {text : String} (member : text ∈ texts) :
    (empty.internAll texts).2.find? text = some ⟨distinctBefore text texts⟩ := by
  rw [find?_internAll rfl member, size_internAll_empty, distinctBefore]

/-- The symbols are those under which the texts are found at the end. -/
theorem symbols_internAll (table : SymbolTable) (texts : List String) :
    (table.internAll texts).1.map some = texts.map (table.internAll texts).2.find? := by
  induction texts generalizing table with
  | nil => rfl
  | cons first rest inductionHypothesis =>
      have found := find?_internAll_of_find? (find?_intern table first) rest
      simp only [internAll, List.map_cons, inductionHypothesis, found]

theorem symbols_internAll_empty (texts : List String) :
    (empty.internAll texts).1 = texts.map fun text => ⟨distinctBefore text texts⟩ := by
  apply List.map_injective_iff.mpr (Option.some_injective Symbol)
  rw [symbols_internAll, List.map_map]
  exact List.map_congr_left fun text member => find?_internAll_empty member

end SymbolTable

/-! ### Two tables in line with one -/

theorem Symbol.ofPosition_number
    {symbol : Symbol}
    (fits : symbol.number < UInt32.size) :
    Symbol.ofPosition symbol.number = symbol := by
  rw [Symbol.ofPosition, Nat.mod_eq_of_lt fits]

namespace Interner

theorem intern_of_find?
    {interner : Interner}
    {text : String}
    {symbol : Symbol}
    (found : interner.find? text = some symbol) :
    interner.intern text = (symbol, interner) := by
  rw [intern, found]

theorem intern_of_absent
    {interner : Interner}
    {text : String}
    (absent : interner.find? text = none) :
    interner.intern text =
      (.ofPosition interner.size,
        ⟨interner.texts.push text, (text, .ofPosition interner.size) :: interner.symbols⟩) := by
  rw [intern, absent]
  rfl

/-- Interns texts one after another, with all their symbols. -/
def internAll (interner : Interner) (texts : List String) : List Symbol × Interner :=
  performAll (fun text interner => interner.intern text) texts interner

/-- The interner holds the texts of the table at the same positions, and finds them under the
same symbols, but for the cut of their numbers. -/
structure Represents (interner : Interner) (table : SymbolTable) : Prop where
  texts : interner.texts = table.texts
  symbols : ∀ text,
    interner.find? text = (table.find? text).map fun symbol => .ofPosition symbol.number

namespace Represents

variable {interner : Interner} {table : SymbolTable}

theorem empty : Represents .empty .empty where
  texts := rfl
  symbols := fun _ => rfl

theorem size_eq (represents : Represents interner table) : interner.size = table.size :=
  congrArg Array.size represents.texts

theorem name?_eq (represents : Represents interner table) (symbol : Symbol) :
    interner.name? symbol = table.name? symbol := by
  rw [name?, represents.texts, SymbolTable.name?]

/-- Interning a text keeps the two in line. -/
theorem intern (represents : Represents interner table) (text : String) :
    (interner.intern text).1 = .ofPosition (table.intern text).1.number ∧
      Represents (interner.intern text).2 (table.intern text).2 := by
  cases found : table.find? text with
  | some symbol =>
      have foundToo : interner.find? text = some (.ofPosition symbol.number) := by
        rw [represents.symbols, found, Option.map_some]
      rw [intern_of_find? foundToo, SymbolTable.intern_of_find? found]
      exact ⟨rfl, represents⟩
  | none =>
      have absentToo : interner.find? text = none := by
        rw [represents.symbols, found, Option.map_none]
      have foundNow := SymbolTable.find?_intern table text
      have growsBy : SymbolTable.ExtendsBy (· = text) table (table.intern text).2 :=
        SymbolTable.extendsBy_intern table text fun _ => rfl
      obtain ⟨position, texts⟩ := SymbolTable.intern_of_absent found
      rw [intern_of_absent absentToo, position, represents.size_eq]
      rw [position] at foundNow
      refine ⟨rfl, ⟨?_, fun other => ?_⟩⟩
      · rw [← Array.toList_inj, texts, Array.toList_push, represents.texts]
      · -- The new entry comes first, and answers for its own text only.
        unfold find?
        by_cases same : other = text
        · rw [same, List.lookup_cons_self, foundNow, Option.map_some]
        · rw [growsBy.find?_eq same, List.lookup_cons, beq_false_of_ne same]
          exact represents.symbols other

/-- Interning a sequence of texts keeps the two in line. -/
theorem internAll (represents : Represents interner table) (texts : List String) :
    (interner.internAll texts).1 =
        (table.internAll texts).1.map (fun symbol => .ofPosition symbol.number) ∧
      Represents (interner.internAll texts).2 (table.internAll texts).2 := by
  induction texts generalizing interner table with
  | nil => exact ⟨rfl, represents⟩
  | cons first rest inductionHypothesis =>
      obtain ⟨sameSymbol, afterFirst⟩ := represents.intern first
      obtain ⟨sameSymbols, afterRest⟩ := inductionHypothesis afterFirst
      exact ⟨congrArg₂ List.cons sameSymbol sameSymbols, afterRest⟩

/-- Numbers of symbols have 32 bits, whatever the table counts. -/
theorem number_lt
    (represents : Represents interner table)
    {text : String}
    {symbol : Symbol}
    (found : interner.find? text = some symbol) :
    symbol.number < UInt32.size := by
  rw [represents.symbols, Option.map_eq_some_iff] at found
  obtain ⟨uncut, -, rfl⟩ := found
  exact Nat.mod_lt _ (by decide)

theorem find?_eq
    (represents : Represents interner table)
    (few : table.size ≤ UInt32.size)
    (text : String) :
    interner.find? text = table.find? text := by
  rw [represents.symbols]
  cases found : table.find? text with
  | none => rfl
  | some symbol =>
      have known := SymbolTable.knows_of_name? (SymbolTable.name?_of_find? found)
      have fits := Nat.lt_of_lt_of_le (SymbolTable.knows_iff.mp known) few
      rw [Option.map_some, Symbol.ofPosition_number fits]

/-- The two tables of an interner are inverse exactly as long as 32 bits can number the texts:
the first text past them is found under a symbol that stands for another one. -/
theorem inverse_iff (represents : Represents interner table) :
    (∀ text symbol, interner.find? text = some symbol ↔ interner.name? symbol = some text) ↔
      interner.size ≤ UInt32.size := by
  constructor
  · intro inverse
    by_contra many
    -- No number that is found reaches the position of the first text past 32 bits.
    have inside : UInt32.size < interner.texts.size := Nat.lt_of_not_le many
    have named : interner.name? ⟨UInt32.size⟩ = some interner.texts[UInt32.size] :=
      Array.getElem?_eq_getElem inside
    exact Nat.lt_irrefl _ (represents.number_lt ((inverse _ _).mpr named))
  · intro few text symbol
    rw [represents.size_eq] at few
    rw [represents.find?_eq few, represents.name?_eq, SymbolTable.find?_eq_some_iff]

end Represents

/-! ### Sequences of texts -/

theorem name?_ne_none_iff {interner : Interner} {symbol : Symbol} :
    interner.name? symbol ≠ none ↔ symbol.number < interner.size := by
  rw [name?, size, ne_eq, Array.getElem?_eq_none_iff, not_le]

theorem represents_internAll_empty (texts : List String) :
    Represents (empty.internAll texts).2 (SymbolTable.empty.internAll texts).2 :=
  (Represents.empty.internAll texts).2

theorem size_internAll_empty (texts : List String) :
    (empty.internAll texts).2.size = texts.toFinset.card := by
  rw [(represents_internAll_empty texts).size_eq, SymbolTable.size_internAll_empty]

theorem find?_internAll_empty_ne_none_iff {texts : List String} {text : String} :
    (empty.internAll texts).2.find? text ≠ none ↔ text ∈ texts := by
  rw [(represents_internAll_empty texts).symbols, ne_eq, Option.map_eq_none_iff,
    SymbolTable.find?_eq_none_iff, not_not, SymbolTable.mem_texts_internAll_empty]

/-- What interning a sequence of texts comes to: the symbols that the texts get, and the
interner that is left. -/
structure Interned (texts : List String) (symbols : List Symbol) (interner : Interner) :
    Prop where
  inverse : ∀ text symbol,
    interner.find? text = some symbol ↔ interner.name? symbol = some text
  found : ∀ text, interner.find? text ≠ none ↔ text ∈ texts
  named : ∀ symbol, interner.name? symbol ≠ none ↔ symbol.number < interner.size
  counted : interner.size = texts.toFinset.card
  issued : symbols = texts.map fun text => ⟨distinctBefore text texts⟩
  stable : ∀ further, symbols.map (interner.internAll further).2.name? = texts.map some
  unchanged : ∀ text ∈ texts,
    interner.intern text = (⟨distinctBefore text texts⟩, interner)

section

variable {texts : List String} (few : texts.toFinset.card ≤ UInt32.size)

include few

theorem find?_internAll_empty {text : String} (member : text ∈ texts) :
    (empty.internAll texts).2.find? text = some ⟨distinctBefore text texts⟩ := by
  rw [← SymbolTable.size_internAll_empty] at few
  rw [(represents_internAll_empty texts).find?_eq few,
    SymbolTable.find?_internAll_empty member]

/-- The numbers of all symbols fit, so the symbols are those of the table. -/
theorem symbols_internAll_empty :
    (empty.internAll texts).1 = (SymbolTable.empty.internAll texts).1 := by
  rw [(Represents.empty.internAll texts).1, SymbolTable.symbols_internAll_empty, List.map_map]
  refine List.map_congr_left fun text member => ?_
  have fits := (represents_internAll_empty texts).number_lt (find?_internAll_empty few member)
  exact Symbol.ofPosition_number fits

/-- Each symbol stands for its text from then on, however many texts follow. -/
theorem names_internAll_empty (further : List String) :
    (empty.internAll texts).1.map ((empty.internAll texts).2.internAll further).2.name? =
      texts.map some := by
  rw [symbols_internAll_empty few, SymbolTable.symbols_internAll_empty, List.map_map]
  refine List.map_congr_left fun text member => ?_
  have later := ((represents_internAll_empty texts).internAll further).2
  have found := SymbolTable.find?_internAll_empty member
  rw [Function.comp_apply, later.name?_eq]
  exact SymbolTable.name?_of_find? (SymbolTable.find?_internAll_of_find? found further)

end

/-- As long as 32 bits can number the distinct texts of a sequence, an interner gives each
text the number of distinct texts before its first occurrence, its two tables are inverse to
each other, and nothing that is interned later changes a symbol. It is then the symbol table
of the same texts. -/
theorem interning_exact (texts : List String) (few : texts.toFinset.card ≤ UInt32.size) :
    let outcome := empty.internAll texts
    let reference := SymbolTable.empty.internAll texts
    Interned texts outcome.1 outcome.2 ∧
      outcome.1 = reference.1 ∧
      (∀ text, outcome.2.find? text = reference.2.find? text) ∧
      ∀ symbol, outcome.2.name? symbol = reference.2.name? symbol := by
  have represents := represents_internAll_empty texts
  have counted := size_internAll_empty texts
  have sameSymbols := symbols_internAll_empty few
  have fewInTable : (SymbolTable.empty.internAll texts).2.size ≤ UInt32.size := by
    rwa [SymbolTable.size_internAll_empty]
  refine ⟨?_, sameSymbols, represents.find?_eq fewInTable, represents.name?_eq⟩
  exact {
    inverse := represents.inverse_iff.mpr (by rwa [counted])
    found := fun _ => find?_internAll_empty_ne_none_iff
    named := fun _ => name?_ne_none_iff
    counted
    issued := sameSymbols.trans (SymbolTable.symbols_internAll_empty texts)
    stable := names_internAll_empty few
    unchanged := fun _ member => intern_of_find? (find?_internAll_empty few member) }

/-- A text that comes again, and further ones of which one is new. -/
theorem interning_exact_of_repeated :
    let texts := ["job", "task", "job"]
    let outcome := empty.internAll texts
    texts.toFinset.card ≤ UInt32.size ∧
      Interned texts [⟨0⟩, ⟨1⟩, ⟨0⟩] outcome.2 ∧
      (outcome.2.internAll ["name", "task"]).1 = [⟨2⟩, ⟨1⟩] ∧
      [⟨0⟩, ⟨1⟩, ⟨0⟩].map (outcome.2.internAll ["name", "task"]).2.name? =
        [some "job", some "task", some "job"] := by
  intro texts outcome
  have few : texts.toFinset.card ≤ UInt32.size := by decide
  have interned := (interning_exact texts few).1
  exact ⟨few, interned, by decide, interned.stable ["name", "task"]⟩

end Interner

end NilSafety
