import Mathlib.Data.List.Perm.Subperm
import Mathlib.Order.Bounds.Defs
import NilSafety.Proofs.Symbols.Growth
import NilSafety.Rewrite.FreshNames

/-!
Contract: the names that rewriting chooses are new.

Owns:
- that numbers give distinct names, and names their numbers;
- how many names of a table have a number at or past a given one;
- the search for a free number without a limit: how many look-ups it takes, and that it
  ends at the least one;
- that the search with a limit ends where the one without does;
- what handing out a name does to the symbol table.

Does not own: where the names are bound.

A search may go on as long as it meets taken numbers. Each of them is the number of a name
in the table, and fewer of these are ahead after each look-up. This ends it.
-/

namespace NilSafety

namespace FreshNames

/-! ### Numbered names -/

/-- The number behind the fixed part of a name. -/
def numberOf (name : String) : Nat :=
  Nat.ofDigitChars 10 (name.toList.drop "__nullsafe_nav".toList.length) 0

theorem numberOf_candidate (number : Nat) : numberOf (candidate number) = number := by
  unfold numberOf candidate
  rw [String.toList_append, List.drop_left, Nat.toString_eq_repr, Nat.toList_repr,
    Nat.ofDigitChars_ten_toDigits]

theorem candidate_inj {number other : Nat} :
    candidate number = candidate other ↔ number = other := by
  refine ⟨fun same => ?_, fun same => by rw [same]⟩
  rw [← numberOf_candidate number, same, numberOf_candidate]

/-- Every chosen name begins with an underscore. -/
theorem candidate_ne
    {name : String}
    (number : Nat)
    (other : name.toList.head? ≠ some '_') :
    candidate number ≠ name := by
  intro same
  have begins : (candidate number).toList.head? = some '_' := by
    unfold candidate
    rw [String.toList_append]
    rfl
  rw [same] at begins
  exact other begins

/-- Chosen names are single words. -/
theorem dot_notMem_candidate (number : Nat) : '.' ∉ (candidate number).toList := by
  unfold candidate
  rw [String.toList_append, List.mem_append, not_or]
  refine ⟨by decide, fun inNumber => ?_⟩
  rw [Nat.toString_eq_ofList_toDigits, String.toList_ofList] at inNumber
  exact absurd (Nat.isDigit_of_mem_toDigits (by decide) (by decide) inNumber) (by decide)

/-- The name has a number at or past the given one. -/
def IsNumberedFrom (number : Nat) (name : String) : Prop :=
  ∃ later, number ≤ later ∧ candidate later = name

instance (number : Nat) : DecidablePred (IsNumberedFrom number) := fun name =>
  decidable_of_iff (number ≤ numberOf name ∧ candidate (numberOf name) = name) (by
    constructor
    · rintro ⟨past, same⟩
      exact ⟨numberOf name, past, same⟩
    · rintro ⟨later, past, rfl⟩
      rw [numberOf_candidate]
      exact ⟨past, rfl⟩)

/-- How many names of the table have a number at or past the given one. -/
def takenFrom (table : SymbolTable) (number : Nat) : Nat :=
  table.texts.toList.countP fun name => decide (IsNumberedFrom number name)

theorem takenFrom_le_size (table : SymbolTable) (number : Nat) :
    takenFrom table number ≤ table.size :=
  List.countP_le_length

/-- Behind a number that is taken, one less is taken. -/
theorem takenFrom_succ_lt
    {table : SymbolTable}
    {number : Nat}
    (taken : table.find? (candidate number) ≠ none) :
    takenFrom table (number + 1) < takenFrom table number := by
  have member : candidate number ∈ table.texts.toList := by
    rw [ne_eq, SymbolTable.find?_eq_none_iff, not_not] at taken
    exact taken
  have notBehind : ¬ IsNumberedFrom (number + 1) (candidate number) := by
    rintro ⟨later, past, same⟩
    rw [candidate_inj] at same
    omega
  have distinct : (candidate number ::
      table.texts.toList.filter fun name => decide (IsNumberedFrom (number + 1) name)).Nodup := by
    refine List.nodup_cons.mpr ⟨fun isBehind => ?_, table.nodup.filter _⟩
    exact notBehind (of_decide_eq_true (List.mem_filter.mp isBehind).2)
  have within : (candidate number ::
      table.texts.toList.filter fun name => decide (IsNumberedFrom (number + 1) name)) ⊆
        table.texts.toList.filter fun name => decide (IsNumberedFrom number name) := by
    refine List.cons_subset.mpr ⟨?_, fun name isBehind => ?_⟩
    · exact List.mem_filter.mpr ⟨member, decide_eq_true ⟨number, le_refl number, rfl⟩⟩
    · obtain ⟨inTable, behind⟩ := List.mem_filter.mp isBehind
      obtain ⟨later, past, same⟩ := of_decide_eq_true behind
      exact List.mem_filter.mpr ⟨inTable, decide_eq_true ⟨later, by omega, same⟩⟩
  rw [takenFrom, takenFrom, List.countP_eq_length_filter, List.countP_eq_length_filter]
  exact (List.subperm_of_subset distinct within).length_le

/-! ### The search -/

/-- The name with the number is not in the table. -/
def Free (table : SymbolTable) (number : Nat) : Prop :=
  table.find? (candidate number) = none

instance (table : SymbolTable) : DecidablePred (Free table) := fun number =>
  inferInstanceAs (Decidable (table.find? (candidate number) = none))

/-- The search from a number on takes so many look-ups to end at a number: a free number
ends it, and a taken one leads to the next. Nothing bounds it. -/
inductive Search (table : SymbolTable) : (number lookups found : Nat) → Prop where
  | stop {number : Nat} (free : Free table number) : Search table number 1 number
  | next {number lookups found : Nat} (taken : ¬ Free table number)
      (further : Search table (number + 1) lookups found) :
      Search table number (lookups + 1) found

namespace Search

variable {table : SymbolTable} {number lookups found : Nat}

/-- Each look-up moves on by one number. -/
theorem next_eq (search : Search table number lookups found) : found + 1 = number + lookups := by
  induction search with
  | stop => rfl
  | next _ _ inductionHypothesis => omega

/-- All look-ups but the last one meet names with numbers at or past the first. -/
theorem lookups_le (search : Search table number lookups found) :
    lookups ≤ takenFrom table number + 1 := by
  induction search with
  | stop => exact Nat.le_add_left 1 _
  | next taken _ inductionHypothesis =>
      have fewer := takenFrom_succ_lt taken
      omega

/-- The search ends at the least free number. -/
theorem isLeast (search : Search table number lookups found) :
    IsLeast {later | number ≤ later ∧ Free table later} found := by
  induction search with
  | stop free => exact ⟨⟨le_refl _, free⟩, fun later isFree => isFree.1⟩
  | @next number _ found taken _ inductionHypothesis =>
      obtain ⟨⟨past, free⟩, least⟩ := inductionHypothesis
      refine ⟨⟨by omega, free⟩, fun later isFree => least ⟨?_, isFree.2⟩⟩
      have notFirst : number ≠ later := by
        rintro rfl
        exact taken isFree.2
      exact Nat.lt_of_le_of_ne isFree.1 notFirst

end Search

/-- The search ends within a limit that allows for all taken numbers ahead. -/
theorem exists_search_of_takenFrom_le
    {table : SymbolTable}
    {limit number : Nat}
    (enough : takenFrom table number ≤ limit) :
    ∃ lookups, Search table number lookups (firstFree table limit number) := by
  induction limit generalizing number with
  | zero =>
      refine ⟨1, .stop ?_⟩
      by_contra taken
      exact Nat.not_lt_zero _ (Nat.lt_of_lt_of_le (takenFrom_succ_lt taken) enough)
  | succ limit inductionHypothesis =>
      unfold firstFree
      split
      next isFound =>
        have taken : ¬ Free table number := Option.isSome_iff_ne_none.mp isFound
        have fewer := takenFrom_succ_lt taken
        have enoughAhead : takenFrom table (number + 1) ≤ limit := by omega
        obtain ⟨lookups, further⟩ := inductionHypothesis enoughAhead
        exact ⟨lookups + 1, .next taken further⟩
      next notFound =>
        have free : Free table number := Option.not_isSome_iff_eq_none.mp notFound
        exact ⟨1, .stop free⟩

/-- The search ends, whatever the table holds. -/
theorem exists_search (table : SymbolTable) (number : Nat) :
    ∃ lookups, Search table number lookups (firstFree table table.size number) :=
  exists_search_of_takenFrom_le (takenFrom_le_size table number)

theorem isLeast_firstFree (table : SymbolTable) (number : Nat) :
    IsLeast {later | number ≤ later ∧ Free table later} (firstFree table table.size number) :=
  (exists_search table number).elim fun _ search => search.isLeast

theorem find?_firstFree (table : SymbolTable) (number : Nat) :
    table.find? (candidate (firstFree table table.size number)) = none :=
  (isLeast_firstFree table number).1.2

/-- A name that is handed out is new to the table. -/
theorem knows_fresh (names : FreshNames) (table : SymbolTable) :
    table.knows (names.fresh table).1 = false := by
  unfold fresh
  have absent := find?_firstFree table names.next
  rw [Bool.eq_false_iff, ne_eq, SymbolTable.knows_iff, (SymbolTable.intern_of_absent absent).1]
  exact Nat.lt_irrefl table.size

theorem extendsBy_fresh
    {added : String → Prop}
    (names : FreshNames)
    (table : SymbolTable)
    (sort : ∀ number, added (candidate number)) :
    SymbolTable.ExtendsBy added table (names.fresh table).2.2 :=
  SymbolTable.extendsBy_intern table _ fun _ => sort _

end FreshNames

end NilSafety
