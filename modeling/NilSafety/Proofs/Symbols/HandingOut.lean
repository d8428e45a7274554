import Mathlib.Data.List.ReduceOption
import NilSafety.Proofs.Runs
import NilSafety.Proofs.Symbols.Supply

/-!
Contract: names handed out one after another.

Owns:
- what handing out a name does: the search it makes, the name, the counters, the table;
- runs in which names are handed out and other texts are interned in any order;
- that the symbols handed out in a run stand for names with ascending numbers.

Does not own: the sequence of names that a unit is given.

Distinct symbols rest on the numbers alone. What is interned between two names may take a
number ahead, but the counter is past every number that was handed out.
-/

namespace NilSafety

namespace FreshNames

/-! ### One name -/

/-- What handing out a name from a table comes to: the search from the counter on, where it
ends, and what it leaves. -/
structure HandsOut
    (names : FreshNames)
    (table : SymbolTable)
    (number lookups : Nat)
    (symbol : Symbol)
    (names' : FreshNames)
    (table' : SymbolTable) :
    Prop where
  search : Search table names.next lookups number
  few : lookups ≤ takenFrom table names.next + 1
  least : IsLeast {later | names.next ≤ later ∧ Free table later} number
  named : table'.name? symbol = some (candidate number)
  grown : table'.texts.toList = table.texts.toList ++ [candidate number]
  next : names'.next = names.next + lookups
  issued : names'.issued = names.issued + 1

theorem handsOut_fresh (names : FreshNames) (table : SymbolTable) :
    ∃ number lookups, HandsOut names table number lookups
      (names.fresh table).1 (names.fresh table).2.1 (names.fresh table).2.2 := by
  obtain ⟨lookups, search⟩ := exists_search table names.next
  have absent := find?_firstFree table names.next
  exact ⟨_, lookups, {
    search
    few := search.lookups_le
    least := search.isLeast
    named := SymbolTable.name?_intern table _
    grown := (SymbolTable.intern_of_absent absent).2
    next := search.next_eq
    issued := rfl }⟩

namespace HandsOut

variable {names names' : FreshNames} {table table' : SymbolTable} {number lookups : Nat}
  {symbol : Symbol}

/-- The counter ends right past the number. -/
theorem next_eq_succ (handsOut : HandsOut names table number lookups symbol names' table') :
    names'.next = number + 1 := by
  rw [handsOut.next, handsOut.search.next_eq]

theorem grows (handsOut : HandsOut names table number lookups symbol names' table') :
    table.Grows table' :=
  ⟨[candidate number], handsOut.grown, fun _ _ => trivial⟩

end HandsOut

/-! ### Runs -/

/-- What happens between names and table while a unit is rewritten. -/
inductive Op where
  /-- Hands out a name. -/
  | handOut
  /-- Interns any text. -/
  | intern (text : String)
deriving DecidableEq

/-- Performs an operation. The answer is the symbol that was handed out, if one was. -/
def Op.perform : Op → FreshNames × SymbolTable → Option Symbol × FreshNames × SymbolTable
  | handOut, (names, table) =>
      let (symbol, names, table) := names.fresh table
      (some symbol, names, table)
  | intern text, (names, table) => (none, names, (table.intern text).2)

/-- The symbols stand, in this order, for names with ascending numbers in a range. -/
def Ascends (table : SymbolTable) (lower upper : Nat) (symbols : List Symbol) : Prop :=
  ∃ numbers : List Nat,
    numbers.Pairwise (· < ·) ∧
    (∀ number ∈ numbers, lower ≤ number ∧ number < upper) ∧
    symbols.map table.name? = numbers.map fun number => some (candidate number)

namespace Ascends

variable {table : SymbolTable} {lower upper : Nat} {symbols : List Symbol}

theorem nil (table : SymbolTable) (lower upper : Nat) : Ascends table lower upper [] :=
  ⟨[], .nil, nofun, rfl⟩

theorem cons
    {symbol : Symbol}
    {number : Nat}
    (ascends : Ascends table (number + 1) upper symbols)
    (named : table.name? symbol = some (candidate number))
    (above : lower ≤ number)
    (below : number < upper) :
    Ascends table lower upper (symbol :: symbols) := by
  obtain ⟨numbers, ascending, inRange, texts⟩ := ascends
  refine ⟨number :: numbers, List.pairwise_cons.mpr ⟨?_, ascending⟩, ?_, ?_⟩
  · exact fun later member => (inRange later member).1
  · rw [List.forall_mem_cons]
    refine ⟨⟨above, below⟩, fun later member => ?_⟩
    obtain ⟨past, before⟩ := inRange later member
    exact ⟨by omega, before⟩
  · rw [List.map_cons, List.map_cons, named, texts]

/-- Distinct numbers make distinct symbols. -/
theorem nodup (ascends : Ascends table lower upper symbols) : symbols.Nodup := by
  obtain ⟨numbers, ascending, -, texts⟩ := ascends
  have distinctNumbers : numbers.Nodup := ascending.imp Nat.ne_of_lt
  have distinctTexts : (numbers.map fun number => some (candidate number)).Nodup :=
    distinctNumbers.map fun number other same => candidate_inj.mp (Option.some_inj.mp same)
  rw [← texts] at distinctTexts
  exact distinctTexts.of_map

end Ascends

/-- What a run from names and a table comes to: the symbols that were handed out, and what
it leaves. -/
structure HandsOutAll
    (names : FreshNames)
    (table : SymbolTable)
    (calls : Nat)
    (symbols : List Symbol)
    (names' : FreshNames)
    (table' : SymbolTable) :
    Prop where
  ascends : Ascends table' names.next names'.next symbols
  answered : symbols.length = calls
  issued : names'.issued = names.issued + calls
  forward : names.next ≤ names'.next
  grows : table.Grows table'

namespace HandsOutAll

variable {names names' names'' : FreshNames} {table table' table'' : SymbolTable}
  {calls : Nat} {symbols : List Symbol}

theorem refl (names : FreshNames) (table : SymbolTable) :
    HandsOutAll names table 0 [] names table where
  ascends := .nil table _ _
  answered := rfl
  issued := rfl
  forward := le_refl _
  grows := .refl table

/-- One more name at the start of a run. -/
theorem after_handsOut
    {number lookups : Nat}
    {symbol : Symbol}
    (all : HandsOutAll names' table' calls symbols names'' table'')
    (handsOut : HandsOut names table number lookups symbol names' table') :
    HandsOutAll names table (calls + 1) (symbol :: symbols) names'' table'' := by
  have past : names'.next = number + 1 := handsOut.next_eq_succ
  have forward := all.forward
  have above : names.next ≤ number := handsOut.least.1.1
  have named : table''.name? symbol = some (candidate number) := by
    rw [all.grows.name?_eq (SymbolTable.knows_of_name? handsOut.named), handsOut.named]
  have issued := all.issued
  have issuedFirst := handsOut.issued
  have ascends := all.ascends
  rw [past] at ascends
  exact {
    ascends := ascends.cons named above (by omega)
    answered := congrArg (· + 1) all.answered
    issued := by omega
    forward := by omega
    grows := handsOut.grows.trans all.grows }

/-- Interning a text before a run adds nothing to what the run comes to. -/
theorem after_intern
    {text : String}
    (all : HandsOutAll names (table.intern text).2 calls symbols names' table') :
    HandsOutAll names table calls symbols names' table' where
  ascends := all.ascends
  answered := all.answered
  issued := all.issued
  forward := all.forward
  grows := (SymbolTable.extendsBy_intern table text fun _ => trivial).trans all.grows

end HandsOutAll

theorem handsOutAll_performAll (ops : List Op) (names : FreshNames) (table : SymbolTable) :
    HandsOutAll names table (ops.count .handOut)
      (performAll Op.perform ops (names, table)).1.reduceOption
      (performAll Op.perform ops (names, table)).2.1
      (performAll Op.perform ops (names, table)).2.2 := by
  induction ops generalizing names table with
  | nil => exact .refl names table
  | cons op rest inductionHypothesis =>
      cases op with
      | handOut =>
          obtain ⟨number, lookups, handsOut⟩ := handsOut_fresh names table
          rw [List.count_cons_self]
          exact (inductionHypothesis _ _).after_handsOut handsOut
      | intern text =>
          have other : Op.intern text ≠ .handOut := nofun
          rw [List.count_cons_of_ne other]
          exact (inductionHypothesis names (table.intern text).2).after_intern

/-- Handing out a name searches no longer than the taken numbers ahead require, takes the
least free number and adds its name alone; in a run with any other texts, the symbols are
distinct, their numbers ascend, and they are as many as the names count. -/
theorem fresh_names_exact :
    (∀ (names : FreshNames) (table : SymbolTable), ∃ number lookups,
      HandsOut names table number lookups
        (names.fresh table).1 (names.fresh table).2.1 (names.fresh table).2.2) ∧
    ∀ (names : FreshNames) (table : SymbolTable) (ops : List Op),
      let outcome := performAll Op.perform ops (names, table)
      HandsOutAll names table (ops.count .handOut)
        outcome.1.reduceOption outcome.2.1 outcome.2.2 ∧
      outcome.1.reduceOption.Nodup :=
  ⟨handsOut_fresh, fun names table ops =>
    have all := handsOutAll_performAll ops names table
    ⟨all, all.ascends.nodup⟩⟩

/-- A text that takes the next number between two names. -/
example :
    let outcome := performAll Op.perform [.handOut, .intern "__nullsafe_nav1", .handOut]
      (.start, .empty)
    outcome.1.reduceOption.map outcome.2.2.display = ["__nullsafe_nav0", "__nullsafe_nav2"] ∧
      outcome.2.1 = ⟨3, 2⟩ := by
  decide

end FreshNames

end NilSafety
