import Mathlib.Data.Nat.Nth
import NilSafety.Proofs.Symbols.FreshNames

/-!
Contract: the sequence of names that rewriting chooses.

Owns:
- the free numbers of a table, and the names with these numbers in their order;
- the invariant under which the next name handed out is the next one of the
  sequence, whatever else was interned in between;
- that handing out a name and interning other texts preserve this.

Does not own: which texts are interned in between.

The sequence depends only on the table that a unit starts with. Nothing that is
interned on the way makes a free number taken, but for the numbers handed out.
-/

namespace NilSafety

/-- `later` holds the names of `table` under the same symbols, and any further
ones. -/
abbrev SymbolTable.Grows : SymbolTable → SymbolTable → Prop :=
  SymbolTable.ExtendsBy fun _ => True

namespace FreshNames

theorem infinite_free (table : SymbolTable) : (Set.ofPred (Free table)).Infinite := by
  apply Set.infinite_of_forall_exists_gt
  intro number
  obtain ⟨past, free⟩ := (isLeast_firstFree table (number + 1)).1
  exact ⟨firstFree table table.size (number + 1), free, past⟩

/-- The names that rewriting hands out when it starts with `table`, in order. -/
noncomputable def supply (table : SymbolTable) (position : Nat) : String :=
  candidate (Nat.nth (Free table) position)

theorem supply_injective (table : SymbolTable) : Function.Injective (supply table) :=
  fun _ _ same => Nat.nth_injective (infinite_free table) (candidate_inj.mp same)

theorem find?_supply (table : SymbolTable) (position : Nat) :
    table.find? (supply table position) = none :=
  Nat.nth_mem_of_infinite (infinite_free table) position

/-- The text has the form of the names that rewriting chooses, and is not in the table. -/
def MayChoose (table : SymbolTable) (text : String) : Prop :=
  (∃ number, candidate number = text) ∧ table.find? text = none

theorem mayChoose_supply {base table : SymbolTable} (grows : base.Grows table) (position : Nat) :
    MayChoose base (supply table position) := by
  refine ⟨⟨_, rfl⟩, ?_⟩
  by_contra found
  obtain ⟨symbol, isFound⟩ := Option.ne_none_iff_exists'.mp found
  have foundLater := grows.find?_eq_some isFound
  rw [find?_supply] at foundLater
  cases foundLater

/-- The names and the table are what a unit that starts with `start` may come to
when `issued` names were handed out. -/
structure Follows
    (start : SymbolTable)
    (names : FreshNames)
    (table : SymbolTable)
    (issued : Nat) :
    Prop where
  grows : start.Grows table
  counted : Nat.count (Free start) names.next = issued
  ahead : ∀ number, names.next ≤ number → (Free table number ↔ Free start number)
  taken : ∀ earlier < issued, table.find? (supply start earlier) ≠ none

namespace Follows

variable {start : SymbolTable} {names : FreshNames} {table : SymbolTable} {issued : Nat}

theorem refl (table : SymbolTable) : Follows table .start table 0 where
  grows := .refl table
  counted := Nat.count_zero _
  ahead := fun _ _ => Iff.rfl
  taken := fun _ before => absurd before (Nat.not_lt_zero _)

/-- The search finds the next number of the sequence. -/
theorem firstFree_eq (follows : Follows start names table issued) :
    firstFree table table.size names.next = Nat.nth (Free start) issued ∧
      Nat.count (Free start) (firstFree table table.size names.next) = issued := by
  obtain ⟨⟨forward, free⟩, least⟩ := isLeast_firstFree table names.next
  generalize firstFree table table.size names.next = found at forward free least ⊢
  have freeAtStart : Free start found := (follows.ahead found forward).mp free
  have noneBetween : Nat.count (fun step => Free start (names.next + step))
      (found - names.next) = 0 := by
    refine Nat.count_of_forall_not fun step before isFree => ?_
    have notBefore : found ≤ names.next + step :=
      least ⟨Nat.le_add_right _ _, (follows.ahead _ (Nat.le_add_right _ _)).mpr isFree⟩
    omega
  have counted : Nat.count (Free start) found = issued := by
    rw [← Nat.add_sub_cancel' forward, Nat.count_add, noneBetween, follows.counted, Nat.add_zero]
  exact ⟨by rw [← counted, Nat.nth_count freeAtStart], counted⟩

/-- The name that is handed out is the next one of the sequence. -/
theorem fresh_eq (follows : Follows start names table issued) :
    names.fresh table =
      ((table.intern (supply start issued)).1,
        ⟨firstFree table table.size names.next + 1, names.issued + 1⟩,
        (table.intern (supply start issued)).2) := by
  unfold fresh supply
  rw [← follows.firstFree_eq.1]

/-- Interning a text that is no chosen name, or is known from the start, keeps to the
sequence. -/
theorem intern
    (follows : Follows start names table issued)
    {text : String}
    (harmless : ∀ number, candidate number = text → start.find? text ≠ none) :
    Follows start names (table.intern text).2 issued := by
  have grows : table.Grows (table.intern text).2 :=
    SymbolTable.extendsBy_intern table text fun _ => trivial
  have growsBy : SymbolTable.ExtendsBy (· = text) table (table.intern text).2 :=
    SymbolTable.extendsBy_intern table text fun _ => rfl
  refine ⟨follows.grows.trans grows, follows.counted, fun number from_ => ?_, ?_⟩
  · rw [← follows.ahead number from_]
    unfold Free
    by_cases same : candidate number = text
    · obtain ⟨symbol, found⟩ := Option.ne_none_iff_exists'.mp (harmless number same)
      have foundBefore := follows.grows.find?_eq_some found
      rw [same, foundBefore, grows.find?_eq_some foundBefore]
    · rw [growsBy.find?_eq same]
  · intro earlier before
    obtain ⟨symbol, found⟩ := Option.ne_none_iff_exists'.mp (follows.taken earlier before)
    rw [grows.find?_eq_some found]
    exact Option.some_ne_none symbol

theorem internAll
    (follows : Follows start names table issued)
    {texts : List String}
    (harmless : ∀ text ∈ texts, ∀ number, candidate number ≠ text) :
    Follows start names (table.internAll texts).2 issued := by
  induction texts generalizing table with
  | nil => exact follows
  | cons text rest inductionHypothesis =>
      have first : Follows start names (table.intern text).2 issued :=
        follows.intern fun number same => absurd same (harmless text List.mem_cons_self number)
      exact inductionHypothesis first fun other member =>
        harmless other (List.mem_cons_of_mem text member)

/-- Handing out a name moves on to the next one of the sequence. -/
theorem fresh (follows : Follows start names table issued) :
    Follows start (names.fresh table).2.1 (names.fresh table).2.2 (issued + 1) := by
  obtain ⟨isNext, counted⟩ := follows.firstFree_eq
  have forward := (isLeast_firstFree table names.next).1.1
  have grows : table.Grows (table.intern (supply start issued)).2 :=
    SymbolTable.extendsBy_intern table _ fun _ => trivial
  have growsBy : SymbolTable.ExtendsBy (· = supply start issued) table
      (table.intern (supply start issued)).2 :=
    SymbolTable.extendsBy_intern table _ fun _ => rfl
  rw [follows.fresh_eq]
  refine ⟨follows.grows.trans grows, ?_, fun number from_ => ?_, fun earlier before => ?_⟩
  · have free : Free start (Nat.nth (Free start) issued) := find?_supply start issued
    rw [Nat.count_succ, counted, isNext, if_pos free]
  · have from_ : firstFree table table.size names.next + 1 ≤ number := from_
    have other : candidate number ≠ supply start issued := by
      unfold supply
      rw [ne_eq, candidate_inj, ← isNext]
      omega
    rw [← follows.ahead number (by omega)]
    unfold Free
    rw [growsBy.find?_eq other]
  · rcases Nat.lt_succ_iff_lt_or_eq.mp before with earlier | rfl
    · obtain ⟨symbol, found⟩ := Option.ne_none_iff_exists'.mp (follows.taken _ earlier)
      rw [grows.find?_eq_some found]
      exact Option.some_ne_none symbol
    · rw [SymbolTable.find?_intern]
      exact Option.some_ne_none _

end Follows

end FreshNames

end NilSafety
