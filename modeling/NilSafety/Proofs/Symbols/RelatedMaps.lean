import Mathlib.Data.List.Forall2
import Mathlib.Data.Option.Basic
import NilSafety.SymbolMap

/-!
Contract: maps from symbols that agree entry by entry.

Owns:
- two maps with the same symbols in the same order and related values;
- that look-up and update respect this.

Does not own: which values are related.
-/

namespace NilSafety.SymbolMap

variable {α β : Type}

/-- The maps have the same symbols in the same order, with related values. -/
def Related (values : α → β → Prop) (map : SymbolMap α) (map' : SymbolMap β) : Prop :=
  List.Forall₂ (fun entry entry' => entry.1 = entry'.1 ∧ values entry.2 entry'.2)
    map.entries map'.entries

namespace Related

variable {values : α → β → Prop} {map : SymbolMap α} {map' : SymbolMap β}

theorem empty : Related values SymbolMap.empty SymbolMap.empty := List.Forall₂.nil

theorem mono
    {values' : α → β → Prop}
    (related : Related values map map')
    (implied : ∀ value value', values value value' → values' value value') :
    Related values' map map' :=
  List.Forall₂.imp (fun _ _ same => ⟨same.1, implied _ _ same.2⟩) related

theorem get? (related : Related values map map') (symbol : Symbol) :
    Option.Rel values (map.get? symbol) (map'.get? symbol) := by
  obtain ⟨entries⟩ := map
  obtain ⟨entries'⟩ := map'
  unfold Related at related
  unfold SymbolMap.get?
  dsimp only at related ⊢
  induction related with
  | nil => exact .none
  | @cons entry entry' rest rest' same _ inductionHypothesis =>
      obtain ⟨key, value⟩ := entry
      obtain ⟨key', value'⟩ := entry'
      obtain ⟨sameKey, holds⟩ := same
      dsimp only at sameKey holds
      subst sameKey
      unfold lookup
      by_cases found : key = symbol
      · rw [if_pos found, if_pos found]
        exact .some holds
      · rw [if_neg found, if_neg found]
        exact inductionHypothesis

theorem contains_eq (related : Related values map map') (symbol : Symbol) :
    map.contains symbol = map'.contains symbol := by
  have found := related.get? symbol
  unfold contains
  generalize map.get? symbol = value at found
  generalize map'.get? symbol = value' at found
  cases found with
  | none => rfl
  | some => rfl

theorem set
    (related : Related values map map')
    (symbol : Symbol)
    {value : α}
    {value' : β}
    (holds : values value value') :
    Related values (map.set symbol value) (map'.set symbol value') := by
  obtain ⟨entries⟩ := map
  obtain ⟨entries'⟩ := map'
  unfold Related at related ⊢
  unfold SymbolMap.set
  dsimp only at related ⊢
  induction related with
  | nil => exact .cons ⟨rfl, holds⟩ .nil
  | @cons entry entry' rest rest' same others inductionHypothesis =>
      obtain ⟨key, old⟩ := entry
      obtain ⟨key', old'⟩ := entry'
      obtain ⟨sameKey, holdsOld⟩ := same
      dsimp only at sameKey holdsOld
      subst sameKey
      unfold update
      by_cases found : key = symbol
      · rw [if_pos found, if_pos found]
        exact .cons ⟨rfl, holds⟩ others
      · rw [if_neg found, if_neg found]
        exact .cons ⟨rfl, holdsOld⟩ inductionHypothesis

theorem ofList
    {entries : List (Symbol × α)}
    {entries' : List (Symbol × β)}
    (related : List.Forall₂ (fun entry entry' => entry.1 = entry'.1 ∧ values entry.2 entry'.2)
      entries entries') :
    Related values (SymbolMap.ofList entries) (SymbolMap.ofList entries') := by
  unfold SymbolMap.ofList
  have start : Related values (SymbolMap.empty : SymbolMap α) (SymbolMap.empty : SymbolMap β) :=
    empty
  generalize (SymbolMap.empty : SymbolMap α) = map at start ⊢
  generalize (SymbolMap.empty : SymbolMap β) = map' at start ⊢
  induction related generalizing map map' with
  | nil => exact start
  | @cons entry entry' rest rest' same _ inductionHypothesis =>
      rw [List.foldl_cons, List.foldl_cons, same.1]
      exact inductionHypothesis _ _ (start.set _ same.2)

end Related

/-- Maps whose values agree are the same. -/
theorem related_eq_iff {map map' : SymbolMap α} : Related Eq map map' ↔ map = map' := by
  obtain ⟨entries⟩ := map
  obtain ⟨entries'⟩ := map'
  unfold Related
  have pairs : (fun entry entry' : Symbol × α => entry.1 = entry'.1 ∧ entry.2 = entry'.2) = Eq := by
    funext entry entry'
    rw [Prod.ext_iff]
  rw [pairs, List.forall₂_eq_eq_eq, mk.injEq]

end NilSafety.SymbolMap
