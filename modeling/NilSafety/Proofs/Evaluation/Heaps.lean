import NilSafety.Eval.Heap
import NilSafety.Proofs.Evaluation.Pairing
import NilSafety.Proofs.Symbols.RelatedMaps

/-!
Contract: heaps that agree up to the identities of containers.

Owns:
- stores, and heaps, whose paired containers have contents that agree;
- that reading and writing at paired addresses respects this;
- arrays whose elements agree one by one.

Does not own: allocation, after which a pairing may have to grow.
-/

namespace NilSafety

/-! ### Arrays -/

/-- Arrays of equal length whose elements are related one by one. -/
def ArraysRelated {α β : Type} (elements : α → β → Prop) (array : Array α) (array' : Array β) :
    Prop :=
  List.Forall₂ elements array.toList array'.toList

namespace ArraysRelated

variable {α β : Type} {elements : α → β → Prop} {array : Array α} {array' : Array β}

theorem size_eq (related : ArraysRelated elements array array') : array.size = array'.size := by
  have lengths := List.Forall₂.length_eq related
  simpa using lengths

theorem getElem
    (related : ArraysRelated elements array array')
    {place : Nat}
    (inside : place < array.size)
    (inside' : place < array'.size) :
    elements array[place] array'[place] := by
  have found := List.Forall₂.get related (i := place) (by simpa using inside)
    (by simpa using inside')
  simpa using found

theorem push
    (related : ArraysRelated elements array array')
    {value : α}
    {value' : β}
    (holds : elements value value') :
    ArraysRelated elements (array.push value) (array'.push value') := by
  unfold ArraysRelated
  rw [Array.toList_push, Array.toList_push]
  exact List.rel_append related (.cons holds .nil)

theorem set
    (related : ArraysRelated elements array array')
    {place : Nat}
    (inside : place < array.size)
    (inside' : place < array'.size)
    {value : α}
    {value' : β}
    (holds : elements value value') :
    ArraysRelated elements (array.set place value) (array'.set place value') := by
  unfold ArraysRelated
  rw [List.forall₂_iff_get]
  refine ⟨by simpa using related.size_eq, ?_⟩
  intro other below below'
  have belowArray : other < array.size := by simpa using below
  have belowArray' : other < array'.size := by simpa using below'
  simp only [List.get_eq_getElem, Array.getElem_toList]
  by_cases same : place = other
  · subst same
    simpa using holds
  · rw [Array.getElem_set_ne inside belowArray same, Array.getElem_set_ne inside' belowArray' same]
    exact related.getElem belowArray belowArray'

theorem mono
    {elements' : α → β → Prop}
    (related : ArraysRelated elements array array')
    (implied : ∀ value value', elements value value' → elements' value value') :
    ArraysRelated elements' array array' :=
  List.Forall₂.imp implied related

end ArraysRelated

theorem arraysRelated_eq_iff {α : Type} {array array' : Array α} :
    ArraysRelated Eq array array' ↔ array = array' := by
  unfold ArraysRelated
  rw [List.forall₂_eq_eq_eq, Array.toList_inj]

namespace CheckedArray

variable {α β : Type} {elements : α → β → Prop} {array : CheckedArray α} {array' : CheckedArray β}

/-- Checked arrays of equal length whose elements are related one by one. -/
def Related (elements : α → β → Prop) (array : CheckedArray α) (array' : CheckedArray β) : Prop :=
  ArraysRelated elements array.items array'.items

theorem Related.get? (related : Related elements array array') (index : Int) :
    Option.Rel elements (array.get? index) (array'.get? index) := by
  have sizes := related.size_eq
  unfold CheckedArray.get? position?
  by_cases valid : 0 ≤ index ∧ index.toNat < array.items.size
  · have valid' : 0 ≤ index ∧ index.toNat < array'.items.size := ⟨valid.1, sizes ▸ valid.2⟩
    rw [dif_pos valid, dif_pos valid']
    exact .some (related.getElem valid.2 valid'.2)
  · have invalid' : ¬ (0 ≤ index ∧ index.toNat < array'.items.size) := sizes ▸ valid
    rw [dif_neg valid, dif_neg invalid']
    exact .none

theorem Related.set?
    (related : Related elements array array')
    (index : Int)
    {value : α}
    {value' : β}
    (holds : elements value value') :
    Option.Rel (Related elements) (array.set? index value) (array'.set? index value') := by
  have sizes := related.size_eq
  unfold CheckedArray.set? slot? position?
  by_cases valid : 0 ≤ index ∧ index.toNat < array.items.size
  · have valid' : 0 ≤ index ∧ index.toNat < array'.items.size := ⟨valid.1, sizes ▸ valid.2⟩
    rw [dif_pos valid, dif_pos valid']
    exact .some (ArraysRelated.set related valid.2 valid'.2 holds)
  · have invalid' : ¬ (0 ≤ index ∧ index.toNat < array'.items.size) := sizes ▸ valid
    rw [dif_neg valid, dif_neg invalid']
    exact .none

end CheckedArray

/-! ### Stores -/

namespace Store

variable {α : Type}

/-- Paired addresses hold related contents, or both hold nothing. -/
def Matches
    (pairs : Nat → Nat → Prop)
    (contents : α → α → Prop)
    (store store' : Store α) :
    Prop :=
  ∀ address address', pairs address address' →
    Option.Rel contents store.cells[address]? store'.cells[address']?

variable {pairs : Nat → Nat → Prop} {contents : α → α → Prop} {store store' : Store α}

theorem Matches.read
    [Inhabited α]
    (agree : Matches pairs contents store store')
    (related : contents default default)
    {address address' : Nat}
    (paired : pairs address address') :
    contents (store.read address) (store'.read address') := by
  have cells := agree address address' paired
  unfold Store.read
  rw [Array.getD_eq_getD_getElem?, Array.getD_eq_getD_getElem?]
  generalize store.cells[address]? = cell at cells ⊢
  generalize store'.cells[address']? = cell' at cells ⊢
  cases cells with
  | none => exact related
  | some holds => exact holds

theorem Matches.write
    (agree : Matches pairs contents store store')
    (functional : ∀ {address other other'}, pairs address other → pairs address other' →
      other = other')
    (injective : ∀ {address address' other}, pairs address other → pairs address' other →
      address = address')
    {address address' : Nat}
    (paired : pairs address address')
    {value value' : α}
    (holds : contents value value') :
    Matches pairs contents (store.write address value) (store'.write address' value') := by
  intro other other' pairedOther
  have cells := agree other other' pairedOther
  unfold Store.write
  dsimp only
  by_cases same : address = other
  · subst same
    have same' : address' = other' := functional paired pairedOther
    subst same'
    rw [Array.getElem?_setIfInBounds_self, Array.getElem?_setIfInBounds_self]
    by_cases inside : address < store.cells.size
    · have inside' : address' < store'.cells.size := by
        rw [Array.getElem?_eq_getElem inside] at cells
        by_contra outside
        rw [Array.getElem?_eq_none (Nat.le_of_not_lt outside)] at cells
        cases cells
      rw [if_pos inside, if_pos inside']
      exact .some holds
    · have outside' : ¬ address' < store'.cells.size := by
        intro inside'
        rw [Array.getElem?_eq_none (Nat.le_of_not_lt inside),
          Array.getElem?_eq_getElem inside'] at cells
        cases cells
      rw [if_neg inside, if_neg outside']
      exact .none
  · have different : address' ≠ other' := by
      intro same'
      subst same'
      exact same (injective paired pairedOther)
    rw [Array.getElem?_setIfInBounds_ne same, Array.getElem?_setIfInBounds_ne different]
    exact cells

theorem matches_eq_iff : Matches Eq Eq store store' ↔ store = store' := by
  obtain ⟨cells⟩ := store
  obtain ⟨cells'⟩ := store'
  rw [mk.injEq]
  constructor
  · intro agree
    apply Array.ext_getElem?
    intro address
    have same := agree address address rfl
    dsimp only at same
    generalize cells[address]? = cell at same ⊢
    generalize cells'[address]? = cell' at same ⊢
    cases same with
    | none => rfl
    | some holds => rw [holds]
  · intro same address address' paired
    rw [paired, same]
    dsimp only
    cases cells'[address']? with
    | none => exact .none
    | some contents => exact .some rfl

end Store

/-! ### Heaps -/

namespace Heap

/-- How many containers of each sort there are. -/
def counts (heap : Heap) : ContainerSort → Nat
  | .object => heap.objects.next
  | .array => heap.arrays.next
  | .checkedArray => heap.checkedArrays.next

theorem counts_setFields (heap : Heap) (address : Nat) (fields : SymbolMap Value) :
    (heap.setFields address fields).counts = heap.counts := by
  funext sort
  cases sort with
  | object => exact Array.size_setIfInBounds
  | array | checkedArray => rfl

theorem counts_setElements (heap : Heap) (address : Nat) (elements : Array Value) :
    (heap.setElements address elements).counts = heap.counts := by
  funext sort
  cases sort with
  | array => exact Array.size_setIfInBounds
  | object | checkedArray => rfl

theorem counts_setChecked (heap : Heap) (address : Nat) (contents : CheckedArray Value) :
    (heap.setChecked address contents).counts = heap.counts := by
  funext sort
  cases sort with
  | checkedArray => exact Array.size_setIfInBounds
  | object | array => rfl

/-- Paired containers have contents that agree, and there are as many containers as
the pairing says. -/
structure Matches (pairing : Pairing) (heap heap' : Heap) : Prop where
  objects : heap.objects.Matches (pairing.pairs .object)
    (SymbolMap.Related (Value.Matches pairing)) heap'.objects
  arrays : heap.arrays.Matches (pairing.pairs .array)
    (ArraysRelated (Value.Matches pairing)) heap'.arrays
  checkedArrays : heap.checkedArrays.Matches (pairing.pairs .checkedArray)
    (CheckedArray.Related (Value.Matches pairing)) heap'.checkedArrays
  counts : ∀ extent ∈ pairing.extent, extent = (heap.counts, heap'.counts)

namespace Matches

variable {pairing : Pairing} {heap heap' : Heap} {address address' : Nat}

theorem fields
    (agree : Matches pairing heap heap')
    (paired : pairing.pairs .object address address') :
    SymbolMap.Related (Value.Matches pairing) (heap.fields address) (heap'.fields address') :=
  agree.objects.read .empty paired

theorem elements
    (agree : Matches pairing heap heap')
    (paired : pairing.pairs .array address address') :
    ArraysRelated (Value.Matches pairing) (heap.elements address) (heap'.elements address') :=
  agree.arrays.read .nil paired

theorem checked
    (agree : Matches pairing heap heap')
    (paired : pairing.pairs .checkedArray address address') :
    CheckedArray.Related (Value.Matches pairing) (heap.checked address)
      (heap'.checked address') := by
  have nothing : CheckedArray.Related (Value.Matches pairing) default default :=
    List.Forall₂.nil
  exact agree.checkedArrays.read nothing paired

theorem setFields
    (agree : Matches pairing heap heap')
    (paired : pairing.pairs .object address address')
    {fields fields' : SymbolMap Value}
    (related : SymbolMap.Related (Value.Matches pairing) fields fields') :
    Matches pairing (heap.setFields address fields) (heap'.setFields address' fields') :=
  ⟨agree.objects.write pairing.functional pairing.injective paired related, agree.arrays,
    agree.checkedArrays, by rw [counts_setFields, counts_setFields]; exact agree.counts⟩

theorem setElements
    (agree : Matches pairing heap heap')
    (paired : pairing.pairs .array address address')
    {elements elements' : Array Value}
    (related : ArraysRelated (Value.Matches pairing) elements elements') :
    Matches pairing (heap.setElements address elements) (heap'.setElements address' elements') :=
  ⟨agree.objects, agree.arrays.write pairing.functional pairing.injective paired related,
    agree.checkedArrays, by rw [counts_setElements, counts_setElements]; exact agree.counts⟩

theorem setChecked
    (agree : Matches pairing heap heap')
    (paired : pairing.pairs .checkedArray address address')
    {contents contents' : CheckedArray Value}
    (related : CheckedArray.Related (Value.Matches pairing) contents contents') :
    Matches pairing (heap.setChecked address contents) (heap'.setChecked address' contents') :=
  ⟨agree.objects, agree.arrays,
    agree.checkedArrays.write pairing.functional pairing.injective paired related,
    by rw [counts_setChecked, counts_setChecked]; exact agree.counts⟩

end Matches

/-- Up to the identity, heaps agree that are the same. -/
theorem matches_identity_iff {heap heap' : Heap} :
    Matches .identity heap heap' ↔ heap = heap' := by
  have objects : SymbolMap.Related (Value.Matches .identity) = Eq := by
    funext fields fields'
    rw [Value.matches_identity_eq, SymbolMap.related_eq_iff]
  have arrays : ArraysRelated (Value.Matches .identity) = Eq := by
    funext elements elements'
    rw [Value.matches_identity_eq, arraysRelated_eq_iff]
  have checkedArrays : CheckedArray.Related (Value.Matches .identity) = Eq := by
    funext contents contents'
    unfold CheckedArray.Related
    obtain ⟨items⟩ := contents
    obtain ⟨items'⟩ := contents'
    rw [arrays, CheckedArray.mk.injEq]
  obtain ⟨objectStore, arrayStore, checkedStore⟩ := heap
  obtain ⟨objectStore', arrayStore', checkedStore'⟩ := heap'
  rw [mk.injEq]
  constructor
  · intro agree
    have first := agree.objects
    have second := agree.arrays
    have third := agree.checkedArrays
    rw [objects] at first
    rw [arrays] at second
    rw [checkedArrays] at third
    exact ⟨Store.matches_eq_iff.mp first, Store.matches_eq_iff.mp second,
      Store.matches_eq_iff.mp third⟩
  · rintro ⟨rfl, rfl, rfl⟩
    constructor
    · rw [objects]
      exact Store.matches_eq_iff.mpr rfl
    · rw [arrays]
      exact Store.matches_eq_iff.mpr rfl
    · rw [checkedArrays]
      exact Store.matches_eq_iff.mpr rfl
    · exact nofun

end Heap

end NilSafety
