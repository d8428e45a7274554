import Mathlib.Data.Option.Basic
import NilSafety.Eval.Heap

/-!
Contract: what a single write does to the containers.

Owns:
- reading behind a write, in a store and in an array with checked positions;
- the elements of arrays of both kinds under one name;
- heaps that differ in one field, or in one element, and nothing else.

Does not own: which writes a program may make.

A container in which something is found was handed out. So a write to it takes effect.
-/

namespace NilSafety

/-! ### Stores -/

namespace Store

variable {α : Type} {store : Store α} {address other : Nat}

@[simp] theorem next_write (store : Store α) (address : Nat) (contents : α) :
    (store.write address contents).next = store.next :=
  Array.size_setIfInBounds

variable [Inhabited α]

theorem read_write_self (inside : address < store.next) (contents : α) :
    (store.write address contents).read address = contents := by
  have isThere : address < (store.cells.setIfInBounds address contents).size := by
    rwa [Array.size_setIfInBounds]
  unfold read write
  rw [Array.getD_eq_getD_getElem?, Array.getElem?_eq_getElem isThere]
  simp

theorem read_write_of_ne (different : other ≠ address) (contents : α) :
    (store.write address contents).read other = store.read other := by
  unfold read write
  rw [Array.getD_eq_getD_getElem?, Array.getD_eq_getD_getElem?,
    Array.getElem?_setIfInBounds_ne different.symm]

theorem read_eq_default (outside : store.next ≤ address) : store.read address = default := by
  unfold read
  rw [Array.getD_eq_getD_getElem?, Array.getElem?_eq_none outside]
  rfl

end Store

/-! ### Arrays with checked positions -/

namespace CheckedArray

variable {α : Type} {array : CheckedArray α} {position : Int} {old : α}

theorem get?_eq (array : CheckedArray α) (position : Int) :
    array.get? position = if 0 ≤ position then array.items[position.toNat]? else none := by
  unfold get? position?
  by_cases valid : 0 ≤ position ∧ position.toNat < array.items.size
  · simp [valid]
  · have absent : (if 0 ≤ position then array.items[position.toNat]? else none) = none := by
      rw [ite_eq_right_iff]
      exact fun notNegative => Array.getElem?_eq_none (by omega)
    rw [dif_neg valid, absent]

/-- Where an element is found it can be replaced, and that changes this element only. -/
theorem exists_set?_of_get? (isThere : array.get? position = some old) (new : α) :
    ∃ changed, array.set? position new = some changed ∧
      changed.length = array.length ∧
      changed.get? position = some new ∧
      ∀ other, other ≠ position → changed.get? other = array.get? other := by
  have valid : 0 ≤ position ∧ position.toNat < array.items.size := by
    rw [get?_eq] at isThere
    split at isThere
    next notNegative => exact ⟨notNegative, (Array.getElem?_eq_some_iff.mp isThere).1⟩
    next => cases isThere
  refine ⟨⟨array.items.set position.toNat new valid.2⟩, ?_, Array.size_set valid.2, ?_, ?_⟩
  · unfold set? slot? position?
    rw [dif_pos valid]
  · rw [get?_eq, if_pos valid.1]
    exact Array.getElem?_set_self valid.2
  · intro other different
    rw [get?_eq, get?_eq]
    split
    next notNegative =>
      have apart : position.toNat ≠ other.toNat := by omega
      exact Array.getElem?_set_ne valid.2 apart
    next => rfl

end CheckedArray

/-! ### Heaps -/

namespace Heap

/-- The heaps differ in one field of one object at most, and this field has the value
`new` in the second one. -/
structure FieldSet (heap heap' : Heap) (address : Nat) (name : Symbol) (new : Value) : Prop where
  field : (heap'.fields address).get? name = some new
  others : ∀ address' name', ¬ (address' = address ∧ name' = name) →
    (heap'.fields address').get? name' = (heap.fields address').get? name'
  count : heap'.objects.next = heap.objects.next
  arrays : heap'.arrays = heap.arrays
  checkedArrays : heap'.checkedArrays = heap.checkedArrays

theorem fieldSet_of_get?
    {heap : Heap}
    {address : Nat}
    {name : Symbol}
    {old : Value}
    (isThere : (heap.fields address).get? name = some old)
    (new : Value) :
    heap.FieldSet (heap.setFields address ((heap.fields address).set name new)) address name
      new := by
  have inside : address < heap.objects.next := by
    by_contra outside
    have empty : heap.fields address = default := Store.read_eq_default (Nat.le_of_not_lt outside)
    rw [empty] at isThere
    cases isThere
  have written : (heap.setFields address ((heap.fields address).set name new)).fields address =
      (heap.fields address).set name new := Store.read_write_self inside _
  constructor
  case field => rw [written, SymbolMap.get?_set_self]
  case others =>
    intro address' name' different
    by_cases same : address' = address
    · subst same
      have otherName : name' ≠ name := fun sameName => different ⟨rfl, sameName⟩
      rw [written, SymbolMap.get?_set_of_ne _ otherName]
    · exact congrArg (SymbolMap.get? · name') (Store.read_write_of_ne same _)
  case count => exact Store.next_write ..
  case arrays => rfl
  case checkedArrays => rfl

/-- The elements of an array of either kind. -/
def contents? (heap : Heap) : Value → Option (CheckedArray Value)
  | .array address => some ⟨heap.elements address⟩
  | .checkedArray address => some (heap.checked address)
  | _ => none

/-- The element that an array of either kind has at a position. -/
def stored? (heap : Heap) (collection : Value) (position : Int) : Option Value :=
  (heap.contents? collection).bind (·.get? position)

/-- The heap with other elements in an array of either kind. -/
def setContents (heap : Heap) (collection : Value) (contents : CheckedArray Value) : Heap :=
  match collection with
  | .array address => heap.setElements address contents.items
  | .checkedArray address => heap.setChecked address contents
  | _ => heap

/-- The heaps differ in one element of one array at most, and this element is `new` in
the second one. -/
structure ElementSet (heap heap' : Heap) (collection : Value) (position : Int) (new : Value) :
    Prop where
  element : heap'.stored? collection position = some new
  others : ∀ collection' position', ¬ (collection' = collection ∧ position' = position) →
    heap'.stored? collection' position' = heap.stored? collection' position'
  lengths : ∀ collection', (heap'.contents? collection').map CheckedArray.length =
    (heap.contents? collection').map CheckedArray.length
  counts : heap'.arrays.next = heap.arrays.next ∧
    heap'.checkedArrays.next = heap.checkedArrays.next
  objects : heap'.objects = heap.objects

section

variable {heap : Heap} {collection : Value} {contents : CheckedArray Value}

theorem contents?_setContents_self
    {old : CheckedArray Value}
    (isArray : heap.contents? collection = some old)
    (notEmpty : old.length ≠ 0) :
    (heap.setContents collection contents).contents? collection = some contents := by
  cases collection with
  | array address =>
      have inside : address < heap.arrays.next := by
        by_contra outside
        have empty : heap.elements address = default :=
          Store.read_eq_default (Nat.le_of_not_lt outside)
        cases isArray
        rw [empty] at notEmpty
        exact notEmpty rfl
      exact congrArg (fun elements => some (CheckedArray.mk elements))
        (Store.read_write_self inside contents.items)
  | checkedArray address =>
      have inside : address < heap.checkedArrays.next := by
        by_contra outside
        have empty : heap.checked address = default :=
          Store.read_eq_default (Nat.le_of_not_lt outside)
        cases isArray
        rw [empty] at notEmpty
        exact notEmpty rfl
      exact congrArg some (Store.read_write_self inside contents)
  | _ => cases isArray

theorem contents?_setContents_of_ne {other : Value} (different : other ≠ collection) :
    (heap.setContents collection contents).contents? other = heap.contents? other := by
  cases collection with
  | array address =>
      cases other with
      | array address' =>
          have apart : address' ≠ address := fun same => different (congrArg Value.array same)
          exact congrArg (fun elements => some (CheckedArray.mk elements))
            (Store.read_write_of_ne apart contents.items)
      | _ => rfl
  | checkedArray address =>
      cases other with
      | checkedArray address' =>
          have apart : address' ≠ address :=
            fun same => different (congrArg Value.checkedArray same)
          exact congrArg some (Store.read_write_of_ne apart contents)
      | _ => rfl
  | _ => rfl

theorem objects_setContents : (heap.setContents collection contents).objects = heap.objects := by
  cases collection <;> rfl

theorem counts_setContents :
    (heap.setContents collection contents).arrays.next = heap.arrays.next ∧
      (heap.setContents collection contents).checkedArrays.next = heap.checkedArrays.next := by
  cases collection with
  | array address => exact ⟨Store.next_write .., rfl⟩
  | checkedArray address => exact ⟨rfl, Store.next_write ..⟩
  | _ => exact ⟨rfl, rfl⟩

end

/-- An element that is found can be replaced, whatever kind of array it is in. -/
theorem exists_elementSet_of_stored?
    {heap : Heap}
    {collection : Value}
    {position : Int}
    {old : Value}
    (isThere : heap.stored? collection position = some old)
    (new : Value) :
    ∃ contents changed, heap.contents? collection = some contents ∧
      contents.set? position new = some changed ∧
      heap.ElementSet (heap.setContents collection changed) collection position new := by
  obtain ⟨contents, isArray, isElement⟩ := Option.bind_eq_some_iff.mp isThere
  obtain ⟨changed, isSet, sameLength, isNew, isOld⟩ :=
    CheckedArray.exists_set?_of_get? isElement new
  have notEmpty : contents.length ≠ 0 := by
    intro empty
    have outside : contents.items.size ≤ position.toNat :=
      Nat.le_trans (Nat.le_of_eq empty) (Nat.zero_le _)
    rw [CheckedArray.get?_eq, Array.getElem?_eq_none outside, ite_self] at isElement
    cases isElement
  have written : (heap.setContents collection changed).contents? collection = some changed :=
    contents?_setContents_self isArray notEmpty
  refine ⟨contents, changed, isArray, isSet, ?_, ?_, ?_, counts_setContents, objects_setContents⟩
  · rw [stored?, written]
    exact isNew
  · intro collection' position' different
    unfold stored?
    by_cases same : collection' = collection
    · subst same
      rw [written, isArray]
      exact isOld position' fun samePosition => different ⟨rfl, samePosition⟩
    · rw [contents?_setContents_of_ne same]
  · intro collection'
    by_cases same : collection' = collection
    · subst same
      rw [written, isArray]
      exact congrArg some sameLength
    · rw [contents?_setContents_of_ne same]

end Heap

end NilSafety
