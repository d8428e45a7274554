/-!
Contract: arrays whose reads tell a missing element from a stored nil.

Owns:
- the array with signed positions, of which those from 0 up to but excluding the
  length are valid;
- the place at a position, through which an element is read and replaced;
- reading, replacing and appending of elements.

Does not own: what the elements are. A read at a valid position yields the
element as present, whatever it is.
-/

namespace NilSafety

/-- An array that is read with a check of the position. -/
structure CheckedArray (α : Type) where
  items : Array α
deriving DecidableEq

namespace CheckedArray

variable {α : Type}

/-- The array without elements. -/
def empty : CheckedArray α := ⟨#[]⟩

instance : Inhabited (CheckedArray α) := ⟨empty⟩

/-- The array of the given elements. -/
def ofList (items : List α) : CheckedArray α := ⟨items.toArray⟩

/-- The elements in order. -/
def toList (array : CheckedArray α) : List α :=
  array.items.toList

/-- The number of elements. -/
def length (array : CheckedArray α) : Nat :=
  array.items.size

/-- Whether there are no elements. -/
def isEmpty (array : CheckedArray α) : Bool :=
  array.items.isEmpty

/-- A signed position as a place in the array, if it is valid. -/
def position? (array : CheckedArray α) (index : Int) : Option (Fin array.items.size) :=
  if valid : 0 ≤ index ∧ index.toNat < array.items.size then some ⟨index.toNat, valid.2⟩
  else none

/-- The element at a position, if the position is valid. -/
def get? (array : CheckedArray α) (index : Int) : Option α :=
  match array.position? index with
  | some place => some array.items[place]
  | none => none

/-- A place in an array: the element there, and the array with another element in its
place. -/
structure Slot (α : Type) where
  element : α
  fill : α → CheckedArray α

/-- The place at a position, if the position is valid. -/
def slot? (array : CheckedArray α) (index : Int) : Option (Slot α) :=
  match array.position? index with
  | some place => some ⟨array.items[place], fun value => ⟨array.items.set place value⟩⟩
  | none => none

/-- The array with the element at a position replaced, if the position is valid.
The array never grows by this. -/
def set? (array : CheckedArray α) (index : Int) (value : α) : Option (CheckedArray α) :=
  match array.slot? index with
  | some slot => some (slot.fill value)
  | none => none

/-- The array with an element added at the end. -/
def push (array : CheckedArray α) (value : α) : CheckedArray α :=
  ⟨array.items.push value⟩

/-- The first element. -/
def first? (array : CheckedArray α) : Option α :=
  array.items[0]?

/-- The last element. -/
def last? (array : CheckedArray α) : Option α :=
  array.items.back?

end CheckedArray

end NilSafety
