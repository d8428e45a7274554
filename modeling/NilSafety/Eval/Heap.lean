import NilSafety.Eval.Value
import NilSafety.Presence.CheckedArray
import NilSafety.SymbolMap

/-!
Contract: the contents of containers.

Owns:
- three stores, for the fields of objects, for plain arrays and for checked
  arrays, each with addresses handed out in ascending order;
- allocation, reading and writing;
- the text of a value.

Does not own: which accesses a program may make. Reading at an address that was
never handed out yields an empty container, and writing there changes nothing;
evaluation does neither.

A value that contains itself has no text. The text goes as deep as there are
arrays, which is enough for every other value.
-/

namespace NilSafety

/-- Containers of one sort; an address is a position. -/
structure Store (α : Type) where
  cells : Array α
deriving DecidableEq

namespace Store

variable {α : Type}

/-- Nothing allocated. -/
def empty : Store α := ⟨#[]⟩

/-- The address that the next allocation hands out. -/
def next (store : Store α) : Nat :=
  store.cells.size

/-- The contents at an address. -/
def read [Inhabited α] (store : Store α) (address : Nat) : α :=
  store.cells.getD address default

/-- The store with a new container. -/
def alloc (store : Store α) (contents : α) : Store α :=
  ⟨store.cells.push contents⟩

/-- The store with other contents at an address. -/
def write (store : Store α) (address : Nat) (contents : α) : Store α :=
  ⟨store.cells.setIfInBounds address contents⟩

end Store

/-- The contents of all containers. -/
structure Heap where
  objects : Store (SymbolMap Value)
  arrays : Store (Array Value)
  checkedArrays : Store (CheckedArray Value)
deriving DecidableEq

namespace Heap

/-- The heap without containers. -/
def empty : Heap := ⟨.empty, .empty, .empty⟩

/-- The fields of an object. -/
def fields (heap : Heap) (address : Nat) : SymbolMap Value :=
  heap.objects.read address

/-- The elements of a plain array. -/
def elements (heap : Heap) (address : Nat) : Array Value :=
  heap.arrays.read address

/-- The contents of a checked array. -/
def checked (heap : Heap) (address : Nat) : CheckedArray Value :=
  heap.checkedArrays.read address

/-- A new object of a class. -/
def newObject (heap : Heap) (cls : Symbol) (fields : SymbolMap Value) : Value × Heap :=
  (.object cls heap.objects.next, { heap with objects := heap.objects.alloc fields })

/-- A new plain array. -/
def newArray (heap : Heap) (elements : Array Value) : Value × Heap :=
  (.array heap.arrays.next, { heap with arrays := heap.arrays.alloc elements })

/-- A new checked array. -/
def newChecked (heap : Heap) (elements : Array Value) : Value × Heap :=
  (.checkedArray heap.checkedArrays.next,
    { heap with checkedArrays := heap.checkedArrays.alloc ⟨elements⟩ })

/-- The heap with other fields in an object. -/
def setFields (heap : Heap) (address : Nat) (fields : SymbolMap Value) : Heap :=
  { heap with objects := heap.objects.write address fields }

/-- The heap with other elements in a plain array. -/
def setElements (heap : Heap) (address : Nat) (elements : Array Value) : Heap :=
  { heap with arrays := heap.arrays.write address elements }

/-- The heap with other contents in a checked array. -/
def setChecked (heap : Heap) (address : Nat) (contents : CheckedArray Value) : Heap :=
  { heap with checkedArrays := heap.checkedArrays.write address contents }

/-- The text of a value, with `itemsText` for the elements of an array. -/
def textWith (heap : Heap) (itemsText : List Value → Option String) : Value → Option String
  | .nil => some "nil"
  | .unit => some "()"
  | .int value => some (toString value.toInt)
  | .bool true => some "true"
  | .bool false => some "false"
  | .str value => some value
  | .object cls _ => some s!"<object {cls.number}>"
  | .array address => itemsText (heap.elements address).toList
  | .checkedArray address => itemsText (heap.checked address).toList
  | .absent => some "absent"
  | .present inner => (textWith heap itemsText inner).map fun text => s!"present({text})"

/-- The text of a sequence of elements. -/
def listText (texts : List String) : String :=
  "[" ++ ", ".intercalate texts ++ "]"

/-- The text of a value with arrays nested no deeper than `depth`. -/
def textWithin (heap : Heap) : (depth : Nat) → Value → Option String
  | 0 => textWith heap fun _ => none
  | depth + 1 => textWith heap fun items => (items.mapM (textWithin heap depth)).map listText

/-- The text of a value; a value that contains itself has none. -/
def text? (heap : Heap) (value : Value) : Option String :=
  textWithin heap (heap.arrays.next + heap.checkedArrays.next) value

end Heap

end NilSafety
