import NilSafety.Eval.Heap

/-!
Contract: values as finite pictures, without addresses.

Owns:
- the picture of a value: a walk from the value numbers the containers in the
  order in which it meets them, and shows the contents of each where it meets it
  first, its number alone elsewhere;
- the order of an object's fields in a picture, by name;
- whether the walk met a container inside itself.

Does not own: how a picture is written.

A walk goes as deep as there are containers. It needs no more, since it enters
each at most once.
-/

namespace NilSafety

/-- What a value is made of. -/
inductive Picture where
  | nil
  | unit
  | int (value : Int64)
  | bool (value : Bool)
  | str (value : String)
  | absent
  | present (inner : Picture)
  | array (number : Nat) (elements : List Picture)
  | checkedArray (number : Nat) (elements : List Picture)
  | object (number : Nat) (cls : Symbol) (fields : List (Symbol × Picture))
  /-- A container that is shown elsewhere. -/
  | again (kind : ValueKind) (number : Nat)
deriving Inhabited

namespace Picture

/-- The state of a walk. -/
structure Walk where
  /-- The containers met so far, in order. -/
  met : List Value
  /-- The containers whose contents the walk is in, the innermost first. -/
  inside : List Value
  /-- Whether a container was met inside itself. -/
  cyclic : Bool

/-- The walk that met nothing yet. -/
def Walk.start : Walk := ⟨[], [], false⟩

/-- Meets a container. If this is the first time, its contents are walked and
`shown` under its number. -/
def meet
    {α : Type}
    (container : Value)
    (contents : StateM Walk α)
    (shown : Nat → α → Picture) :
    StateM Walk Picture := do
  let walk ← get
  match walk.met.idxOf? container with
  | some number =>
      set { walk with cyclic := walk.cyclic || walk.inside.contains container }
      return again container.kind number
  | none =>
      set { walk with met := walk.met ++ [container], inside := container :: walk.inside }
      let contents ← contents
      modify fun after => { after with inside := walk.inside }
      return shown walk.met.length contents

/-- The fields of an object by name; of two that are shown under one name, the
one whose symbol has the lower number is first. -/
def byName (table : SymbolTable) (fields : SymbolMap Value) : List (Symbol × Value) :=
  fields.entries.mergeSort fun first second =>
    let name := table.display first.1
    let other := table.display second.1
    name < other || (name == other && first.1.number ≤ second.1.number)

/-- Walks a value, with `several` for what containers hold. -/
def walkWith
    (table : SymbolTable)
    (heap : Heap)
    (several : List Value → StateM Walk (List Picture)) :
    Value → StateM Walk Picture
  | .nil => return nil
  | .unit => return unit
  | .int value => return int value
  | .bool value => return bool value
  | .str value => return str value
  | .absent => return absent
  | .present inner => do
      let inner ← walkWith table heap several inner
      return present inner
  | .array address =>
      meet (.array address) (several (heap.elements address).toList) array
  | .checkedArray address =>
      meet (.checkedArray address) (several (heap.checked address).toList) checkedArray
  | .object cls address =>
      let fields := byName table (heap.fields address)
      meet (.object cls address) (several (fields.map Prod.snd)) fun number contents =>
        object number cls ((fields.map Prod.fst).zip contents)

/-- Walks a value through containers nested no deeper than `depth`. -/
def walkWithin (table : SymbolTable) (heap : Heap) : (depth : Nat) → Value → StateM Walk Picture
  | 0 => walkWith table heap fun _ => return []
  | depth + 1 => walkWith table heap fun values => values.mapM (walkWithin table heap depth)

end Picture

/-- The number of containers. -/
def Heap.size (heap : Heap) : Nat :=
  heap.objects.next + heap.arrays.next + heap.checkedArrays.next

/-- The pictures of several values with the containers numbered throughout, and
whether one of the values contains itself or something that does. -/
def Heap.pictures (heap : Heap) (table : SymbolTable) (values : List Value) :
    List Picture × Bool :=
  let (pictures, walk) := (values.mapM (Picture.walkWithin table heap heap.size)).run .start
  (pictures, walk.cyclic)

/-- The picture of a value, and whether it contains itself or something that
does. -/
def Heap.picture (heap : Heap) (table : SymbolTable) (value : Value) : Picture × Bool :=
  let (picture, walk) := (Picture.walkWithin table heap heap.size value).run .start
  (picture, walk.cyclic)

end NilSafety
