import NilSafety.Eval.EvalError
import NilSafety.Eval.Heap

/-!
Contract: what a value is made of, as programs get at it.

Owns:
- reading of fields and elements;
- the methods that arrays and texts have by themselves;
- replacement of fields and elements.

Does not own: methods that are declared, and evaluation of the expressions that
an access consists of.

Reading looks through present layers; replacement does not. A plain array reads
as nil where nothing is, a checked one as absent.
-/

namespace NilSafety.Member

/-- The element of an array at a position. -/
def elementAt? (elements : Array Value) (position : Int64) : Option Value :=
  (CheckedArray.mk elements).get? position.toInt

/-- Reads a field. -/
def readField
    (table : SymbolTable)
    (heap : Heap)
    (object : Value)
    (name : Symbol)
    (span : Span) :
    Except EvalError Value :=
  match object.core with
  | .nil | .absent => .error (.nullReference (table.display name) span)
  | .object cls address =>
      match (heap.fields address).get? name with
      | some value => .ok value
      | none => .error (.unknownMember (table.display cls) (table.display name) span)
  | other => .error (.unknownMember other.kind.name (table.display name) span)

/-- Reads an element. -/
def readElement (heap : Heap) (collection position : Value) (span : Span) :
    Except EvalError Value :=
  match position with
  | .int position =>
      match collection.core with
      | .nil | .absent => .error (.nullReference "[]" span)
      | .array address => .ok ((elementAt? (heap.elements address) position).getD .nil)
      | .checkedArray address =>
          .ok (.ofOption ((heap.checked address).get? position.toInt))
      | other => .error (.type (.notIndexable other.kind) span)
  | other => .error (.type (.position other.kind) span)

/-- Calls a method that arrays and texts have by themselves, if `receiver` has one of
this name for these arguments. A text's length counts the bytes of its UTF-8
form. -/
def callBuiltin (heap : Heap) (receiver : Value) (method : String) (args : List Value) :
    Option (Value × Heap) :=
  match receiver, method, args with
  | .array address, "length", [] =>
      some (.int (.ofNat (heap.elements address).size), heap)
  | .array address, "get", [.int position] =>
      some ((elementAt? (heap.elements address) position).getD .nil, heap)
  | .array address, "push", [value] =>
      some (.unit, heap.setElements address ((heap.elements address).push value))
  | .checkedArray address, "length", [] =>
      some (.int (.ofNat (heap.checked address).length), heap)
  | .checkedArray address, "get", [.int position] =>
      some (.ofOption ((heap.checked address).get? position.toInt), heap)
  | .checkedArray address, "push", [value] =>
      some (.unit, heap.setChecked address ((heap.checked address).push value))
  | .str text, "length", [] => some (.int (.ofNat text.utf8ByteSize), heap)
  | _, _, _ => none

/-- Replaces a field, or adds it. -/
def writeField
    (table : SymbolTable)
    (heap : Heap)
    (object : Value)
    (name : Symbol)
    (value : Value)
    (span : Span) :
    Except EvalError Heap :=
  match object with
  | .object _ address => .ok (heap.setFields address ((heap.fields address).set name value))
  | .nil | .absent => .error (.nullReference (table.display name) span)
  | other => .error (.type (.notAssignable other.kind) span)

/-- Replaces an element. No array grows by this. -/
def writeElement (heap : Heap) (collection position value : Value) (span : Span) :
    Except EvalError Heap :=
  match position with
  | .int position =>
      match collection with
      | .array address =>
          match (CheckedArray.mk (heap.elements address)).set? position.toInt value with
          | some changed => .ok (heap.setElements address changed.items)
          | none => .error (.type (.outOfBounds position) span)
      | .checkedArray address =>
          match (heap.checked address).set? position.toInt value with
          | some changed => .ok (heap.setChecked address changed)
          | none => .error (.type (.outOfBounds position) span)
      | other => .error (.type (.notIndexable other.kind) span)
  | _ => .error (.type .targetPosition span)

end NilSafety.Member
