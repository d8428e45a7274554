import NilSafety.Span
import NilSafety.Symbol

/-!
Contract: the type notes that parameters, fields, bindings and constants carry.

Owns:
- the shapes of a type note;
- its classification by whether it admits nil.

Does not own: checking of values against notes. Nothing enforces a note at run
time; the parameter guards of `NilSafety.Rewrite.ParamGuard` only read the
classification.
-/

namespace NilSafety

/-- A type as it is written in the source. -/
inductive TypeNote where
  /-- A plain name: `Int`. -/
  | named (name : Symbol) (span : Span)
  /-- A name with arguments: `Map<K, V>`. -/
  | generic (name : Symbol) (args : List TypeNote) (span : Span)
  /-- An array of one element type: `[T]`. -/
  | array (element : TypeNote) (span : Span)
  /-- A function type: `(A, B) -> R`. -/
  | function (params : List TypeNote) (result : TypeNote) (span : Span)
  /-- An optional type: `T?`. -/
  | optional (inner : TypeNote) (span : Span)
  /-- A type left to inference: `_`. -/
  | inferred (span : Span)

instance : Inhabited TypeNote := ⟨.inferred default⟩

/-- What a type note says about nil. -/
inductive Nullability where
  /-- The note admits nil. -/
  | nullable
  /-- The note promises a value. -/
  | nonNullable
  /-- The note says nothing. -/
  | unknown
deriving DecidableEq

namespace TypeNote

/-- The source region of the note. -/
def span : TypeNote → Span
  | .named _ span | .generic _ _ span | .array _ span | .function _ _ span
  | .optional _ span | .inferred span => span

/-- The same note at another region. -/
def withSpan (span : Span) : TypeNote → TypeNote
  | .named name _ => .named name span
  | .generic name args _ => .generic name args span
  | .array element _ => .array element span
  | .function params result _ => .function params result span
  | .optional inner _ => .optional inner span
  | .inferred _ => .inferred span

/-- The same note under another name; notes without a name stay as they are. -/
def withName (name : Symbol) : TypeNote → TypeNote
  | .named _ span => .named name span
  | .generic _ args span => .generic name args span
  | other => other

/-- The generic names that admit nil by themselves. -/
def nullableWrappers : List String := ["Null", "Nullable"]

/-- What the note says about nil: an optional type and a nullable wrapper admit
it, an inferred type leaves it open, and every other note excludes it. -/
def nullability (table : SymbolTable) : TypeNote → Nullability
  | .optional .. => .nullable
  | .inferred .. => .unknown
  | .generic name _ _ =>
      match table.name? name with
      | some text => if text ∈ nullableWrappers then .nullable else .nonNullable
      | none => .nonNullable
  | .named .. | .array .. | .function .. => .nonNullable

mutual

/-- Whether two notes agree in shape, names and regions. -/
def same : TypeNote → TypeNote → Bool
  | .named name span, .named name' span' => name == name' && span == span'
  | .generic name args span, .generic name' args' span' =>
      name == name' && sameList args args' && span == span'
  | .array element span, .array element' span' => same element element' && span == span'
  | .function params result span, .function params' result' span' =>
      sameList params params' && same result result' && span == span'
  | .optional inner span, .optional inner' span' => same inner inner' && span == span'
  | .inferred span, .inferred span' => span == span'
  | _, _ => false

/-- Whether two sequences of notes agree. -/
def sameList : List TypeNote → List TypeNote → Bool
  | [], [] => true
  | note :: rest, note' :: rest' => same note note' && sameList rest rest'
  | _, _ => false

end

mutual

theorem same_iff (note other : TypeNote) : same note other = true ↔ note = other := by
  cases note <;> cases other <;> simp [same]
  case generic.generic name args span name' args' span' =>
    simp [sameList_iff args args', and_assoc]
  case array.array element span element' span' => simp [same_iff element element']
  case function.function params result span params' result' span' =>
    simp [sameList_iff params params', same_iff result result', and_assoc]
  case optional.optional inner span inner' span' => simp [same_iff inner inner']

theorem sameList_iff (notes others : List TypeNote) :
    sameList notes others = true ↔ notes = others := by
  cases notes <;> cases others <;> simp [sameList]
  case cons.cons note rest note' rest' => simp [same_iff note note', sameList_iff rest rest']

end

instance : DecidableEq TypeNote := fun note other =>
  decidable_of_iff (same note other = true) (same_iff note other)

end TypeNote

end NilSafety
