import NilSafety.Proofs.Source.Outlines

/-!
Contract: type notes with the marks of optional function types moved to the results.

Owns:
- the note under further marks, and the note with its marks moved inward;
- that a note without optional function types stays as it is;
- that the symbols stay, and what the note says about nil, unless it is an optional
  function type itself.

Does not own: the text of a note, for which such marks stand in one place.
-/

namespace NilSafety

namespace TypeNote

/-- The note under further optional marks. -/
def marked : Nat → TypeNote → TypeNote
  | 0, note => note
  | marks + 1, note => .optional (marked marks note) default

mutual

/-- The note under further optional marks, with all marks on function types moved to the
results of these. -/
def inward (marks : Nat) : TypeNote → TypeNote
  | .named name span => marked marks (.named name span)
  | .generic name args span => marked marks (.generic name (inwardOfList args) span)
  | .array element span => marked marks (.array (inward 0 element) span)
  | .function params result span => .function (inwardOfList params) (inward marks result) span
  | .optional inner _ => inward (marks + 1) inner
  | .inferred span => marked marks (.inferred span)

/-- Several notes with the marks on function types moved to the results. -/
def inwardOfList : List TypeNote → List TypeNote
  | [] => []
  | note :: rest => inward 0 note :: inwardOfList rest

end

/-- Whether the note is an optional type. -/
def isOptional : TypeNote → Bool
  | .optional .. => true
  | _ => false

/-- Whether two notes are built alike at their roots. -/
def hasShapeOf : TypeNote → TypeNote → Bool
  | .named .., .named .. | .generic .., .generic .. | .array .., .array .. => true
  | .function .., .function .. | .optional .., .optional .. | .inferred _, .inferred _ => true
  | _, _ => false

/-- Whether the note is a function type, optional marks aside. -/
def isMarkedFunction : TypeNote → Bool
  | .function .. => true
  | .optional inner _ => isMarkedFunction inner
  | _ => false

/-- Whether the note is an optional function type. -/
def isOptionalFunction : TypeNote → Bool
  | .optional inner _ => isMarkedFunction inner
  | _ => false

mutual

/-- Whether there is an optional function type in the note. -/
def hasOptionalFunction : TypeNote → Bool
  | .named .. | .inferred _ => false
  | .generic _ args _ => hasOptionalFunctionInList args
  | .array element _ => hasOptionalFunction element
  | .function params result _ => hasOptionalFunctionInList params || hasOptionalFunction result
  | .optional inner _ => isMarkedFunction inner || hasOptionalFunction inner

/-- Whether there is an optional function type in one of several notes. -/
def hasOptionalFunctionInList : List TypeNote → Bool
  | [] => false
  | note :: rest => hasOptionalFunction note || hasOptionalFunctionInList rest

end

variable {name : Symbol → String}

theorem outline_marked (marks : Nat) (note : TypeNote) :
    (note.marked marks).outline name = (note.outline name).marked marks := by
  induction marks with
  | zero => rfl
  | succ marks inductionHypothesis => rw [marked, outline, inductionHypothesis, marked]

/-- Marks do not tell notes apart that are the same without them. -/
theorem outline_marked_eq
    {name' : Symbol → String}
    {note note' : TypeNote}
    (same : note.outline name = note'.outline name')
    (marks : Nat) :
    (note.marked marks).outline name = (note'.marked marks).outline name' := by
  rw [outline_marked, outline_marked, same]

theorem marked_optional (marks : Nat) (note : TypeNote) :
    marked marks (.optional note default) = note.marked (marks + 1) := by
  induction marks with
  | zero => rfl
  | succ marks inductionHypothesis => rw [marked, inductionHypothesis]; rfl

mutual

/-- A note without optional function types stays as it is. -/
theorem outline_inward
    {note : TypeNote}
    (plain : note.hasOptionalFunction = false)
    (marks : Nat)
    (unmarked : marks = 0 ∨ note.isMarkedFunction = false) :
    (note.inward marks).outline name = (note.outline name).marked marks := by
  cases note with
  | named | inferred => rw [inward, outline_marked]
  | generic symbol args span =>
      rw [inward, outline_marked, outline, outlineOfList_inward plain, outline]
  | array element span =>
      have plainElement : element.hasOptionalFunction = false := plain
      rw [inward, outline_marked, outline, outline_inward plainElement 0 (.inl rfl), marked,
        outline]
  | function params result span =>
      obtain rfl := unmarked.resolve_right Bool.noConfusion
      obtain ⟨plainParams, plainResult⟩ := Bool.or_eq_false_iff.mp plain
      rw [inward, outline, outlineOfList_inward plainParams,
        outline_inward plainResult 0 (.inl rfl), marked, marked, outline]
  | optional inner span =>
      obtain ⟨noFunction, plainInner⟩ := Bool.or_eq_false_iff.mp plain
      rw [inward, outline_inward plainInner (marks + 1) (.inr noFunction), outline,
        marked_optional]

theorem outlineOfList_inward
    {notes : List TypeNote}
    (plain : hasOptionalFunctionInList notes = false) :
    outlineOfList name (inwardOfList notes) = outlineOfList name notes := by
  cases notes with
  | nil => rfl
  | cons note rest =>
      obtain ⟨plainNote, plainRest⟩ := Bool.or_eq_false_iff.mp plain
      rw [inwardOfList, outlineOfList, outline_inward plainNote 0 (.inl rfl), marked,
        outlineOfList_inward plainRest, outlineOfList]

end

/-! ### What stays -/

theorem symbols_marked (marks : Nat) (note : TypeNote) :
    (note.marked marks).symbols = note.symbols := by
  induction marks with
  | zero => rfl
  | succ marks inductionHypothesis => exact inductionHypothesis

mutual

theorem symbols_inward (note : TypeNote) (marks : Nat) :
    (note.inward marks).symbols = note.symbols := by
  cases note with
  | named | inferred => rw [inward, symbols_marked]
  | generic name args span =>
      rw [inward, symbols_marked, symbols, symbolsOfList_inward args, symbols]
  | array element span => rw [inward, symbols_marked, symbols, symbols_inward element 0, symbols]
  | function params result span =>
      rw [inward, symbols, symbolsOfList_inward params, symbols_inward result marks, symbols]
  | optional inner span => rw [inward, symbols_inward inner (marks + 1), symbols]

theorem symbolsOfList_inward (notes : List TypeNote) :
    symbolsOfList (inwardOfList notes) = symbolsOfList notes := by
  cases notes with
  | nil => rfl
  | cons note rest =>
      rw [inwardOfList, symbolsOfList, symbols_inward note 0, symbolsOfList_inward rest,
        symbolsOfList]

end

theorem nullability_inward_succ
    {table : SymbolTable}
    (note : TypeNote)
    (noFunction : note.isMarkedFunction = false)
    (marks : Nat) :
    (note.inward (marks + 1)).nullability table = .nullable := by
  cases note with
  | named | generic | array | inferred => rfl
  | function => cases noFunction
  | optional inner span => exact nullability_inward_succ inner noFunction (marks + 1)

/-- Moving marks on function types to the results changes what a note says about nil only
if the note is an optional function type itself. -/
theorem nullability_inward
    {table : SymbolTable}
    {note : TypeNote}
    (noFunction : note.isOptionalFunction = false) :
    (note.inward 0).nullability table = note.nullability table := by
  cases note with
  | named | generic | array | inferred | function => rfl
  | optional inner span => exact nullability_inward_succ inner noFunction 0

end TypeNote

end NilSafety
