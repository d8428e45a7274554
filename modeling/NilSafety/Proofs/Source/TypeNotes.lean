import NilSafety.Proofs.Paths.Notation
import NilSafety.Proofs.Source.Marks

/-!
Contract: what the source text of a type note says about the note.

Owns:
- that two notes whose names are identifiers have one text if they are the same once
  marks on function types are moved to the results, regions and the numbering of symbols
  aside;
- that the text tells whether a note admits nil, optional function types aside;
- the same for the printed parameters of a function.

Does not own: reading source text back.

A mark after a function type stands where a mark on its result stands, since the text
has no parentheses around the type: `(A) -> B?` is the text of both.
-/

namespace NilSafety

/-! ### Texts as characters -/

/-- A sequence of characters of one kind that ends where the kind ends is determined by the
whole. -/
theorem eq_of_append_eq
    {kind : Char → Bool}
    {first second rest rest' : List Char}
    (ofKind : ∀ c ∈ first, kind c)
    (ofKind' : ∀ c ∈ second, kind c)
    (ends : ∀ c ∈ rest.head?, ¬ kind c)
    (ends' : ∀ c ∈ rest'.head?, ¬ kind c)
    (same : first ++ rest = second ++ rest') :
    first = second ∧ rest = rest' := by
  induction first generalizing second with
  | nil =>
      cases second with
      | nil => exact ⟨rfl, same⟩
      | cons c others =>
          rw [List.nil_append] at same
          exact absurd (ofKind' c List.mem_cons_self) (ends c (by rw [same]; rfl))
  | cons c others inductionHypothesis =>
      cases second with
      | nil =>
          rw [List.nil_append] at same
          exact absurd (ofKind c List.mem_cons_self) (ends' c (by rw [← same]; rfl))
      | cons d others' =>
          obtain ⟨rfl, sameRest⟩ := List.cons_eq_cons.mp same
          obtain ⟨rfl, restEq⟩ := inductionHypothesis (List.forall_mem_cons.mp ofKind).2
            (List.forall_mem_cons.mp ofKind').2 sameRest
          exact ⟨rfl, restEq⟩

namespace Layout

variable {layout layout' : Layout}

/-- The names of the symbols are identifiers, other than the underscore alone. -/
def Identifiers (layout : Layout) (symbols : List Symbol) : Prop :=
  ∀ symbol ∈ symbols, Path.isSegment (layout.name symbol).toList ∧ layout.name symbol ≠ "_"

instance (layout : Layout) (symbols : List Symbol) : Decidable (layout.Identifiers symbols) :=
  inferInstanceAs (Decidable (∀ _ ∈ _, _))

namespace Identifiers

variable {symbol : Symbol} {symbols others : List Symbol}

theorem left (isIdentifiers : layout.Identifiers (symbols ++ others)) :
    layout.Identifiers symbols := fun symbol member =>
  isIdentifiers symbol (List.mem_append_left _ member)

theorem right (isIdentifiers : layout.Identifiers (symbols ++ others)) :
    layout.Identifiers others := fun symbol member =>
  isIdentifiers symbol (List.mem_append_right _ member)

theorem tail (isIdentifiers : layout.Identifiers (symbol :: others)) :
    layout.Identifiers others := fun symbol member =>
  isIdentifiers symbol (List.mem_cons_of_mem _ member)

end Identifiers

theorem toList_name_ne
    {symbols : List Symbol}
    (isIdentifiers : layout.Identifiers symbols)
    {symbol : Symbol}
    (member : symbol ∈ symbols) :
    (layout.name symbol).toList ≠ [] ∧ (layout.name symbol).toList ≠ ['_'] := by
  obtain ⟨isSegment, notUnderscore⟩ := isIdentifiers symbol member
  refine ⟨(Path.isSegment_iff.mp isSegment).1, fun isUnderscore => ?_⟩
  exact notUnderscore (String.toList_injective isUnderscore)

/-- The characters of a note. -/
def noteChars (layout : Layout) (note : TypeNote) : List Char :=
  (layout.typeNote note).toList

/-- The characters of further texts after one, with commas between. -/
def furtherChars (texts : List String) : List Char :=
  texts.flatMap fun text => ',' :: ' ' :: text.toList

theorem toList_commas_cons (text : String) (rest : List String) :
    (commas (text :: rest)).toList = text.toList ++ furtherChars rest := by
  induction rest generalizing text with
  | nil => simp [commas, furtherChars]
  | cons next rest inductionHypothesis =>
      have inRest := inductionHypothesis next
      simp only [commas, String.toList_intercalate, List.map_cons] at inRest ⊢
      rw [List.intercalate_cons_cons, inRest]
      simp [furtherChars]

/-- Lists of texts that are followed by nothing that one of the texts begins with are both
empty or both not, if they read the same. -/
theorem furtherChars_eq_of_commas_eq
    {texts texts' : List String}
    {after after' : List Char}
    (opens : ∀ text ∈ texts, ∃ c ∈ text.toList.head?, c ∉ after'.head?)
    (opens' : ∀ text ∈ texts', ∃ c ∈ text.toList.head?, c ∉ after.head?)
    (same : (commas texts).toList ++ after = (commas texts').toList ++ after') :
    furtherChars texts ++ after = furtherChars texts' ++ after' := by
  have head {text : String} {others : List String} {after : List Char} {c : Char}
      (isHead : c ∈ text.toList.head?) :
      c ∈ ((commas (text :: others)).toList ++ after).head? := by
    rw [toList_commas_cons, List.append_assoc]
    exact List.mem_head?_append_of_mem_head? isHead
  cases texts with
  | nil =>
      cases texts' with
      | nil => exact same
      | cons text' others' =>
          obtain ⟨c, isHead, notAfter⟩ := opens' text' List.mem_cons_self
          have inAfter : c ∈ ((commas []).toList ++ after).head? := same ▸ head isHead
          exact absurd inAfter notAfter
  | cons text others =>
      cases texts' with
      | nil =>
          obtain ⟨c, isHead, notAfter⟩ := opens text List.mem_cons_self
          have inAfter : c ∈ ((commas []).toList ++ after').head? := same ▸ head isHead
          exact absurd inAfter notAfter
      | cons text' others' =>
          rw [toList_commas_cons, toList_commas_cons] at same
          simpa [furtherChars] using same

/-- The word with which the text of a note begins. -/
def firstWord (layout : Layout) : TypeNote → List Char
  | .named name _ | .generic name _ _ => (layout.name name).toList
  | .inferred _ => ['_']
  | .array .. | .function .. | .optional .. => []

/-- The text of a note after its first word. -/
def afterWord (layout : Layout) : TypeNote → List Char
  | .generic _ args _ => '<' :: ((commas (layout.typeNotes args)).toList ++ ['>'])
  | .array element _ => '[' :: (layout.noteChars element ++ [']'])
  | .function params result _ =>
      '(' :: ((commas (layout.typeNotes params)).toList ++
        ')' :: ' ' :: '-' :: '>' :: ' ' :: layout.noteChars result)
  | .optional inner _ => layout.noteChars inner ++ ['?']
  | .named .. | .inferred .. => []

theorem noteChars_eq (note : TypeNote) :
    layout.noteChars note = layout.firstWord note ++ layout.afterWord note := by
  cases note <;> simp [noteChars, typeNote, firstWord, afterWord]

/-- The text after a note does not go on with the note. -/
def EndsNote (rest : List Char) : Prop :=
  ∀ c ∈ rest.head?, ¬ Path.isSegmentChar c ∧ c ≠ '<' ∧ c ≠ '?'

theorem endsNote_cons {c : Char} (isEnd : c ∈ [',', '>', ']', ')']) (rest : List Char) :
    EndsNote (c :: rest) := by
  intro d isHead
  obtain rfl := Option.mem_some.mp isHead
  simp only [List.mem_cons, List.not_mem_nil, or_false] at isEnd
  rcases isEnd with rfl | rfl | rfl | rfl <;> decide

/-- Marks before the end of a note are determined by the text. -/
theorem marks_eq_of_chars
    {marks marks' : Nat}
    {rest rest' : List Char}
    (ends : EndsNote rest)
    (ends' : EndsNote rest')
    (same : List.replicate marks '?' ++ rest = List.replicate marks' '?' ++ rest') :
    marks = marks' ∧ rest = rest' := by
  have areMarks : ∀ count, ∀ c ∈ List.replicate count '?', c == '?' := fun count c member =>
    beq_iff_eq.mpr (List.eq_of_mem_replicate member)
  have noMark : ∀ {rest}, EndsNote rest → ∀ c ∈ rest.head?, ¬ (c == '?') := fun ends c isHead =>
    fun isMark => (ends c isHead).2.2 (beq_iff_eq.mp isMark)
  obtain ⟨sameMarks, sameRest⟩ := eq_of_append_eq (areMarks marks) (areMarks marks')
    (noMark ends) (noMark ends') same
  exact ⟨by simpa using congrArg List.length sameMarks, sameRest⟩

/-- After a first word, marks and the end of a note, the word does not go on, nor do
arguments follow. -/
theorem head_marks
    {rest : List Char}
    (ends : EndsNote rest)
    (marks : Nat) :
    ∀ c ∈ (List.replicate marks '?' ++ rest).head?, ¬ Path.isSegmentChar c ∧ c ≠ '<' := by
  intro c isHead
  cases marks with
  | zero => exact ⟨(ends c isHead).1, (ends c isHead).2.1⟩
  | succ marks =>
      obtain rfl := Option.mem_some.mp isHead
      decide

theorem isSegmentChar_of_mem_firstWord
    {note : TypeNote}
    (isIdentifiers : layout.Identifiers note.symbols) :
    ∀ c ∈ layout.firstWord note, Path.isSegmentChar c := by
  cases note with
  | named name span | generic name args span =>
      exact (Path.isSegment_iff.mp (isIdentifiers name List.mem_cons_self).1).2
  | inferred span => exact List.forall_mem_singleton.mpr (by decide)
  | array | function | optional => exact fun c member => absurd member List.not_mem_nil

/-- The first word ends where what follows it begins. -/
theorem not_isSegmentChar_of_mem_afterWord
    {note : TypeNote}
    (isUnmarked : note.isOptional = false)
    {rest : List Char}
    (ends : EndsNote rest)
    (marks : Nat) :
    ∀ c ∈ (layout.afterWord note ++ (List.replicate marks '?' ++ rest)).head?,
      ¬ Path.isSegmentChar c := by
  intro c isHead
  cases note with
  | named | inferred => exact (head_marks ends marks c isHead).1
  | generic | array | function =>
      obtain rfl := Option.mem_some.mp isHead
      decide
  | optional => cases isUnmarked

/-- No text of a note begins with the closing of a list of notes. -/
theorem exists_head_noteChars
    (note : TypeNote)
    (isIdentifiers : layout.Identifiers note.symbols) :
    ∃ c ∈ (layout.noteChars note).head?, c ≠ '>' ∧ c ≠ ')' := by
  have ofName : ∀ symbol ∈ note.symbols, ∀ after,
      ∃ c ∈ ((layout.name symbol).toList ++ after).head?, c ≠ '>' ∧ c ≠ ')' := by
    intro symbol isSymbol after
    obtain ⟨nonempty, chars⟩ := Path.isSegment_iff.mp (isIdentifiers symbol isSymbol).1
    obtain ⟨c, others, isName⟩ := List.exists_cons_of_ne_nil nonempty
    have isChar := chars c (by rw [isName]; exact List.mem_cons_self)
    refine ⟨c, by rw [isName]; rfl, ?_, ?_⟩ <;> rintro rfl <;> exact absurd isChar (by decide)
  rw [noteChars_eq]
  cases note with
  | named name span | generic name args span => exact ofName name List.mem_cons_self _
  | inferred span => exact ⟨'_', rfl, by decide⟩
  | array element span => exact ⟨'[', rfl, by decide⟩
  | function params result span => exact ⟨'(', rfl, by decide⟩
  | optional inner span =>
      obtain ⟨c, isHead, other⟩ := exists_head_noteChars inner isIdentifiers
      exact ⟨c, (List.mem_head?_append_of_mem_head? isHead : c ∈ (_ ++ ['?']).head?), other⟩

/-- The note behind its optional marks. -/
theorem exists_unmarked (layout : Layout) (note : TypeNote) (marks : Nat) :
    ∃ core more, core.isOptional = false ∧ core.symbols = note.symbols ∧
      core.inward more = note.inward marks ∧
      layout.noteChars core ++ List.replicate more '?' =
        layout.noteChars note ++ List.replicate marks '?' := by
  cases note with
  | optional inner span =>
      obtain ⟨core, more, isUnmarked, symbols, inward, chars⟩ :=
        exists_unmarked layout inner (marks + 1)
      refine ⟨core, more, isUnmarked, symbols, inward, ?_⟩
      rw [chars, noteChars_eq (.optional inner span), List.replicate_succ]
      simp [firstWord, afterWord]
  | named | generic | array | function | inferred => exact ⟨_, marks, rfl, rfl, rfl, rfl⟩

theorem endsNote_furtherChars
    (texts : List String)
    {after : List Char}
    (ends : EndsNote after) :
    EndsNote (furtherChars texts ++ after) := by
  cases texts with
  | nil => exact ends
  | cons text others => exact endsNote_cons (by decide) _

/-- Lists of notes with one text up to their closing are both empty or both not. -/
theorem furtherChars_typeNotes_eq
    {notes notes' : List TypeNote}
    (isIdentifiers : layout.Identifiers (TypeNote.symbolsOfList notes))
    (isIdentifiers' : layout'.Identifiers (TypeNote.symbolsOfList notes'))
    {close : Char}
    (closes : close = '>' ∨ close = ')')
    {rest rest' : List Char}
    (same : (commas (layout.typeNotes notes)).toList ++ close :: rest =
      (commas (layout'.typeNotes notes')).toList ++ close :: rest') :
    furtherChars (layout.typeNotes notes) ++ close :: rest =
      furtherChars (layout'.typeNotes notes') ++ close :: rest' := by
  have opens {layout : Layout} {notes : List TypeNote} (after : List Char)
      (isIdentifiers : layout.Identifiers (TypeNote.symbolsOfList notes)) :
      ∀ text ∈ layout.typeNotes notes, ∃ c ∈ text.toList.head?, c ∉ (close :: after).head? := by
    induction notes with
    | nil => exact fun _ member => absurd member List.not_mem_nil
    | cons note others inductionHypothesis =>
        refine List.forall_mem_cons.mpr ⟨?_, inductionHypothesis isIdentifiers.right⟩
        obtain ⟨c, isHead, notArrow, notParen⟩ := exists_head_noteChars note isIdentifiers.left
        refine ⟨c, isHead, ?_⟩
        rintro ⟨⟩
        exact closes.elim notArrow notParen
  exact furtherChars_eq_of_commas_eq (opens rest' isIdentifiers) (opens rest isIdentifiers') same

/-- Notes without outer marks that begin one text agree in their first word, in what follows
and in their shape. -/
theorem parts_eq_of_chars
    {note note' : TypeNote}
    (isIdentifiers : layout.Identifiers note.symbols)
    (isIdentifiers' : layout'.Identifiers note'.symbols)
    (isUnmarked : note.isOptional = false)
    (isUnmarked' : note'.isOptional = false)
    {marks marks' : Nat}
    {rest rest' : List Char}
    (ends : EndsNote rest)
    (ends' : EndsNote rest')
    (same : layout.noteChars note ++ (List.replicate marks '?' ++ rest) =
      layout'.noteChars note' ++ (List.replicate marks' '?' ++ rest')) :
    layout.firstWord note = layout'.firstWord note' ∧
      layout.afterWord note ++ (List.replicate marks '?' ++ rest) =
        layout'.afterWord note' ++ (List.replicate marks' '?' ++ rest') ∧
      note.hasShapeOf note' := by
  rw [noteChars_eq note, noteChars_eq note', List.append_assoc, List.append_assoc] at same
  obtain ⟨words, after⟩ := eq_of_append_eq (isSegmentChar_of_mem_firstWord isIdentifiers)
    (isSegmentChar_of_mem_firstWord isIdentifiers')
    (not_isSegmentChar_of_mem_afterWord isUnmarked ends marks)
    (not_isSegmentChar_of_mem_afterWord isUnmarked' ends' marks') same
  refine ⟨words, after, ?_⟩
  -- a name is no other first word, and what follows a first word begins differently
  cases note with
  | named name span =>
      have isName := toList_name_ne isIdentifiers List.mem_cons_self
      cases note' with
      | named => rfl
      | generic => exact absurd rfl (head_marks ends marks '<' (congrArg List.head? after)).2
      | inferred => exact absurd words isName.2
      | array | function => exact absurd words isName.1
      | optional => cases isUnmarked'
  | generic name args span =>
      have isName := toList_name_ne isIdentifiers List.mem_cons_self
      cases note' with
      | generic => rfl
      | named => exact absurd rfl (head_marks ends' marks' '<' (congrArg List.head? after.symm)).2
      | inferred => exact absurd words isName.2
      | array | function => exact absurd words isName.1
      | optional => cases isUnmarked'
  | inferred span =>
      cases note' with
      | inferred => rfl
      | named | generic =>
          exact absurd words.symm (toList_name_ne isIdentifiers' List.mem_cons_self).2
      | array | function => cases words
      | optional => cases isUnmarked'
  | array | function =>
      cases note' with
      | named | generic =>
          exact absurd words.symm (toList_name_ne isIdentifiers' List.mem_cons_self).1
      | inferred => cases words
      | array | function => first | rfl | exact absurd (List.cons.inj after).1 (by decide)
      | optional => cases isUnmarked'
  | optional => cases isUnmarked

/-! ### Texts determine notes -/

mutual

/-- A text that begins with a note and marks determines the note with the marks on function
types moved to the results, and what follows. -/
theorem inward_eq_of_chars
    (note : TypeNote)
    (isIdentifiers : layout.Identifiers note.symbols)
    {note' : TypeNote}
    (isIdentifiers' : layout'.Identifiers note'.symbols)
    (marks : Nat)
    {marks' : Nat}
    {rest rest' : List Char}
    (ends : EndsNote rest)
    (ends' : EndsNote rest')
    (same : layout.noteChars note ++ (List.replicate marks '?' ++ rest) =
      layout'.noteChars note' ++ (List.replicate marks' '?' ++ rest')) :
    (note.inward marks).outline layout.name = (note'.inward marks').outline layout'.name ∧
      rest = rest' := by
  -- the second note is taken without its outer marks; the first one loses them one by one
  obtain ⟨core, more, isUnmarked', symbols, inward, chars⟩ := exists_unmarked layout' note' marks'
  rw [← symbols] at isIdentifiers'
  rw [← List.append_assoc (layout'.noteChars note'), ← chars, List.append_assoc] at same
  rw [← inward]
  have parts (isUnmarked : note.isOptional = false) :=
    parts_eq_of_chars isIdentifiers isIdentifiers' isUnmarked isUnmarked' ends ends' same
  cases note with
  | optional inner span =>
      refine inward_eq_of_chars inner isIdentifiers isIdentifiers' (marks + 1) ends ends' ?_
      rw [← same, noteChars_eq (.optional inner span), List.replicate_succ]
      simp [firstWord, afterWord]
  | named name span =>
      obtain ⟨words, after, shape⟩ := parts rfl
      cases core with
      | named name' span' =>
          obtain ⟨rfl, sameRest⟩ := marks_eq_of_chars ends ends' after
          have sameName : layout.name name = layout'.name name' := String.toList_injective words
          refine ⟨TypeNote.outline_marked_eq ?_ marks, sameRest⟩
          rw [TypeNote.outline, TypeNote.outline, sameName]
      | _ => cases shape
  | generic name args span =>
      obtain ⟨words, after, shape⟩ := parts rfl
      cases core with
      | generic name' args' span' =>
          have ofArgs : layout.Identifiers (TypeNote.symbolsOfList args) := isIdentifiers.tail
          have ofArgs' : layout'.Identifiers (TypeNote.symbolsOfList args') := isIdentifiers'.tail
          obtain ⟨sameArgs, sameMarks⟩ := inwardOfList_eq_of_chars args ofArgs ofArgs' (.inl rfl)
            (furtherChars_typeNotes_eq ofArgs ofArgs' (.inl rfl) (by simpa [afterWord] using after))
          obtain ⟨rfl, sameRest⟩ := marks_eq_of_chars ends ends' sameMarks
          have sameName : layout.name name = layout'.name name' := String.toList_injective words
          refine ⟨TypeNote.outline_marked_eq ?_ marks, sameRest⟩
          rw [TypeNote.outline, TypeNote.outline, sameName, sameArgs]
      | _ => cases shape
  | inferred span =>
      obtain ⟨-, after, shape⟩ := parts rfl
      cases core with
      | inferred span' =>
          obtain ⟨rfl, sameRest⟩ := marks_eq_of_chars ends ends' after
          refine ⟨TypeNote.outline_marked_eq ?_ marks, sameRest⟩
          rw [TypeNote.outline, TypeNote.outline]
      | _ => cases shape
  | array element span =>
      obtain ⟨-, after, shape⟩ := parts rfl
      cases core with
      | array element' span' =>
          have inside : layout.noteChars element ++
                (List.replicate 0 '?' ++ ']' :: (List.replicate marks '?' ++ rest)) =
              layout'.noteChars element' ++
                (List.replicate 0 '?' ++ ']' :: (List.replicate more '?' ++ rest')) := by
            simpa [afterWord] using after
          have closes : ∀ after, EndsNote (']' :: after) := endsNote_cons (by decide)
          have inElement' : layout'.Identifiers element'.symbols := isIdentifiers'
          obtain ⟨sameElement, sameMarks⟩ := inward_eq_of_chars element isIdentifiers inElement' 0
            (closes _) (closes _) inside
          obtain ⟨rfl, sameRest⟩ := marks_eq_of_chars ends ends' (List.cons.inj sameMarks).2
          refine ⟨TypeNote.outline_marked_eq ?_ marks, sameRest⟩
          rw [TypeNote.outline, TypeNote.outline, sameElement]
      | _ => cases shape
  | function params result span =>
      obtain ⟨-, after, shape⟩ := parts rfl
      cases core with
      | function params' result' span' =>
          have ofParams : layout.Identifiers (TypeNote.symbolsOfList params) := isIdentifiers.left
          have ofParams' : layout'.Identifiers (TypeNote.symbolsOfList params') :=
            isIdentifiers'.left
          obtain ⟨sameParams, afterParams⟩ := inwardOfList_eq_of_chars params ofParams ofParams'
            (.inr rfl)
            (furtherChars_typeNotes_eq ofParams ofParams' (.inr rfl)
              (by simpa [afterWord] using after))
          obtain ⟨sameResult, sameRest⟩ := inward_eq_of_chars result isIdentifiers.right
            isIdentifiers'.right marks ends ends' (by simpa using afterParams)
          rw [TypeNote.inward, TypeNote.inward, TypeNote.outline, TypeNote.outline, sameParams,
            sameResult]
          exact ⟨rfl, sameRest⟩
      | _ => cases shape

/-- A text that begins with further notes and the closing of their list determines them. -/
theorem inwardOfList_eq_of_chars
    (notes : List TypeNote)
    (isIdentifiers : layout.Identifiers (TypeNote.symbolsOfList notes))
    {notes' : List TypeNote}
    (isIdentifiers' : layout'.Identifiers (TypeNote.symbolsOfList notes'))
    {close : Char}
    (closes : close = '>' ∨ close = ')')
    {rest rest' : List Char}
    (same : furtherChars (layout.typeNotes notes) ++ close :: rest =
      furtherChars (layout'.typeNotes notes') ++ close :: rest') :
    TypeNote.outlineOfList layout.name (TypeNote.inwardOfList notes) =
        TypeNote.outlineOfList layout'.name (TypeNote.inwardOfList notes') ∧
      rest = rest' := by
  cases notes with
  | nil =>
      cases notes' with
      | nil => exact ⟨rfl, (List.cons.inj same).2⟩
      | cons note' others' =>
          obtain rfl : close = ',' := (List.cons.inj same).1
          exact absurd closes (by decide)
  | cons note others =>
      cases notes' with
      | nil =>
          obtain rfl : close = ',' := (List.cons.inj same).1.symm
          exact absurd closes (by decide)
      | cons note' others' =>
          have first : layout.noteChars note ++ (List.replicate 0 '?' ++
                (furtherChars (layout.typeNotes others) ++ close :: rest)) =
              layout'.noteChars note' ++ (List.replicate 0 '?' ++
                (furtherChars (layout'.typeNotes others') ++ close :: rest')) := by
            simpa [furtherChars, typeNotes, noteChars] using same
          have ends : ∀ after, EndsNote (close :: after) :=
            endsNote_cons (by rcases closes with rfl | rfl <;> decide)
          obtain ⟨sameNote, sameOthers⟩ := inward_eq_of_chars note isIdentifiers.left
            isIdentifiers'.left 0 (endsNote_furtherChars _ (ends _))
            (endsNote_furtherChars _ (ends _)) first
          obtain ⟨sameList, sameRest⟩ := inwardOfList_eq_of_chars others isIdentifiers.right
            isIdentifiers'.right closes sameOthers
          rw [TypeNote.inwardOfList, TypeNote.inwardOfList, TypeNote.outlineOfList,
            TypeNote.outlineOfList, sameNote, sameList]
          exact ⟨rfl, sameRest⟩

end

/-! ### Notes determine texts -/

theorem noteChars_marked (marks : Nat) (note : TypeNote) :
    layout.noteChars (note.marked marks) = layout.noteChars note ++ List.replicate marks '?' := by
  induction marks with
  | zero => exact (List.append_nil _).symm
  | succ marks inductionHypothesis =>
      rw [TypeNote.marked, noteChars_eq, firstWord, afterWord, inductionHypothesis,
        List.replicate_succ']
      simp

mutual

/-- Moving marks on function types to the results does not change the text. -/
theorem noteChars_inward (note : TypeNote) (marks : Nat) :
    layout.noteChars (note.inward marks) = layout.noteChars note ++ List.replicate marks '?' := by
  cases note with
  | named | inferred => rw [TypeNote.inward, noteChars_marked]
  | generic name args span =>
      rw [TypeNote.inward, noteChars_marked, noteChars_eq, noteChars_eq (.generic name args span),
        firstWord, afterWord, typeNotes_inward args, firstWord, afterWord]
  | array element span =>
      rw [TypeNote.inward, noteChars_marked, noteChars_eq, noteChars_eq (.array element span),
        firstWord, afterWord, noteChars_inward element 0, firstWord, afterWord]
      simp
  | function params result span =>
      rw [TypeNote.inward, noteChars_eq, noteChars_eq (.function params result span),
        firstWord, afterWord, typeNotes_inward params, noteChars_inward result marks, firstWord,
        afterWord]
      simp
  | optional inner span =>
      rw [TypeNote.inward, noteChars_inward inner (marks + 1),
        noteChars_eq (.optional inner span), firstWord, afterWord, List.replicate_succ]
      simp

theorem typeNotes_inward (notes : List TypeNote) :
    layout.typeNotes (TypeNote.inwardOfList notes) = layout.typeNotes notes := by
  cases notes with
  | nil => rfl
  | cons note rest =>
      have sameChars := noteChars_inward note 0
      rw [List.replicate_zero, List.append_nil] at sameChars
      rw [TypeNote.inwardOfList, typeNotes, typeNotes, String.toList_injective sameChars,
        typeNotes_inward rest]

end

theorem typeNote_inward (note : TypeNote) :
    layout.typeNote (note.inward 0) = layout.typeNote note := by
  have sameChars : layout.noteChars (note.inward 0) = layout.noteChars note ++ [] :=
    noteChars_inward note 0
  rw [List.append_nil] at sameChars
  exact String.toList_injective sameChars

/-- Two notes have one text if they are the same once the marks on function types are moved
to the results, and only then. -/
theorem typeNote_eq_iff
    (sameStep : layout'.step = layout.step)
    {note note' : TypeNote}
    (isIdentifiers : layout.Identifiers note.symbols)
    (isIdentifiers' : layout'.Identifiers note'.symbols) :
    layout.typeNote note = layout'.typeNote note' ↔
      (note.inward 0).outline layout.name = (note'.inward 0).outline layout'.name := by
  have ends : EndsNote [] := fun c isHead => absurd isHead (Option.not_mem_none c)
  constructor
  · intro same
    refine (inward_eq_of_chars note isIdentifiers isIdentifiers' 0 ends ends ?_).1
    rw [noteChars, noteChars, same]
  · intro same
    rw [← typeNote_inward note, ← typeNote_inward note', ← typeNote_outline layout,
      ← typeNote_outline layout', same, ofOutlines_eq sameStep]

/-! ### Parameters -/

theorem toList_param (param : Param) :
    (layout.param param).toList =
      (layout.name param.name).toList ++ ':' :: ' ' :: layout.noteChars param.note := by
  simp [Layout.param, noteChars]

/-- A text that begins with a parameter determines its name and its note. -/
theorem param_eq_of_chars
    {param param' : Param}
    (isIdentifiers : layout.Identifiers param.symbols)
    (isIdentifiers' : layout'.Identifiers param'.symbols)
    {rest rest' : List Char}
    (ends : EndsNote rest)
    (ends' : EndsNote rest')
    (same : (layout.param param).toList ++ rest = (layout'.param param').toList ++ rest') :
    layout.name param.name = layout'.name param'.name ∧
      (param.note.inward 0).outline layout.name = (param'.note.inward 0).outline layout'.name ∧
      rest = rest' := by
  have areChars := (Path.isSegment_iff.mp (isIdentifiers _ List.mem_cons_self).1).2
  have areChars' := (Path.isSegment_iff.mp (isIdentifiers' _ List.mem_cons_self).1).2
  have endsName : ∀ after : List Char, ∀ c ∈ (':' :: after).head?, ¬ Path.isSegmentChar c := by
    rintro after c ⟨⟩
    decide
  rw [toList_param, toList_param, List.append_assoc, List.append_assoc] at same
  obtain ⟨sameName, sameNote⟩ :=
    eq_of_append_eq areChars areChars' (endsName _) (endsName _) same
  have inNote : layout.noteChars param.note ++ (List.replicate 0 '?' ++ rest) =
      layout'.noteChars param'.note ++ (List.replicate 0 '?' ++ rest') := by
    simpa using sameNote
  obtain ⟨sameNotes, sameRest⟩ := inward_eq_of_chars param.note isIdentifiers.tail
    isIdentifiers'.tail 0 ends ends' inNote
  exact ⟨String.toList_injective sameName, sameNotes, sameRest⟩

/-- What the text of a parameter tells: its name, and its note with the marks on function
types moved to the results. -/
def shownParam (layout : Layout) (param : Param) : String × TypeNote :=
  (layout.name param.name, (param.note.inward 0).outline layout.name)

theorem shownParams_eq_of_furtherChars
    {params params' : List Param}
    (isIdentifiers : layout.Identifiers (params.flatMap Param.symbols))
    (isIdentifiers' : layout'.Identifiers (params'.flatMap Param.symbols))
    (same : furtherChars (params.map layout.param) = furtherChars (params'.map layout'.param)) :
    params.map layout.shownParam = params'.map layout'.shownParam := by
  have ends (texts : List String) : EndsNote (furtherChars texts) := by
    rw [← List.append_nil (furtherChars texts)]
    exact endsNote_furtherChars texts fun c isHead => absurd isHead (Option.not_mem_none c)
  induction params generalizing params' with
  | nil =>
      cases params' with
      | nil => rfl
      | cons param' others' => cases same
  | cons param others inductionHypothesis =>
      cases params' with
      | nil => cases same
      | cons param' others' =>
          have first : (layout.param param).toList ++ furtherChars (others.map layout.param) =
              (layout'.param param').toList ++ furtherChars (others'.map layout'.param) := by
            simpa [furtherChars] using same
          obtain ⟨sameName, sameNote, sameOthers⟩ := param_eq_of_chars isIdentifiers.left
            isIdentifiers'.left (ends _) (ends _) first
          have sameRest := inductionHypothesis isIdentifiers.right isIdentifiers'.right sameOthers
          rw [List.map_cons, List.map_cons, sameRest, shownParam, shownParam, sameName, sameNote]

/-- Two lists of parameters have one text if the names are the same and each note has one
text, and only then. -/
theorem params_eq_iff
    (sameStep : layout'.step = layout.step)
    {params params' : List Param}
    (isIdentifiers : layout.Identifiers (params.flatMap Param.symbols))
    (isIdentifiers' : layout'.Identifiers (params'.flatMap Param.symbols)) :
    commas (params.map layout.param) = commas (params'.map layout'.param) ↔
      params.map layout.shownParam = params'.map layout'.shownParam := by
  have opens (layout : Layout) (params : List Param) :
      ∀ text ∈ params.map layout.param, ∃ c ∈ text.toList.head?, c ∉ ([] : List Char).head? := by
    intro text member
    obtain ⟨param, -, rfl⟩ := List.mem_map.mp member
    have nonempty : (layout.param param).toList ≠ [] := by
      rw [toList_param]
      exact List.append_ne_nil_of_right_ne_nil _ (List.cons_ne_nil _ _)
    exact ⟨_, List.head?_eq_some_head nonempty, Option.not_mem_none _⟩
  have text_eq (layout : Layout) (params : List Param) :
      params.map layout.param = (params.map layout.shownParam).map fun shown =>
        shown.1 ++ ": " ++ layout.ofOutlines.typeNote shown.2 := by
    rw [List.map_map]
    refine List.map_congr_left fun param _ => ?_
    rw [Function.comp_apply, shownParam, typeNote_outline, typeNote_inward, Layout.param]
  constructor
  · intro same
    have sameChars := furtherChars_eq_of_commas_eq (opens layout params) (opens layout' params')
      (by rw [same])
    rw [List.append_nil, List.append_nil] at sameChars
    exact shownParams_eq_of_furtherChars isIdentifiers isIdentifiers' sameChars
  · intro same
    rw [text_eq, text_eq layout', same, ofOutlines_eq sameStep]

end Layout

/-! ### Nil -/

namespace TypeNote

theorem name?_of_identifiers
    {table : SymbolTable}
    {symbols : List Symbol}
    (isIdentifiers : (Layout.ofTable table).Identifiers symbols)
    {symbol : Symbol}
    (member : symbol ∈ symbols) :
    table.name? symbol = some (table.display symbol) := by
  have isSegment : Path.isSegment (table.display symbol).toList := (isIdentifiers symbol member).1
  unfold SymbolTable.display at isSegment ⊢
  cases found : table.name? symbol with
  | none =>
      rw [found] at isSegment
      exact absurd isSegment (by decide)
  | some text => rfl

/-- Notes with one outline say the same about nil. -/
theorem nullability_eq_of_outline_eq
    {table table' : SymbolTable}
    {note note' : TypeNote}
    (isIdentifiers : (Layout.ofTable table).Identifiers note.symbols)
    (isIdentifiers' : (Layout.ofTable table').Identifiers note'.symbols)
    (same : note.outline table.display = note'.outline table'.display) :
    note.nullability table = note'.nullability table' := by
  cases note <;> cases note' <;> first | rfl | cases same | skip
  case generic.generic name args span name' args' span' =>
    have sameName : table.display name = table'.display name' :=
      Symbol.ofText_injective (TypeNote.generic.inj same).1
    rw [nullability, nullability, name?_of_identifiers isIdentifiers List.mem_cons_self,
      name?_of_identifiers isIdentifiers' List.mem_cons_self, sameName]

/-- Notes that are the same once marks on function types are moved to the results say the
same about nil, unless they are optional function types themselves. -/
theorem nullability_eq_of_inward_eq
    {table table' : SymbolTable}
    {note note' : TypeNote}
    (isIdentifiers : (Layout.ofTable table).Identifiers note.symbols)
    (isIdentifiers' : (Layout.ofTable table').Identifiers note'.symbols)
    (noFunction : note.isOptionalFunction = false)
    (noFunction' : note'.isOptionalFunction = false)
    (same : (note.inward 0).outline table.display = (note'.inward 0).outline table'.display) :
    note.nullability table = note'.nullability table' := by
  rw [← nullability_inward noFunction, ← nullability_inward noFunction']
  rw [← symbols_inward note 0] at isIdentifiers
  rw [← symbols_inward note' 0] at isIdentifiers'
  exact nullability_eq_of_outline_eq isIdentifiers isIdentifiers' same

end TypeNote

/-- The text of parameters tells which of them admit nil, optional function types aside. -/
theorem nullabilities_eq_of_shownParams_eq
    {table table' : SymbolTable}
    {params params' : List Param}
    (isIdentifiers : (Layout.ofTable table).Identifiers (params.flatMap Param.symbols))
    (isIdentifiers' : (Layout.ofTable table').Identifiers (params'.flatMap Param.symbols))
    (noFunction : ∀ param ∈ params, param.note.isOptionalFunction = false)
    (noFunction' : ∀ param ∈ params', param.note.isOptionalFunction = false)
    (same : params.map (Layout.ofTable table).shownParam =
      params'.map (Layout.ofTable table').shownParam) :
    params.map (fun param => param.note.nullability table) =
      params'.map fun param => param.note.nullability table' := by
  induction params generalizing params' with
  | nil =>
      obtain rfl := List.map_eq_nil_iff.mp same.symm
      rfl
  | cons param others inductionHypothesis =>
      cases params' with
      | nil => cases same
      | cons param' others' =>
          obtain ⟨sameShown, sameOthers⟩ := List.cons.inj same
          have first := TypeNote.nullability_eq_of_inward_eq isIdentifiers.left.tail
            isIdentifiers'.left.tail (noFunction param List.mem_cons_self)
            (noFunction' param' List.mem_cons_self)
            (Prod.mk.inj sameShown).2
          have rest := inductionHypothesis isIdentifiers.right isIdentifiers'.right
            (fun other member => noFunction other (List.mem_cons_of_mem _ member))
            (fun other member => noFunction' other (List.mem_cons_of_mem _ member)) sameOthers
          rw [List.map_cons, List.map_cons, first, rest]

/-! ### The result -/

/-- If all names are identifiers, two type notes have one text exactly if they are the same
once the marks on function types are moved to the results; so without optional function
types only notes that are the same have one text. One text then tells one nullability,
unless one of the notes is an optional function type itself. The text of parameters tells
their names and as much of their notes, so it tells which of them admit nil, optional
function types aside. Symbols may be numbered in different tables. -/
theorem type_text_exact
    (table table' : SymbolTable) :
    (∀ note note' : TypeNote,
      (Layout.ofTable table).Identifiers note.symbols →
      (Layout.ofTable table').Identifiers note'.symbols →
      ((Layout.ofTable table).typeNote note = (Layout.ofTable table').typeNote note' ↔
        (note.inward 0).outline table.display = (note'.inward 0).outline table'.display) ∧
      (note.hasOptionalFunction = false → note'.hasOptionalFunction = false →
        ((Layout.ofTable table).typeNote note = (Layout.ofTable table').typeNote note' ↔
          note.outline table.display = note'.outline table'.display)) ∧
      (note.isOptionalFunction = false → note'.isOptionalFunction = false →
        (Layout.ofTable table).typeNote note = (Layout.ofTable table').typeNote note' →
        note.nullability table = note'.nullability table')) ∧
    ∀ params params' : List Param,
      (Layout.ofTable table).Identifiers (params.flatMap Param.symbols) →
      (Layout.ofTable table').Identifiers (params'.flatMap Param.symbols) →
      (Layout.commas (params.map (Layout.ofTable table).param) =
          Layout.commas (params'.map (Layout.ofTable table').param) ↔
        params.map (Layout.ofTable table).shownParam =
          params'.map (Layout.ofTable table').shownParam) ∧
      ((∀ param ∈ params, param.note.isOptionalFunction = false) →
        (∀ param ∈ params', param.note.isOptionalFunction = false) →
        Layout.commas (params.map (Layout.ofTable table).param) =
          Layout.commas (params'.map (Layout.ofTable table').param) →
        params.map (fun param => param.note.nullability table) =
          params'.map fun param => param.note.nullability table') := by
  have sameStep : (Layout.ofTable table').step = (Layout.ofTable table).step := rfl
  refine ⟨fun note note' isIdentifiers isIdentifiers' => ?_,
    fun params params' isIdentifiers isIdentifiers' => ?_⟩
  · have sameText := Layout.typeNote_eq_iff sameStep isIdentifiers isIdentifiers'
    refine ⟨sameText, fun plain plain' => ?_, fun noFunction noFunction' same => ?_⟩
    · rw [sameText, TypeNote.outline_inward plain 0 (.inl rfl),
        TypeNote.outline_inward plain' 0 (.inl rfl)]
      rfl
    · exact TypeNote.nullability_eq_of_inward_eq isIdentifiers isIdentifiers' noFunction
        noFunction' (sameText.mp same)
  · have sameText := Layout.params_eq_iff sameStep isIdentifiers isIdentifiers'
    refine ⟨sameText, fun noFunction noFunction' same => ?_⟩
    exact nullabilities_eq_of_shownParams_eq isIdentifiers isIdentifiers' noFunction noFunction'
      (sameText.mp same)

/-- An optional function type and a function type with an optional result, in one table:
one text, but only the first admits nil. -/
theorem optional_function_type_shown_as_optional_result :
    let table := (SymbolTable.empty.internAll ["A", "B"]).2
    let note : TypeNote :=
      .optional (.function [.named ⟨0⟩ default] (.named ⟨1⟩ default) default) default
    let note' : TypeNote :=
      .function [.named ⟨0⟩ default] (.optional (.named ⟨1⟩ default) default) default
    (Layout.ofTable table).Identifiers note.symbols ∧
      (Layout.ofTable table).Identifiers note'.symbols ∧
      (Layout.ofTable table).typeNote note = (Layout.ofTable table).typeNote note' ∧
      note.outline table.display ≠ note'.outline table.display ∧
      note.nullability table = .nullable ∧ note'.nullability table = .nonNullable := by
  refine ⟨by decide, by decide, rfl, nofun, rfl, rfl⟩

/-- Arrays of optional names under a nullable wrapper, with two tables. -/
theorem type_text_exact_of_wrapped_array :
    let table := (SymbolTable.empty.internAll ["Null", "Int"]).2
    let table' := (SymbolTable.empty.internAll ["Int", "Null"]).2
    let note : TypeNote :=
      .generic ⟨0⟩ [.array (.optional (.named ⟨1⟩ default) default) default] default
    let note' : TypeNote :=
      .generic ⟨1⟩ [.array (.optional (.named ⟨0⟩ default) default) default] default
    (Layout.ofTable table).typeNote note = "Null<[Int?]>" ∧
      (Layout.ofTable table').typeNote note' = "Null<[Int?]>" ∧
      note.outline table.display = note'.outline table'.display ∧
      note.nullability table = note'.nullability table' ∧
      [⟨⟨1⟩, note, default⟩].map (Layout.ofTable table).shownParam =
        [⟨⟨0⟩, note', default⟩].map (Layout.ofTable table').shownParam ∧
      [Param.mk ⟨1⟩ note default].map (fun param => param.note.nullability table) =
        [Param.mk ⟨0⟩ note' default].map fun param => param.note.nullability table' := by
  intro table table' note note'
  obtain ⟨notes, params⟩ := type_text_exact table table'
  obtain ⟨-, plain, nil⟩ := notes note note' (by decide) (by decide)
  obtain ⟨shown, nils⟩ :=
    params [⟨⟨1⟩, note, default⟩] [⟨⟨0⟩, note', default⟩] (by decide) (by decide)
  exact ⟨rfl, rfl, (plain rfl rfl).mp rfl, nil rfl rfl rfl, shown.mp rfl,
    nils (by decide) (by decide) rfl⟩

end NilSafety
