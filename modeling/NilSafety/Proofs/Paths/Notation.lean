import NilSafety.Path
import NilSafety.Proofs.Text.Reading

/-!
Contract: what the dotted notation says.

Owns:
- paths that the notation can write, those whose segments reading accepts;
- the closed form of reading: a text is read as the path whose notation it is, blanks
  on its ends apart, and refused if there is none;
- the texts that are notations, said without paths, and that reading and writing are
  inverse to each other on them.

Does not own: what paths are good for.
-/

namespace NilSafety.Path

/-! ### Well-formed paths -/

/-- Every segment is one that reading accepts. -/
def IsWellFormed (path : Path) : Prop :=
  ∀ segment ∈ path.segments, isSegment segment.toList

instance (path : Path) : Decidable path.IsWellFormed :=
  inferInstanceAs (Decidable (∀ segment ∈ path.segments, isSegment segment.toList))

theorem isSegment_iff {chars : List Char} :
    isSegment chars ↔ chars ≠ [] ∧ ∀ c ∈ chars, isSegmentChar c := by
  simp [isSegment]

theorem isBlank_of_isSegmentChar {c : Char} (inSegment : isSegmentChar c) :
    Text.isBlank c = false := by
  cases blank : Text.isBlank c with
  | false => rfl
  | true =>
      rw [isSegmentChar, Text.isAlphanumeric_of_isBlank blank, Bool.false_or,
        beq_iff_eq] at inSegment
      rw [inSegment] at blank
      exact absurd blank (by decide)

theorem toList_text (path : Path) :
    path.text.toList = ['.'].intercalate (path.segments.map String.toList) :=
  String.toList_intercalate

section

variable {path : Path} (wellFormed : path.IsWellFormed)

include wellFormed

/-- The notation of a path holds only characters of segments, and dots. -/
theorem isSegmentChar_of_mem_text {c : Char} (inText : c ∈ path.text.toList) :
    isSegmentChar c ∨ c = '.' := by
  rw [toList_text] at inText
  rcases Text.mem_of_mem_intercalate inText with isDot | ⟨chars, isText, inChars⟩
  · exact .inr isDot
  · obtain ⟨segment, inPath, rfl⟩ := List.mem_map.mp isText
    exact .inl ((isSegment_iff.mp (wellFormed segment inPath)).2 c inChars)

theorem isBlank_of_mem_text {c : Char} (inText : c ∈ path.text.toList) :
    Text.isBlank c = false := by
  rcases isSegmentChar_of_mem_text wellFormed inText with inSegment | rfl
  · exact isBlank_of_isSegmentChar inSegment
  · decide

/-- Cut at its dots, the notation of a path gives its segments back. -/
theorem pieces_text (notRoot : path ≠ root) :
    Text.pieces '.' path.text.toList = path.segments.map String.toList := by
  rw [toList_text]
  apply Text.pieces_intercalate
  · intro chars isText hasDot
    obtain ⟨segment, inPath, rfl⟩ := List.mem_map.mp isText
    have isChar := (isSegment_iff.mp (wellFormed segment inPath)).2 '.' hasDot
    exact absurd isChar (by decide)
  · intro noSegments
    exact notRoot (congrArg Path.mk (List.map_eq_nil_iff.mp noSegments))

/-- Only the root has an empty notation. -/
theorem toList_text_eq_nil_iff : path.text.toList = [] ↔ path = root := by
  constructor
  · intro isEmpty
    by_contra notRoot
    have pieces := pieces_text wellFormed notRoot
    rw [isEmpty] at pieces
    obtain ⟨segment, inPath, same⟩ :=
      List.mem_map.mp (pieces ▸ List.mem_cons_self : [] ∈ path.segments.map String.toList)
    exact (isSegment_iff.mp (wellFormed segment inPath)).1 same
  · rintro rfl
    rfl

end

/-! ### Reading -/

/-- A text is read as a path if it is the notation of the path, blanks on its ends apart. -/
theorem parse_eq_ok_iff {input : String} {path : Path} :
    parse input = .ok path ↔
      path.IsWellFormed ∧ Text.trimChars input.toList = path.text.toList := by
  unfold parse
  dsimp only
  by_cases isEmpty : Text.trimChars input.toList = []
  · rw [isEmpty, if_pos List.isEmpty_nil]
    constructor
    · intro read
      cases read
      exact ⟨by decide, rfl⟩
    · rintro ⟨wellFormed, isText⟩
      rw [(toList_text_eq_nil_iff wellFormed).mp isText.symm]
  · rw [if_neg (List.isEmpty_iff.not.mpr isEmpty)]
    generalize Text.trimChars input.toList = chars at isEmpty ⊢
    constructor
    · intro read
      split at read
      next valid =>
        cases read
        have same : ((Text.pieces '.' chars).map String.ofList).map String.toList =
            Text.pieces '.' chars := by
          simp [Function.comp_def]
        refine ⟨?_, ?_⟩
        · intro segment inPath
          obtain ⟨piece, isPiece, rfl⟩ := List.mem_map.mp inPath
          rw [String.toList_ofList]
          exact List.all_eq_true.mp valid piece isPiece
        · rw [toList_text, same, Text.intercalate_pieces]
      next => cases read
    · rintro ⟨wellFormed, rfl⟩
      have notRoot : path ≠ root := fun isRoot =>
        isEmpty ((toList_text_eq_nil_iff wellFormed).mpr isRoot)
      have valid : (path.segments.map String.toList).all isSegment := by
        simpa [IsWellFormed] using wellFormed
      rw [pieces_text wellFormed notRoot, if_pos valid]
      simp [Function.comp_def]

/-- What cannot be read is quoted as it was given. -/
theorem parse_eq_error_iff {input : String} {problem : Malformed} :
    parse input = .error problem ↔
      problem = ⟨input⟩ ∧
        ∀ path : Path, path.IsWellFormed → Text.trimChars input.toList ≠ path.text.toList := by
  have refused : ∀ problem, parse input = .error problem → problem = ⟨input⟩ := by
    intro problem fails
    unfold parse at fails
    dsimp only at fails
    split at fails
    next => cases fails
    next =>
      split at fails
      next => cases fails
      next => exact (Except.error.inj fails).symm
  cases read : parse input with
  | ok path =>
      obtain ⟨wellFormed, isText⟩ := parse_eq_ok_iff.mp read
      exact iff_of_false nofun fun absent => absent.2 path wellFormed isText
  | error other =>
      rw [refused other read, Except.error.injEq, eq_comm]
      refine (and_iff_left ?_).symm
      intro path wellFormed isText
      cases read.symm.trans (parse_eq_ok_iff.mpr ⟨wellFormed, isText⟩)

theorem parse_text {path : Path} (wellFormed : path.IsWellFormed) : parse path.text = .ok path := by
  refine parse_eq_ok_iff.mpr ⟨wellFormed, Text.trimChars_of_isTrimmed ?_⟩
  exact Text.isTrimmed_of_forall fun c inText => isBlank_of_mem_text wellFormed inText

/-! ### The texts that are notations -/

/-- A text that denotes a path: nothing, or letters, numbers and underscores with single
dots between. -/
def IsNotation (chars : List Char) : Prop :=
  chars = [] ∨
    ∀ piece ∈ chars.splitOn '.',
      piece ≠ [] ∧ ∀ c ∈ piece, Text.isAlphanumeric c ∨ c = '_'

theorem isSegment_iff_word {chars : List Char} :
    isSegment chars ↔ chars ≠ [] ∧ ∀ c ∈ chars, Text.isAlphanumeric c ∨ c = '_' := by
  simp [isSegment_iff, isSegmentChar]

instance (chars : List Char) : Decidable (IsNotation chars) :=
  decidable_of_iff (chars = [] ∨ ∀ piece ∈ chars.splitOn '.', isSegment piece)
    (by simp only [IsNotation, isSegment_iff_word])

/-- A text denotes a path if it is written for one. -/
theorem isNotation_iff {chars : List Char} :
    IsNotation chars ↔ ∃ path : Path, path.IsWellFormed ∧ chars = path.text.toList := by
  constructor
  · rintro (rfl | areSegments)
    · exact ⟨root, by decide, rfl⟩
    · refine ⟨⟨(chars.splitOn '.').map String.ofList⟩, ?_, ?_⟩
      · intro segment inPath
        obtain ⟨piece, isPiece, rfl⟩ := List.mem_map.mp inPath
        rw [String.toList_ofList]
        exact isSegment_iff_word.mpr (areSegments piece isPiece)
      · have pieces : ((chars.splitOn '.').map String.ofList).map String.toList =
            chars.splitOn '.' := by
          simp [Function.comp_def]
        rw [toList_text, pieces, List.intercalate_splitOn]
  · rintro ⟨path, wellFormed, rfl⟩
    by_cases isRoot : path = root
    · exact .inl ((toList_text_eq_nil_iff wellFormed).mpr isRoot)
    · right
      rw [← Text.pieces_eq_splitOn, pieces_text wellFormed isRoot]
      intro piece isPiece
      obtain ⟨segment, inPath, rfl⟩ := List.mem_map.mp isPiece
      exact isSegment_iff_word.mp (wellFormed segment inPath)

/-- Reading accepts just the notations, with any blanks around, and gives the path that is
written so; what it refuses it quotes with the blanks. Written paths are read as they
were, so that two well-formed paths are never written alike. -/
theorem notation_exact :
    (∀ input, (∃ path, parse input = .ok path) ↔ IsNotation (Text.trim input).toList) ∧
    (∀ input path, parse input = .ok path →
      path.IsWellFormed ∧ path.text = Text.trim input ∧ parse path.text = .ok path) ∧
    (∀ input problem, parse input = .error problem → problem.input = input) ∧
    (∀ path : Path, path.IsWellFormed → parse path.text = .ok path) ∧
    (∀ path other : Path, path.IsWellFormed → other.IsWellFormed → path.text = other.text →
      path = other) := by
  refine ⟨?accepts, ?shows, ?quotes, fun path => parse_text, ?injective⟩
  case accepts =>
    intro input
    simp only [parse_eq_ok_iff, Text.trim, String.toList_ofList, isNotation_iff]
  case shows =>
    intro input path read
    obtain ⟨wellFormed, isText⟩ := parse_eq_ok_iff.mp read
    refine ⟨wellFormed, ?_, parse_text wellFormed⟩
    rw [Text.trim, isText, String.ofList_toList]
  case quotes =>
    intro input problem fails
    rw [(parse_eq_error_iff.mp fails).1]
  case injective =>
    intro path other wellFormed wellFormed' same
    have read := parse_text wellFormed
    rw [same, parse_text wellFormed'] at read
    exact (Except.ok.inj read).symm

theorem notation_exact_of_words :
    (IsNotation (Text.trim " app.été_2\t").toList ∧
      ∃ path, parse " app.été_2\t" = .ok path) ∧
    (parse " app.b" = .ok ⟨["app", "b"]⟩ ∧ text ⟨["app", "b"]⟩ = Text.trim " app.b") ∧
    (parse " app..b" = .error ⟨" app..b"⟩ ∧ (Malformed.mk " app..b").input = " app..b") ∧
    (IsWellFormed ⟨["app", "b"]⟩ ∧ parse (text ⟨["app", "b"]⟩) = .ok ⟨["app", "b"]⟩) ∧
    (text ⟨["app", "b"]⟩ = text (root.child "app" |>.child "b") ∧
      (⟨["app", "b"]⟩ : Path) = (root.child "app" |>.child "b")) := by
  obtain ⟨accepts, shows, quotes, reads, injective⟩ := notation_exact
  have padded : IsNotation (Text.trim " app.été_2\t").toList := by decide
  have read : parse " app.b" = .ok ⟨["app", "b"]⟩ := by decide
  have refused : parse " app..b" = .error ⟨" app..b"⟩ := by decide
  have wellFormed : IsWellFormed ⟨["app", "b"]⟩ := by decide
  exact ⟨⟨padded, (accepts _).mpr padded⟩, ⟨read, (shows _ _ read).2.1⟩,
    ⟨refused, quotes _ _ refused⟩, ⟨wellFormed, reads _ wellFormed⟩,
    ⟨rfl, injective _ _ wellFormed (by decide) rfl⟩⟩

end NilSafety.Path
