import Mathlib.Data.List.DropRight
import NilSafety.Text.CharClass
import NilSafety.Text.Split

/-!
Contract: laws of the ways in which notations are read.

Owns:
- that letters and numbers are no blanks;
- texts without blanks on their ends, which trimming gives and leaves alone;
- the closed forms of the cuts: at the first separator, at every separator, and in
  front of an ending.

Does not own: the notations that are read with them.
-/

namespace NilSafety.Text

/-! ### Character classes -/

theorem exists_of_inRanges
    {code : Nat}
    {ranges : List (Nat × Nat)}
    (inside : inRanges code ranges) :
    ∃ range ∈ ranges, range.1 ≤ code ∧ code ≤ range.2 := by
  induction ranges with
  | nil => cases inside
  | cons range rest inductionHypothesis =>
      obtain ⟨low, high⟩ := range
      unfold inRanges at inside
      by_cases below : code < low
      · rw [if_pos below] at inside
        cases inside
      · by_cases within : code ≤ high
        · exact ⟨_, List.mem_cons_self, Nat.not_lt.mp below, within⟩
        · rw [if_neg below, if_neg within] at inside
          obtain ⟨other, inRest, bounds⟩ := inductionHypothesis inside
          exact ⟨other, List.mem_cons_of_mem _ inRest, bounds⟩

/-- No blank is a letter or a number. -/
theorem isAlphanumeric_of_isBlank {c : Char} (blank : isBlank c) : isAlphanumeric c = false := by
  have apart : ∀ range ∈ blankRanges, ∀ offset < range.2 + 1 - range.1,
      inRanges (range.1 + offset) wordRanges = false := by decide +kernel
  obtain ⟨range, inTable, above, below⟩ := exists_of_inRanges blank
  have outside := apart range inTable (c.toNat - range.1) (by omega)
  rwa [Nat.add_sub_cancel' above] at outside

/-! ### Trimming -/

/-- Neither the first nor the last character is blank. -/
def IsTrimmed (chars : List Char) : Prop :=
  (∀ c ∈ chars.head?, isBlank c = false) ∧ ∀ c ∈ chars.getLast?, isBlank c = false

theorem isTrimmed_of_forall {chars : List Char} (noBlank : ∀ c ∈ chars, isBlank c = false) :
    IsTrimmed chars :=
  ⟨fun c isHead => noBlank c (List.mem_of_mem_head? isHead),
    fun c isLast => noBlank c (List.mem_of_mem_getLast? isLast)⟩

theorem trimChars_eq (chars : List Char) :
    trimChars chars = (chars.dropWhile isBlank).rdropWhile isBlank := rfl

/-- What is left behind the blanks in front does not begin with one. -/
theorem isBlank_head?_dropWhile {chars : List Char} {c : Char}
    (isHead : c ∈ (chars.dropWhile isBlank).head?) :
    isBlank c = false := by
  have stops := List.head?_dropWhile_not isBlank chars
  rwa [Option.mem_def.mp isHead] at stops

theorem isTrimmed_trimChars (chars : List Char) : IsTrimmed (trimChars chars) := by
  rw [trimChars_eq]
  constructor
  · intro c isHead
    obtain ⟨dropped, same⟩ := List.rdropWhile_prefix isBlank (l := chars.dropWhile isBlank)
    apply @isBlank_head?_dropWhile chars c
    rw [← same, List.head?_append, Option.mem_def.mp isHead]
    rfl
  · intro c isLast
    obtain ⟨nonempty, rfl⟩ := List.mem_getLast?_eq_getLast isLast
    exact eq_false_of_ne_true (List.rdropWhile_last_not isBlank _ nonempty)

/-- Trimming leaves a text alone that has no blanks on its ends. -/
theorem trimChars_of_isTrimmed {chars : List Char} (trimmed : IsTrimmed chars) :
    trimChars chars = chars := by
  have begins : chars.dropWhile isBlank = chars := by
    cases chars with
    | nil => rfl
    | cons first rest => exact List.dropWhile_cons_of_neg (by simp [trimmed.1 first rfl])
  rw [trimChars_eq, begins, List.rdropWhile_eq_self_iff]
  intro nonempty
  rw [trimmed.2 _ (List.getLast?_eq_some_getLast nonempty)]
  exact Bool.false_ne_true

theorem isBlank_of_trimChars_eq_nil {chars : List Char} (blank : trimChars chars = []) :
    ∀ c ∈ chars, isBlank c := by
  rw [trimChars_eq, List.rdropWhile_eq_nil_iff] at blank
  apply List.dropWhile_eq_nil_iff.mp
  cases left : chars.dropWhile isBlank with
  | nil => rfl
  | cons c rest =>
      have notBlank : isBlank c = false := @isBlank_head?_dropWhile chars c (by simp [left])
      rw [blank c (by simp [left])] at notBlank
      cases notBlank

/-- Blanks in front of an ending make a text that is not trimmed. -/
theorem eq_nil_of_trimChars_eq_nil
    {stem ending : List Char}
    (trimmed : IsTrimmed (stem ++ ending))
    (blank : trimChars stem = []) :
    stem = [] := by
  cases stem with
  | nil => rfl
  | cons c rest =>
      have isBlank := isBlank_of_trimChars_eq_nil blank c List.mem_cons_self
      rw [trimmed.1 c rfl] at isBlank
      cases isBlank

/-! ### Cuts -/

/-- The pieces between separators are those of the standard library. -/
theorem pieces_eq_splitOn (separator : Char) (chars : List Char) :
    pieces separator chars = chars.splitOn separator := by
  induction chars with
  | nil => rfl
  | cons c rest inductionHypothesis =>
      rw [pieces, inductionHypothesis, List.splitOn_cons_eq_if_modifyHead]
      simp only [beq_iff_eq]
      refine if_congr Iff.rfl rfl ?_
      cases pieces : rest.splitOn separator with
      | nil => exact absurd pieces (List.splitOn_ne_nil separator rest)
      | cons piece others => rfl

/-- The pieces of a text, joined by the separator, are the text. -/
theorem intercalate_pieces (separator : Char) (chars : List Char) :
    [separator].intercalate (pieces separator chars) = chars := by
  rw [pieces_eq_splitOn, List.intercalate_splitOn]

/-- Texts that do not hold the separator are the pieces of the joined text. -/
theorem pieces_intercalate
    {separator : Char}
    {texts : List (List Char)}
    (apart : ∀ text ∈ texts, separator ∉ text)
    (nonempty : texts ≠ []) :
    pieces separator ([separator].intercalate texts) = texts := by
  rw [pieces_eq_splitOn, List.splitOn_intercalate separator apart nonempty]

theorem mem_of_mem_intercalate
    {separator c : Char}
    {texts : List (List Char)}
    (isInside : c ∈ [separator].intercalate texts) :
    c = separator ∨ ∃ text ∈ texts, c ∈ text := by
  induction texts with
  | nil => cases isInside
  | cons text others inductionHypothesis =>
      cases others with
      | nil =>
          rw [List.intercalate_singleton] at isInside
          exact .inr ⟨text, List.mem_cons_self, isInside⟩
      | cons other rest =>
          rw [List.intercalate_cons_cons, List.mem_append, List.mem_append,
            List.mem_singleton] at isInside
          rcases isInside with (inFirst | isSeparator) | inRest
          · exact .inr ⟨text, List.mem_cons_self, inFirst⟩
          · exact .inl isSeparator
          · refine (inductionHypothesis inRest).imp_right ?_
            rintro ⟨found, isText, inFound⟩
            exact ⟨found, List.mem_cons_of_mem _ isText, inFound⟩

theorem cutAtFirst_append
    {separator : Char}
    {before : List Char}
    (isFirst : separator ∉ before)
    (after : List Char) :
    cutAtFirst separator (before ++ separator :: after) = some (before, after) := by
  induction before with
  | nil => simp [cutAtFirst]
  | cons c rest inductionHypothesis =>
      rw [List.mem_cons, not_or] at isFirst
      rw [List.cons_append, cutAtFirst, if_neg (Ne.symm isFirst.1), inductionHypothesis isFirst.2]
      rfl

theorem cutAtFirst_of_notMem {separator : Char} {chars : List Char} (absent : separator ∉ chars) :
    cutAtFirst separator chars = none := by
  induction chars with
  | nil => rfl
  | cons c rest inductionHypothesis =>
      rw [List.mem_cons, not_or] at absent
      rw [cutAtFirst, if_neg (Ne.symm absent.1), inductionHypothesis absent.2]
      rfl

theorem withoutEnding_append (stem ending : List Char) :
    withoutEnding ending (stem ++ ending) = some stem := by
  simp [withoutEnding]

theorem withoutEnding_of_not_suffix {ending chars : List Char} (other : ¬ ending <:+ chars) :
    withoutEnding ending chars = none := by
  rw [List.suffix_iff_eq_drop] at other
  exact if_neg (Ne.symm other)

end NilSafety.Text
