import Mathlib.Data.List.Basic
import NilSafety.Tree.Writing

/-!
Contract: how a written text depends on the nesting depth.

Owns:
- texts of one line, and texts moved to the right by a number of steps;
- writings that leave off at the depth at which they begin, and write at any depth what
  they write at the left margin, moved to the right;
- that writing one after another, deeper, and line by line in braces keeps this;
- the text of lines in braces.

Does not own: which trees are written so.
-/

namespace NilSafety

/-! ### Texts of one line -/

/-- The text holds no line break. -/
def OneLine (text : String) : Prop :=
  '\n' ∉ text.toList

instance (text : String) : Decidable (OneLine text) :=
  inferInstanceAs (Decidable (_ ∉ _))

@[simp] theorem oneLine_append {text rest : String} :
    OneLine (text ++ rest) ↔ OneLine text ∧ OneLine rest := by
  simp [OneLine]

theorem oneLine_intercalate
    {separator : String}
    (isShort : OneLine separator)
    {texts : List String}
    (areShort : ∀ text ∈ texts, OneLine text) :
    OneLine (separator.intercalate texts) := by
  unfold OneLine at *
  rw [String.toList_intercalate]
  induction texts with
  | nil => exact List.not_mem_nil
  | cons text rest inductionHypothesis =>
      have isText := areShort text List.mem_cons_self
      have inRest := inductionHypothesis fun other isOther =>
        areShort other (List.mem_cons_of_mem _ isOther)
      cases rest with
      | nil => simpa using isText
      | cons next others =>
          rw [List.map_cons] at inRest
          simp only [List.map_cons, List.intercalate_cons_cons, List.mem_append, not_or]
          exact ⟨⟨isText, isShort⟩, inRest⟩

theorem oneLine_toString (number : Int) : OneLine (toString number) := by
  have digits : ∀ count : Nat, OneLine (toString count) := by
    intro count isBreak
    rw [Nat.toString_eq_ofList_toDigits, String.toList_ofList] at isBreak
    exact absurd (Nat.isDigit_of_mem_toDigits (by decide) (by decide) isBreak) (by decide)
  cases number with
  | ofNat count => exact digits count
  | negSucc count => exact oneLine_append.mpr ⟨by decide, digits (count + 1)⟩

/-! ### Texts moved to the right -/

namespace Layout

variable {layout : Layout}

/-- A character of a text whose lines get a margin: the margin follows every line break. -/
def withMargin (margin : List Char) (c : Char) : List Char :=
  if c = '\n' then '\n' :: margin else [c]

theorem flatMap_withMargin_of_notMem
    {chars : List Char}
    (noBreak : '\n' ∉ chars)
    (margin : List Char) :
    chars.flatMap (withMargin margin) = chars := by
  induction chars with
  | nil => rfl
  | cons c rest inductionHypothesis =>
      rw [List.mem_cons, not_or] at noBreak
      rw [List.flatMap_cons, inductionHypothesis noBreak.2, withMargin, if_neg (Ne.symm noBreak.1)]
      rfl

/-- The text moved `depth` steps to the right: as many steps follow every line break. -/
def nested (layout : Layout) (depth : Nat) (text : String) : String :=
  String.ofList (text.toList.flatMap (withMargin (layout.margin depth).toList))

@[simp] theorem nested_append (depth : Nat) (text rest : String) :
    layout.nested depth (text ++ rest) = layout.nested depth text ++ layout.nested depth rest := by
  simp [nested]

theorem nested_of_oneLine {text : String} (isShort : OneLine text) (depth : Nat) :
    layout.nested depth text = text := by
  rw [nested, flatMap_withMargin_of_notMem isShort, String.ofList_toList]

theorem nested_lineBreak (depth : Nat) :
    layout.nested depth "\n" = "\n" ++ layout.margin depth := by
  apply String.toList_injective
  simp [nested, withMargin]

theorem margin_add (depth more : Nat) :
    layout.margin (depth + more) = layout.margin depth ++ layout.margin more := by
  induction depth with
  | zero => simp [margin]
  | succ depth inductionHypothesis =>
      rw [Nat.add_right_comm, margin, margin, inductionHypothesis, String.append_assoc]

theorem oneLine_margin (isShort : OneLine layout.step) (depth : Nat) :
    OneLine (layout.margin depth) := by
  induction depth with
  | zero => simp [margin, OneLine]
  | succ depth inductionHypothesis => exact oneLine_append.mpr ⟨isShort, inductionHypothesis⟩

/-- Moving twice is moving by both distances. -/
theorem nested_nested (isShort : OneLine layout.step) (depth more : Nat) (text : String) :
    layout.nested depth (layout.nested more text) = layout.nested (depth + more) text := by
  unfold nested
  rw [String.toList_ofList, List.flatMap_assoc]
  congr 2
  funext c
  by_cases isBreak : c = '\n'
  · subst isBreak
    simp only [withMargin, if_true, List.flatMap_cons, margin_add, String.toList_append]
    rw [flatMap_withMargin_of_notMem (oneLine_margin isShort more), List.cons_append]
  · simp only [withMargin, if_neg isBreak, List.flatMap_cons, List.flatMap_nil, List.append_nil]

/-! ### Writings that keep the depth -/

/-- The writing leaves off at the depth at which it begins, and writes there what it writes
at the left margin, moved to the right. -/
structure Indents (layout : Layout) (writing : Writing) : Prop where
  finish : ∀ depth, writing.finish depth = depth
  text : ∀ depth, writing.text depth = layout.nested depth (writing.text 0)

theorem indents_literal {text : String} (isShort : OneLine text) :
    layout.Indents (.literal text) where
  finish _ := rfl
  text depth := (nested_of_oneLine isShort depth).symm

theorem indents_lineBreak : layout.Indents layout.lineBreak where
  finish _ := rfl
  text depth := by simp [margin, nested_lineBreak]

theorem Indents.append
    {first second : Writing}
    (indents : layout.Indents first)
    (restIndents : layout.Indents second) :
    layout.Indents (first ++ second) where
  finish depth := by rw [Writing.finish_append, indents.finish, restIndents.finish]
  text depth := by
    rw [Writing.text_append, Writing.text_append, indents.finish, indents.finish, nested_append,
      ← indents.text, ← restIndents.text]

theorem indents_separated
    {separator : String}
    (isShort : OneLine separator)
    {writings : List Writing}
    (indent : ∀ writing ∈ writings, layout.Indents writing) :
    layout.Indents (.separated separator writings) := by
  induction writings with
  | nil => exact indents_literal (by decide)
  | cons first rest inductionHypothesis =>
      have isFirst := indent first List.mem_cons_self
      have inRest := inductionHypothesis fun writing member =>
        indent writing (List.mem_cons_of_mem _ member)
      cases rest with
      | nil => exact isFirst
      | cons second others => exact (isFirst.append (indents_literal isShort)).append inRest

section

variable (isShort : OneLine layout.step)

include isShort

theorem Indents.deeper {inner : Writing} (indents : layout.Indents inner) :
    layout.Indents inner.deeper where
  finish depth := by rw [Writing.finish_deeper, indents.finish, Nat.add_sub_cancel]
  text depth := by
    rw [Writing.text_deeper, Writing.text_deeper, indents.text, indents.text (0 + 1),
      nested_nested isShort, Nat.zero_add]

theorem indents_braced
    {lines : List Writing}
    {close : Writing}
    (indent : ∀ line ∈ lines, layout.Indents line)
    (closes : layout.Indents close) :
    layout.Indents (layout.braced lines close) := by
  have inside : layout.Indents (.separated "" (lines.map (layout.lineBreak ++ ·))) := by
    refine indents_separated (by decide) fun writing member => ?_
    obtain ⟨line, isLine, rfl⟩ := List.mem_map.mp member
    exact indents_lineBreak.append (indent line isLine)
  exact (((indents_literal (by decide)).append (inside.deeper isShort)).append closes).append
    (indents_literal (by decide))

end

/-- Texts in braces, one below the other and one step to the right. -/
def bracedText (layout : Layout) (texts : List String) : String :=
  "\x7b" ++ layout.nested 1 (String.join (texts.map ("\n" ++ ·))) ++ "\n\x7d"

/-- Lines in braces are the texts that they have at the left margin, in braces. -/
theorem text_braced
    {lines : List Writing}
    (indent : ∀ line ∈ lines, layout.Indents line)
    {close : Writing}
    (closes : close.text 0 = "\n") :
    (layout.braced lines close).text 0 = layout.bracedText (lines.map (·.text 0)) := by
  -- the line breaks that stand before the lines belong to what is written deeper
  have inside : ∀ lines : List Writing, (∀ line ∈ lines, layout.Indents line) →
      Writing.text (.separated "" (lines.map (layout.lineBreak ++ ·))) 1 =
        layout.nested 1 (String.join ((lines.map (·.text 0)).map ("\n" ++ ·))) ∧
      Writing.finish (.separated "" (lines.map (layout.lineBreak ++ ·))) 1 = 1 := by
    intro lines indent
    induction lines with
    | nil => exact ⟨(nested_of_oneLine (by decide : OneLine "") 1).symm, rfl⟩
    | cons line rest inductionHypothesis =>
        have isLine := indent line List.mem_cons_self
        obtain ⟨text, finish⟩ := inductionHypothesis fun other member =>
          indent other (List.mem_cons_of_mem _ member)
        cases rest with
        | nil => simp [Writing.separated, isLine.text 1, isLine.finish, nested_lineBreak]
        | cons next others =>
            simp only [List.map_cons, Writing.separated] at text finish ⊢
            simp [isLine.finish, text, finish, isLine.text 1, nested_lineBreak]
  obtain ⟨text, finish⟩ := inside lines indent
  simp [braced, bracedText, text, finish, closes, String.append_assoc]

end Layout

end NilSafety
