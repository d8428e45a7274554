import NilSafety.Tree.Decl

/-!
Contract: text that is written line by line.

Owns:
- writings, which begin at a nesting depth and may change it on the way;
- writing of one text after another, with separators, and deeper than before;
- the layout, the names in force and the text of one indentation step;
- line breaks, and lines in braces.

Does not own: how trees are written.
-/

namespace NilSafety

/-- The writing of a text: begun at a nesting depth, it yields the text and the depth at
which it leaves off. -/
def Writing : Type :=
  (depth : Nat) → String × Nat

namespace Writing

/-- What is written when begun at a nesting depth. -/
def text (writing : Writing) (depth : Nat) : String :=
  (writing depth).1

/-- The nesting depth at which the writing leaves off when begun at a nesting depth. -/
def finish (writing : Writing) (depth : Nat) : Nat :=
  (writing depth).2

/-- Writes a text as it is. -/
def literal (text : String) : Writing := fun depth => (text, depth)

/-- One writing after another, begun at the depth at which the first one leaves off. -/
def append (first second : Writing) : Writing := fun depth =>
  let (text, depth) := first depth
  let (rest, depth) := second depth
  (text ++ rest, depth)

instance : Append Writing := ⟨append⟩

/-- Several writings one after another, with a text between. -/
def separated (separator : String) : List Writing → Writing
  | [] => literal ""
  | [last] => last
  | first :: second :: rest =>
      first ++ literal separator ++ separated separator (second :: rest)

/-- Several writings with commas between. -/
def commas : List Writing → Writing :=
  separated ", "

/-- Writes one step deeper. -/
def deeper (inner : Writing) : Writing := fun depth =>
  let (text, depth) := inner (depth + 1)
  (text, depth - 1)

section

variable (first second : Writing) (depth : Nat)

@[simp] theorem text_literal (given : String) : (literal given).text depth = given := rfl

@[simp] theorem finish_literal (given : String) : (literal given).finish depth = depth := rfl

@[simp] theorem text_append :
    (first ++ second).text depth = first.text depth ++ second.text (first.finish depth) := rfl

@[simp] theorem finish_append :
    (first ++ second).finish depth = second.finish (first.finish depth) := rfl

@[simp] theorem text_deeper : first.deeper.text depth = first.text (depth + 1) := rfl

@[simp] theorem finish_deeper : first.deeper.finish depth = first.finish (depth + 1) - 1 := rfl

end

end Writing

/-- What source text depends on besides the tree: the names of symbols, and the text of one
indentation step. -/
structure Layout where
  name : Symbol → String
  step : String

namespace Layout

/-- The layout with the names of a table. A step is customarily four spaces. -/
def ofTable (table : SymbolTable) (step : String := "    ") : Layout := ⟨table.display, step⟩

/-- The blank text before a line at nesting depth `depth`. -/
def margin (layout : Layout) : Nat → String
  | 0 => ""
  | depth + 1 => layout.step ++ layout.margin depth

/-- The break before a line, with the margin of that line. -/
def lineBreak (layout : Layout) : Writing := fun depth => ("\n" ++ layout.margin depth, depth)

@[simp] theorem text_lineBreak (layout : Layout) (depth : Nat) :
    layout.lineBreak.text depth = "\n" ++ layout.margin depth := rfl

@[simp] theorem finish_lineBreak (layout : Layout) (depth : Nat) :
    layout.lineBreak.finish depth = depth := rfl

/-- Lines in braces, one step deeper than the braces, with `close` before the closing
one. -/
def braced (layout : Layout) (lines : List Writing) (close : Writing) : Writing :=
  .literal "\x7b" ++ .deeper (.separated "" (lines.map (layout.lineBreak ++ ·))) ++ close ++
    .literal "\x7d"

/-- Lines in braces that stand one below the other. -/
def inBraces (layout : Layout) (lines : List Writing) : Writing :=
  layout.braced lines layout.lineBreak

end Layout

end NilSafety
