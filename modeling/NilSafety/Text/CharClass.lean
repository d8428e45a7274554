import NilSafety.Text.WordRanges

/-!
Contract: the character classes and the trimming that names and settings are
read with.

Owns:
- membership of a code point in a table of ascending ranges;
- letters and numbers, and the blank characters (the White_Space property);
- removal of the blanks on both ends of a text.

Does not own: case. Names of features and levels fold ASCII letters only, which
is what `String.toLower` and `String.toUpper` do.
-/

namespace NilSafety.Text

/-- Whether `code` lies in one of the ascending, disjoint `ranges`. -/
def inRanges (code : Nat) : List (Nat × Nat) → Bool
  | [] => false
  | (low, high) :: rest =>
      if code < low then false
      else if code ≤ high then true
      else inRanges code rest

/-- Letters and numbers of every script. -/
def isAlphanumeric (c : Char) : Bool :=
  inRanges c.toNat wordRanges

/-- Inclusive ranges of the characters with the White_Space property. -/
def blankRanges : List (Nat × Nat) := [
  (0x9, 0xd), (0x20, 0x20), (0x85, 0x85), (0xa0, 0xa0), (0x1680, 0x1680), (0x2000, 0x200a),
  (0x2028, 0x2029), (0x202f, 0x202f), (0x205f, 0x205f), (0x3000, 0x3000)]

/-- Blank characters of every script. -/
def isBlank (c : Char) : Bool :=
  inRanges c.toNat blankRanges

/-- A character sequence without the blanks it ends in. -/
def dropBlankEnd (chars : List Char) : List Char :=
  (chars.reverse.dropWhile isBlank).reverse

/-- A character sequence without the blanks on either end. -/
def trimChars (chars : List Char) : List Char :=
  dropBlankEnd (chars.dropWhile isBlank)

/-- A text without the blanks on either end. -/
def trim (text : String) : String :=
  String.ofList (trimChars text.toList)

end NilSafety.Text
