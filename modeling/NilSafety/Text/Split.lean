/-!
Contract: cutting a character sequence at a separator.

Owns:
- the pieces between all occurrences of a separator;
- the two sides of the first occurrence.

Does not own: which separators the notations use, or what a piece may hold.
-/

namespace NilSafety.Text

/-- The pieces between the occurrences of `separator`, one more than there are
occurrences; adjacent separators enclose an empty piece. -/
def pieces (separator : Char) : List Char → List (List Char)
  | [] => [[]]
  | c :: rest =>
      if c = separator then [] :: pieces separator rest
      else
        match pieces separator rest with
        | [] => [[c]]
        | piece :: others => (c :: piece) :: others

/-- What stands before and after the first `separator`, if there is one. -/
def cutAtFirst (separator : Char) : List Char → Option (List Char × List Char)
  | [] => none
  | c :: rest =>
      if c = separator then some ([], rest)
      else (cutAtFirst separator rest).map fun (before, after) => (c :: before, after)

/-- The sequence before a given ending, if the sequence ends so. -/
def withoutEnding (ending chars : List Char) : Option (List Char) :=
  let keep := chars.length - ending.length
  if chars.drop keep = ending then some (chars.take keep) else none

end NilSafety.Text
