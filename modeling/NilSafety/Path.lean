import NilSafety.Text.CharClass
import NilSafety.Text.Split

/-!
Contract: dotted paths that name packages, types and functions.

Owns:
- paths as sequences of segments, the empty one being the root package;
- reading and writing of the dotted notation;
- children, parents, ancestors, the prefix relation and the order of paths.

Does not own: what a path refers to. Segments built with `child` are taken as
they are; only reading checks their characters.
-/

namespace NilSafety

/-- A dotted path. The path without segments is the root package. -/
structure Path where
  segments : List String
deriving DecidableEq, Inhabited

namespace Path

/-- The root package. -/
def root : Path := ⟨[]⟩

/-- Whether this is the root package. -/
def isRoot (path : Path) : Bool :=
  path.segments.isEmpty

/-- The number of segments. -/
def length (path : Path) : Nat :=
  path.segments.length

/-- The innermost segment. -/
def last? (path : Path) : Option String :=
  path.segments.getLast?

/-- The path one segment longer. -/
def child (path : Path) (segment : String) : Path :=
  ⟨path.segments ++ [segment]⟩

/-- The path without its innermost segment; the root has none. -/
def parent? (path : Path) : Option Path :=
  if path.isRoot then none else some ⟨path.segments.dropLast⟩

/-- The initial parts of a sequence of segments, longest first. -/
def initialParts : List String → List (List String)
  | [] => [[]]
  | segment :: rest => (initialParts rest).map (segment :: ·) ++ [[]]

/-- The path itself and all it lies in, longest first, the root last. -/
def ancestors (path : Path) : List Path :=
  (initialParts path.segments).map Path.mk

/-- Whether `path` is `other` or one of its ancestors, compared by segments. -/
def isPrefixOf (path other : Path) : Bool :=
  path.segments.isPrefixOf other.segments

/-- The order of segment sequences: by the first segment that differs, a proper
prefix first. -/
def compareSegments : List String → List String → Ordering
  | [], [] => .eq
  | [], _ :: _ => .lt
  | _ :: _, [] => .gt
  | first :: rest, first' :: rest' =>
      (compare first first').then (compareSegments rest rest')

/-- The order of paths. -/
def compare (path other : Path) : Ordering :=
  compareSegments path.segments other.segments

/-- The dotted notation; the root is the empty text. -/
def text (path : Path) : String :=
  ".".intercalate path.segments

/-- A text that is no dotted path. -/
structure Malformed where
  input : String
deriving DecidableEq

/-- What is wrong, quoting the text as it was given. -/
def Malformed.message (problem : Malformed) : String :=
  s!"invalid dotted path `{problem.input}`"

/-- The characters a segment may hold: letters, numbers and the underscore. -/
def isSegmentChar (c : Char) : Bool :=
  Text.isAlphanumeric c || c == '_'

/-- Whether a character sequence is a segment. -/
def isSegment (chars : List Char) : Bool :=
  !chars.isEmpty && chars.all isSegmentChar

/-- Reads the dotted notation. Blanks on either end are ignored, and a text of
blanks alone is the root. -/
def parse (input : String) : Except Malformed Path :=
  let chars := Text.trimChars input.toList
  if chars.isEmpty then .ok root
  else
    let segments := Text.pieces '.' chars
    if segments.all isSegment then .ok ⟨segments.map String.ofList⟩
    else .error ⟨input⟩

end Path

end NilSafety
