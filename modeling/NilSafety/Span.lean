/-!
Contract: the region of a source text that a tree node covers.

Owns:
- the region as byte offsets with the line and column of its start;
- the region without a source, which generated code would carry;
- the short text that diagnostics show.

Does not own: the assignment of regions to nodes, or the source text itself.
-/

namespace NilSafety

/-- A region of a source text: byte offsets from `start` up to but excluding
`stop`, and the line and column where it begins. Line 0 marks a region that
belongs to no source. -/
structure Span where
  start : Nat
  stop : Nat
  line : Nat
  column : Nat
deriving DecidableEq, Inhabited

namespace Span

/-- The region of code that stands in no source text. -/
def generated : Span := ⟨0, 0, 0, 0⟩

/-- Whether the region belongs to no source text. -/
def isGenerated (span : Span) : Bool :=
  span.line == 0

/-- The region from the start of `first` to the end of `last`. -/
def cover (first last : Span) : Span :=
  { first with stop := last.stop }

/-- The number of bytes covered. -/
def length (span : Span) : Nat :=
  span.stop - span.start

/-- Whether no byte is covered. -/
def isEmpty (span : Span) : Bool :=
  span.start == span.stop

/-- The position that diagnostics show: line and column, or a fixed word for
generated code. -/
def text (span : Span) : String :=
  if span.isGenerated then "<generated>" else s!"{span.line}:{span.column}"

end Span

end NilSafety
