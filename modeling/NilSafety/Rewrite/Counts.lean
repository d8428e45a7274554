/-!
Contract: how much was rewritten.

Owns: the counts of a rewrite, their sum over several, and their text.

Does not own: the counting.
-/

namespace NilSafety

/-- The numbers of rewrites performed. -/
structure Counts where
  /-- Marked accesses expanded. -/
  navigations : Nat
  /-- Parameter guards inserted. -/
  guards : Nat
  /-- Functions that received a guard. -/
  guardedFunctions : Nat
  /-- Array literals wrapped. -/
  arrays : Nat
deriving DecidableEq

namespace Counts

/-- Nothing rewritten. -/
def zero : Counts := ⟨0, 0, 0, 0⟩

/-- The counts of two rewrites together. -/
def add (counts other : Counts) : Counts where
  navigations := counts.navigations + other.navigations
  guards := counts.guards + other.guards
  guardedFunctions := counts.guardedFunctions + other.guardedFunctions
  arrays := counts.arrays + other.arrays

instance : Add Counts := ⟨add⟩

/-- The number of rewrites of every kind. -/
def total (counts : Counts) : Nat :=
  counts.navigations + counts.guards + counts.arrays

/-- Whether nothing was rewritten. -/
def isZero (counts : Counts) : Bool :=
  counts.total == 0

/-- The counts as reports show them. -/
def text (counts : Counts) : String :=
  s!"{counts.navigations} navigations, {counts.guards} guards in " ++
    s!"{counts.guardedFunctions} functions, {counts.arrays} arrays"

end Counts

end NilSafety
