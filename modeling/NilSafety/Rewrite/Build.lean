import NilSafety.Rewrite.Unit

/-!
Contract: rewriting of all units of a build.

Owns:
- the order of the units and the symbol table that they share;
- the report: the counts of the units that succeeded, the failures, and the
  activations that name nothing;
- the rule that a failing unit stops no other.

Does not own: the rewriting of a unit.
-/

namespace NilSafety

/-- A unit that failed: its position in the build, its package, and every
problem found in it. -/
structure UnitFailure where
  index : Nat
  package : Path
  problems : List Problem
deriving DecidableEq

/-- The outcome of a build. -/
structure BuildReport where
  counts : Counts
  failures : List UnitFailure
  configuration : List Problem
deriving DecidableEq

/-- Whether every unit was rewritten. -/
def BuildReport.isSuccess (report : BuildReport) : Bool :=
  report.failures.isEmpty

/-- What the rewriting of a build leaves behind. -/
structure BuildOutcome where
  units : List SourceUnit
  table : SymbolTable
  report : BuildReport
  events : List Event

/-- The activations of a set whose path no unit declares. -/
def ActivationSet.unresolved
    (set : ActivationSet)
    (units : List SourceUnit)
    (table : SymbolTable) :
    List Problem :=
  let declared := units.flatMap (SourceUnit.declaredPaths table)
  (set.rules.filter fun activation => !declared.contains activation.path).map
    Problem.unresolvedActivation

namespace BuildOutcome

/-- Nothing rewritten yet. -/
def start (table : SymbolTable) : BuildOutcome := ⟨[], table, ⟨.zero, [], []⟩, []⟩

/-- Rewrites the next unit of a build. -/
def next (set : ActivationSet) (outcome : BuildOutcome) (unit : SourceUnit) : BuildOutcome :=
  let done := unit.rewrite set outcome.table
  let report := match done.result with
    | .ok counts => { outcome.report with counts := outcome.report.counts + counts }
    | .error problems =>
        let failure := ⟨outcome.units.length, unit.package, problems⟩
        { outcome.report with failures := outcome.report.failures ++ [failure] }
  { units := outcome.units ++ [done.unit]
    table := done.table
    report
    events := outcome.events ++ done.events }

/-- Adds what can be said only when all units are known. -/
def finish (set : ActivationSet) (outcome : BuildOutcome) : BuildOutcome :=
  let configuration := set.unresolved outcome.units outcome.table
  let report := { outcome.report with configuration }
  let summary := Event.built outcome.units.length report.failures.length report.counts
  { outcome with
    report
    events := outcome.events ++ configuration.map .misconfigured ++ [summary] }

end BuildOutcome

/-- Rewrites all units of a build, in order, with the features that `set` puts
into effect. -/
def ActivationSet.rewriteAll
    (set : ActivationSet)
    (units : List SourceUnit)
    (table : SymbolTable) :
    BuildOutcome :=
  (units.foldl (BuildOutcome.next set) (.start table)).finish set

end NilSafety
