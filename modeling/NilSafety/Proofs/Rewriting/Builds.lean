import NilSafety.Proofs.Rewriting.Outcome
import NilSafety.Rewrite.Build

/-!
Contract: a build as a sequence of rewritten units.

Owns:
- the outcomes of the units along a build, each from the table that the unit before it
  left behind;
- the report of a build in terms of these outcomes;
- that the table only grows.

Does not own: how the outcome of a unit depends on that table.
-/

namespace NilSafety

namespace UnitOutcome

/-- What the outcome of a unit adds to the counts of a build. -/
def counts (done : UnitOutcome) : Counts :=
  match done.result with
  | .ok counts => counts
  | .error _ => 0

/-- What a build reports of a unit in the package that failed. -/
def failure? (done : UnitOutcome) (package : Path) (index : Nat) : Option UnitFailure :=
  match done.result with
  | .ok _ => none
  | .error problems => some ⟨index, package, problems⟩

end UnitOutcome

namespace ActivationSet

variable (set : ActivationSet)

/-- The outcomes of the units of a build, in order. -/
def steps : List SourceUnit → SymbolTable → List UnitOutcome
  | [], _ => []
  | unit :: rest, table =>
      unit.rewrite set table :: steps rest (unit.rewrite set table).table

/-- The table that the units of a build leave behind. -/
def tableAfter : List SourceUnit → SymbolTable → SymbolTable
  | [], table => table
  | unit :: rest, table => tableAfter rest (unit.rewrite set table).table

end ActivationSet

namespace BuildOutcome

variable (set : ActivationSet)

theorem next_eq (outcome : BuildOutcome) (unit : SourceUnit) :
    let done := unit.rewrite set outcome.table
    (outcome.next set unit).units = outcome.units ++ [done.unit] ∧
      (outcome.next set unit).table = done.table ∧
      (outcome.next set unit).report.counts = outcome.report.counts + done.counts ∧
      (outcome.next set unit).report.failures =
        outcome.report.failures ++ (done.failure? unit.package outcome.units.length).toList := by
  unfold next UnitOutcome.counts UnitOutcome.failure?
  dsimp only
  cases (unit.rewrite set outcome.table).result with
  | ok counts => exact ⟨rfl, rfl, rfl, (List.append_nil _).symm⟩
  | error problems => exact ⟨rfl, rfl, (add_zero _).symm, rfl⟩

theorem foldl_next (units : List SourceUnit) (outcome : BuildOutcome) :
    let steps := set.steps units outcome.table
    let ends := units.foldl (next set) outcome
    ends.units = outcome.units ++ steps.map UnitOutcome.unit ∧
      ends.table = set.tableAfter units outcome.table ∧
      ends.report.counts = outcome.report.counts + (steps.map UnitOutcome.counts).sum ∧
      ends.report.failures = outcome.report.failures ++
        ((units.zip steps).zipIdx outcome.units.length).filterMap fun step =>
          step.1.2.failure? step.1.1.package step.2 := by
  induction units generalizing outcome with
  | nil =>
      simp only [List.foldl_nil, ActivationSet.steps, ActivationSet.tableAfter, List.map_nil,
        List.sum_nil, List.zip_nil_right, List.zipIdx_nil, List.filterMap_nil, List.append_nil,
        add_zero, and_self]
  | cons unit rest inductionHypothesis =>
      obtain ⟨units, table, counts, failures⟩ := outcome.next_eq set unit
      obtain ⟨allUnits, lastTable, allCounts, allFailures⟩ :=
        inductionHypothesis (outcome.next set unit)
      rw [table] at allUnits lastTable allCounts allFailures
      refine ⟨?_, lastTable, ?_, ?_⟩
      · rw [List.foldl_cons, allUnits, units, List.append_assoc]
        rfl
      · rw [List.foldl_cons, allCounts, counts, add_assoc]
        rfl
      · rw [List.foldl_cons, allFailures, failures, units, List.length_append, List.append_assoc,
          ActivationSet.steps, List.zip_cons_cons, List.zipIdx_cons, List.filterMap_cons]
        cases (unit.rewrite set outcome.table).failure? unit.package outcome.units.length <;> rfl

end BuildOutcome

namespace ActivationSet

variable (set : ActivationSet)

/-- A build reports what became of its units. -/
theorem rewriteAll_eq (units : List SourceUnit) (table : SymbolTable) :
    let steps := set.steps units table
    let outcome := set.rewriteAll units table
    outcome.units = steps.map UnitOutcome.unit ∧
      outcome.table = set.tableAfter units table ∧
      outcome.report.counts = (steps.map UnitOutcome.counts).sum ∧
      outcome.report.failures = ((units.zip steps).zipIdx.filterMap fun step =>
        step.1.2.failure? step.1.1.package step.2) ∧
      outcome.report.configuration =
        set.unresolved (steps.map UnitOutcome.unit) (set.tableAfter units table) := by
  obtain ⟨allUnits, lastTable, allCounts, allFailures⟩ :=
    BuildOutcome.foldl_next set units (.start table)
  refine ⟨allUnits, lastTable, allCounts.trans (zero_add _), allFailures, ?_⟩
  exact congrArg₂ set.unresolved allUnits lastTable

theorem grows_tableAfter
    {units : List SourceUnit}
    {table : SymbolTable}
    (resolve : ∀ unit ∈ units, unit.resolves table) :
    table.Grows (set.tableAfter units table) := by
  induction units generalizing table with
  | nil => exact .refl table
  | cons unit rest inductionHypothesis =>
      have first := SourceUnit.grows_rewrite set (resolve unit List.mem_cons_self)
      refine first.trans (inductionHypothesis fun other member => ?_)
      exact SourceUnit.resolves_of_grows first (resolve other (List.mem_cons_of_mem unit member))

/-- Every unit of a build is rewritten under a table that grew from the first one, and leaves
behind one that the last one grew from. -/
theorem forall₂_steps
    {base start : SymbolTable}
    {units : List SourceUnit}
    (grows : base.Grows start)
    (resolve : ∀ unit ∈ units, unit.resolves base) :
    List.Forall₂ (fun unit done => unit.resolves base ∧ ∃ before, base.Grows before ∧
        done = unit.rewrite set before ∧ done.table.Grows (set.tableAfter units start))
      units (set.steps units start) := by
  induction units generalizing start with
  | nil => exact .nil
  | cons unit rest inductionHypothesis =>
      have resolves := resolve unit List.mem_cons_self
      have resolveRest : ∀ other ∈ rest, other.resolves base :=
        fun other member => resolve other (List.mem_cons_of_mem unit member)
      have further := grows.trans (SourceUnit.grows_rewrite set
        (SourceUnit.resolves_of_grows grows resolves))
      refine .cons ⟨resolves, start, grows, rfl, ?_⟩ (inductionHypothesis further resolveRest)
      exact set.grows_tableAfter fun other member =>
        SourceUnit.resolves_of_grows further (resolveRest other member)

end ActivationSet

/-! ### Declared paths -/

theorem Decl.declaredPaths_withBodies
    (table : SymbolTable)
    (package : Path)
    (decl : Decl)
    (exprs : List Expr)
    (fits : exprs.length = decl.bodies.length) :
    (decl.withBodies exprs).declaredPaths table package = decl.declaredPaths table package := by
  cases decl with
  | function | constant => rfl
  | record name fields members visibility span | extension name members span =>
      have fitsMembers : exprs.length = members.length :=
        fits.trans (List.length_map Function.body)
      have kept : (members.zipWith Function.withBody exprs).map (fun method =>
            (package.child (table.display name)).child (table.display method.name)) =
          members.map fun method =>
            (package.child (table.display name)).child (table.display method.name) :=
        Expr.map_zipWith_withValue (fun _ _ => rfl) fitsMembers
      exact congrArg (· ++ [package.child (table.display name)]) kept

theorem Decl.declaredPaths_eq
    {table later : SymbolTable}
    (grows : table.Grows later)
    (package : Path)
    {decl : Decl}
    (resolves : decl.resolves table) :
    decl.declaredPaths later package = decl.declaredPaths table package := by
  simp only [Decl.resolves, Bool.and_eq_true, List.all_eq_true] at resolves
  obtain ⟨⟨named, functions⟩, -⟩ := resolves
  have methods : ∀ f ∈ decl.methods, later.display f.name = table.display f.name := by
    intro f isMethod
    have isFunction : f ∈ decl.functions := by
      cases decl with
      | function | constant => cases isMethod
      | record | extension => exact isMethod
    exact grows.display_eq (Function.resolves_parts (functions f isFunction)).1
  unfold declaredPaths
  dsimp only
  rw [grows.display_eq named, List.map_congr_left fun f isMethod => by rw [methods f isMethod]]

namespace SourceUnit

variable {set : ActivationSet} {base start later : SymbolTable} {unit : SourceUnit}

/-- A rewritten unit declares the paths of the original one. -/
theorem declaredPaths_rewrite
    (grows : base.Grows start)
    (resolves : unit.resolves base)
    (last : (unit.rewrite set start).table.Grows later) :
    (unit.rewrite set start).unit.declaredPaths later = unit.declaredPaths base := by
  have resolvesStart := resolves_of_grows grows resolves
  have growing := (grows.trans (grows_rewrite set resolvesStart)).trans last
  have kept : (refillEach Decl.bodies Decl.withBodies unit.decls (unit.performed set start).1).map
        (Decl.declaredPaths later unit.package) =
      unit.decls.map (Decl.declaredPaths later unit.package) :=
    map_refillEach (Decl.declaredPaths_withBodies later unit.package) unit.decls
      (unit.length_performed set start)
  have same : unit.decls.map (Decl.declaredPaths later unit.package) =
      unit.decls.map (Decl.declaredPaths base unit.package) :=
    List.map_congr_left fun decl isDecl =>
      Decl.declaredPaths_eq growing unit.package (List.all_eq_true.mp resolves decl isDecl)
  rw [(rewrite_apply set resolvesStart).1]
  unfold withBodies declaredPaths
  dsimp only
  rw [List.flatMap_def, List.flatMap_def, kept, same]

end SourceUnit

end NilSafety
