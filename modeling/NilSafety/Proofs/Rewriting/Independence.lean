import Mathlib.Logic.Equiv.Basic
import NilSafety.Proofs.Rewriting.Builds
import NilSafety.Proofs.Rewriting.Plan

/-!
Contract: units of a build that do not influence one another.

Owns:
- plans that agree on all that a unit can use;
- permutations of texts that take the temporaries of one table to those of another;
- that what becomes of a unit does not depend on the units before it, but for the names of
  its temporaries;
- that the report of a build does not depend on the order of its units.

Does not own: which names these are.
-/

namespace NilSafety

/-! ### Renamings -/

/-- Two sequences without repetitions are one up to a permutation that moves nothing but
what may occur in them. -/
theorem exists_perm_of_injective
    {α : Type}
    {occurs : α → Prop}
    {first second : Nat → α}
    (injective : Function.Injective first)
    (injective' : Function.Injective second)
    (within : ∀ position, occurs (first position))
    (within' : ∀ position, occurs (second position))
    (count : Nat) :
    ∃ rename : Equiv.Perm α,
      (∀ position < count, rename (first position) = second position) ∧
        ∀ item, ¬ occurs item → rename item = item := by
  classical
  induction count with
  | zero =>
      exact ⟨.refl α, fun position before => absurd before (Nat.not_lt_zero position),
        fun _ _ => rfl⟩
  | succ count inductionHypothesis =>
      obtain ⟨rename, agrees, fixes⟩ := inductionHypothesis
      refine ⟨rename.trans (Equiv.swap (rename (first count)) (second count)), ?_, ?_⟩
      · intro position before
        rw [Equiv.trans_apply]
        rcases Nat.lt_succ_iff_lt_or_eq.mp before with earlier | rfl
        · rw [agrees position earlier]
          refine Equiv.swap_apply_of_ne_of_ne ?_ ?_
          · rw [← agrees position earlier]
            exact fun same => Nat.ne_of_lt earlier (injective (rename.injective same))
          · exact fun same => Nat.ne_of_lt earlier (injective' same)
        · exact Equiv.swap_apply_left _ _
      · intro item other
        rw [Equiv.trans_apply, fixes item other]
        refine Equiv.swap_apply_of_ne_of_ne ?_ ?_
        · intro same
          have isFirst := rename.injective ((fixes item other).trans same)
          exact other (isFirst ▸ within count)
        · exact fun same => other (same ▸ within' count)

/-! ### Plans that agree -/

namespace Plan

/-- The plans have the same first temporaries, and the same symbols for what is interned for
the declaration at the path. -/
structure Agrees (plan plan' : Plan) (count : Nat) (path : Path) : Prop where
  temporary : ∀ position < count, plan.temporary position = plan'.temporary position
  literals : ∀ text ∈ Expr.checkedArrayPath, plan.entry text = plan'.entry text
  module : plan.entry EntryPoint.module = plan'.entry EntryPoint.module
  guard : plan.entry EntryPoint.guardFailure = plan'.entry EntryPoint.guardFailure
  path : plan.entry path.text = plan'.entry path.text

variable {plan plan' : Plan} {count : Nat}

/-- The plans do the same to a node, unless this takes more temporaries. -/
theorem Agrees.node_eq
    {path : Path}
    (agrees : plan.Agrees plan' count path)
    (features : FeatureSet)
    (expr : Expr)
    {issued : Nat}
    (last : (plan.node features expr issued).2 ≤ count) :
    plan.node features expr issued = plan'.node features expr issued := by
  have segments : Expr.checkedArrayPath.map plan.entry = Expr.checkedArrayPath.map plan'.entry :=
    List.map_congr_left agrees.literals
  unfold node at last ⊢
  rw [segments]
  split
  next marked =>
    split
    next on =>
      rw [if_pos marked, if_pos on] at last
      rw [agrees.temporary issued last]
    next off => rfl
  next unmarked => rfl

theorem Agrees.inStep_task {task : Task} (agrees : plan.Agrees plan' count task.path) :
    InStep Eq (· ≤ count) Eq (plan.task task) (plan'.task task) := by
  have walk : InStep Eq (· ≤ count) Eq (task.body.mapUp (plan.node task.features))
      ((id task.body).mapUp (plan'.node task.features)) := by
    refine InStep.mapUp (fun expr => (List.map_id expr.children).symm) task.body ?_
    intro inner _ exprs exprs' _ issued _ same
    obtain rfl := same
    constructor
    · rw [issued_node, issued_node, Expr.isMarkedAccess_refill, Expr.isMarkedAccess_refill]
    · intro last
      refine ⟨?_, fun related => ?_⟩
      · rw [issued_node] at last
        split at last <;> omega
      · rw [List.forall₂_eq_eq_eq] at related
        rw [← related]
        exact congrArg Prod.fst (agrees.node_eq task.features (inner.refill exprs) last)
  have guarded : ∀ body : Expr, plan.guardBody task.path task.guarded body =
      plan'.guardBody task.path task.guarded body := by
    intro body
    unfold guardBody guardSymbols
    rw [agrees.module, agrees.guard, agrees.path]
  intro issued issued' same
  obtain ⟨sameIssued, related⟩ := walk issued issued' same
  refine ⟨sameIssued, fun last => ⟨(related last).1, ?_⟩⟩
  unfold Plan.task
  dsimp only
  rw [guarded, (related last).2]
  rfl

/-- Plans that agree for all tasks do the same to their expressions. -/
theorem tasks_eq_of_agrees
    {tasks : List Task}
    (agrees : ∀ task ∈ tasks, plan.Agrees plan' (tasks.map Task.expansions).sum task.path) :
    (tasks.mapM plan.task 0).1 = (tasks.mapM plan'.task 0).1 := by
  have each := InStep.mapM tasks fun task isTask => (agrees task isTask).inStep_task
  obtain ⟨-, related⟩ := each 0 0 rfl
  have last : (tasks.mapM plan.task 0).2 ≤ (tasks.map Task.expansions).sum := by
    rw [plan.issued_tasks, Nat.zero_add]
  have same := (related last).2
  rwa [List.forall₂_eq_eq_eq] at same

end Plan

/-! ### One unit -/

/-- Plans from two tables agree for a task once a permutation has taken the temporaries of
one to those of the other, since it moves no text that a task interns. -/
theorem Rewrite.planFrom_agrees
    {base start start' : SymbolTable}
    {count : Nat}
    {rename : String → String}
    (agrees : ∀ position < count,
      rename (FreshNames.supply start' position) = FreshNames.supply start position)
    (fixes : ∀ text, ¬ FreshNames.MayChoose base text → rename text = text)
    {task : Task}
    (fits : task.Fits base) :
    (planFrom start .ofText).Agrees (planFrom start' fun text => .ofText (rename text)) count
      task.path := by
  have kept : ∀ text, ¬ FreshNames.MayChoose base text →
      Symbol.ofText text = Symbol.ofText (rename text) :=
    fun text other => by rw [fixes text other]
  have reserved : ∀ text : String, text.toList.head? ≠ some '_' →
      Symbol.ofText text = Symbol.ofText (rename text) := by
    intro text other
    refine kept text ?_
    rintro ⟨⟨number, same⟩, -⟩
    exact FreshNames.candidate_ne number other same
  refine ⟨fun position before => congrArg Symbol.ofText (agrees position before).symm,
    fun text isSegment => reserved text ?_, reserved _ (by decide), reserved _ (by decide),
    kept _ ?_⟩
  · revert text
    decide
  · rintro ⟨⟨number, same⟩, absent⟩
    exact fits.path number same absent

namespace SourceUnit

variable
  {set : ActivationSet}
  {base start start' grown grown' : SymbolTable}
  {unit : SourceUnit}

/-- From whichever tables a unit is rewritten, the results differ in the names of temporaries
alone: a permutation of names that the table they both grew from lacks takes one to the
other. -/
theorem exists_renaming
    (resolves : unit.resolves base)
    (grows : base.Grows start)
    (grows' : base.Grows start')
    (later : (unit.rewrite set start).table.Grows grown)
    (later' : (unit.rewrite set start').table.Grows grown') :
    ∃ rename : Equiv.Perm String,
      (∀ text, rename text ≠ text → FreshNames.MayChoose base text) ∧
        (unit.rewrite set start).unit.spelled grown.display =
          (unit.rewrite set start').unit.spelled fun symbol => rename (grown'.display symbol) := by
  obtain ⟨rename, agrees, fixes⟩ := exists_perm_of_injective
    (FreshNames.supply_injective start') (FreshNames.supply_injective start)
    (FreshNames.mayChoose_supply grows') (FreshNames.mayChoose_supply grows)
    ((unit.tasks set base).map Task.expansions).sum
  refine ⟨rename, fun text moved => not_not.mp fun other => moved (fixes text other), ?_⟩
  have resolvesStart := resolves_of_grows grows resolves
  have resolvesStart' := resolves_of_grows grows' resolves
  have growing := (grows.trans (grows_rewrite set resolvesStart)).trans later
  have growing' := (grows'.trans (grows_rewrite set resolvesStart')).trans later'
  have planned := (rewrite_planned resolvesStart later (.ofDisplay grown .ofText)).2
  have planned' := (rewrite_planned resolvesStart' later'
    (.ofDisplay grown' fun text => .ofText (rename text))).2
  -- Symbols of the unit itself are shown alike, since their names are not moved.
  have shown : ∀ symbol, base.knows symbol →
      Symbol.ofText (rename (grown'.display symbol)) = Symbol.ofText (grown.display symbol) := by
    intro symbol known
    have present : ¬ FreshNames.MayChoose base (base.display symbol) := by
      rintro ⟨-, absent⟩
      rw [SymbolTable.find?_display known] at absent
      cases absent
    rw [growing'.display_eq known, fixes _ present, growing.display_eq known]
  obtain ⟨sameUnit, samePlan⟩ := planned_congr set (fun text => .ofText (rename text)) grows'
    resolves shown
  unfold spelled
  rw [planned, planned', sameUnit, samePlan]
  congr 1
  unfold SourceUnit.planned
  rw [tasks_eq grows resolves, tasks_eq grows' resolves]
  refine Plan.tasks_eq_of_agrees fun task isTask => ?_
  obtain ⟨original, isOriginal, rfl⟩ := List.mem_map.mp isTask
  have alike := Rewrite.planFrom_agrees agrees fixes (tasks_fit set resolves original isOriginal)
  rw [Task.map_expansions_mapSymbols]
  exact alike

/-- What rewriting reports of a unit does not depend on what the table has learnt. -/
theorem result_eq
    (set : ActivationSet)
    (grows : base.Grows start)
    (resolves : unit.resolves base) :
    (unit.rewrite set start).result = (unit.rewrite set base).result := by
  rw [rewrite_result (resolves_of_grows grows resolves), rewrite_result resolves]
  unfold problems counts
  rw [tasks_eq grows resolves]

end SourceUnit

/-! ### A whole build -/

/-- Two outcomes of a unit have the same result, and their trees differ only in names that
the table lacks and rewriting may choose. -/
def UnitOutcome.Alike
    (table : SymbolTable)
    (done : UnitOutcome)
    (display : Symbol → String)
    (other : UnitOutcome)
    (display' : Symbol → String) :
    Prop :=
  done.result = other.result ∧
    ∃ rename : Equiv.Perm String,
      (∀ text, rename text ≠ text → FreshNames.MayChoose table text) ∧
        done.unit.spelled display = other.unit.spelled fun symbol => rename (display' symbol)

namespace ActivationSet

variable {set : ActivationSet} {table : SymbolTable} {units units' : List SourceUnit}

theorem alike
    {unit : SourceUnit}
    {before before' last last' : SymbolTable}
    (resolves : unit.resolves table)
    (grows : table.Grows before)
    (grows' : table.Grows before')
    (later : (unit.rewrite set before).table.Grows last)
    (later' : (unit.rewrite set before').table.Grows last') :
    (unit.rewrite set before).Alike table last.display (unit.rewrite set before') last'.display :=
  ⟨(SourceUnit.result_eq set grows resolves).trans (SourceUnit.result_eq set grows' resolves).symm,
    SourceUnit.exists_renaming resolves grows grows' later later'⟩

/-- What depends on the units of a build and on their outcomes alike comes from the units. -/
theorem map_steps
    {γ : Type}
    {view : UnitOutcome → γ}
    {image : SourceUnit → γ}
    (resolve : ∀ unit ∈ units, unit.resolves table)
    (each : ∀ unit before, unit.resolves table → table.Grows before →
      (unit.rewrite set before).table.Grows (set.tableAfter units table) →
      view (unit.rewrite set before) = image unit) :
    (set.steps units table).map view = units.map image := by
  have steps := set.forall₂_steps (.refl table) resolve
  rw [← List.forall₂_eq_eq_eq, List.forall₂_map_left_iff, List.forall₂_map_right_iff]
  refine (List.Forall₂.imp ?_ steps).flip
  rintro unit done ⟨resolves, before, grows, rfl, later⟩
  exact each unit before resolves grows later

variable (set) in
/-- The report of a build is that of its units rewritten alone. -/
theorem report_rewriteAll (resolve : ∀ unit ∈ units, unit.resolves table) :
    (set.rewriteAll units table).report.counts =
        (units.map fun unit => (unit.rewrite set table).counts).sum ∧
      (set.rewriteAll units table).report.failures = (units.zipIdx.filterMap fun indexed =>
        (indexed.1.rewrite set table).failure? indexed.1.package indexed.2) ∧
      (set.rewriteAll units table).report.configuration = set.unresolved units table := by
  obtain ⟨-, -, counts, failures, configuration⟩ := set.rewriteAll_eq units table
  refine ⟨?_, ?_, ?_⟩
  · rw [counts, map_steps resolve fun unit before resolves grows _ => ?_]
    unfold UnitOutcome.counts
    rw [SourceUnit.result_eq set grows resolves]
  · have steps := set.forall₂_steps (.refl table) resolve
    have alone : ∀ step ∈ (units.zip (set.steps units table)).zipIdx,
        step.1.2.failure? step.1.1.package step.2 =
          (step.1.1.rewrite set table).failure? step.1.1.package step.2 := by
      intro step isStep
      obtain ⟨resolves, before, grows, isDone, -⟩ :=
        List.forall₂_zip steps (List.fst_mem_of_mem_zipIdx isStep)
      unfold UnitOutcome.failure?
      rw [isDone, SourceUnit.result_eq set grows resolves]
    have firsts : (units.zip (set.steps units table)).map Prod.fst = units :=
      List.map_fst_zip steps.length_eq.le
    rw [failures, List.filterMap_congr alone]
    conv_rhs => rw [← firsts, List.zipIdx_map, List.filterMap_map]
    rfl
  · rw [configuration]
    unfold unresolved
    dsimp only
    rw [List.flatMap_map, List.flatMap_def, map_steps resolve fun unit before resolves grows last =>
      SourceUnit.declaredPaths_rewrite grows resolves last, ← List.flatMap_def]

theorem unresolved_perm (perm : units.Perm units') :
    set.unresolved units table = set.unresolved units' table := by
  have same : (units.flatMap (SourceUnit.declaredPaths table)).Perm
      (units'.flatMap (SourceUnit.declaredPaths table)) :=
    perm.flatMap_right _
  unfold unresolved
  dsimp only
  congr 2
  funext activation
  rw [same.contains_eq]

end ActivationSet

/-- **Units of a build do not influence one another.** Where the table knows all symbols of
all units, a build does to each of its units what rewriting it alone does, and what a build
in any other order does: the result is the same, and resolved to text the trees are the same
up to a permutation that moves no text but names of temporaries. The report adds up the
counts of the units that succeed alone, and lists those that fail alone with their position,
package and problems. Counts and configuration are the same in any order. -/
theorem units_independent
    (set : ActivationSet)
    (units units' : List SourceUnit)
    (table : SymbolTable)
    (resolve : ∀ unit ∈ units, unit.resolves table)
    (perm : units.Perm units') :
    let outcome := set.rewriteAll units table
    let outcome' := set.rewriteAll units' table
    outcome.units = (set.steps units table).map UnitOutcome.unit ∧
      outcome'.units = (set.steps units' table).map UnitOutcome.unit ∧
      List.Forall₂ (fun unit done =>
          done.Alike table outcome.table.display
            (unit.rewrite set table) (unit.rewrite set table).table.display)
        units (set.steps units table) ∧
      (∀ unit done done',
        (unit, done) ∈ units.zip (set.steps units table) →
        (unit, done') ∈ units'.zip (set.steps units' table) →
        done.Alike table outcome.table.display done' outcome'.table.display) ∧
      outcome.report.counts = (units.map fun unit => (unit.rewrite set table).counts).sum ∧
      outcome'.report.counts = outcome.report.counts ∧
      outcome.report.failures = (units.zipIdx.filterMap fun indexed =>
        (indexed.1.rewrite set table).failure? indexed.1.package indexed.2) ∧
      outcome'.report.failures = (units'.zipIdx.filterMap fun indexed =>
        (indexed.1.rewrite set table).failure? indexed.1.package indexed.2) ∧
      outcome'.report.configuration = outcome.report.configuration := by
  intro outcome outcome'
  have resolve' : ∀ unit ∈ units', unit.resolves table :=
    fun unit isUnit => resolve unit (perm.mem_iff.mpr isUnit)
  obtain ⟨outcomeUnits, outcomeTable, -⟩ := set.rewriteAll_eq units table
  obtain ⟨outcomeUnits', outcomeTable', -⟩ := set.rewriteAll_eq units' table
  obtain ⟨counts, failures, configuration⟩ := set.report_rewriteAll resolve
  obtain ⟨counts', failures', configuration'⟩ := set.report_rewriteAll resolve'
  have steps := set.forall₂_steps (.refl table) resolve
  have steps' := set.forall₂_steps (.refl table) resolve'
  rw [← outcomeTable] at steps
  rw [← outcomeTable'] at steps'
  refine ⟨outcomeUnits, outcomeUnits', ?_, ?_, counts, ?_, failures, failures', ?_⟩
  · refine List.Forall₂.imp ?_ steps
    rintro unit done ⟨resolves, before, grows, rfl, later⟩
    exact ActivationSet.alike resolves grows (.refl table) later (.refl _)
  · intro unit done done' isStep isStep'
    obtain ⟨resolves, before, grows, rfl, later⟩ := List.forall₂_zip steps isStep
    obtain ⟨-, before', grows', rfl, later'⟩ := List.forall₂_zip steps' isStep'
    exact ActivationSet.alike resolves grows grows' later later'
  · rw [counts, counts']
    exact (perm.map _).sum_eq.symm
  · rw [configuration, configuration']
    exact (ActivationSet.unresolved_perm perm).symm

/-- A build of the unit and of its copy in a package without activations, where it fails. -/
theorem units_independent_of_two :
    let copy : SourceUnit := { Outcome.sampleUnit with package := ⟨["lib"]⟩ }
    let set : ActivationSet := .allInPackage "app"
    let outcome := set.rewriteAll [Outcome.sampleUnit, copy] Outcome.sampleTable
    let outcome' := set.rewriteAll [copy, Outcome.sampleUnit] Outcome.sampleTable
    outcome.report.counts = ⟨2, 1, 1, 1⟩ ∧
      outcome'.report.counts = ⟨2, 1, 1, 1⟩ ∧
      outcome.report.failures = [⟨1, ⟨["lib"]⟩, [
        .navigationDisabled ⟨["lib", "greet"]⟩ ⟨29, 43, 1, 30⟩,
        .navigationDisabled ⟨["lib", "greet"]⟩ ⟨29, 49, 1, 30⟩]⟩] ∧
      outcome'.report.failures = [⟨0, ⟨["lib"]⟩, [
        .navigationDisabled ⟨["lib", "greet"]⟩ ⟨29, 43, 1, 30⟩,
        .navigationDisabled ⟨["lib", "greet"]⟩ ⟨29, 49, 1, 30⟩]⟩] := by
  intro copy set outcome outcome'
  have succeeds : (Outcome.sampleUnit.rewrite set Outcome.sampleTable).result =
      .ok ⟨2, 1, 1, 1⟩ :=
    (SourceUnit.rewrite_result (by decide)).trans rfl
  have fails : (copy.rewrite set Outcome.sampleTable).result = .error [
      .navigationDisabled ⟨["lib", "greet"]⟩ ⟨29, 43, 1, 30⟩,
      .navigationDisabled ⟨["lib", "greet"]⟩ ⟨29, 49, 1, 30⟩] :=
    (SourceUnit.rewrite_result (by decide)).trans rfl
  obtain ⟨-, -, -, -, counts, counts', failures, failures', -⟩ :=
    units_independent set [Outcome.sampleUnit, copy] [copy, Outcome.sampleUnit]
      Outcome.sampleTable (by decide) (.swap copy Outcome.sampleUnit [])
  simp only [List.map_cons, List.map_nil, UnitOutcome.counts, succeeds, fails] at counts
  simp only [List.zipIdx_cons, List.zipIdx_nil, List.filterMap_cons, List.filterMap_nil,
    UnitOutcome.failure?, succeeds, fails] at failures failures'
  exact ⟨counts, counts'.trans counts, failures, failures'⟩

end NilSafety
