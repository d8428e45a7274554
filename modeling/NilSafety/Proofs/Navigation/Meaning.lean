import NilSafety.Proofs.Evaluation.Exact
import NilSafety.Proofs.Rewriting.OneFeature
import NilSafety.Proofs.Scope.Sets

/-!
Contract: expansion of marked accesses preserves meaning.

Owns: that a unit rewritten for navigation alone evaluates, under the plain rules,
as the original one does under the rules by which a marked access skips nil.

Does not own: the simulation, which is that of expressions and realizations.

The reference evaluates the receiver of a marked access once. Where the receiver is
nil or absent it yields nil, without a look at the member or the arguments;
elsewhere it goes on as for an access without the mark.
-/

namespace NilSafety

namespace Navigation

/-- The check of a tree that is to be expanded: the table knows all its symbols,
and no assignment has a marked target. -/
theorem fits (table : SymbolTable) :
    Rewrite.Fits .navigating table
      (fun node => node.ownSymbols.all table.knows && true)
      (fun statement => statement.ownSymbols.all table.knows && !statement.assignsMarked) where
  symbols := by
    intro expr holds
    rwa [Bool.and_true] at holds
  marks := .inl rfl
  targets := by
    intro target value span holds _
    rw [Bool.and_eq_true, Bool.not_eq_true'] at holds
    exact holds.2

/-- The comparison of the reference with the evaluation of what was expanded. -/
def comparison (table grown : SymbolTable) (grows : table.Later grown) : Comparison :=
  .exact .navigating rfl table grown grows (Function.Realizes .navigating table grown)
    (by
      rintro f f' ⟨known, body, -, rfl⟩
      exact ⟨rfl, known⟩)
    (fun _ _ _ => True)
    (fun _ _ _ => False)

theorem activationsAgree (table grown : SymbolTable) (grows : table.Later grown) :
    (comparison table grown grows).ActivationsAgree := by
  intro pairing context context' agree shape f f' receiver receiver' args args' site functions
    receivers arguments
  obtain ⟨known, body, realizes, rfl⟩ := functions
  exact Comparison.simulates_activate agree ⟨known, body, realizes, rfl⟩ trivial realizes receivers
    arguments site

variable {table grown : SymbolTable} {grows : table.Later grown}

/-- No invocation is refused here, so uses that agree have the same outcome. -/
theorem outcomesAgree
    {α : Type}
    {results : Pairing → α → α → Prop}
    (same : ∀ result result', results .identity result result' → result = result')
    {outcome outcome' : Flow α × Session}
    (agree : (comparison table grown grows).UsesMatch .identity results outcome outcome') :
    OutcomesAgree outcome outcome' ∧
      (comparison table grown grows).SessionsMatch .identity outcome.2 outcome'.2 :=
  Comparison.outcomesAgree rfl (fun _ _ _ => id) same agree

theorem sessionsMatch_withHeap
    {session session' : Session}
    (agree : (comparison table grown grows).SessionsMatch .identity session session')
    (heap : Heap) :
    (comparison table grown grows).SessionsMatch .identity (session.withHeap heap)
      (session'.withHeap heap) :=
  Comparison.sessionsMatch_withHeap agree heap

end Navigation

/-- Rewriting for navigation alone preserves meaning. Loading the rewritten unit and
then calling any function over any containers, or evaluating any expression that
was rewritten likewise, ends as it does for the original one under the rules by
which marked accesses skip nil, within every bound: with the same value or an error
of the same kind at the same place, the same calls of native functions and the same
containers. An expression without marks is not changed. -/
theorem navigation_preserves_meaning
    (set : ActivationSet)
    (navigationOnly : set.HoldsOnly .navigation)
    (unit : SourceUnit)
    (table : SymbolTable)
    (unitResolves : unit.resolves table)
    (plainTargets : ∀ body ∈ unit.bodies, body.assignsPlainly)
    (counts : Counts)
    (succeeds : (unit.rewrite set table).result = .ok counts)
    (place : Path)
    (features : FeatureSet)
    (noArrays : features.arrays = false)
    (expr : Expr)
    (exprResolves : expr.resolves table)
    (exprPlainTargets : expr.assignsPlainly)
    (exprSucceeds :
      (Rewrite.body place features expr (.start (unit.rewrite set table).table)).2.problems = [])
    (natives : List (String × Native))
    (heap : Heap)
    (loadBound : Nat) :
    let rewritten := unit.rewrite set table
    let hosted := Rewrite.body place features expr (.start rewritten.table)
    let reference := (Session.opened .navigating table natives heap).load loadBound unit
    let actual := (Session.opened .plain hosted.2.table natives heap).load loadBound rewritten.unit
    OutcomesAgree reference actual ∧
      (expr.isUnmarked → hosted.1 = expr) ∧
      ∀ bound heap,
        (∀ name args,
          OutcomesAgree ((reference.2.withHeap heap).call bound name args)
            ((actual.2.withHeap heap).call bound name args)) ∧
        OutcomesAgree ((reference.2.withHeap heap).evaluate bound expr)
          ((actual.2.withHeap heap).evaluate bound hosted.1) := by
  intro rewritten hosted reference actual
  have declsKnown := (SourceUnit.resolves_parts unitResolves).2.2
  have suits : ∀ place ∈ unit.places table,
      Rewrite.Suits .navigating (set.featuresAt place) := by
    intro place _
    exact navigationOnly.enables_eq_false (by decide) place
  have unguarded : ∀ member ∈ unit.members table, set.guards member = false :=
    fun member _ => navigationOnly.guards_eq_false (by decide) member
  have bodiesFit := SourceUnit.everywhere_of_resolves unitResolves plainTargets
  obtain ⟨base, related⟩ :=
    unit.rewrite_realizes (Navigation.fits table) suits unguarded unitResolves bodiesFit succeeds
  have hostSuits : Rewrite.Suits .navigating features := noArrays
  have hosting := Rewrite.yields_body place hostSuits (Navigation.fits table)
    (Expr.everywhere_and expr exprResolves exprPlainTargets)
  have grows : rewritten.table.Later hosted.2.table := (hosting.advances _ base).table
  have hostRealizes : expr.Realizes .navigating table hosted.2.table hosted.1 :=
    hosting.yields _ base exprSucceeds _ (.refl _)
  have activations := Navigation.activationsAgree table hosted.2.table (base.trans grows)
  have sameHeap : heap.Matches .identity heap := Heap.matches_identity_iff.mpr rfl
  have opened := Comparison.sessionsMatch_opened
    (Navigation.comparison table hosted.2.table (base.trans grows)) natives
    (fun entry _ => Native.carries_identity entry.1 entry.2) trivial sameHeap
  have loads := Comparison.usesMatch_loadDecls activations rfl opened loadBound declsKnown
    (related hosted.2.table grows)
  obtain ⟨loadsAgree, sessions⟩ := Navigation.outcomesAgree (fun _ _ same => same) loads
  refine ⟨loadsAgree, hostRealizes.eq_of_unmarked rfl expr hosted.1, ?_⟩
  intro bound heap
  have between := Navigation.sessionsMatch_withHeap sessions heap
  constructor
  · intro name args
    have arguments : ListsMatch .identity args args := Value.forall₂_matches_identity.mpr rfl
    exact (Navigation.outcomesAgree (fun _ _ => Value.matches_identity_iff.mp)
      (Comparison.usesMatch_call activations rfl between bound name arguments)).1
  · exact (Navigation.outcomesAgree (fun _ _ => Value.matches_identity_iff.mp)
      (Comparison.usesMatch_evaluate activations rfl between bound hostRealizes)).1

/-! ### A unit in which a marked access skips nil -/

namespace Navigation

/-- The names of a unit with one function. -/
def sampleTable : SymbolTable :=
  (SymbolTable.empty.internAll ["greet", "person", "name"]).2

/-- A unit that declares `fn greet(person) { person?.name }`. -/
def sampleUnit : SourceUnit where
  package := ⟨["app"]⟩
  decls := [.function {
    name := ⟨0⟩
    isStatic := false
    params := [⟨⟨1⟩, .inferred default, default⟩]
    result := none
    body := .block [] (some (.field (.ident ⟨1⟩ default) ⟨2⟩ true default)) default
    visibility := .exposed
    span := default }]

end Navigation

theorem navigation_preserves_meaning_of_greet :
    let rewritten := Navigation.sampleUnit.rewrite (.inPackage "app" .navigation)
      Navigation.sampleTable
    let hosted := Rewrite.body ⟨["app"]⟩ ⟨true, false, false⟩
      (.field (.nil default) ⟨2⟩ true default) (.start rewritten.table)
    let reference := (Session.opened .navigating Navigation.sampleTable [] .empty).load 1
      Navigation.sampleUnit
    let actual := (Session.opened .plain hosted.2.table [] .empty).load 1 rewritten.unit
    OutcomesAgree ((reference.2.withHeap .empty).call 2 "greet" [.nil])
        ((actual.2.withHeap .empty).call 2 "greet" [.nil]) ∧
      ((reference.2.withHeap .empty).call 2 "greet" [.nil]).1 = .next .nil := by
  have preserved := navigation_preserves_meaning (.inPackage "app" .navigation) (by decide)
    Navigation.sampleUnit Navigation.sampleTable (by decide) (by decide) ⟨1, 0, 0, 0⟩
    (by with_unfolding_all rfl) ⟨["app"]⟩ ⟨true, false, false⟩ rfl
    (.field (.nil default) ⟨2⟩ true default) (by decide) (by decide) (by with_unfolding_all rfl)
    [] .empty 1
  exact ⟨(preserved.2.2 2 .empty).1 "greet" [.nil], by decide⟩

end NilSafety
