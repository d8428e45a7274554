import NilSafety.Proofs.Evaluation.Identities
import NilSafety.Proofs.Rewriting.OneFeature
import NilSafety.Proofs.Scope.Sets

/-!
Contract: wrapping of array literals changes only what literals construct.

Owns: that a unit rewritten for array wrapping alone evaluates, under the plain
rules, as the original one does under the rules by which a literal constructs a
checked array, up to a renaming of identities.

Does not own: the simulation, which is that of expressions and realizations.

A wrapped literal builds a plain array before it builds the checked one. The plain
array stays behind, and nothing refers to it, so the second heap has a surplus. The
containers that there were at the beginning keep their identities, and native functions
may know them.
-/

namespace NilSafety

namespace Arrays

/-- The runs ended alike up to a renaming of identities: with results that agree or
errors of the same kind at the same place, the same containers, and the same calls
of native functions. -/
structure RunsMatch
    {α : Type}
    (pairing : Pairing)
    (results : Pairing → α → α → Prop)
    (outcome outcome' : Flow α × Session) :
    Prop where
  isRenaming : pairing.IsRenaming
  flow : outcome.1.Matches pairing (results pairing) outcome'.1
  heap : outcome.2.machine.heap.Matches pairing outcome'.2.machine.heap
  calls : List.Forall₂ (NativeCall.Matches Pairing.IsRenaming pairing) outcome.2.machine.calls
    outcome'.2.machine.calls

/-- The comparison of the reference with the evaluation of what was wrapped, over
containers some of which are paired at the beginning. -/
def comparison
    (base : Pairing)
    (memory : Native.Memory)
    (table grown : SymbolTable)
    (grows : table.Later grown) :
    Comparison :=
  .renaming base memory .checking table grown grows (Function.Realizes .checking table grown)
    (by
      rintro f f' ⟨known, body, -, rfl⟩
      exact ⟨rfl, known⟩)

variable
  {base : Pairing}
  {memory : Native.Memory}
  {table grown : SymbolTable}
  {grows : table.Later grown}

theorem activationsAgree : (comparison base memory table grown grows).ActivationsAgree := by
  intro pairing context context' agree shape f f' receiver receiver' args args' site functions
    receivers arguments
  obtain ⟨known, body, realizes, rfl⟩ := functions
  exact Comparison.simulates_activate agree ⟨known, body, realizes, rfl⟩ trivial realizes receivers
    arguments site

/-- No invocation is refused here. -/
theorem runsMatch
    {α : Type}
    {pairing : Pairing}
    {results : Pairing → α → α → Prop}
    {outcome outcome' : Flow α × Session}
    (agree : (comparison base memory table grown grows).UsesMatch pairing results outcome
      outcome') :
    ∃ later, pairing ≤ later ∧ RunsMatch later results outcome outcome' ∧
      (comparison base memory table grown grows).SessionsMatch later outcome.2 outcome'.2 := by
  rcases agree with ⟨later, further, admitted, flows, sessions⟩ | stopped
  · have calls := sessions.machines.calls.each.imp fun _ _ holds =>
      holds.imp fun _ earlierAdmitted => earlierAdmitted.isRenaming
    exact ⟨later, further, ⟨admitted.isRenaming, flows, sessions.machines.heap, calls⟩, sessions⟩
  · obtain ⟨_, _, _, _, _, _, _, _, _, _, _, refused, _⟩ := stopped.refusal
    exact refused.elim

end Arrays

/-- Wrapping array literals changes only what literals construct. Rewriting a unit
without marked accesses, for array wrapping in all its declarations and nothing
else, succeeds. Loading the rewritten unit and then calling any function, or
evaluating any expression that was rewritten likewise, ends as it does for the
original one under the rules by which a literal constructs a checked array, within
every bound and up to a renaming of identities that keeps the containers there
were at the beginning. Native functions may answer these containers, and keep those
that they make or are given, if they cannot tell other identities. -/
theorem array_wrapping_changes_literals
    (set : ActivationSet)
    (arraysOnly : set.HoldsOnly .arrays)
    (unit : SourceUnit)
    (table : SymbolTable)
    (covers : ∀ place ∈ unit.places table, (set.featuresAt place).arrays)
    (unitResolves : unit.resolves table)
    (unmarked : ∀ body ∈ unit.bodies, body.isUnmarked)
    (place : Path)
    (features : FeatureSet)
    (wraps : features.arrays)
    (expr : Expr)
    (exprResolves : expr.resolves table)
    (exprUnmarked : expr.isUnmarked)
    (heap : Heap)
    (closed : heap.isClosed)
    (natives : List (String × Native))
    (oblivious : Native.AreOblivious heap natives)
    (loadBound : Nat) :
    let rewritten := unit.rewrite set table
    let hosted := Rewrite.body place features expr (.start rewritten.table)
    let reference := (Session.opened .checking table natives heap).load loadBound unit
    let actual := (Session.opened .plain hosted.2.table natives heap).load loadBound rewritten.unit
    (∃ counts, rewritten.result = .ok counts) ∧
      hosted.2.problems = [] ∧
      ∃ pairing, .self heap ≤ pairing ∧
        Arrays.RunsMatch pairing SameResult reference actual ∧
        ∀ bound,
          (∀ name args args', ListsMatch pairing args args' →
            ∃ later, pairing ≤ later ∧
              Arrays.RunsMatch later ValuesMatch (reference.2.call bound name args)
                (actual.2.call bound name args')) ∧
          ∃ later, pairing ≤ later ∧
            Arrays.RunsMatch later ValuesMatch (reference.2.evaluate bound expr)
              (actual.2.evaluate bound hosted.1) := by
  intro rewritten hosted reference actual
  have declsKnown := (SourceUnit.resolves_parts unitResolves).2.2
  have unguarded : ∀ member ∈ unit.members table, set.guards member = false :=
    fun member _ => arraysOnly.guards_eq_false (by decide) member
  have bodiesFit := SourceUnit.everywhere_of_resolves unitResolves unmarked
  have fits := Rewrite.fits_unmarked .checking table
  obtain ⟨counts, succeeds⟩ :=
    SourceUnit.rewrite_succeeds rfl fits covers unitResolves bodiesFit
  obtain ⟨base, related⟩ :=
    unit.rewrite_realizes fits covers unguarded unitResolves bodiesFit succeeds
  have hostSuits : Rewrite.Suits .checking features := wraps
  have hosting := Rewrite.yields_body place hostSuits fits
    (Expr.everywhere_and expr exprResolves exprUnmarked)
  have hostSucceeds : hosted.2.problems = [] := hosting.keeps rfl _ base
  have grows : rewritten.table.Later hosted.2.table := (hosting.advances _ base).table
  have hostRealizes : expr.Realizes .checking table hosted.2.table hosted.1 :=
    hosting.yields _ base hostSucceeds _ (.refl _)
  obtain ⟨memory, starts, carries⟩ := oblivious
  have activations : (Arrays.comparison (.self heap) memory table hosted.2.table
      (base.trans grows)).ActivationsAgree := Arrays.activationsAgree
  have opened := (Arrays.comparison (.self heap) memory table hosted.2.table
    (base.trans grows)).sessionsMatch_opened natives carries starts (Heap.matches_self closed)
  have admitted : (Pairing.self heap).IsRenamingOver (.self heap) :=
    ⟨le_refl _, _, _, Pairing.renames_self heap⟩
  have loads := Comparison.usesMatch_loadDecls activations admitted opened loadBound declsKnown
    (related hosted.2.table grows)
  obtain ⟨pairing, further, loadsMatch, sessions⟩ := Arrays.runsMatch loads
  refine ⟨⟨counts, succeeds⟩, hostSucceeds, pairing, further, loadsMatch, ?_⟩
  have admittedLoaded : (Pairing.self heap).IsRenamingOver pairing := ⟨further, loadsMatch.isRenaming⟩
  intro bound
  constructor
  · intro name args args' arguments
    obtain ⟨later, beyond, callsMatch, -⟩ := Arrays.runsMatch
      (Comparison.usesMatch_call activations admittedLoaded sessions bound name arguments)
    exact ⟨later, beyond, callsMatch⟩
  · obtain ⟨later, beyond, evaluatesMatch, -⟩ := Arrays.runsMatch
      (Comparison.usesMatch_evaluate activations admittedLoaded sessions bound hostRealizes)
    exact ⟨later, beyond, evaluatesMatch⟩

/-! ### A unit in which literals are wrapped -/

namespace Arrays

/-- The names of a unit with one function. -/
def sampleTable : SymbolTable :=
  (SymbolTable.empty.internAll ["pair", "x", "gather", "job", "keep"]).2

/-- A unit that declares `fn pair(x) { gather([[x], x], job(), keep(), keep()) }`. -/
def sampleUnit : SourceUnit where
  package := ⟨["app"]⟩
  decls := [.function {
    name := ⟨0⟩
    isStatic := false
    params := [⟨⟨1⟩, .inferred default, default⟩]
    result := none
    body := .block [] (some (.call (.ident ⟨2⟩ default) [
      .plain (.array [.array [.ident ⟨1⟩ default] default, .ident ⟨1⟩ default] default),
      .plain (.call (.ident ⟨3⟩ default) [] default),
      .plain (.call (.ident ⟨4⟩ default) [] default),
      .plain (.call (.ident ⟨4⟩ default) [] default)] default)) default
    visibility := .exposed
    span := default }]

/-- Containers with one plain array, which refers to itself. -/
def sampleHeap : Heap :=
  (Heap.empty.newArray #[.array 0]).2

/-- Native functions that answer that array, that hold on to an array of their own, and
that make an array of what they are given. -/
def sampleNatives : List (String × Native) :=
  [("keep", .keeper "keep"), ("job", .constant (.array 0)), ("gather", .gather)]

theorem areOblivious_sampleNatives : Native.AreOblivious sampleHeap sampleNatives := by
  apply Native.areOblivious_keeper
  intro entry member
  rcases List.mem_pair.mp member with rfl | rfl
  · exact ⟨by decide, Native.isOblivious_constant (by decide)⟩
  · exact ⟨by decide, Native.isOblivious_gather⟩

end Arrays

/-- Two plain arrays stay behind on the second side before native functions make
theirs. The array that there was at the beginning is the same on both sides. -/
theorem array_wrapping_changes_literals_of_pair :
    let rewritten := Arrays.sampleUnit.rewrite (.inPackage "app" .arrays) Arrays.sampleTable
    let hosted := Rewrite.body ⟨["app"]⟩ ⟨false, false, true⟩ (.array [] default)
      (.start rewritten.table)
    let opened := fun rules table =>
      Session.opened rules table Arrays.sampleNatives Arrays.sampleHeap
    let reference := ((opened .checking Arrays.sampleTable).load 1 Arrays.sampleUnit).2.call 2
      "pair" [.nil]
    let actual := ((opened .plain hosted.2.table).load 1 rewritten.unit).2.call 2 "pair" [.nil]
    (∃ pairing, Arrays.RunsMatch pairing ValuesMatch reference actual) ∧
      reference.1 = .next (.array 2) ∧
      reference.2.machine.heap.elements 2 =
        #[.checkedArray 1, .array 0, .array 1, .array 1] ∧
      actual.1 = .next (.array 4) ∧
      actual.2.machine.heap.elements 4 =
        #[.checkedArray 1, .array 0, .array 3, .array 3] := by
  have preserved := array_wrapping_changes_literals (.inPackage "app" .arrays) (by decide)
    Arrays.sampleUnit Arrays.sampleTable (by decide) (by decide) (by decide) ⟨["app"]⟩
    ⟨false, false, true⟩ rfl (.array [] default) (by decide) (by decide) Arrays.sampleHeap
    (by decide) Arrays.sampleNatives Arrays.areOblivious_sampleNatives 1
  obtain ⟨-, -, pairing, -, -, uses⟩ := preserved
  obtain ⟨later, -, agree⟩ := (uses 2).1 "pair" [.nil] [.nil] (.cons .nil .nil)
  exact ⟨⟨later, agree⟩, by decide +kernel, by decide +kernel, by decide +kernel,
    by decide +kernel⟩

end NilSafety
