import NilSafety.Proofs.Evaluation.Exact
import NilSafety.Proofs.Guards.Insertion
import NilSafety.Proofs.Rewriting.OneFeature

/-!
Contract: guards are transparent until nil arrives, and stop the run there.

Owns:
- for which parameter guards refuse an invocation of a function in its place, and
  which invocations they let pass;
- that activations of a function and of its guarded form agree, or the guarded one
  ends at once with the failure for that parameter;
- that whole runs of a unit and of the unit rewritten for guards alone go through the
  same invocations up to the first that is refused, and agree if none is.

Does not own: the meaning of single checks, and the simulation of bodies.

Functions of a unit that are alike may sit in different places, and guards go by the
place. So each invocation is compared together with the member that it is of.
Guards do not change a body, so a comparison of bodies compares each with itself.
-/

namespace NilSafety

/-- Without parameters that exclude nil, no argument is nil where it is excluded. -/
theorem Function.firstNil?_eq_none_of_guardedParams
    {table : SymbolTable}
    {f : Function}
    (noParams : f.guardedParams table = [])
    {args : List Value} :
    f.firstNil? table args = none := by
  rw [firstNil?_eq, Option.map_eq_none_iff, List.find?_eq_none]
  intro pair isPair
  have member := List.mem_filter.mp isPair
  have isParam : pair.1 ∈ f.guardedParams table :=
    List.mem_filter.mpr ⟨(List.of_mem_zip member.1).1, member.2⟩
  rw [noParams] at isParam
  cases isParam

/-- Arguments that agree are nil or absent alike. -/
theorem Function.firstNil?_congr
    {pairing : Pairing}
    (table : SymbolTable)
    (f : Function)
    {args args' : List Value}
    (arguments : ListsMatch pairing args args') :
    f.firstNil? table args' = f.firstNil? table args := by
  unfold firstNil?
  generalize f.params = params
  induction arguments generalizing params with
  | nil => rw [List.zip_nil_right]
  | @cons value value' rest rest' holds _ inductionHypothesis =>
      cases params with
      | nil => rfl
      | cons param params =>
          rw [List.zip_cons_cons, List.zip_cons_cons, List.find?_cons, List.find?_cons,
            holds.isNil_eq]
          cases decide (param.note.nullability table = .nonNullable) && value'.isNil with
          | true => rfl
          | false => exact inductionHypothesis params

namespace Guards

section

variable (set : ActivationSet) (unit : SourceUnit) (table : SymbolTable)

/-- `f'` is what guards make of a function in its place. -/
def Becomes (grown : SymbolTable) (member : Member) (f' : Function) : Prop :=
  if set.guards member then member.function.GuardedAs table grown member.place.path f'
  else f' = member.function

/-- The parameter for which guards refuse an invocation with these arguments: the first
one that excludes nil and got it, if the function is guarded in its place. -/
def refused? (member : Member) (args : List Value) : Option Param :=
  if set.guards member then member.function.firstNil? table args else none

/-- The failure that refuses an invocation names the parameter, the function in its
place, and the place of the call. -/
def refusal (member : Member) (param : Param) (site : Span) : EvalError :=
  .guardFailed (.ofParam table member.place.path param site)

/-- `f'` stands for a function of the unit, with the body it had. -/
structure Stands (grown : SymbolTable) (member : Member) (f' : Function) : Prop where
  inUnit : member ∈ unit.members table
  resolves : member.function.resolves table
  distinct : member.function.hasDistinctParams
  body : member.function.body.Realizes .plain table grown member.function.body
  becomes : Becomes set table grown member f'

/-- `f'` stands for `f`, in some place. -/
def StandsFor (grown : SymbolTable) (f f' : Function) : Prop :=
  ∃ member : Member, member.function = f ∧ Stands set unit table grown member f'

/-- `f'` stands for `f` in a place where guards let these arguments pass. -/
def Passes (grown : SymbolTable) (f : Function) (args : List Value) (f' : Function) : Prop :=
  ∃ member : Member, member.function = f ∧ Stands set unit table grown member f' ∧
    refused? set table member args = none

/-- The second invocation is of what stands for the function of the first one in a place
where guards refuse it with this error. -/
def Refuses (grown : SymbolTable) (invocation invocation' : Invocation) (error : EvalError) :
    Prop :=
  ∃ (member : Member) (param : Param), member.function = invocation.function ∧
    Stands set unit table grown member invocation'.function ∧
    refused? set table member invocation.args = some param ∧
    error = refusal table member param invocation.site

/-- The comparison of a unit with what guards make of it. -/
def comparison (grown : SymbolTable) (grows : table.Later grown) : Comparison :=
  .exact .plain rfl table grown grows (StandsFor set unit table grown)
    (by
      rintro f f' ⟨member, rfl, stands⟩
      have named := (Function.resolves_parts stands.resolves).1
      have becomes := stands.becomes
      unfold Becomes at becomes
      split at becomes
      · rcases becomes with ⟨-, rfl⟩ | ⟨symbols, -, rfl⟩ <;> exact ⟨rfl, named⟩
      · rw [becomes]
        exact ⟨rfl, named⟩)
    (Passes set unit table grown)
    (Refuses set unit table grown)

end

/-! ### Activations -/

section

variable
  {set : ActivationSet}
  {unit : SourceUnit}
  {table grown : SymbolTable}
  {grows : table.Later grown}
  {pairing : Pairing}
  {shape : List Layer}
  {context context' : Context}

/-- An activation of a guarded function agrees with one of the function without
guards, or is refused. -/
theorem simulates_guarded
    (agree : (comparison set unit table grown grows).ContextsMatch pairing context context')
    {member : Member}
    {symbols : GuardSymbols}
    (stands : Stands set unit table grown member { member.function with
      body := member.function.body.precededBy
        ((member.function.guardedParams table).map symbols.check) })
    (isGuarded : set.guards member)
    (reports : symbols.Reports grown member.place.path)
    {receiver receiver' : Option Value}
    (receivers : Option.Rel (Value.Matches pairing) receiver receiver')
    {args args' : List Value}
    (arguments : ListsMatch pairing args args')
    (site : Span) :
    (comparison set unit table grown grows).Simulates pairing shape ValuesMatch
      (context.activate member.function receiver args site)
      (context'.activate { member.function with
        body := member.function.body.precededBy
          ((member.function.guardedParams table).map symbols.check) } receiver' args' site) := by
  have functions : StandsFor set unit table grown member.function _ := ⟨member, rfl, stands⟩
  apply Comparison.simulates_activate_of_bodies agree functions rfl arguments site
  intro sameLength
  have sameLength' : args'.length = member.function.params.length :=
    arguments.length_eq.symm.trans sameLength
  have usesGrown : context'.program.table = grown := agree.programs.grown
  have reports' : symbols.Reports context'.program.table member.place.path := usesGrown ▸ reports
  have frames := Comparison.frame_matches agree.programs member.function.params receivers arguments
  have sameNil : member.function.firstNilIn? table
        (context'.program.frame member.function.params receiver' args') =
      refused? set table member args := by
    rw [Function.firstNilIn?_frame _ table stands.distinct receiver' sameLength',
      Function.firstNil?_congr table _ arguments, refused?, if_pos isGuarded]
  cases found : refused? set table member args with
  | none =>
      obtain ⟨body, same, form⟩ := Eval.inEnv_guarded_of_none reports' receiver' sameLength' site
        member.function.body (sameNil.trans found)
      have passes : Passes set unit table grown member.function args _ :=
        ⟨member, rfl, stands, found⟩
      dsimp only
      rw [same]
      apply Comparison.Simulates.asInvocation site functions passes receivers arguments
      apply Comparison.Simulates.inEnv frames
      apply Comparison.Simulates.duringCall site
      rcases form with rfl | rfl
      · exact Comparison.simulates_expr agree _ _ stands.body [.shared]
      · apply Comparison.Simulates.inBlockAdded
        exact Comparison.simulates_expr agree _ _ stands.body [.added, .shared]
  | some param =>
      have isParam : param ∈ member.function.guardedParams table :=
        List.mem_of_find?_eq_some (sameNil.trans found)
      have known := ((Function.resolves_parts stands.resolves).2.1 param
        (List.mem_of_mem_filter isParam)).1
      have shown : context'.program.table.display param.name = table.display param.name := by
        rw [usesGrown]
        exact grows.display_eq known
      have refused := Eval.inEnv_guarded_of_nil reports' receiver' sameLength' site
        member.function.body shown (sameNil.trans found)
      dsimp only
      rw [refused]
      apply Comparison.Simulates.asInvocationRefused functions receivers arguments
      · exact fun _ _ _ _ => ⟨member, param, rfl, stands, found, rfl⟩
      · exact .inEnv _ (.duringCall site (.expr agree.grows member.function.body))

theorem activationsAgree : (comparison set unit table grown grows).ActivationsAgree := by
  intro pairing context context' agree shape f f' receiver receiver' args args' site functions
    receivers arguments
  have functions : StandsFor set unit table grown f f' := functions
  obtain ⟨member, rfl, stands⟩ := functions
  have unchanged : f' = member.function → refused? set table member args = none →
      (comparison set unit table grown grows).Simulates pairing shape ValuesMatch
        (context.activate member.function receiver args site)
        (context'.activate f' receiver' args' site) := by
    intro same passes
    subst same
    exact Comparison.simulates_activate agree ⟨member, rfl, stands⟩ ⟨member, rfl, stands, passes⟩
      stands.body receivers arguments site
  have becomes := stands.becomes
  unfold Becomes at becomes
  split at becomes
  next isGuarded =>
    rcases becomes with ⟨noParams, same⟩ | ⟨symbols, reports, rfl⟩
    · refine unchanged same ?_
      rw [refused?, if_pos isGuarded, Function.firstNil?_eq_none_of_guardedParams noParams]
    · exact simulates_guarded agree stands isGuarded reports receivers arguments site
  next isUnguarded => exact unchanged becomes (if_neg isUnguarded)

end

/-! ### Units -/

/-- Rewriting a unit without marked accesses for guards alone succeeds, and makes
of its functions what stands for them. -/
theorem rewrite_stands
    {set : ActivationSet}
    (guardsOnly : set.HoldsOnly .guards)
    {unit : SourceUnit}
    {table : SymbolTable}
    (unitResolves : unit.resolves table)
    (unmarked : ∀ body ∈ unit.bodies, body.isUnmarked)
    (distinctParams : ∀ f ∈ unit.functions, f.hasDistinctParams) :
    (∃ counts, (unit.rewrite set table).result = .ok counts) ∧
      table.Later (unit.rewrite set table).table ∧
      List.Forall₂
        (Decl.Related (StandsFor set unit table (unit.rewrite set table).table)
          (fun value value' =>
            value.Realizes .plain table (unit.rewrite set table).table value'))
        unit.decls (unit.rewrite set table).unit.decls := by
  have functionsResolve := (SourceUnit.resolves_parts unitResolves).2.1
  have suits : ∀ place ∈ unit.places table, Rewrite.Suits .plain (set.featuresAt place) := by
    intro place _
    exact guardsOnly.enables_eq_false (by decide) place
  have bodiesFit := SourceUnit.everywhere_of_resolves unitResolves unmarked
  have fits := Rewrite.fits_unmarked .plain table
  obtain ⟨counts, succeeds⟩ :=
    SourceUnit.rewrite_succeeds rfl fits suits unitResolves bodiesFit
  obtain ⟨base, related⟩ := unit.rewrite_related fits suits unitResolves bodiesFit succeeds
  refine ⟨⟨counts, succeeds⟩, base, (related _ (.refl _)).imp fun decl decl' holds => ?_⟩
  apply holds.mono
  intro f f' becomes
  obtain ⟨member, inUnit, rfl, body, realizes, result⟩ := becomes
  have isListed : member.function ∈ unit.functions := SourceUnit.function_of_member inUnit
  have resolves := functionsResolve _ isListed
  have plainBody : member.function.body.isUnmarked :=
    unmarked _ (SourceUnit.body_of_function isListed)
  have sameBody : body = member.function.body := realizes.eq_of_unmarked rfl _ body plainBody
  subst sameBody
  refine ⟨member, rfl, inUnit, resolves, distinctParams _ isListed, realizes, ?_⟩
  unfold Becomes
  split at result
  next isGuarded =>
    obtain ⟨middle, grows, further, rfl⟩ := result
    rw [if_pos isGuarded]
    exact Function.guardedAs_withGuards resolves grows further
  next isUnguarded =>
    rw [if_neg isUnguarded]
    exact result

/-! ### Runs -/

/-- The invocations are of functions of the same name, at the same place, with the
same receiver and arguments, over the same containers, and after the same calls of
native functions. -/
structure SameInvocation (invocation invocation' : Invocation) : Prop where
  name : invocation.function.name = invocation'.function.name
  site : invocation.site = invocation'.site
  receiver : invocation.receiver = invocation'.receiver
  args : invocation.args = invocation'.args
  heap : invocation.heap = invocation'.heap
  calls : invocation.calls = invocation'.calls

/-- An invocation as both runs go through it, with the member of the unit that it is of. -/
structure Step where
  member : Member
  invocation : Invocation
  guarded : Invocation

section

variable (set : ActivationSet) (unit : SourceUnit) (table grown : SymbolTable)

/-- The parameter for which guards refuse the invocation. -/
def Step.refused? (step : Step) : Option Param :=
  Guards.refused? set table step.member step.invocation.args

/-- The first run invokes a function of the unit, and the second one, likewise, what
guards make of this function in its place. -/
structure Step.Holds (step : Step) : Prop where
  inUnit : step.member ∈ unit.members table
  function : step.invocation.function = step.member.function
  becomes : Becomes set table grown step.member step.guarded.function
  same : SameInvocation step.invocation step.guarded

/-- How a run of a unit and one of the unit with guards compare: the second one goes
through the same invocations as the first, up to one that guards refuse. -/
structure Compares {α : Type} (steps : List Step) (outcome outcome' : Flow α × Session) : Prop where
  holds : ∀ step ∈ steps, step.Holds set unit table grown
  original : steps.map Step.invocation <:+ outcome.2.machine.invocations
  guarded : steps.map Step.guarded = outcome'.2.machine.invocations
  /-- If they refuse none, there are no other invocations, and the runs end alike. -/
  transparent : (∀ step ∈ steps, step.refused? set table = none) →
    steps.map Step.invocation = outcome.2.machine.invocations ∧ OutcomesAgree outcome outcome'
  /-- One that they refuse is the latest, and they refuse none before it. The second run
  ends with their failure, and nothing happened to containers and native functions
  since. -/
  stops : ∀ step ∈ steps, ∀ param, step.refused? set table = some param →
    (∃ earlier, steps = step :: earlier ∧
        ∀ other ∈ earlier, other.refused? set table = none) ∧
      outcome'.1 = .error (refusal table step.member param step.invocation.site) ∧
      outcome'.2.machine.heap = step.invocation.heap ∧
      outcome'.2.machine.calls = step.invocation.calls

end

section

variable
  {set : ActivationSet}
  {unit : SourceUnit}
  {table grown : SymbolTable}
  {grows : table.Later grown}

theorem sameInvocation_of_matches
    {invocation invocation' : Invocation}
    (agree : invocation.Matches Pairing.IsIdentity
      (comparison set unit table grown grows).functions .identity invocation') :
    SameInvocation invocation invocation' := by
  obtain ⟨earlier, -, isIdentity, receivers, arguments, heaps, calls⟩ := agree.recorded
  cases isIdentity
  rw [Value.matches_identity_eq] at receivers
  have sameReceiver : invocation.receiver = invocation'.receiver := by
    generalize invocation.receiver = receiver at receivers ⊢
    generalize invocation'.receiver = receiver' at receivers ⊢
    cases receivers with
    | none => rfl
    | some same => exact congrArg some same
  have sameName := ((comparison set unit table grown grows).named agree.functions).1
  exact ⟨sameName.symm, agree.site, sameReceiver, Value.forall₂_matches_identity.mp arguments,
    Heap.matches_identity_iff.mp heaps, NativeCall.forall₂_matches_identity.mp calls⟩

/-- Invocations that agree and that guards let pass, step by step. -/
theorem exists_steps
    {invocations invocations' : List Invocation}
    (agree : List.Forall₂ ((comparison set unit table grown grows).InvocationsMatch .identity)
      invocations invocations') :
    ∃ steps : List Step,
      (∀ step ∈ steps, step.Holds set unit table grown ∧ step.refused? set table = none) ∧
        steps.map Step.invocation = invocations ∧
        steps.map Step.guarded = invocations' := by
  induction agree with
  | nil => exact ⟨[], List.forall_mem_nil _, rfl, rfl⟩
  | @cons invocation invocation' _ _ first _ inductionHypothesis =>
      obtain ⟨steps, each, rfl, rfl⟩ := inductionHypothesis
      obtain ⟨recorded, member, isFunction, stands, passes⟩ := first
      refine ⟨⟨member, invocation, invocation'⟩ :: steps, ?_, rfl, rfl⟩
      refine List.forall_mem_cons.mpr ⟨⟨?_, passes⟩, each⟩
      exact ⟨stands.inUnit, isFunction.symm, stands.becomes, sameInvocation_of_matches recorded⟩

/-- Uses that agree in the comparison compare so. -/
theorem compares_of_usesMatch
    {α : Type}
    {results : Pairing → α → α → Prop}
    (same : ∀ result result', results .identity result result' → result = result')
    {outcome outcome' : Flow α × Session}
    (agree : (comparison set unit table grown grows).UsesMatch .identity results outcome
      outcome') :
    ∃ steps, Compares set unit table grown steps outcome outcome' := by
  rcases agree with ⟨later, -, isIdentity, flows, sessions⟩ | stopped
  · cases isIdentity
    obtain ⟨steps, each, original, guarded⟩ := exists_steps sessions.machines.invocations
    refine ⟨steps, fun step isStep => (each step isStep).1, original ▸ List.suffix_refl _, guarded,
      fun _ => ⟨original, .of_matches rfl same flows sessions⟩, ?_⟩
    intro step isStep param refused
    rw [(each step isStep).2] at refused
    cases refused
  · obtain ⟨invocation, invocation', earlier, earlier', pairing, error, reached, recorded,
      isIdentity, agree, before, refuses, fails, heap, calls⟩ := stopped.refusal
    cases isIdentity
    obtain ⟨steps, each, rfl, rfl⟩ := exists_steps before
    obtain ⟨member, param, isFunction, stands, refused, rfl⟩ := refuses
    have alike := sameInvocation_of_matches agree
    let last : Step := ⟨member, invocation, invocation'⟩
    have holds : last.Holds set unit table grown :=
      ⟨stands.inUnit, isFunction.symm, stands.becomes, alike⟩
    have isRefused : last.refused? set table = some param := refused
    refine ⟨last :: steps, ?_, reached, recorded.symm, ?_, ?_⟩
    · exact List.forall_mem_cons.mpr ⟨holds, fun step isStep => (each step isStep).1⟩
    · intro passes
      rw [passes last List.mem_cons_self] at isRefused
      cases isRefused
    · intro step isStep param' refused'
      rcases List.mem_cons.mp isStep with rfl | isEarlier
      · obtain rfl : param = param' := Option.some.inj (isRefused.symm.trans refused')
        exact ⟨⟨steps, rfl, fun other isOther => (each other isOther).2⟩, fails,
          heap.trans alike.heap.symm, calls.trans alike.calls.symm⟩
      · rw [(each step isEarlier).2] at refused'
        cases refused'

namespace Compares

variable
  {α : Type}
  {steps : List Step}
  {outcome outcome' : Flow α × Session}
  (compares : Compares set unit table grown steps outcome outcome')

include compares

/-- The first run alone tells that the runs end alike: guards refuse none of its
invocations in any place of the function. -/
theorem transparent_of_original
    (passes : ∀ invocation ∈ outcome.2.machine.invocations, ∀ member ∈ unit.members table,
      member.function = invocation.function →
        Guards.refused? set table member invocation.args = none) :
    OutcomesAgree outcome outcome' := by
  refine (compares.transparent fun step isStep => ?_).2
  have holds := compares.holds step isStep
  have isReached : step.invocation ∈ outcome.2.machine.invocations :=
    compares.original.mem (List.mem_map_of_mem isStep)
  exact passes step.invocation isReached step.member holds.inUnit holds.function.symm

/-- The first run alone tells that the second one is stopped: guards refuse one of its
invocations in every place of the function. -/
theorem stops_of_original
    {invocation : Invocation}
    (isReached : invocation ∈ outcome.2.machine.invocations)
    (refused : ∀ member ∈ unit.members table, member.function = invocation.function →
      Guards.refused? set table member invocation.args ≠ none) :
    ∃ step ∈ steps, step.refused? set table ≠ none := by
  by_contra passes
  simp only [not_exists, not_and, not_not] at passes
  rw [← (compares.transparent passes).1] at isReached
  obtain ⟨step, isStep, rfl⟩ := List.mem_map.mp isReached
  have holds := compares.holds step isStep
  exact refused step.member holds.inUnit holds.function.symm (passes step isStep)

end Compares

end

end Guards

/-- Guards are transparent until nil arrives, and stop the run there. Rewriting a
unit without marked accesses for guards alone succeeds. Then loading it and calling
any function, with any native functions, over any containers and within every
bound, ends as for the original unit, if guards let all invocations pass; otherwise
it ends at the first one that they refuse, with their failure and before anything of
the function's own body. It goes by the place of each function, also where others are
alike. -/
theorem guards_stop_at_first_nil
    (set : ActivationSet)
    (guardsOnly : set.HoldsOnly .guards)
    (unit : SourceUnit)
    (table : SymbolTable)
    (unitResolves : unit.resolves table)
    (unmarked : ∀ body ∈ unit.bodies, body.isUnmarked)
    (distinctParams : ∀ f ∈ unit.functions, f.hasDistinctParams) :
    let rewritten := unit.rewrite set table
    (∃ counts, rewritten.result = .ok counts) ∧
      ∀ natives heap loadBound bound name args,
        ∃ steps, Guards.Compares set unit table rewritten.table steps
          ((Session.opened .plain table natives heap).loadThenCall loadBound unit bound name args)
          ((Session.opened .plain rewritten.table natives heap).loadThenCall loadBound
            rewritten.unit bound name args) := by
  intro rewritten
  obtain ⟨succeeds, grows, related⟩ :=
    Guards.rewrite_stands guardsOnly unitResolves unmarked distinctParams
  refine ⟨succeeds, ?_⟩
  intro natives heap loadBound bound name args
  have declsKnown := (SourceUnit.resolves_parts unitResolves).2.2
  have sameHeap : heap.Matches .identity heap := Heap.matches_identity_iff.mpr rfl
  have opened := (Guards.comparison set unit table rewritten.table grows).sessionsMatch_opened
    natives (fun entry _ => Native.carries_identity entry.1 entry.2) trivial sameHeap
  have arguments : ListsMatch .identity args args := Value.forall₂_matches_identity.mpr rfl
  have runs := Comparison.usesMatch_loadThenCall Guards.activationsAgree rfl opened declsKnown
    related loadBound bound name arguments
  exact Guards.compares_of_usesMatch (fun _ _ => Value.matches_identity_iff.mp) runs

/-! ### Equal methods in two places -/

namespace Guards

/-- The names of a unit with two records and two functions. -/
def sampleTable : SymbolTable :=
  (SymbolTable.empty.internAll
    ["greet", "person", "Person", "name", "Open", "Shut", "open", "shut", "x"]).2

/-- A method `fn greet(person: Person) { person.name }`. -/
def sampleMethod : Function where
  name := ⟨0⟩
  isStatic := true
  params := [⟨⟨1⟩, .named ⟨2⟩ default, default⟩]
  result := none
  body := .block [] (some (.field (.ident ⟨1⟩ default) ⟨3⟩ false default)) default
  visibility := .exposed
  span := default

/-- A function of `x` that calls the method of a record. -/
def sampleEntry (name record : Symbol) : Function where
  name := name
  isStatic := false
  params := [⟨⟨8⟩, .inferred default, default⟩]
  result := none
  body := .block [] (some (.call (.path [record, ⟨0⟩] default) [.plain (.ident ⟨8⟩ default)]
    default)) default
  visibility := .exposed
  span := default

/-- A unit in which the records `Open` and `Shut` have the same method, which the functions
`open` and `shut` call. -/
def sampleUnit : SourceUnit where
  package := ⟨["app"]⟩
  decls := [.record ⟨4⟩ [] [sampleMethod] .exposed default,
    .record ⟨5⟩ [] [sampleMethod] .exposed default,
    .function (sampleEntry ⟨6⟩ ⟨4⟩), .function (sampleEntry ⟨7⟩ ⟨5⟩)]

/-- Guards in `Shut` alone. -/
def sampleSet : ActivationSet where
  activations := [⟨⟨["app", "Shut"]⟩, true, .guards⟩]
  nodup := List.nodup_singleton _
  not_root := List.forall_mem_singleton.mpr rfl

end Guards

/-- The guard of `Shut.greet` stops the call of `shut`, and the same method in `Open` runs as
it did. -/
theorem guards_stop_at_first_nil_of_greet :
    let rewritten := Guards.sampleUnit.rewrite Guards.sampleSet Guards.sampleTable
    let original := fun name => (Session.opened .plain Guards.sampleTable [] .empty).loadThenCall 1
      Guards.sampleUnit 3 name [.nil]
    let guarded := fun name => (Session.opened .plain rewritten.table [] .empty).loadThenCall 1
      rewritten.unit 3 name [.nil]
    (∀ name, ∃ steps, Guards.Compares Guards.sampleSet Guards.sampleUnit Guards.sampleTable
        rewritten.table steps (original name) (guarded name)) ∧
      (original "open").1 = .error (.nullReference "name" default) ∧
      (guarded "open").1 = .error (.nullReference "name" default) ∧
      (original "shut").1 = .error (.nullReference "name" default) ∧
      (guarded "shut").1 = .error (.guardFailed ⟨"person", "app.Shut.greet", none⟩) := by
  have compares := guards_stop_at_first_nil Guards.sampleSet (by decide) Guards.sampleUnit
    Guards.sampleTable (by decide) (by decide) (by decide)
  exact ⟨fun name => compares.2 [] .empty 1 3 name [.nil], by decide +kernel, by decide +kernel,
    by decide +kernel, by decide +kernel⟩

end NilSafety
