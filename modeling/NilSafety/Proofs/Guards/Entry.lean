import NilSafety.Proofs.Evaluation.Laws
import NilSafety.Proofs.Guards.Placement
import NilSafety.Proofs.Navigation.NullLinks

/-!
Contract: what has arrived when the body behind guards is reached.

Owns:
- how an activation of a function with checks begins: with a failure if a parameter
  whose note excludes nil is nil or absent, else with the body that the checks stand
  before;
- that in every run only the newest invocation can be one that checks refused, and then
  the run ended with their failure and did nothing since;
- that of the values of such parameters only present nils behave as nil in a body.

Does not own: units compared with and without guards.

A check compares with nil by host equality, to which a present nil is not equal. It
passes the checks, therefore, although accesses to its members stand on nil.
-/

namespace NilSafety

/-- The first parameter of an activation whose note excludes nil and whose variable is
nil or absent. -/
def Program.nilParam?
    (program : Program)
    (f : Function)
    (receiver : Option Value)
    (args : List Value) :
    Option Param :=
  f.firstNilIn? program.table (program.frame f.params receiver args)

/-! ### Activations -/

/-- How activations of a function begin whose body is `walked` behind checks. -/
structure Function.BeginsChecked
    (context : Context)
    (path : Path)
    (walked : Expr)
    (f : Function) :
    Prop where
  /-- With a parameter nil or absent that must not be, the activation is the failure
  that reports the first one, and nothing else. -/
  refuses : ∀ receiver args site param,
    args.length = f.params.length →
    context.program.nilParam? f receiver args = some param →
    context.activate f receiver args site =
      Eval.asInvocation f receiver args site
        (Eval.fail (.guardFailed (.ofParam context.program.table path param site)))
  /-- Otherwise it is an activation of `walked`, over the same variables. -/
  enters : ∀ receiver args site,
    args.length = f.params.length →
    context.program.nilParam? f receiver args = none →
    ∃ inner : Eval Value,
      context.activate f receiver args site =
        Eval.asInvocation f receiver args site
          (Eval.inEnv (context.program.frame f.params receiver args)
            (Eval.duringCall site inner)) ∧
      (inner = Eval.expr context walked ∨ inner = Eval.inBlock (Eval.expr context walked))
  /-- There each of the checked parameters has a value, on which an access to a member
  stands on nil exactly if it is a present nil. -/
  admitted : ∀ receiver args,
    args.length = f.params.length →
    context.program.nilParam? f receiver args = none →
    ∀ param ∈ f.guardedParams context.program.table,
      ∃ value, (context.program.frame f.params receiver args).get? param.name = some value ∧
        ∀ heap name span,
          Member.readField context.program.table heap value name span =
              .error (.nullReference (context.program.table.display name) span) ↔
            value.isPresentNil

theorem Program.exists_of_nilParam?_eq_none
    {program : Program}
    {f : Function}
    {receiver : Option Value}
    {args : List Value}
    (sameLength : args.length = f.params.length)
    (none : program.nilParam? f receiver args = none)
    {param : Param}
    (isGuarded : param ∈ f.guardedParams program.table) :
    ∃ value, (program.frame f.params receiver args).get? param.name = some value ∧
      value.isNil = false := by
  obtain ⟨value, isBound⟩ := program.exists_get?_frame receiver sameLength
    (List.mem_of_mem_filter isGuarded)
  have passes := List.find?_eq_none.mp none param isGuarded
  rw [isBound, Option.any_some, Bool.not_eq_true] at passes
  exact ⟨value, isBound, passes⟩

theorem Function.Checks.begins
    {context : Context}
    {path : Path}
    {walked : Expr}
    {f : Function}
    (checks : f.Checks context.program.table path walked) :
    f.BeginsChecked context path walked where
  refuses := by
    intro receiver args site param sameLength found
    rcases checks with ⟨noParams, -⟩ | ⟨symbols, reports, body⟩
    · have isGuarded : param ∈ f.guardedParams context.program.table :=
        List.mem_of_find?_eq_some found
      rw [noParams] at isGuarded
      cases isGuarded
    · unfold Context.activate
      rw [if_pos sameLength, body]
      exact congrArg (Eval.asInvocation f receiver args site)
        (Eval.inEnv_guarded_of_nil reports receiver sameLength site walked rfl found)
  enters := by
    intro receiver args site sameLength none
    unfold Context.activate
    rw [if_pos sameLength]
    rcases checks with ⟨-, body⟩ | ⟨symbols, reports, body⟩
    · rw [body]
      exact ⟨_, rfl, .inl rfl⟩
    · rw [body]
      obtain ⟨inner, same, form⟩ :=
        Eval.inEnv_guarded_of_none reports receiver sameLength site walked none
      exact ⟨inner, congrArg (Eval.asInvocation f receiver args site) same, form⟩
  admitted := by
    intro receiver args sameLength none param isGuarded
    obtain ⟨value, isBound, notNil⟩ :=
      Program.exists_of_nilParam?_eq_none sameLength none isGuarded
    refine ⟨value, isBound, fun heap name span => ?_⟩
    rw [Member.readField_refused_iff, value.isNil_core, notNil, Bool.false_or]

/-! ### Runs -/

namespace Guards

/-- If the function has checks, they let the activation pass. -/
def Admits
    (program : Program)
    (f : Function)
    (receiver : Option Value)
    (args : List Value) :
    Prop :=
  ∀ path walked, f.Checks program.table path walked → program.nilParam? f receiver args = none

/-- The checks of an invocation refused it, the computation ended with their failure,
and nothing happened to containers and native functions since. -/
structure Refused
    (program : Program)
    {α : Type}
    (invocation : Invocation)
    (outcome : Flow α × Machine) :
    Prop where
  failure : ∃ path walked param,
    invocation.function.Checks program.table path walked ∧
      program.nilParam? invocation.function invocation.receiver invocation.args = some param ∧
      outcome.1 = .error (.guardFailed (.ofParam program.table path param invocation.site))
  heap : outcome.2.heap = invocation.heap
  calls : outcome.2.calls = invocation.calls

/-- Of the invocations recorded after the earlier ones, checks refused none, or only the
newest one. -/
inductive Entries
    (program : Program)
    (earlier : List Invocation)
    {α : Type}
    (outcome : Flow α × Machine) :
    Prop
  | all (added : List Invocation)
      (recorded : outcome.2.invocations = added ++ earlier)
      (admitted : ∀ each ∈ added, Admits program each.function each.receiver each.args)
  | butNewest (newest : Invocation) (added : List Invocation)
      (recorded : outcome.2.invocations = newest :: added ++ earlier)
      (admitted : ∀ each ∈ added, Admits program each.function each.receiver each.args)
      (refused : Refused program newest outcome)

namespace Entries

variable
  {program : Program}
  {earlier : List Invocation}
  {α β : Type}
  {outcome : Flow α × Machine}

/-- Only errors count among the endings, and only containers and records in the
machine. -/
theorem transfer
    (entries : Entries program earlier outcome)
    {outcome' : Flow β × Machine}
    (errors : ∀ error, outcome.1 = .error error → outcome'.1 = .error error)
    (heap : outcome'.2.heap = outcome.2.heap)
    (calls : outcome'.2.calls = outcome.2.calls)
    (invocations : outcome'.2.invocations = outcome.2.invocations) :
    Entries program earlier outcome' := by
  cases entries with
  | all added recorded admitted => exact .all added (invocations.trans recorded) admitted
  | butNewest newest added recorded admitted refused =>
      obtain ⟨path, walked, param, checks, found, fails⟩ := refused.failure
      exact .butNewest newest added (invocations.trans recorded) admitted
        ⟨⟨path, walked, param, checks, found, errors _ fails⟩, heap.trans refused.heap,
          calls.trans refused.calls⟩

/-- Invocations that were admitted before do not matter. -/
theorem after
    {before : List Invocation}
    (admittedBefore : ∀ each ∈ before, Admits program each.function each.receiver each.args)
    (entries : Entries program (before ++ earlier) outcome) :
    Entries program earlier outcome := by
  have both : ∀ added : List Invocation,
      (∀ each ∈ added, Admits program each.function each.receiver each.args) →
      ∀ each ∈ added ++ before, Admits program each.function each.receiver each.args := by
    intro added admitted each isEach
    rcases List.mem_append.mp isEach with isAdded | isBefore
    · exact admitted each isAdded
    · exact admittedBefore each isBefore
  cases entries with
  | all added recorded admitted =>
      refine .all (added ++ before) ?_ (both added admitted)
      rw [recorded, List.append_assoc]
  | butNewest newest added recorded admitted refused =>
      refine .butNewest newest (added ++ before) ?_ (both added admitted) refused
      rw [recorded, List.cons_append, List.cons_append, List.append_assoc]

end Entries

/-- A computation in which checks refuse no invocation but one that ends it. -/
def Kept (program : Program) {α : Type} (computation : Eval α) : Prop :=
  ∀ machine : Machine, Entries program machine.invocations (computation machine)

namespace Kept

variable {program : Program} {α β : Type}

theorem quiet
    {computation : Eval α}
    (same : ∀ machine : Machine, (computation machine).2.invocations = machine.invocations) :
    Kept program computation :=
  fun machine => .all [] (same machine) nofun

theorem bind
    {first : Eval α}
    {rest : α → Eval β}
    (keptFirst : Kept program first)
    (keptRest : ∀ value, Kept program (rest value)) :
    Kept program (first >>= rest) := by
  intro machine
  have start := keptFirst machine
  show Entries program machine.invocations (first.andThen rest machine)
  unfold Eval.andThen
  rcases ran : first machine with ⟨flow, middle⟩
  rw [ran] at start
  -- A refused invocation ended the first computation, so that the rest never starts.
  cases flow with
  | next value =>
      cases start with
      | all added recorded admitted =>
          have others := keptRest value middle
          rw [show middle.invocations = added ++ machine.invocations from recorded] at others
          exact others.after admitted
      | butNewest newest added recorded admitted refused =>
          obtain ⟨path, walked, param, checks, found, fails⟩ := refused.failure
          cases fails
  | error error => exact start.transfer (fun _ fails => by cases fails; rfl) rfl rfl rfl
  | ret | exhausted => exact start.transfer (fun _ fails => by cases fails) rfl rfl rfl

theorem inBlock {computation : Eval α} (kept : Kept program computation) :
    Kept program (Eval.inBlock computation) :=
  fun machine => (kept { machine with env := machine.env.push }).transfer
    (fun _ fails => fails) rfl rfl rfl

theorem inEnv (env : Env) {computation : Eval Value} (kept : Kept program computation) :
    Kept program (Eval.inEnv env computation) :=
  fun machine => (kept { machine with env }).transfer
    (fun _ fails => congrArg Flow.finish fails) rfl rfl rfl

theorem duringCall (site : Span) {computation : Eval α} (kept : Kept program computation) :
    Kept program (Eval.duringCall site computation) :=
  fun machine => (kept { machine with callSites := site :: machine.callSites }).transfer
    (fun _ fails => fails) rfl rfl rfl

theorem callNative (name : String) (native : Native) (args : List Value) :
    Kept program (Eval.callNative name native args) := by
  apply quiet
  intro machine
  unfold Eval.callNative
  rcases native.respond machine.calls args machine.heap with ⟨answer, heap⟩
  cases answer with
  | ok | error => rfl

/-- Invoking what is admitted is no different from its body. -/
theorem asInvocation
    {f : Function}
    {receiver : Option Value}
    {args : List Value}
    (admits : Admits program f receiver args)
    (site : Span)
    {computation : Eval α}
    (kept : Kept program computation) :
    Kept program (Eval.asInvocation f receiver args site computation) := by
  intro machine
  let invocation : Invocation := ⟨f, receiver, args, site, machine.heap, machine.calls⟩
  have within : Entries program ([invocation] ++ machine.invocations)
      (Eval.asInvocation f receiver args site computation machine) :=
    kept { machine with invocations := invocation :: machine.invocations }
  apply within.after
  intro each isEach
  rw [List.mem_singleton.mp isEach]
  exact admits

variable (program) in
/-- That checks refuse no invocation but one that ends the computation is a law. -/
def law : Eval.Law where
  holds := Kept program
  quiet same := quiet fun machine => (same machine).2
  bind := bind
  inBlock := inBlock
  callNative := callNative

/-- An activation is admitted, or its checks refuse it and it ends. -/
theorem activate
    (context : Context)
    (invokes : (law context.program).Invokes context)
    (f : Function)
    (receiver : Option Value)
    (args : List Value)
    (site : Span) :
    Kept context.program (context.activate f receiver args site) := by
  by_cases sameLength : args.length = f.params.length
  · by_cases admits : Admits context.program f receiver args
    · unfold Context.activate
      rw [if_pos sameLength]
      exact .asInvocation admits site
        (.inEnv _ (.duringCall site (Eval.Law.expr invokes f.body)))
    · -- The function has checks that do not pass: its activation is their failure.
      simp only [Admits, not_forall] at admits
      obtain ⟨path, walked, checks, isNil⟩ := admits
      obtain ⟨param, found⟩ := Option.ne_none_iff_exists'.mp isNil
      intro machine
      rw [checks.begins.refuses receiver args site param sameLength found]
      exact .butNewest ⟨f, receiver, args, site, machine.heap, machine.calls⟩ [] rfl nofun
        ⟨⟨path, walked, param, checks, found, rfl⟩, rfl, rfl⟩
  · unfold Context.activate
    rw [if_neg sameLength]
    exact (law context.program).fail _

theorem invokeWithin
    (program : Program)
    (rules : Rules)
    (bound : Nat)
    (f : Function)
    (receiver : Option Value)
    (args : List Value)
    (site : Span) :
    Kept program (program.invokeWithin rules bound f receiver args site) := by
  induction bound generalizing f receiver args site with
  | zero => exact (law program).exhausted
  | succ bound inductionHypothesis =>
      exact activate (program.context rules bound) inductionHypothesis f receiver args site

theorem call
    (program : Program)
    (rules : Rules)
    (bound : Nat)
    (name : String)
    (args : List Value) :
    Kept program (program.call rules bound name args) :=
  have invokes : (law program).Invokes (program.context rules bound) :=
    invokeWithin program rules bound
  Eval.Law.callNamed invokes name args .generated

theorem evaluate (program : Program) (rules : Rules) (bound : Nat) (expr : Expr) :
    Kept program (program.evaluate rules bound expr) :=
  have invokes : (law program).Invokes (program.context rules bound) :=
    invokeWithin program rules bound
  inEnv .start (Eval.Law.expr invokes expr)

end Kept

/-! ### Units -/

/-- What became of a function that is to be guarded, in every program over the last
table: its body is what the walk made of the original one, behind checks of the
parameters whose notes exclude nil, and its activations begin accordingly. -/
structure EntersChecked
    (set : ActivationSet)
    (table last : SymbolTable)
    (member : Member)
    (walked : Expr)
    (f' : Function) :
    Prop where
  walk : ∃ before : Progress,
    (Rewrite.body member.place.path (set.featuresAt member.place) member.function.body
      before).1 = walked
  params : f'.guardedParams last = member.function.guardedParams table
  checks : f'.Checks last member.place.path walked
  begins : ∀ (program : Program) (rules : Rules) (bound : Nat), program.table = last →
    f'.BeginsChecked (program.context rules bound) member.place.path walked

/-- What became of a function, guarded or not. -/
structure Enters
    (set : ActivationSet)
    (table last : SymbolTable)
    (member : Member)
    (f' : Function) :
    Prop where
  becomes : member.Becomes set last f'
  guarded : set.guards member → ∃ walked, EntersChecked set table last member walked f'

theorem enters_of_becomes
    {set : ActivationSet}
    {table last : SymbolTable}
    (grows : table.AddsNoWrapper last)
    {member : Member}
    {f' : Function}
    (becomes : member.Becomes set last f') :
    Enters set table last member f' := by
  refine ⟨becomes, fun isGuarded => ?_⟩
  obtain ⟨walked, before, walk, same, behind⟩ := becomes
  rw [if_pos isGuarded] at behind
  have params : f'.guardedParams last = member.function.guardedParams table := by
    rw [same, ← Function.guardedParams_eq_of_addsNoWrapper grows]
    rfl
  refine ⟨walked, ⟨before, walk⟩, params, behind, fun program rules bound sameTable => ?_⟩
  subst sameTable
  exact behind.begins

end Guards

/-- **What enters a guarded body.** In a unit that was rewritten with guards and whatever
other features, in every program over its table or one that grew from it by further
rewriting, with any native functions: a guarded function is refused an activation in which
a parameter whose note excludes nil is nil or absent, with a failure before anything of
its own body. Otherwise its body begins, and of the values of these parameters exactly the
present nils behave as nil there. In every run of a program, only the newest invocation
can be one that checks refused, and then the run ended so. -/
theorem guarded_body_sees_only_presentNil
    (set : ActivationSet)
    (unit : SourceUnit)
    (table : SymbolTable)
    (last : SymbolTable)
    (grows : (unit.rewrite set table).table.AddsNoWrapper last) :
    (∃ members : List Member,
      members.map Member.function = unit.functions ∧
      (unit.resolves table → members = unit.members table) ∧
      List.Forall₂ (Guards.Enters set table last) members
        (unit.rewrite set table).unit.functions) ∧
      ∀ (program : Program) (rules : Rules) (bound : Nat) (machine : Machine),
        (∀ name args, Guards.Entries program machine.invocations
          (program.call rules bound name args machine)) ∧
        ∀ expr, Guards.Entries program machine.invocations
          (program.evaluate rules bound expr machine) := by
  obtain ⟨growsFirst, become⟩ := unit.rewrite_becomes set table
  obtain ⟨members, areFunctions, places, become⟩ := become last grows
  refine ⟨⟨members, areFunctions, places, become.imp fun _ _ =>
    Guards.enters_of_becomes (growsFirst.trans grows)⟩, ?_⟩
  intro program rules bound machine
  exact ⟨fun name args => Guards.Kept.call program rules bound name args machine,
    fun expr => Guards.Kept.evaluate program rules bound expr machine⟩

/-! ### A nil that was stored in a checked array -/

namespace Guards

/-- The names of a unit with two functions. -/
def entryTable : SymbolTable :=
  (SymbolTable.empty.internAll ["greet", "person", "Person", "name", "run"]).2

/-- A unit that declares `fn greet(person: Person) { person.name }` and
`fn run() { greet([nil][0]) }`. -/
def entryUnit : SourceUnit where
  package := ⟨["app"]⟩
  decls := [
    .function {
      name := ⟨0⟩
      isStatic := false
      params := [⟨⟨1⟩, .named ⟨2⟩ default, default⟩]
      result := none
      body := .block [] (some (.field (.ident ⟨1⟩ default) ⟨3⟩ false default)) default
      visibility := .exposed
      span := default },
    .function {
      name := ⟨4⟩
      isStatic := false
      params := []
      result := none
      body := .block [] (some (.call (.ident ⟨0⟩ default)
        [.plain (.index (.array [.nil default] default) (.int 0 default) default)]
        default)) default
      visibility := .exposed
      span := default }]

/-- The unit, rewritten with every feature. -/
def entryRewritten : UnitOutcome :=
  entryUnit.rewrite (.allInPackage "app") entryTable

/-- The rewritten unit, loaded. -/
def entrySession : Session :=
  ((Session.start entryRewritten.table .empty).load 1 entryRewritten.unit).2

end Guards

theorem guarded_body_sees_only_presentNil_of_greet :
    (∃ members : List Member,
      members.map Member.function = Guards.entryUnit.functions ∧
      members = Guards.entryUnit.members Guards.entryTable ∧
      List.Forall₂
        (Guards.Enters (.allInPackage "app") Guards.entryTable Guards.entryRewritten.table)
        members Guards.entryRewritten.unit.functions) ∧
      Guards.Entries Guards.entrySession.program []
        (Guards.entrySession.program.call .plain 2 "greet" [.nil] (.start .empty)) ∧
      (Guards.entrySession.call 2 "greet" [.nil]).1 =
        .error (.guardFailed ⟨"person", "app.greet", none⟩) := by
  obtain ⟨⟨members, areFunctions, places, enter⟩, kept⟩ :=
    guarded_body_sees_only_presentNil (.allInPackage "app") Guards.entryUnit Guards.entryTable
      Guards.entryRewritten.table (.refl _)
  have ended := (kept Guards.entrySession.program .plain 2 (.start .empty)).1 "greet" [.nil]
  exact ⟨⟨members, areFunctions, places (by decide), enter⟩, ended, by decide +kernel⟩

/-- A guarded body is reached with a nil read out of a checked array, and fails on it. -/
theorem guarded_body_fails_on_storedNil :
    Guards.entryRewritten.result = .ok ⟨0, 1, 1, 1⟩ ∧
      (Guards.entrySession.call 3 "run" []).1 = .error (.nullReference "name" default) ∧
      (Guards.entrySession.call 3 "run" []).2.machine.invocations.map
          (fun invocation => (invocation.function.name, invocation.args)) =
        [(⟨0⟩, [.present .nil]), (⟨4⟩, [])] := by
  refine ⟨?_, ?_, ?_⟩
  · with_unfolding_all rfl
  · decide +kernel
  · decide +kernel

end NilSafety
