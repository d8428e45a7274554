import NilSafety.Proofs.Evaluation.Composition
import NilSafety.Proofs.Evaluation.Members

/-!
Contract: calls agree if the programs do.

Owns:
- programs that agree: functions and methods that stand for each other, under
  names that the first table knows, the same native functions, and constants that
  agree;
- what evaluation depends on, on both sides;
- that look-up by name finds the same on both sides, and that calls of functions,
  of methods, of native functions and of the run-time checks agree.

Does not own: what an activation does; that activations agree is assumed.
-/

namespace NilSafety

theorem Rules.checksLiterals_plain : Rules.plain.checksLiterals = false := rfl

namespace Comparison

/-- The programs agree under a pairing. -/
structure ProgramsMatch (S : Comparison) (pairing : Pairing) (program program' : Program) : Prop
    where
  table : program.table = S.table
  grown : program'.table = S.grown
  functions : SymbolMap.Related S.functions program.functions program'.functions
  methods : SymbolMap.Related (SymbolMap.Related S.functions) program.methods program'.methods
  functionsKnown : ∀ name, S.table.knows name = false → program.functions.get? name = none
  classesKnown : ∀ cls, S.table.knows cls = false → program.methods.get? cls = none
  methodsKnown : ∀ cls methods, program.methods.get? cls = some methods →
    ∀ name, S.table.knows name = false → methods.get? name = none
  natives : program'.natives = program.natives
  carries : ∀ entry ∈ program.natives, entry.2.Carries S.admits S.memory entry.1
  constants : SymbolMap.Related (Value.Matches pairing) program.constants program'.constants

/-- What evaluation depends on agrees: the programs do, both sides turn loops
equally often, and activations of functions that stand for each other agree. -/
structure ContextsMatch (S : Comparison) (pairing : Pairing) (context context' : Context) : Prop
    where
  programs : S.ProgramsMatch pairing context.program context'.program
  rules : context.rules = S.rules
  plain : context'.rules = .plain
  turns : context'.turns = context.turns
  grows : context.Growing
  invoke : ∀ later, pairing ≤ later → ∀ shape f f' receiver receiver' args args' site,
    S.functions f f' →
    Option.Rel (Value.Matches later) receiver receiver' →
    ListsMatch later args args' →
    S.Simulates later shape ValuesMatch (context.invoke f receiver args site)
      (context'.invoke f' receiver' args' site)

variable {S : Comparison} {pairing later : Pairing}

/-! ### Look-up by name -/

namespace ProgramsMatch

variable {program program' : Program}

theorem mono
    (agree : S.ProgramsMatch pairing program program')
    (further : pairing ≤ later) :
    S.ProgramsMatch later program program' :=
  { agree with constants := agree.constants.mono fun _ _ holds => holds.mono further }

/-- Names that only the second table has find nothing. -/
theorem find?_bind
    {α β : Type}
    {values : α → β → Prop}
    {map : SymbolMap α}
    {map' : SymbolMap β}
    (related : SymbolMap.Related values map map')
    (absent : ∀ name, S.table.knows name = false → map.get? name = none)
    (name : String) :
    Option.Rel values ((S.table.find? name).bind map.get?)
      ((S.grown.find? name).bind map'.get?) := by
  cases found : S.table.find? name with
  | some symbol =>
      rw [S.grows.find?_eq_some found]
      exact related.get? symbol
  | none =>
      cases foundLater : S.grown.find? name with
      | none => exact .none
      | some symbol =>
          have isForeign : S.table.knows symbol = false := by
            by_contra isKnown
            rw [Bool.not_eq_false] at isKnown
            rw [S.grows.find?_eq_of_knows foundLater isKnown] at found
            cases found
          have both := related.get? symbol
          rw [absent symbol isForeign] at both
          exact both

theorem function? (agree : S.ProgramsMatch pairing program program') (name : String) :
    Option.Rel S.functions (program.function? name) (program'.function? name) := by
  unfold Program.function?
  rw [agree.table, agree.grown]
  exact find?_bind agree.functions agree.functionsKnown name

theorem method? (agree : S.ProgramsMatch pairing program program') (cls name : Symbol) :
    Option.Rel S.functions (program.method? cls name) (program'.method? cls name) := by
  have found := agree.methods.get? cls
  unfold Program.method?
  generalize program.methods.get? cls = methods at found ⊢
  generalize program'.methods.get? cls = methods' at found ⊢
  cases found with
  | none => exact .none
  | some related => exact related.get? name

theorem staticMethod? (agree : S.ProgramsMatch pairing program program') (names : List String) :
    Option.Rel S.functions (program.staticMethod? names) (program'.staticMethod? names) := by
  match names with
  | [] => exact .none
  | [_] => exact .none
  | _ :: _ :: _ :: _ => exact .none
  | [cls, name] =>
      have found := find?_bind agree.methods agree.classesKnown cls
      have knownIn : ∀ methods, (S.table.find? cls).bind program.methods.get? = some methods →
          ∀ name, S.table.knows name = false → methods.get? name = none := by
        intro methods isThere
        obtain ⟨symbol, -, isThere⟩ := Option.bind_eq_some_iff.mp isThere
        exact agree.methodsKnown symbol methods isThere
      -- A method is found as a class's methods are, and then by its name.
      have byName : ∀ (table : SymbolTable) (map : SymbolMap (SymbolMap Function)),
          ((table.find? cls).bind fun cls => (table.find? name).bind fun name =>
              (map.get? cls).bind (·.get? name)) =
            ((table.find? cls).bind map.get?).bind fun methods =>
              (table.find? name).bind methods.get? := by
        intro table map
        cases table.find? cls with
        | none => rfl
        | some cls =>
            simp only [Option.bind_some]
            cases table.find? name <;> cases map.get? cls <;> rfl
      show Option.Rel S.functions
        ((program.table.find? cls).bind fun cls => (program.table.find? name).bind fun name =>
          (program.methods.get? cls).bind (·.get? name))
        ((program'.table.find? cls).bind fun cls => (program'.table.find? name).bind fun name =>
          (program'.methods.get? cls).bind (·.get? name))
      rw [byName, byName, agree.table, agree.grown]
      generalize (S.table.find? cls).bind program.methods.get? = methods at found knownIn ⊢
      generalize (S.grown.find? cls).bind program'.methods.get? = methods' at found ⊢
      cases found with
      | none => exact .none
      | some related => exact find?_bind related (knownIn _ rfl) name

/-- Methods know their receiver under the same name. -/
theorem receiverName?_eq (agree : S.ProgramsMatch pairing program program') :
    program'.receiverName? = program.receiverName? := by
  unfold Program.receiverName?
  rw [agree.table, agree.grown]
  exact S.grows.find?_eq fun differs => differs rfl

theorem native?_eq (agree : S.ProgramsMatch pairing program program') (name : String) :
    program'.native? name = program.native? name := by
  unfold Program.native?
  rw [agree.natives]

theorem carries_of_native?
    (agree : S.ProgramsMatch pairing program program')
    {name : String}
    {native : Native}
    (found : program.native? name = some native) :
    native.Carries S.admits S.memory name := by
  unfold Program.native? at found
  obtain ⟨before, after, split, -⟩ := List.lookup_eq_some_iff.mp found
  exact agree.carries (name, native) (by rw [split]; simp)

end ProgramsMatch

/-! ### The run-time checks -/

section Checks

variable {shape : List Layer}

theorem guardFailure_eq
    {machine machine' : Machine}
    (machines : S.MachinesMatch shape pairing machine machine')
    (parameter function : String) :
    EntryCall.guardFailure machine parameter function =
      EntryCall.guardFailure machine' parameter function := by
  unfold EntryCall.guardFailure
  rw [machines.callSites]

theorem simulates_reportGuard
    {parameter parameter' function function' : Value}
    (agreeParameter : parameter.Matches pairing parameter')
    (agreeFunction : function.Matches pairing function')
    (names : List String)
    (span : Span) :
    S.Simulates pairing shape ValuesMatch
      (EntryCall.reportGuard.run names [parameter, function] span)
      (EntryCall.reportGuard.run names [parameter', function'] span) := by
  apply Simulates.ofMachine
  intro later further admitted machine machine' machines
  have first := S.text admitted machines.heap (agreeParameter.mono further)
  have second := S.text admitted machines.heap (agreeFunction.mono further)
  rw [← first, ← second]
  cases machine.heap.text? parameter with
  | none => exact .of_flow admitted .exhausted machines
  | some parameterText =>
      cases machine.heap.text? function with
      | none => exact .of_flow admitted .exhausted machines
      | some functionText =>
          dsimp only
          rw [guardFailure_eq machines]
          exact .of_flow admitted (.error (.refl _)) machines

theorem simulates_buildChecked
    {value value' : Value}
    (agree : value.Matches pairing value')
    (names : List String)
    (span : Span) :
    S.Simulates pairing shape ValuesMatch (EntryCall.buildChecked.run names [value] span)
      (EntryCall.buildChecked.run names [value'] span) := by
  apply Simulates.ofMachine
  intro later further admitted machine machine' machines
  cases agree with
  | array paired =>
      have elements := machines.heap.elements (further _ _ _ paired)
      exact .of_yield machines (S.newChecked admitted machines.heap elements)
  | checkedArray paired =>
      exact .of_yield machines ⟨later, le_refl later, admitted,
        .checkedArray (further _ _ _ paired), machines.heap⟩
  | _ => exact .of_flow admitted (.error (.refl _)) machines

theorem simulates_orElse
    {value value' default default' : Value}
    (agree : value.Matches pairing value')
    (agreeDefault : default.Matches pairing default')
    (names : List String)
    (span : Span) :
    S.Simulates pairing shape ValuesMatch (EntryCall.orElse.run names [value, default] span)
      (EntryCall.orElse.run names [value', default'] span) := by
  refine .resultValue ?_
  have given := agree.toOption
  unfold Presence.orElse
  generalize value.toOption = payload at given ⊢
  generalize value'.toOption = payload' at given ⊢
  cases given with
  | none => exact agreeDefault
  | some holds => exact holds

theorem simulates_insist
    {value value' : Value}
    (agree : value.Matches pairing value')
    (names : List String)
    (span : Span) :
    S.Simulates pairing shape ValuesMatch (EntryCall.insist.run names [value] span)
      (EntryCall.insist.run names [value'] span) := by
  have given := agree.toOption
  unfold EntryCall.run
  dsimp only
  generalize value.toOption = payload at given ⊢
  generalize value'.toOption = payload' at given ⊢
  cases given with
  | none => exact .fail (.refl _)
  | some holds => exact .resultValue holds

theorem simulates_wrongArity
    {args args' : List Value}
    (lengths : args.length = args'.length)
    (function : String)
    (expected : Nat)
    (span : Span) :
    S.Simulates pairing shape ValuesMatch
      (Eval.fail (.arity function expected args.length span))
      (Eval.fail (.arity function expected args'.length span)) := by
  rw [lengths]
  exact .fail (.refl _)

theorem simulates_entryCall
    {args args' : List Value}
    (agree : ListsMatch pairing args args')
    (names : List String)
    (span : Span) :
    S.Simulates pairing shape ValuesMatch (EntryCall.call names args span)
      (EntryCall.call names args' span) := by
  have lengths := agree.length_eq
  unfold EntryCall.call
  cases EntryCall.ofNames? names with
  | none => exact .fail (.refl _)
  | some entry =>
      rcases agree with - | ⟨first, - | ⟨second, - | ⟨third, others⟩⟩⟩
      · cases entry <;> exact simulates_wrongArity lengths _ _ span
      · cases entry with
        | buildChecked => exact simulates_buildChecked first names span
        | insist => exact simulates_insist first names span
        | _ => exact simulates_wrongArity lengths _ _ span
      · cases entry with
        | reportGuard => exact simulates_reportGuard first second names span
        | orElse => exact simulates_orElse first second names span
        | _ => exact simulates_wrongArity lengths _ _ span
      · cases entry <;> exact simulates_wrongArity lengths _ _ span

end Checks

/-! ### Calls -/

namespace ContextsMatch

variable {shape : List Layer} {context context' : Context}

theorem mono
    (agree : S.ContextsMatch pairing context context')
    (further : pairing ≤ later) :
    S.ContextsMatch later context context' :=
  { agree with
    programs := agree.programs.mono further
    invoke := fun last beyond => agree.invoke last (further.trans beyond) }

/-- Literals build plain arrays on the second side, by whatever rules they do on the first. -/
theorem unchecked
    (agree : S.ContextsMatch pairing context context') :
    context'.rules.checksLiterals = false := by
  rw [agree.plain, Rules.checksLiterals_plain]

theorem name_eq
    (agree : S.ContextsMatch pairing context context')
    {symbol : Symbol}
    (known : S.table.knows symbol) :
    context'.name symbol = context.name symbol := by
  unfold Context.name
  rw [agree.programs.table, agree.programs.grown, S.grows.display_eq known]

theorem callNamed
    (agree : S.ContextsMatch pairing context context')
    (name : String)
    {args args' : List Value}
    (arguments : ListsMatch pairing args args')
    (span : Span) :
    S.Simulates pairing shape ValuesMatch (context.callNamed name args span)
      (context'.callNamed name args' span) := by
  have found := agree.programs.function? name
  unfold Context.callNamed
  rw [agree.programs.native?_eq]
  generalize context.program.function? name = function at found ⊢
  generalize context'.program.function? name = function' at found ⊢
  cases found with
  | some related =>
      exact agree.invoke pairing (le_refl pairing) shape _ _ none none args args' span related
        .none arguments
  | none =>
      cases isNative : context.program.native? name with
      | none => exact .fail (.refl _)
      | some native =>
          exact .callNative name (agree.programs.carries_of_native? isNative) arguments

theorem callPath
    (agree : S.ContextsMatch pairing context context')
    {segments : List Symbol}
    (known : ∀ name ∈ segments, S.table.knows name)
    {args args' : List Value}
    (arguments : ListsMatch pairing args args')
    (span : Span) :
    S.Simulates pairing shape ValuesMatch (context.callPath segments args span)
      (context'.callPath segments args' span) := by
  have names : segments.map context'.name = segments.map context.name :=
    List.map_congr_left fun symbol member => agree.name_eq (known symbol member)
  have qualified : context'.program.qualifiedName segments =
      context.program.qualifiedName segments :=
    congrArg (String.intercalate "::") names
  unfold Context.callPath
  dsimp only
  rw [names, qualified]
  split
  · exact simulates_entryCall arguments _ span
  · have found := agree.programs.staticMethod? (segments.map context.name)
    generalize context.program.staticMethod? (segments.map context.name) = function at found ⊢
    generalize context'.program.staticMethod? (segments.map context.name) = function' at found ⊢
    cases found with
    | some related =>
        exact agree.invoke pairing (le_refl pairing) shape _ _ none none args args' span related
          .none arguments
    | none => exact agree.callNamed _ arguments span

theorem callMethod
    (agree : S.ContextsMatch pairing context context')
    {receiver receiver' : Value}
    (receivers : receiver.Matches pairing receiver')
    {method : Symbol}
    (known : S.table.knows method)
    {args args' : List Value}
    (arguments : ListsMatch pairing args args')
    (span : Span) :
    S.Simulates pairing shape ValuesMatch (context.callMethod receiver method args span)
      (context'.callMethod receiver' method args' span) := by
  have cores := receivers.core
  have sameName := agree.name_eq known
  have builtin : ∀ {core core' : Value}, core.Matches pairing core' →
      S.Simulates pairing shape ValuesMatch (context.callBuiltin core method args span)
        (context'.callBuiltin core' method args' span) := by
    intro core core' agreeCore
    unfold Context.callBuiltin
    rw [sameName]
    apply Simulates.ofMachine
    intro later further admitted machine machine' machines
    have outcomes := Member.callBuiltin_rel machines.heap (agreeCore.mono further)
      (context.name method) (arguments.imp fun _ _ holds => holds.mono further)
    rw [agreeCore.kind_eq]
    generalize Member.callBuiltin machine.heap core _ args = outcome at outcomes ⊢
    generalize Member.callBuiltin machine'.heap core' _ args' = outcome' at outcomes ⊢
    cases outcomes with
    | none => exact .of_flow admitted (.error (.refl _)) machines
    | some holds => exact .of_yield machines ⟨later, le_refl later, admitted, holds⟩
  have refused : S.Simulates pairing shape ValuesMatch
      (Eval.fail (.nullReference (context.name method) span))
      (Eval.fail (.nullReference (context'.name method) span)) := by
    rw [sameName]
    exact .fail (.refl _)
  unfold Context.callMethod
  generalize receiver.core = core at cores ⊢
  generalize receiver'.core = core' at cores ⊢
  cases cores with
  | nil => exact refused
  | absent => exact refused
  | object cls paired =>
      have found := agree.programs.method? cls method
      dsimp only
      generalize context.program.method? cls method = function at found ⊢
      generalize context'.program.method? cls method = function' at found ⊢
      cases found with
      | some related =>
          exact agree.invoke pairing (le_refl pairing) shape _ _ _ _ args args' span related
            (.some (.object cls paired)) arguments
      | none =>
          rw [sameName]
          refine .fail ?_
          unfold Context.name
          rw [agree.programs.table, agree.programs.grown]
          exact Member.agrees_unknownMember S.grows cls _ span
  | array paired => exact builtin (.array paired)
  | checkedArray paired => exact builtin (.checkedArray paired)
  | unit => exact builtin .unit
  | int value => exact builtin (.int value)
  | bool value => exact builtin (.bool value)
  | str value => exact builtin (.str value)
  | present holds => exact builtin (.present holds)

theorem readVariable
    (agree : S.ContextsMatch pairing context context')
    {name : Symbol}
    (known : S.table.knows name)
    (span : Span) :
    S.Simulates pairing shape ValuesMatch (context.readVariable name span)
      (context'.readVariable name span) := by
  apply Simulates.ofMachine
  intro later further admitted machine machine' machines
  have bound := machines.env.get? known
  have constant := (agree.programs.mono further).constants.get? name
  rw [agree.name_eq known]
  generalize machine.env.get? name = value at bound ⊢
  generalize machine'.env.get? name = value' at bound ⊢
  cases bound with
  | some holds => exact .of_flow admitted (.next holds) machines
  | none =>
      dsimp only
      generalize context.program.constants.get? name = value at constant ⊢
      generalize context'.program.constants.get? name = value' at constant ⊢
      cases constant with
      | some holds => exact .of_flow admitted (.next holds) machines
      | none => exact .of_flow admitted (.error (.refl _)) machines

theorem writeVariable
    (agree : S.ContextsMatch pairing context context')
    {name : Symbol}
    (known : S.table.knows name)
    {value value' : Value}
    (values : value.Matches pairing value')
    (span : Span) :
    S.Simulates pairing shape SameResult (context.writeVariable name value span)
      (context'.writeVariable name value' span) := by
  apply Simulates.ofMachine
  intro later further admitted machine machine' machines
  have assigned := machines.env.assign? known (values.mono further)
  rw [agree.name_eq known]
  generalize machine.env.assign? name value = env at assigned ⊢
  generalize machine'.env.assign? name value' = env' at assigned ⊢
  cases assigned with
  | none => exact .of_flow admitted (.error (.refl _)) machines
  | some frames =>
      exact .of_flow admitted (.next rfl)
        ⟨machines.heap, frames, machines.callSites, machines.calls, machines.invocations⟩

end ContextsMatch

end Comparison

end NilSafety
