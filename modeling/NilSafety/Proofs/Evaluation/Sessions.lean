import NilSafety.Proofs.Evaluation.Simulation
import NilSafety.Proofs.Rewriting.Units

/-!
Contract: whole uses of a program agree.

Owns:
- the variables that activations start with, and activations of functions whose
  bodies realize one another;
- from the agreement of single activations, that of activations within every
  bound;
- sessions with given native functions, sessions that agree, and that loading,
  calls and evaluation keep them so, for expressions whose single evaluations agree.

Does not own: which functions stand for each other.
-/

namespace NilSafety

/-! ### Uses one after another -/

namespace Session

/-- A session under given rules, with native functions registered one after
another, in which nothing is loaded. -/
def opened
    (rules : Rules)
    (table : SymbolTable)
    (natives : List (String × Native))
    (heap : Heap) :
    Session :=
  natives.foldl (fun session entry => session.register entry.1 entry.2)
    (.startUnder rules table heap)

/-- Goes on after a use that ended with a result. -/
def following {α β : Type} (rest : α → Session → Flow β × Session) :
    Flow α × Session → Flow β × Session
  | (.next value, session) => rest value session
  | (.ret value, session) => (.ret value, session)
  | (.error error, session) => (.error error, session)
  | (.exhausted, session) => (.exhausted, session)

theorem loadDecl_constant
    (session : Session)
    (bound : Nat)
    (name : Symbol)
    (note : TypeNote)
    (value : Expr)
    (visibility : Visibility)
    (span : Span) :
    session.loadDecl bound (.constant name note value visibility span) =
      following (fun value session =>
        (.next (), { session with program := session.program.addConstant name value }))
        (session.evaluate bound value) := by
  unfold loadDecl following
  dsimp only
  rcases session.evaluate bound value with ⟨flow, after⟩
  cases flow <;> rfl

theorem loadDecls_cons (session : Session) (bound : Nat) (decl : Decl) (rest : List Decl) :
    session.loadDecls bound (decl :: rest) =
      following (fun _ session => session.loadDecls bound rest) (session.loadDecl bound decl) := by
  rw [loadDecls]
  unfold following
  rcases session.loadDecl bound decl with ⟨flow, after⟩
  cases flow <;> rfl

/-- Loads a unit, and then calls a function or a native function. -/
def loadThenCall
    (session : Session)
    (loadBound : Nat)
    (unit : SourceUnit)
    (bound : Nat)
    (name : String)
    (args : List Value) :
    Flow Value × Session :=
  following (fun _ session => session.call bound name args) (session.load loadBound unit)

/-! ### What uses do to the state -/

section

variable {relation : Machine → Machine → Prop}

theorem following_relates
    [IsTrans Machine relation]
    {α β : Type}
    {machine : Machine}
    {outcome : Flow α × Session}
    (first : relation machine outcome.2.machine)
    {rest : α → Session → Flow β × Session}
    (onward : ∀ (value : α) (session : Session),
      relation session.machine (rest value session).2.machine) :
    relation machine (following rest outcome).2.machine := by
  rcases outcome with ⟨flow, after⟩
  cases flow with
  | next value => exact trans_of relation first (onward value after)
  | ret | error | exhausted => exact first

variable
  [IsPreorder Machine relation]
  {bound : Nat}
  (evaluates : ∀ (session : Session) (expr : Expr),
    relation session.machine (session.evaluate bound expr).2.machine)

include evaluates

/-- Loading does to the state what the evaluation of constants does. -/
theorem loadDecl_relates (session : Session) (decl : Decl) :
    relation session.machine (session.loadDecl bound decl).2.machine := by
  cases decl with
  | function | record | extension => exact refl_of relation session.machine
  | constant name note value visibility span =>
      rw [loadDecl_constant]
      exact following_relates (evaluates session value) fun _ after =>
        refl_of relation after.machine

theorem loadDecls_relates (session : Session) (decls : List Decl) :
    relation session.machine (session.loadDecls bound decls).2.machine := by
  induction decls generalizing session with
  | nil => exact refl_of relation session.machine
  | cons decl rest inductionHypothesis =>
      rw [loadDecls_cons]
      exact following_relates (loadDecl_relates evaluates session decl) fun _ =>
        inductionHypothesis

end

theorem evaluate_grows (session : Session) (bound : Nat) (expr : Expr) :
    session.machine.Grows (session.evaluate bound expr).2.machine :=
  Eval.Growing.inEnv .start
    (.expr (session.program.context_growing session.rules bound) expr) session.machine

theorem call_grows (session : Session) (bound : Nat) (name : String) (args : List Value) :
    session.machine.Grows (session.call bound name args).2.machine :=
  (session.program.context_growing session.rules bound).callNamed name args .generated
    session.machine

theorem loadDecls_grows (session : Session) (bound : Nat) (decls : List Decl) :
    session.machine.Grows (session.loadDecls bound decls).2.machine :=
  loadDecls_relates (fun session => session.evaluate_grows bound) session decls

end Session

namespace Comparison

variable {S : Comparison} {pairing later : Pairing}

/-! ### Activations -/

theorem frame_matches
    {program program' : Program}
    (agree : S.ProgramsMatch pairing program program')
    (params : List Param)
    {receiver receiver' : Option Value}
    (receivers : Option.Rel (Value.Matches pairing) receiver receiver')
    {args args' : List Value}
    (arguments : ListsMatch pairing args args') :
    (program.frame params receiver args).Matches S.table.knows (Value.Matches pairing) [.shared]
      (program'.frame params receiver' args') := by
  have binds : ∀ {env env' : Env},
      env.Matches S.table.knows (Value.Matches pairing) [.shared] env' →
        ((params.zip args).foldl (fun env pair => env.define pair.1.name pair.2) env).Matches
          S.table.knows (Value.Matches pairing) [.shared]
          ((params.zip args').foldl (fun env pair => env.define pair.1.name pair.2) env') := by
    intro env env' frames
    induction arguments generalizing params env env' with
    | nil =>
        rw [List.zip_nil_right]
        exact frames
    | @cons value value' rest rest' holds _ inductionHypothesis =>
        cases params with
        | nil => exact frames
        | cons param params => exact inductionHypothesis params (frames.define holds)
  unfold Program.frame
  rw [agree.receiverName?_eq]
  apply binds
  cases receivers with
  | none => exact .start
  | some holds =>
      cases program.receiverName? with
      | none => exact .start
      | some name => exact Env.Matches.start.define holds

/-- Activations agree if they do so with the right number of arguments. -/
theorem simulates_activate_of_bodies
    {context context' : Context}
    {shape : List Layer}
    (agree : S.ContextsMatch pairing context context')
    {f f' : Function}
    (functions : S.functions f f')
    (sameParams : f'.params = f.params)
    {receiver receiver' : Option Value}
    {args args' : List Value}
    (arguments : ListsMatch pairing args args')
    (site : Span)
    (bodies : args.length = f.params.length →
      S.Simulates pairing shape ValuesMatch
        (Eval.asInvocation f receiver args site
          (Eval.inEnv (context.program.frame f.params receiver args)
            (Eval.duringCall site (Eval.expr context f.body))))
        (Eval.asInvocation f' receiver' args' site
          (Eval.inEnv (context'.program.frame f.params receiver' args')
            (Eval.duringCall site (Eval.expr context' f'.body))))) :
    S.Simulates pairing shape ValuesMatch (context.activate f receiver args site)
      (context'.activate f' receiver' args' site) := by
  obtain ⟨sameName, known⟩ := S.named functions
  unfold Context.activate
  rw [sameName, sameParams, agree.name_eq known, ← arguments.length_eq]
  split
  next sameLength => exact bodies sameLength
  next => exact .fail (.refl _)

/-- An activation of a function agrees with one of the function with a body that
realizes its own. -/
theorem simulates_activate
    {context context' : Context}
    {shape : List Layer}
    (agree : S.ContextsMatch pairing context context')
    {f : Function}
    {body : Expr}
    (functions : S.functions f { f with body })
    {args args' : List Value}
    (passes : S.passes f args { f with body })
    (realizes : f.body.Realizes S.rules S.table S.grown body)
    {receiver receiver' : Option Value}
    (receivers : Option.Rel (Value.Matches pairing) receiver receiver')
    (arguments : ListsMatch pairing args args')
    (site : Span) :
    S.Simulates pairing shape ValuesMatch (context.activate f receiver args site)
      (context'.activate { f with body } receiver' args' site) := by
  apply simulates_activate_of_bodies agree functions rfl arguments site
  intro _
  apply Simulates.asInvocation site functions passes receivers arguments
  apply Simulates.inEnv (frame_matches agree.programs f.params receivers arguments)
  exact .duringCall site (simulates_expr agree f.body body realizes [.shared])

/-- What a comparison needs to know of single activations: if the contexts agree,
so do activations of functions that stand for each other. -/
def ActivationsAgree (S : Comparison) : Prop :=
  ∀ ⦃pairing : Pairing⦄ ⦃context context' : Context⦄,
    S.ContextsMatch pairing context context' →
    ∀ shape f f' receiver receiver' args args' site,
      S.functions f f' →
      Option.Rel (Value.Matches pairing) receiver receiver' →
      ListsMatch pairing args args' →
      S.Simulates pairing shape ValuesMatch (context.activate f receiver args site)
        (context'.activate f' receiver' args' site)

/-- Programs that agree evaluate alike within every bound. -/
theorem contextsMatch
    (activations : S.ActivationsAgree)
    {program program' : Program}
    (agree : S.ProgramsMatch pairing program program')
    (bound : Nat) :
    S.ContextsMatch pairing (program.context S.rules bound) (program'.context .plain bound) := by
  have grows := program.context_growing S.rules
  induction bound with
  | zero =>
      refine ⟨agree, rfl, rfl, rfl, grows 0, ?_⟩
      intro later further shape f f' receiver receiver' args args' site functions receivers
        arguments
      exact .exhausted
  | succ bound inductionHypothesis =>
      refine ⟨agree, rfl, rfl, rfl, grows (bound + 1), ?_⟩
      intro later further shape f f' receiver receiver' args args' site functions receivers
        arguments
      exact activations (inductionHypothesis.mono further) shape f f' receiver receiver' args args'
        site functions receivers arguments

/-! ### Sessions -/

/-- The sessions agree under a pairing, between one use and the next. -/
structure SessionsMatch (S : Comparison) (pairing : Pairing) (session session' : Session) : Prop
    where
  programs : S.ProgramsMatch pairing session.program session'.program
  machines : S.MachinesMatch [.shared] pairing session.machine session'.machine
  rules : session.rules = S.rules
  plain : session'.rules = .plain

/-- A use of both sessions ended alike and left sessions that agree, or the second
side stopped. -/
def UsesMatch
    (S : Comparison)
    {α β : Type}
    (pairing : Pairing)
    (results : Pairing → α → β → Prop)
    (outcome : Flow α × Session)
    (outcome' : Flow β × Session) :
    Prop :=
  (ExtendsTo S.admits pairing fun later =>
    outcome.1.Matches later (results later) outcome'.1 ∧
      S.SessionsMatch later outcome.2 outcome'.2) ∨
    S.Stopped outcome.2.machine.invocations (outcome'.1, outcome'.2.machine)

theorem UsesMatch.trans
    {α β : Type}
    {results : Pairing → α → β → Prop}
    {outcome : Flow α × Session}
    {outcome' : Flow β × Session}
    (further : pairing ≤ later)
    (agree : S.UsesMatch later results outcome outcome') :
    S.UsesMatch pairing results outcome outcome' := by
  rcases agree with ⟨last, beyond, holds⟩ | stopped
  · exact .inl ⟨last, further.trans beyond, holds⟩
  · exact .inr stopped

/-- Uses one after another agree, if they agree one by one. The first side may go
on after the second one has stopped. -/
theorem UsesMatch.following
    {α α' β β' : Type}
    {results : Pairing → α → α' → Prop}
    {results' : Pairing → β → β' → Prop}
    {outcome : Flow α × Session}
    {outcome' : Flow α' × Session}
    {rest : α → Session → Flow β × Session}
    {rest' : α' → Session → Flow β' × Session}
    (first : S.UsesMatch pairing results outcome outcome')
    (grows : ∀ (value : α) (session : Session),
      session.machine.Grows (rest value session).2.machine)
    (agree : ∀ later, pairing ≤ later → S.admits later →
      ∀ value value' session session', results later value value' →
        S.SessionsMatch later session session' →
        S.UsesMatch later results' (rest value session) (rest' value' session')) :
    S.UsesMatch pairing results' (Session.following rest outcome)
      (Session.following rest' outcome') := by
  rcases outcome with ⟨flow, after⟩
  rcases outcome' with ⟨flow', after'⟩
  rcases first with ⟨later, further, admitted, flows, sessions⟩ | stopped
  · apply UsesMatch.trans further
    cases flows with
    | next related => exact agree later further admitted _ _ after after' related sessions
    | ret holds => exact .inl ⟨later, le_refl later, admitted, .ret holds, sessions⟩
    | error agrees => exact .inl ⟨later, le_refl later, admitted, .error agrees, sessions⟩
    | exhausted => exact .inl ⟨later, le_refl later, admitted, .exhausted, sessions⟩
  · obtain ⟨error, fails⟩ := stopped.fails
    dsimp only at fails
    subst fails
    have ended : S.Stopped after.machine.invocations
        ((.error error, after'.machine) : Flow β' × Machine) :=
      stopped.of_eq (fun _ same => by cases same; rfl) rfl rfl rfl
    cases flow with
    | next value => exact .inr (ended.mono (grows value after).invocations)
    | ret | error | exhausted => exact .inr ended

variable {session session' : Session}

theorem usesMatch_perform
    {α β : Type}
    {results : Pairing → α → β → Prop}
    (admitted : S.admits pairing)
    (agree : S.SessionsMatch pairing session session')
    {computation : Eval α}
    {computation' : Eval β}
    (simulates : S.Simulates pairing [.shared] results computation computation') :
    S.UsesMatch pairing results (session.perform computation) (session'.perform computation') := by
  rcases simulates pairing (le_refl pairing) admitted _ _ agree.machines with
    ⟨later, further, admittedLater, flows, machines⟩ | stopped
  · exact .inl ⟨later, further, admittedLater, flows, agree.programs.mono further, machines,
      agree.rules, agree.plain⟩
  · exact .inr stopped

theorem usesMatch_call
    (activations : S.ActivationsAgree)
    (admitted : S.admits pairing)
    (agree : S.SessionsMatch pairing session session')
    (bound : Nat)
    (name : String)
    {args args' : List Value}
    (arguments : ListsMatch pairing args args') :
    S.UsesMatch pairing ValuesMatch (session.call bound name args)
      (session'.call bound name args') := by
  apply usesMatch_perform admitted agree
  rw [agree.rules, agree.plain]
  exact (contextsMatch activations agree.programs bound).callNamed name arguments .generated

/-- What a comparison needs to know of single expressions: if the contexts agree, so do the
expressions at the start of an evaluation. -/
def EvaluationsAgree (S : Comparison) (expr expr' : Expr) : Prop :=
  ∀ ⦃pairing : Pairing⦄ ⦃context context' : Context⦄,
    S.ContextsMatch pairing context context' →
    S.Simulates pairing [.shared] ValuesMatch (Eval.expr context expr) (Eval.expr context' expr')

theorem EvaluationsAgree.of_realizes
    {expr realized : Expr}
    (realizes : expr.Realizes S.rules S.table S.grown realized) :
    S.EvaluationsAgree expr realized :=
  fun _ _ _ agree => simulates_expr agree expr realized realizes _

theorem usesMatch_evaluate_of_agree
    (activations : S.ActivationsAgree)
    (admitted : S.admits pairing)
    (agree : S.SessionsMatch pairing session session')
    (bound : Nat)
    {expr expr' : Expr}
    (evaluations : S.EvaluationsAgree expr expr') :
    S.UsesMatch pairing ValuesMatch (session.evaluate bound expr)
      (session'.evaluate bound expr') := by
  apply usesMatch_perform admitted agree
  rw [agree.rules, agree.plain]
  exact .inEnv .start (evaluations (contextsMatch activations agree.programs bound))

theorem usesMatch_evaluate
    (activations : S.ActivationsAgree)
    (admitted : S.admits pairing)
    (agree : S.SessionsMatch pairing session session')
    (bound : Nat)
    {expr realized : Expr}
    (realizes : expr.Realizes S.rules S.table S.grown realized) :
    S.UsesMatch pairing ValuesMatch (session.evaluate bound expr)
      (session'.evaluate bound realized) :=
  usesMatch_evaluate_of_agree activations admitted agree bound (.of_realizes realizes)

/-- Opened sessions agree, if their containers and the native functions do. -/
theorem sessionsMatch_opened
    (S : Comparison)
    (natives : List (String × Native))
    (carries : ∀ entry ∈ natives, entry.2.Carries S.admits S.memory entry.1)
    (starts : S.memory.agrees pairing [] [])
    {heap heap' : Heap}
    (heaps : heap.Matches pairing heap') :
    S.SessionsMatch pairing (Session.opened S.rules S.table natives heap)
      (Session.opened .plain S.grown natives heap') := by
  have registers : ∀ {session session' : Session}, S.SessionsMatch pairing session session' →
      S.SessionsMatch pairing
        (natives.foldl (fun session entry => session.register entry.1 entry.2) session)
        (natives.foldl (fun session entry => session.register entry.1 entry.2) session') := by
    intro session session' agree
    induction natives generalizing session session' with
    | nil => exact agree
    | cons entry rest inductionHypothesis =>
        refine inductionHypothesis (fun other member =>
          carries other (List.mem_cons_of_mem entry member)) ?_
        refine ⟨?_, agree.machines, agree.rules, agree.plain⟩
        refine { agree.programs with natives := ?_, carries := ?_ }
        · exact congrArg ((entry.1, entry.2) :: ·) agree.programs.natives
        · intro other member
          rcases List.mem_cons.mp member with rfl | isOld
          · exact carries entry List.mem_cons_self
          · exact agree.programs.carries other isOld
  refine registers ⟨?_, ?_, rfl, rfl⟩
  · exact ⟨rfl, rfl, .empty, .empty, fun _ _ => rfl, fun _ _ => rfl, fun _ _ => nofun, rfl,
      fun _ => nofun, .empty⟩
  · exact ⟨heaps, .start, rfl, ⟨.nil, starts⟩, .nil⟩

/-! ### Loading -/

theorem ProgramsMatch.addFunction
    {program program' : Program}
    (agree : S.ProgramsMatch pairing program program')
    {f f' : Function}
    (functions : S.functions f f') :
    S.ProgramsMatch pairing (program.addFunction f) (program'.addFunction f') := by
  obtain ⟨sameName, known⟩ := S.named functions
  refine { agree with functions := ?_, functionsKnown := ?_ }
  · unfold Program.addFunction
    rw [sameName]
    exact agree.functions.set f.name functions
  · intro name isForeign
    have different : name ≠ f.name := by
      intro same
      rw [same, known] at isForeign
      cases isForeign
    exact (SymbolMap.get?_set_of_ne _ different _).trans (agree.functionsKnown name isForeign)

theorem ProgramsMatch.addMethod
    {program program' : Program}
    (agree : S.ProgramsMatch pairing program program')
    {cls : Symbol}
    (clsKnown : S.table.knows cls)
    {f f' : Function}
    (functions : S.functions f f') :
    S.ProgramsMatch pairing (program.addMethod cls f) (program'.addMethod cls f') := by
  obtain ⟨sameName, known⟩ := S.named functions
  have differs : ∀ {name other : Symbol}, S.table.knows name = false → S.table.knows other →
      name ≠ other := by
    intro name other isForeign isKnown same
    rw [same, isKnown] at isForeign
    cases isForeign
  refine { agree with methods := ?_, classesKnown := ?_, methodsKnown := ?_ }
  · have found := agree.methods.get? cls
    unfold Program.addMethod
    rw [sameName]
    refine agree.methods.set cls (SymbolMap.Related.set ?_ f.name functions)
    generalize program.methods.get? cls = methods at found ⊢
    generalize program'.methods.get? cls = methods' at found ⊢
    cases found with
    | none => exact .empty
    | some related => exact related
  · intro name isForeign
    exact (SymbolMap.get?_set_of_ne _ (differs isForeign clsKnown) _).trans
      (agree.classesKnown name isForeign)
  · intro other methods isThere name isForeign
    by_cases same : other = cls
    · subst same
      unfold Program.addMethod at isThere
      dsimp only at isThere
      rw [SymbolMap.get?_set_self] at isThere
      cases isThere
      rw [SymbolMap.get?_set_of_ne _ (differs isForeign known)]
      cases found : program.methods.get? other with
      | none => rfl
      | some known => exact agree.methodsKnown other known found name isForeign
    · refine agree.methodsKnown other methods ?_ name isForeign
      rw [← isThere]
      exact (SymbolMap.get?_set_of_ne _ same _).symm

theorem ProgramsMatch.addMethods
    {program program' : Program}
    (agree : S.ProgramsMatch pairing program program')
    {cls : Symbol}
    (clsKnown : S.table.knows cls)
    {methods methods' : List Function}
    (related : List.Forall₂ S.functions methods methods') :
    S.ProgramsMatch pairing
      (methods.foldl (fun program f => program.addMethod cls f) program)
      (methods'.foldl (fun program f => program.addMethod cls f) program') := by
  induction related generalizing program program' with
  | nil => exact agree
  | cons functions _ inductionHypothesis =>
      exact inductionHypothesis (agree.addMethod clsKnown functions)

theorem usesMatch_loadDecl
    (activations : S.ActivationsAgree)
    (admitted : S.admits pairing)
    (agree : S.SessionsMatch pairing session session')
    (bound : Nat)
    {decl decl' : Decl}
    (known : S.table.knows decl.name)
    (related : decl.Related S.functions S.EvaluationsAgree decl') :
    S.UsesMatch pairing SameResult (session.loadDecl bound decl)
      (session'.loadDecl bound decl') := by
  cases decl with
  | function f =>
      obtain ⟨f', functions, rfl⟩ := related
      exact .inl ⟨pairing, le_refl pairing, admitted, .next rfl,
        agree.programs.addFunction functions, agree.machines, agree.rules, agree.plain⟩
  | record | extension =>
      obtain ⟨methods', functions, rfl⟩ := related
      exact .inl ⟨pairing, le_refl pairing, admitted, .next rfl,
        agree.programs.addMethods known functions, agree.machines, agree.rules, agree.plain⟩
  | constant name note value visibility span =>
      obtain ⟨value', evaluations, rfl⟩ := related
      have evaluates := usesMatch_evaluate_of_agree activations admitted agree bound evaluations
      rw [Session.loadDecl_constant, Session.loadDecl_constant]
      apply evaluates.following fun _ _ => .refl _
      intro later further admittedLater value value' after after' holds sessions
      refine .inl ⟨later, le_refl later, admittedLater, .next rfl, ?_, sessions.machines,
        sessions.rules, sessions.plain⟩
      exact { sessions.programs with
        constants := sessions.programs.constants.set name holds }

theorem usesMatch_loadDecls_of_agree
    (activations : S.ActivationsAgree)
    (admitted : S.admits pairing)
    (agree : S.SessionsMatch pairing session session')
    (bound : Nat)
    {decls decls' : List Decl}
    (known : ∀ decl ∈ decls, S.table.knows decl.name)
    (related : List.Forall₂ (Decl.Related S.functions S.EvaluationsAgree) decls decls') :
    S.UsesMatch pairing SameResult (session.loadDecls bound decls)
      (session'.loadDecls bound decls') := by
  induction related generalizing pairing session session' with
  | nil => exact .inl ⟨pairing, le_refl pairing, admitted, .next rfl, agree⟩
  | @cons decl decl' rest rest' first _ inductionHypothesis =>
      have loads := usesMatch_loadDecl activations admitted agree bound
        (known decl List.mem_cons_self) first
      rw [Session.loadDecls_cons, Session.loadDecls_cons]
      apply loads.following fun _ after => after.loadDecls_grows bound rest
      intro later further admittedLater _ _ after after' _ sessions
      exact inductionHypothesis admittedLater sessions
        fun other member => known other (List.mem_cons_of_mem decl member)

theorem usesMatch_loadDecls
    (activations : S.ActivationsAgree)
    (admitted : S.admits pairing)
    (agree : S.SessionsMatch pairing session session')
    (bound : Nat)
    {decls decls' : List Decl}
    (known : ∀ decl ∈ decls, S.table.knows decl.name)
    (related : List.Forall₂
      (Decl.Related S.functions (fun value value' => value.Realizes S.rules S.table S.grown value'))
      decls decls') :
    S.UsesMatch pairing SameResult (session.loadDecls bound decls)
      (session'.loadDecls bound decls') := by
  refine usesMatch_loadDecls_of_agree activations admitted agree bound known (related.imp ?_)
  exact fun _ _ holds => holds.weaken (fun _ _ => id) fun _ _ realizes => .of_realizes realizes

/-- Loading a unit and then calling a function agree. -/
theorem usesMatch_loadThenCall
    (activations : S.ActivationsAgree)
    (admitted : S.admits pairing)
    (agree : S.SessionsMatch pairing session session')
    {unit unit' : SourceUnit}
    (known : ∀ decl ∈ unit.decls, S.table.knows decl.name)
    (related : List.Forall₂
      (Decl.Related S.functions (fun value value' => value.Realizes S.rules S.table S.grown value'))
      unit.decls unit'.decls)
    (loadBound bound : Nat)
    (name : String)
    {args args' : List Value}
    (arguments : ListsMatch pairing args args') :
    S.UsesMatch pairing ValuesMatch (session.loadThenCall loadBound unit bound name args)
      (session'.loadThenCall loadBound unit' bound name args') := by
  have loads := usesMatch_loadDecls activations admitted agree loadBound known related
  apply loads.following fun _ after => after.call_grows bound name args
  intro later further admittedLater _ _ after after' _ sessions
  exact usesMatch_call activations admittedLater sessions bound name
    (arguments.imp fun _ _ holds => holds.mono further)

end Comparison

end NilSafety
