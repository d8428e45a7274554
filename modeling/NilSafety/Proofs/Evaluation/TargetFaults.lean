import NilSafety.Proofs.Evaluation.Disciplines
import NilSafety.Proofs.Evaluation.Sessions

/-!
Contract: where complaints about the left sides of assignments come from.

Owns:
- the regions at which trees, native functions and programs may complain that a left
  side is no target;
- that evaluations, calls and loading complain at no other region.

Does not own: the assignments of a rewritten unit.
-/

namespace NilSafety

/-! ### Regions of complaints -/

/-- The tree holds an assignment for this region whose left side is no target. -/
def Expr.MissesTarget (expr : Expr) (span : Span) : Prop :=
  ∃ assignment ∈ expr.assignments, assignment.target.isTarget = false ∧ assignment.span = span

/-- The native function may answer with the complaint about a left side, for this region. -/
def Native.MissesTarget (native : Native) (span : Span) : Prop :=
  ∃ history args heap, (native.respond history args heap).1 = .error (.type .target span)

/-- A function of the program misses a target, or a native function may claim so. -/
def Program.MissesTarget (program : Program) (span : Span) : Prop :=
  (∃ f, program.Defines f ∧ f.body.MissesTarget span) ∨
    ∃ name native, program.native? name = some native ∧ native.MissesTarget span

namespace Eval

variable {α β : Type}

/-- A computation that ends with the complaint about a left side does so for one of the
regions. -/
def MissesOnly (regions : Span → Prop) (computation : Eval α) : Prop :=
  ∀ machine span, (computation machine).1 = .error (.type .target span) → regions span

namespace MissesOnly

variable {regions : Span → Prop}

theorem bind
    {first : Eval α}
    {rest : α → Eval β}
    (ofFirst : MissesOnly regions first)
    (ofRest : ∀ value, MissesOnly regions (rest value)) :
    MissesOnly regions (first >>= rest) := by
  intro machine span complains
  have start := ofFirst machine span
  change (first.andThen rest machine).1 = _ at complains
  unfold andThen at complains
  rcases ran : first machine with ⟨flow, middle⟩
  rw [ran] at start complains
  cases flow with
  | next value => exact ofRest value middle span complains
  | ret | exhausted => cases complains
  | error error =>
      cases complains
      exact start rfl

theorem inBlock {computation : Eval α} (misses : MissesOnly regions computation) :
    MissesOnly regions (inBlock computation) :=
  fun machine => misses { machine with env := machine.env.push }

theorem inEnv (env : Env) {computation : Eval Value} (misses : MissesOnly regions computation) :
    MissesOnly regions (inEnv env computation) := by
  intro machine span complains
  have start := misses { machine with env } span
  unfold Eval.inEnv at complains
  rcases ran : computation { machine with env } with ⟨flow, after⟩
  rw [ran] at start complains
  cases flow with
  | next | ret | exhausted => cases complains
  | error error => exact start complains

theorem duringCall (site : Span) {computation : Eval α} (misses : MissesOnly regions computation) :
    MissesOnly regions (duringCall site computation) :=
  fun machine => misses { machine with callSites := site :: machine.callSites }

theorem asInvocation
    (f : Function)
    (receiver : Option Value)
    (args : List Value)
    (site : Span)
    {computation : Eval α}
    (misses : MissesOnly regions computation) :
    MissesOnly regions (asInvocation f receiver args site computation) :=
  fun _ => misses _

theorem callNative
    (name : String)
    {native : Native}
    (answers : ∀ span, native.MissesTarget span → regions span)
    (args : List Value) :
    MissesOnly regions (callNative name native args) := by
  intro machine span complains
  unfold Eval.callNative at complains
  rcases responds : native.respond machine.calls args machine.heap with ⟨answer, heap⟩
  rw [responds] at complains
  cases answer with
  | ok value => cases complains
  | error error =>
      cases complains
      exact answers span ⟨_, _, _, congrArg Prod.fst responds⟩

/-- To complain for the given regions only is a discipline. -/
def discipline (regions : Span → Prop) : Discipline where
  holds := MissesOnly regions
  admits error := ∀ span, error = .type .target span → regions span
  quiet _ raises machine span complains := raises machine _ complains span rfl
  bind := bind
  inBlock := inBlock
  others _ isOther span same := absurd same (isOther span)

theorem admits {expr : Expr} (within : ∀ span, expr.MissesTarget span → regions span) :
    (discipline regions).Admits expr := by
  intro assignment isInside noTarget span same
  cases same
  exact within assignment.span ⟨assignment, isInside, noTarget, rfl⟩

/-! ### Programs -/

section

variable {program : Program} (within : ∀ span, program.MissesTarget span → regions span)

include within

theorem invokes_of_functions
    {context : Context}
    (isProgram : context.program = program)
    (functions : ∀ f, program.Defines f → ∀ receiver args span,
      MissesOnly regions (context.invoke f receiver args span)) :
    (discipline regions).Invokes context := by
  subst isProgram
  refine ⟨functions, fun name native isNative args => callNative name ?_ args⟩
  exact fun span misses => within span (.inr ⟨name, native, isNative, misses⟩)

theorem activate
    {context : Context}
    (invokes : (discipline regions).Invokes context)
    {f : Function}
    (isDefined : program.Defines f)
    (receiver : Option Value)
    (args : List Value)
    (span : Span) :
    MissesOnly regions (context.activate f receiver args span) := by
  unfold Context.activate
  split
  · have body : MissesOnly regions (Eval.expr context f.body) :=
      Discipline.expr invokes (admits fun span misses => within span (.inl ⟨f, isDefined, misses⟩))
    exact asInvocation f receiver args span (inEnv _ (duringCall span body))
  · exact (discipline regions).regime.failOther nofun

theorem invokeWithin (rules : Rules) (bound : Nat) :
    ∀ f, program.Defines f → ∀ receiver args span,
      MissesOnly regions (program.invokeWithin rules bound f receiver args span) := by
  induction bound with
  | zero => exact fun _ _ _ _ _ => (discipline regions).regime.exhausted
  | succ bound inductionHypothesis =>
      intro f isDefined
      exact activate within (invokes_of_functions within rfl inductionHypothesis) isDefined

/-- Whatever a program does within a bound, it complains for these regions only. -/
theorem invokes (rules : Rules) (bound : Nat) :
    (discipline regions).Invokes (program.context rules bound) :=
  invokes_of_functions within rfl (invokeWithin within rules bound)

theorem call (rules : Rules) (bound : Nat) (name : String) (args : List Value) :
    MissesOnly regions (program.call rules bound name args) :=
  Regime.callNamed (invokes within rules bound).regime name args .generated

theorem evaluate
    (rules : Rules)
    (bound : Nat)
    {expr : Expr}
    (withinExpr : ∀ span, expr.MissesTarget span → regions span) :
    MissesOnly regions (program.evaluate rules bound expr) :=
  inEnv .start (Discipline.expr (invokes within rules bound) (admits withinExpr))

end

end MissesOnly

end Eval

/-! ### Loading -/

theorem SymbolMap.eq_or_get?_of_set
    {α : Type}
    {map : SymbolMap α}
    {symbol other : Symbol}
    {value found : α}
    (isThere : (map.set symbol value).get? other = some found) :
    found = value ∨ map.get? other = some found := by
  by_cases same : other = symbol
  · rw [same, SymbolMap.get?_set_self] at isThere
    exact .inl (Option.some.inj isThere).symm
  · rw [SymbolMap.get?_set_of_ne map same] at isThere
    exact .inr isThere

namespace Program

theorem defines_addFunction
    {program : Program}
    {added f : Function}
    (isDefined : (program.addFunction added).Defines f) :
    f = added ∨ program.Defines f := by
  rcases isDefined with ⟨name, isFunction⟩ | isMethod
  · unfold function? addFunction at isFunction
    obtain ⟨symbol, isNamed, isThere⟩ := Option.bind_eq_some_iff.mp isFunction
    refine (SymbolMap.eq_or_get?_of_set isThere).imp_right fun wasThere => .inl ⟨name, ?_⟩
    exact Option.bind_eq_some_iff.mpr ⟨symbol, isNamed, wasThere⟩
  · exact .inr (.inr isMethod)

theorem defines_addMethod
    {program : Program}
    {cls : Symbol}
    {added f : Function}
    (isDefined : (program.addMethod cls added).Defines f) :
    f = added ∨ program.Defines f := by
  rcases isDefined with isFunction | ⟨other, name, isMethod⟩
  · exact .inr (.inl isFunction)
  · unfold method? addMethod at isMethod
    obtain ⟨methods, isClass, isThere⟩ := Option.bind_eq_some_iff.mp isMethod
    rcases SymbolMap.eq_or_get?_of_set isClass with rfl | wasClass
    · refine (SymbolMap.eq_or_get?_of_set isThere).imp_right fun wasThere => .inr ⟨cls, name, ?_⟩
      unfold method?
      cases known : program.methods.get? cls with
      | none =>
          rw [known] at wasThere
          cases wasThere
      | some methods =>
          rw [known] at wasThere
          exact wasThere
    · exact .inr (.inr ⟨other, name, Option.bind_eq_some_iff.mpr ⟨methods, wasClass, isThere⟩⟩)

theorem missesTarget_of_added
    {program added : Program}
    {f : Function}
    (defines : ∀ other, added.Defines other → other = f ∨ program.Defines other)
    (sameNatives : added.natives = program.natives)
    {span : Span}
    (misses : added.MissesTarget span) :
    f.body.MissesTarget span ∨ program.MissesTarget span := by
  rcases misses with ⟨other, isDefined, inBody⟩ | ⟨name, native, isNative, answers⟩
  · rcases defines other isDefined with rfl | wasDefined
    · exact .inl inBody
    · exact .inr (.inl ⟨other, wasDefined, inBody⟩)
  · unfold native? at isNative
    rw [sameNatives] at isNative
    exact .inr (.inr ⟨name, native, isNative, answers⟩)

theorem missesTarget_addMethods
    {program : Program}
    {cls : Symbol}
    {methods : List Function}
    {span : Span}
    (misses : (methods.foldl (fun program f => program.addMethod cls f) program).MissesTarget span) :
    (∃ f ∈ methods, f.body.MissesTarget span) ∨ program.MissesTarget span := by
  induction methods generalizing program with
  | nil => exact .inr misses
  | cons f rest inductionHypothesis =>
      rcases inductionHypothesis misses with ⟨other, inRest, inBody⟩ | atFirst
      · exact .inl ⟨other, List.mem_cons_of_mem f inRest, inBody⟩
      · refine (missesTarget_of_added (fun _ => defines_addMethod) rfl atFirst).imp_left ?_
        exact fun inBody => ⟨f, List.mem_cons_self, inBody⟩

end Program

namespace Session

/-- The session's program complains for these regions only, and so did what was done. -/
def MissesOnly {α : Type} (regions : Span → Prop) (after : Flow α × Session) : Prop :=
  (∀ span, after.2.program.MissesTarget span → regions span) ∧
    ∀ span, after.1 = .error (.type .target span) → regions span

theorem MissesOnly.following
    {α β : Type}
    {regions : Span → Prop}
    {rest : α → Session → Flow β × Session}
    {after : Flow α × Session}
    (first : MissesOnly regions after)
    (ofRest : ∀ value session, (∀ span, session.program.MissesTarget span → regions span) →
      MissesOnly regions (rest value session)) :
    MissesOnly regions (Session.following rest after) := by
  obtain ⟨flow, session⟩ := after
  cases flow with
  | next value => exact ofRest value session first.1
  | ret | exhausted => exact ⟨first.1, nofun⟩
  | error error =>
      refine ⟨first.1, fun span complains => first.2 span ?_⟩
      cases complains
      rfl

section

variable
  {regions : Span → Prop}
  {session : Session}
  (within : ∀ span, session.program.MissesTarget span → regions span)

include within

theorem missesOnly_call (bound : Nat) (name : String) (args : List Value) :
    MissesOnly regions (session.call bound name args) :=
  ⟨within, Eval.MissesOnly.call within session.rules bound name args session.machine⟩

theorem missesOnly_evaluate
    (bound : Nat)
    {expr : Expr}
    (withinExpr : ∀ span, expr.MissesTarget span → regions span) :
    MissesOnly regions (session.evaluate bound expr) :=
  ⟨within, Eval.MissesOnly.evaluate within session.rules bound withinExpr session.machine⟩

theorem missesOnly_loadDecl
    (bound : Nat)
    {decl : Decl}
    (withinDecl : ∀ body ∈ decl.bodies, ∀ span, body.MissesTarget span → regions span) :
    MissesOnly regions (session.loadDecl bound decl) := by
  have added : ∀ methods : List Function, ∀ cls,
      (∀ f ∈ methods, ∀ span, f.body.MissesTarget span → regions span) →
      ∀ span, (methods.foldl (fun program f => program.addMethod cls f)
        session.program).MissesTarget span → regions span := by
    intro methods cls ofMethods span misses
    rcases Program.missesTarget_addMethods misses with ⟨f, isMethod, inBody⟩ | before
    · exact ofMethods f isMethod span inBody
    · exact within span before
  cases decl with
  | function f =>
      refine ⟨fun span misses => ?_, nofun⟩
      rcases Program.missesTarget_of_added (fun _ => Program.defines_addFunction) rfl misses with
        inBody | before
      · exact withinDecl f.body List.mem_cons_self span inBody
      · exact within span before
  | record name fields methods visibility declSpan | extension name methods declSpan =>
      refine ⟨added methods name fun f isMethod => ?_, nofun⟩
      exact withinDecl f.body (List.mem_map_of_mem isMethod)
  | constant name note value visibility declSpan =>
      rw [loadDecl_constant]
      apply (missesOnly_evaluate within bound (withinDecl value List.mem_cons_self)).following
      exact fun value session within => ⟨within, nofun⟩

theorem missesOnly_loadDecls
    (bound : Nat)
    {decls : List Decl}
    (withinDecls : ∀ body ∈ decls.flatMap Decl.bodies, ∀ span,
      body.MissesTarget span → regions span) :
    MissesOnly regions (session.loadDecls bound decls) := by
  induction decls generalizing session with
  | nil => exact ⟨within, nofun⟩
  | cons decl rest inductionHypothesis =>
      rw [List.flatMap_cons, List.forall_mem_append] at withinDecls
      rw [loadDecls_cons]
      apply (missesOnly_loadDecl within bound withinDecls.1).following
      exact fun _ session within => inductionHypothesis within withinDecls.2

end

end Session

end NilSafety
