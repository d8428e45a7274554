import NilSafety.Proofs.Evaluation.Comparison
import NilSafety.Proofs.Evaluation.Logs

/-!
Contract: computations agree if their parts do.

Owns: one rule for each way in which computations are put together, for scopes
that only the second side opens, and for bindings that only the second side makes.

Does not own: expressions and statements.

The rule for one computation after another asks that the first side's rest only
extends the records: when the second side has stopped, the first one goes on, and
the refused invocation must stay on record.
-/

namespace NilSafety

namespace Comparison

variable
  {S : Comparison}
  {α α' β β' : Type}
  {shape : List Layer}
  {pairing : Pairing}
  {results : Pairing → α → α' → Prop}

/-! ### Outcomes -/

theorem Stopped.mono
    {invocations later : List Invocation}
    {outcome' : Flow β × Machine}
    (stopped : S.Stopped invocations outcome')
    (further : invocations <:+ later) :
    S.Stopped later outcome' := by
  obtain ⟨invocation, invocation', earlier, earlier', pairing, error, recorded, rest⟩ :=
    stopped.refusal
  exact ⟨invocation, invocation', earlier, earlier', pairing, error, recorded.trans further, rest⟩

/-- Nothing about the second side counts but its error, its containers and its
records. -/
theorem Stopped.of_eq
    {invocations : List Invocation}
    {outcome' : Flow α × Machine}
    {outcome'' : Flow β × Machine}
    (stopped : S.Stopped invocations outcome')
    (flow : ∀ error, outcome'.1 = .error error → outcome''.1 = .error error)
    (heap : outcome''.2.heap = outcome'.2.heap)
    (calls : outcome''.2.calls = outcome'.2.calls)
    (records : outcome''.2.invocations = outcome'.2.invocations) :
    S.Stopped invocations outcome'' := by
  obtain ⟨invocation, invocation', earlier, earlier', pairing, error, recorded, recorded', admitted,
    agree, agreeEarlier, refused, fails, heapSame, callsSame⟩ := stopped.refusal
  exact ⟨invocation, invocation', earlier, earlier', pairing, error, recorded,
    records.trans recorded', admitted, agree, agreeEarlier, refused, flow error fails,
    heap.trans heapSame, calls.trans callsSame⟩

theorem Stopped.fails
    {invocations : List Invocation}
    {outcome' : Flow β × Machine}
    (stopped : S.Stopped invocations outcome') :
    ∃ error, outcome'.1 = .error error := by
  obtain ⟨_, _, _, _, _, error, _, _, _, _, _, _, fails, _⟩ := stopped.refusal
  exact ⟨error, fails⟩

/-- Outcomes that agree without a growth of the pairing. -/
theorem OutcomesMatch.of_flow
    {outcome : Flow α × Machine}
    {outcome' : Flow α' × Machine}
    (admitted : S.admits pairing)
    (flows : outcome.1.Matches pairing (results pairing) outcome'.1)
    (machines : S.MachinesMatch shape pairing outcome.2 outcome'.2) :
    S.OutcomesMatch shape pairing results outcome outcome' :=
  .inl ⟨pairing, le_refl pairing, admitted, flows, machines⟩

/-- A pairing may have grown before the outcomes are compared. -/
theorem OutcomesMatch.trans
    {later : Pairing}
    {outcome : Flow α × Machine}
    {outcome' : Flow α' × Machine}
    (further : pairing ≤ later)
    (agree : S.OutcomesMatch shape later results outcome outcome') :
    S.OutcomesMatch shape pairing results outcome outcome' := by
  rcases agree with ⟨last, beyond, holds⟩ | stopped
  · exact .inl ⟨last, further.trans beyond, holds⟩
  · exact .inr stopped

theorem OutcomesMatch.of_except
    {outcome : Except EvalError α}
    {outcome' : Except EvalError α'}
    {machine machine' : Machine}
    (admitted : S.admits pairing)
    (agree : ExceptAgrees (results pairing) outcome outcome')
    (machines : S.MachinesMatch shape pairing machine machine') :
    S.OutcomesMatch shape pairing results (Eval.ofExcept outcome machine)
      (Eval.ofExcept outcome' machine') := by
  cases agree with
  | ok related => exact .of_flow admitted (.next related) machines
  | error agrees => exact .of_flow admitted (.error agrees) machines

theorem MachinesMatch.mono_of_heap
    {later : Pairing}
    {machine machine' : Machine}
    {heap heap' : Heap}
    (agree : S.MachinesMatch shape pairing machine machine')
    (further : pairing ≤ later)
    (heaps : heap.Matches later heap') :
    S.MachinesMatch shape later { machine with heap } { machine' with heap := heap' } :=
  ⟨heaps, agree.env.mono fun _ _ holds => holds.mono further, agree.callSites,
    agree.calls.mono further,
    agree.invocations.imp fun _ _ holds => ⟨holds.1.mono further, holds.2⟩⟩

/-- An allocation on both sides. -/
theorem OutcomesMatch.of_yield
    {outcome outcome' : Value × Heap}
    {machine machine' : Machine}
    (machines : S.MachinesMatch shape pairing machine machine')
    (agree : ExtendsTo S.admits pairing (YieldMatches outcome outcome')) :
    S.OutcomesMatch shape pairing ValuesMatch (Eval.yieldWith outcome machine)
      (Eval.yieldWith outcome' machine') := by
  obtain ⟨later, further, admitted, values, heaps⟩ := agree
  exact .inl ⟨later, further, admitted, .next values, machines.mono_of_heap further heaps⟩

/-! ### Computations -/

namespace Simulates

theorem mono
    {later : Pairing}
    {computation : Eval α}
    {computation' : Eval α'}
    (agree : S.Simulates pairing shape results computation computation')
    (further : pairing ≤ later) :
    S.Simulates later shape results computation computation' :=
  fun last beyond => agree last (further.trans beyond)

theorem result
    {value : α}
    {value' : α'}
    (related : ∀ later, pairing ≤ later → results later value value') :
    S.Simulates pairing shape results (Eval.result value) (Eval.result value') :=
  fun later further admitted _ _ machines =>
    .of_flow admitted (.next (related later further)) machines

theorem resultValue {value value' : Value} (agree : value.Matches pairing value') :
    S.Simulates pairing shape ValuesMatch (Eval.result value) (Eval.result value') :=
  .result fun _ further => agree.mono further

theorem leave {value value' : Value} (agree : value.Matches pairing value') :
    S.Simulates pairing shape results (Eval.leave value) (Eval.leave value') :=
  fun _ further admitted _ _ machines =>
    .of_flow admitted (.ret (agree.mono further)) machines

theorem fail {error error' : EvalError} (agrees : error.Agrees error') :
    S.Simulates pairing shape results (Eval.fail error) (Eval.fail error') :=
  fun _ _ admitted _ _ machines => .of_flow admitted (.error agrees) machines

theorem exhausted : S.Simulates pairing shape results Eval.exhausted Eval.exhausted :=
  fun _ _ admitted _ _ machines => .of_flow admitted .exhausted machines

theorem bind
    {results' : Pairing → β → β' → Prop}
    {first : Eval α}
    {first' : Eval α'}
    {rest : α → Eval β}
    {rest' : α' → Eval β'}
    (agree : S.Simulates pairing shape results first first')
    (grows : ∀ value, (rest value).Growing)
    (agreeRest : ∀ later, pairing ≤ later → ∀ value value', results later value value' →
      S.Simulates later shape results' (rest value) (rest' value')) :
    S.Simulates pairing shape results' (first >>= rest) (first' >>= rest') := by
  intro later further admitted machine machine' machines
  have outcome := agree later further admitted machine machine' machines
  show S.OutcomesMatch shape later results' (first.andThen rest machine)
    (first'.andThen rest' machine')
  unfold Eval.andThen
  rcases ran : first machine with ⟨flow, after⟩
  rcases ran' : first' machine' with ⟨flow', after'⟩
  rw [ran, ran'] at outcome
  rcases outcome with ⟨last, beyond, admittedLast, flows, machinesAfter⟩ | stopped
  · apply OutcomesMatch.trans beyond
    cases flows with
    | next related =>
        exact agreeRest last (further.trans beyond) _ _ related last (le_refl last) admittedLast
          after after' machinesAfter
    | ret holds => exact .of_flow admittedLast (.ret holds) machinesAfter
    | error agrees => exact .of_flow admittedLast (.error agrees) machinesAfter
    | exhausted => exact .of_flow admittedLast .exhausted machinesAfter
  · -- The second side ends here; the first one may go on, with more on record.
    obtain ⟨error, fails⟩ := stopped.fails
    dsimp only at fails
    subst fails
    have ended : S.Stopped after.invocations ((.error error, after') : Flow β' × Machine) :=
      stopped.of_eq (fun _ same => by cases same; rfl) rfl rfl rfl
    cases flow with
    | next value => exact .inr (ended.mono (grows value after).invocations)
    | ret | error | exhausted => exact .inr ended

/-- Computations that look at the machine first. -/
theorem ofMachine
    {rest rest' : Machine → Eval α}
    {results : Pairing → α → α → Prop}
    (agree : ∀ later, pairing ≤ later → S.admits later →
      ∀ machine machine', S.MachinesMatch shape later machine machine' →
        S.OutcomesMatch shape later results (rest machine machine) (rest' machine' machine')) :
    S.Simulates pairing shape results (Eval.machine >>= rest) (Eval.machine >>= rest') :=
  agree

theorem inBlock
    {computation : Eval α}
    {computation' : Eval α'}
    (agree : S.Simulates pairing (.shared :: shape) results computation computation') :
    S.Simulates pairing shape results (Eval.inBlock computation) (Eval.inBlock computation') := by
  intro later further admitted machine machine' machines
  have within := machines.env.shared_mem
  have outcome := agree later further admitted { machine with env := machine.env.push }
    { machine' with env := machine'.env.push }
    ⟨machines.heap, machines.env.push, machines.callSites, machines.calls, machines.invocations⟩
  unfold Eval.inBlock
  rcases outcome with ⟨last, beyond, admittedLast, flows, after⟩ | stopped
  · exact .inl ⟨last, beyond, admittedLast, flows,
      after.heap, after.env.pop within, after.callSites, after.calls, after.invocations⟩
  · exact .inr (stopped.of_eq (fun _ same => same) rfl rfl rfl)

/-- A scope that only the second side opens. -/
theorem inBlockAdded
    {computation : Eval α}
    {computation' : Eval α'}
    (agree : S.Simulates pairing (.added :: shape) results computation computation') :
    S.Simulates pairing shape results computation (Eval.inBlock computation') := by
  intro later further admitted machine machine' machines
  have outcome := agree later further admitted machine
    { machine' with env := machine'.env.push }
    ⟨machines.heap, machines.env.pushAdded, machines.callSites, machines.calls,
      machines.invocations⟩
  unfold Eval.inBlock
  rcases outcome with ⟨last, beyond, admittedLast, flows, after⟩ | stopped
  · exact .inl ⟨last, beyond, admittedLast, flows,
      after.heap, after.env.popAdded, after.callSites, after.calls, after.invocations⟩
  · exact .inr (stopped.of_eq (fun _ same => same) rfl rfl rfl)

theorem inEnv
    {body : List Layer}
    {env env' : Env}
    {computation computation' : Eval Value}
    (frames : env.Matches S.table.knows (Value.Matches pairing) body env')
    (agree : S.Simulates pairing body ValuesMatch computation computation') :
    S.Simulates pairing shape ValuesMatch (Eval.inEnv env computation)
      (Eval.inEnv env' computation') := by
  intro later further admitted machine machine' machines
  have outcome := agree later further admitted { machine with env } { machine' with env := env' }
    ⟨machines.heap, frames.mono fun _ _ holds => holds.mono further, machines.callSites,
      machines.calls, machines.invocations⟩
  unfold Eval.inEnv
  rcases outcome with ⟨last, beyond, admittedLast, flows, after⟩ | stopped
  · refine .inl ⟨last, beyond, admittedLast, ?_,
      after.heap, machines.env.mono fun _ _ holds => holds.mono beyond, after.callSites,
      after.calls, after.invocations⟩
    dsimp only
    generalize (computation { machine with env }).1 = flow at flows ⊢
    generalize (computation' { machine' with env := env' }).1 = flow' at flows ⊢
    cases flows with
    | next related => exact .next related
    | ret holds => exact .next holds
    | error agrees => exact .error agrees
    | exhausted => exact .exhausted
  · refine .inr (stopped.of_eq ?_ rfl rfl rfl)
    intro error fails
    dsimp only
    rw [fails]
    rfl

theorem duringCall
    (site : Span)
    {computation : Eval α}
    {computation' : Eval α'}
    (agree : S.Simulates pairing shape results computation computation') :
    S.Simulates pairing shape results (Eval.duringCall site computation)
      (Eval.duringCall site computation') := by
  intro later further admitted machine machine' machines
  have outcome := agree later further admitted
    { machine with callSites := site :: machine.callSites }
    { machine' with callSites := site :: machine'.callSites }
    ⟨machines.heap, machines.env, congrArg (site :: ·) machines.callSites, machines.calls,
      machines.invocations⟩
  unfold Eval.duringCall
  rcases outcome with ⟨last, beyond, admittedLast, flows, after⟩ | stopped
  · exact .inl ⟨last, beyond, admittedLast, flows,
      after.heap, after.env, congrArg List.tail after.callSites, after.calls, after.invocations⟩
  · exact .inr (stopped.of_eq (fun _ same => same) rfl rfl rfl)

theorem asInvocation
    {f f' : Function}
    {receiver receiver' : Option Value}
    {args args' : List Value}
    (site : Span)
    {computation : Eval α}
    {computation' : Eval α'}
    (functions : S.functions f f')
    (passes : S.passes f args f')
    (receivers : Option.Rel (Value.Matches pairing) receiver receiver')
    (arguments : ListsMatch pairing args args')
    (agree : S.Simulates pairing shape results computation computation') :
    S.Simulates pairing shape results (Eval.asInvocation f receiver args site computation)
      (Eval.asInvocation f' receiver' args' site computation') := by
  intro later further admitted machine machine' machines
  refine agree later further admitted _ _
    ⟨machines.heap, machines.env, machines.callSites, machines.calls, ?_⟩
  refine .cons ⟨⟨functions, rfl, later, le_refl later, admitted, ?_, ?_, machines.heap,
    machines.calls.each⟩, passes⟩ machines.invocations
  · cases receivers with
    | none => exact .none
    | some holds => exact .some (holds.mono further)
  · exact arguments.imp fun _ _ holds => holds.mono further

/-- An invocation that the second side ends at once. -/
theorem asInvocationRefused
    {f f' : Function}
    {receiver receiver' : Option Value}
    {args args' : List Value}
    {site : Span}
    {error : EvalError}
    {computation : Eval α}
    (functions : S.functions f f')
    (receivers : Option.Rel (Value.Matches pairing) receiver receiver')
    (arguments : ListsMatch pairing args args')
    (refused : ∀ heap heap' calls calls', S.refused ⟨f, receiver, args, site, heap, calls⟩
      ⟨f', receiver', args', site, heap', calls'⟩ error)
    (grows : computation.Growing) :
    S.Simulates pairing shape results (Eval.asInvocation f receiver args site computation)
      (Eval.asInvocation f' receiver' args' site (Eval.fail error)) := by
  intro later further admitted machine machine' machines
  have receiversLater : Option.Rel (Value.Matches later) receiver receiver' := by
    cases receivers with
    | none => exact .none
    | some holds => exact .some (holds.mono further)
  have argumentsLater : ListsMatch later args args' :=
    arguments.imp fun _ _ holds => holds.mono further
  let invocation : Invocation := ⟨f, receiver, args, site, machine.heap, machine.calls⟩
  let invocation' : Invocation := ⟨f', receiver', args', site, machine'.heap, machine'.calls⟩
  have recorded := (grows
    { machine with invocations := invocation :: machine.invocations }).invocations
  have agree : invocation.Matches S.admits S.functions later invocation' :=
    ⟨functions, rfl, later, le_refl later, admitted, receiversLater, argumentsLater,
      machines.heap, machines.calls.each⟩
  exact .inr ⟨invocation, invocation', machine.invocations, machine'.invocations, later, error,
    recorded, rfl, admitted, agree, machines.invocations, refused _ _ _ _, rfl, rfl, rfl⟩

theorem callNative
    (name : String)
    {native : Native}
    (carries : native.Carries S.admits S.memory name)
    {args args' : List Value}
    (arguments : ListsMatch pairing args args') :
    S.Simulates pairing shape ValuesMatch (Eval.callNative name native args)
      (Eval.callNative name native args') := by
  intro later further admitted machine machine' machines
  have agreeArgs : ListsMatch later args args' := arguments.imp fun _ _ holds => holds.mono further
  obtain ⟨last, beyond, admittedLast, answers, heaps, kept⟩ :=
    carries admitted machines.calls agreeArgs machines.heap
  unfold Eval.callNative
  dsimp only
  refine OutcomesMatch.trans beyond (.of_except admittedLast answers ?_)
  refine ⟨heaps, machines.env.mono fun _ _ holds => holds.mono beyond, machines.callSites, ?_,
    machines.invocations.imp fun _ _ holds => ⟨holds.1.mono beyond, holds.2⟩⟩
  refine ⟨.cons ⟨rfl, later, beyond, admitted, agreeArgs, machines.heap⟩ ?_, kept⟩
  exact (machines.calls.mono beyond).each

theorem repeatWhile
    (turns : Nat)
    {wanted wanted' : Eval Bool}
    {body body' : Eval Unit}
    (growsBody : body.Growing)
    (growsWanted : wanted.Growing)
    (agreeWanted : S.Simulates pairing shape SameResult wanted wanted')
    (agreeBody : S.Simulates pairing shape SameResult body body') :
    S.Simulates pairing shape SameResult (Eval.repeatWhile turns wanted body)
      (Eval.repeatWhile turns wanted' body') := by
  induction turns generalizing pairing with
  | zero => exact exhausted
  | succ turns inductionHypothesis =>
      have growsTurn : (body >>= fun _ => Eval.repeatWhile turns wanted body).Growing :=
        growsBody.bind fun _ => .repeatWhile turns growsWanted growsBody
      refine agreeWanted.bind (fun again => .ite growsTurn (.result ())) ?_
      intro later further again again' same
      subst same
      cases again with
      | false => exact .result fun _ _ => rfl
      | true =>
          refine (agreeBody.mono further).bind
            (fun _ => .repeatWhile turns growsWanted growsBody) ?_
          intro last beyond _ _ _
          exact inductionHypothesis (agreeWanted.mono (further.trans beyond))
            (agreeBody.mono (further.trans beyond))

/-! ### Parts of the rules of evaluation -/

theorem truth (span : Span) {value value' : Value} (agree : value.Matches pairing value') :
    S.Simulates pairing shape SameResult (Eval.truth span value) (Eval.truth span value') := by
  cases agree with
  | bool value => exact .result fun _ _ => rfl
  | _ => exact .fail (.refl _)

theorem orFault
    (span : Span)
    {outcome outcome' : Except TypeFault Value}
    (same : outcome = outcome')
    (closed : ∀ value, outcome = .ok value → value.Matches pairing value) :
    S.Simulates pairing shape ValuesMatch (Eval.orFault span outcome)
      (Eval.orFault span outcome') := by
  subst same
  cases outcome with
  | ok value => exact .resultValue (closed value rfl)
  | error fault => exact .fail (.refl _)

theorem defineVariable
    (name : Symbol)
    {value value' : Value}
    (agree : value.Matches pairing value') :
    S.Simulates pairing (.shared :: shape) SameResult (Eval.defineVariable name value)
      (Eval.defineVariable name value') :=
  fun _ further admitted _ _ machines =>
    .of_flow admitted (.next rfl)
      ⟨machines.heap, machines.env.define (agree.mono further), machines.callSites,
        machines.calls, machines.invocations⟩

/-- A binding that only the second side makes, in a scope of its own, under a name
that the first side never looks for. -/
theorem defineAdded
    {name : Symbol}
    (isForeign : S.table.knows name = false)
    (value' : Value)
    {computation : Eval α}
    {computation' : Eval α'}
    (agree : S.Simulates pairing (.added :: shape) results computation computation') :
    S.Simulates pairing (.added :: shape) results computation
      (Eval.defineVariable name value' >>= fun _ => computation') :=
  fun later further admitted machine _ machines =>
    agree later further admitted machine _
      ⟨machines.heap, machines.env.defineAdded isForeign, machines.callSites, machines.calls,
        machines.invocations⟩

theorem setHeapFrom
    {outcome outcome' : Machine → Except EvalError Heap}
    (agree : ∀ later, pairing ≤ later → ∀ machine machine',
      S.MachinesMatch shape later machine machine' →
        ExceptAgrees (Heap.Matches later) (outcome machine) (outcome' machine')) :
    S.Simulates pairing shape SameResult (Eval.setHeapFrom outcome)
      (Eval.setHeapFrom outcome') := by
  refine .ofMachine fun later further admitted machine machine' machines => ?_
  have agrees := agree later further machine machine' machines
  generalize outcome machine = given at agrees ⊢
  generalize outcome' machine' = given' at agrees ⊢
  cases agrees with
  | ok heaps =>
      exact .of_flow admitted (.next rfl) (machines.mono_of_heap (le_refl later) heaps)
  | error errors => exact .of_flow admitted (.error errors) machines

end Simulates

end Comparison

end NilSafety
