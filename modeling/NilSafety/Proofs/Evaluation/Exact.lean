import NilSafety.Proofs.Evaluation.Sessions

/-!
Contract: comparisons in which nothing is renamed.

Owns:
- comparisons under which both sides have the same containers at the same
  addresses, so that arbitrary native functions answer alike;
- what agreement says about a use then: the same ending but for the texts of two
  errors, the same containers, and the same calls of native functions.

Does not own: which functions stand for each other, or which invocations are
refused.
-/

namespace NilSafety

/-- Only the identity comes up. -/
def Pairing.IsIdentity (pairing : Pairing) : Prop :=
  pairing = .identity

theorem NativeCall.matches_identity_iff {call call' : NativeCall} :
    call.Matches Pairing.IsIdentity .identity call' ↔ call = call' := by
  constructor
  · intro agree
    obtain ⟨earlier, -, isIdentity, args, heap⟩ := agree.recorded
    cases isIdentity
    have sameArgs := Value.forall₂_matches_identity.mp args
    have sameHeap := Heap.matches_identity_iff.mp heap
    have sameName := agree.name
    cases call
    cases call'
    cases sameName
    cases sameArgs
    cases sameHeap
    rfl
  · intro same
    subst same
    exact ⟨rfl, .identity, le_refl _, rfl, Value.forall₂_matches_identity.mpr rfl,
      Heap.matches_identity_iff.mpr rfl⟩

theorem NativeCall.forall₂_matches_identity {calls calls' : List NativeCall} :
    List.Forall₂ (NativeCall.Matches Pairing.IsIdentity .identity) calls calls' ↔
      calls = calls' := by
  have isEq : NativeCall.Matches Pairing.IsIdentity .identity = Eq := by
    funext call call'
    exact propext matches_identity_iff
  rw [isEq, List.forall₂_eq_eq_eq]

namespace Comparison

/-- What both sides build alike agrees under the identity. -/
theorem extendsTo_identity
    {pairing : Pairing}
    (admitted : pairing.IsIdentity)
    (outcome : Value × Heap) :
    ExtendsTo Pairing.IsIdentity pairing (YieldMatches outcome outcome) := by
  cases admitted
  exact ⟨.identity, le_refl _, rfl, Value.matches_identity _, Heap.matches_identity_iff.mpr rfl⟩

/-- The comparison of evaluations whose containers are the same, under rules by
which literals build plain arrays. -/
def exact
    (rules : Rules)
    (unchecked : rules.checksLiterals = false)
    (table grown : SymbolTable)
    (grows : table.Later grown)
    (functions : Function → Function → Prop)
    (named : ∀ {f f'}, functions f f' → f'.name = f.name ∧ table.knows f.name)
    (passes : Function → List Value → Function → Prop)
    (refused : Invocation → Invocation → EvalError → Prop) :
    Comparison where
  rules := rules
  table := table
  grown := grown
  grows := grows
  admits := Pairing.IsIdentity
  memory := .none
  functions := functions
  named := named
  passes := passes
  refused := refused
  newObject := by
    intro pairing heap heap' admitted heaps cls fields fields' related
    cases admitted
    cases Heap.matches_identity_iff.mp heaps
    rw [Value.matches_identity_eq, SymbolMap.related_eq_iff] at related
    rw [related]
    exact extendsTo_identity rfl _
  newArray := by
    intro pairing heap heap' admitted heaps elements elements' related
    cases admitted
    cases Heap.matches_identity_iff.mp heaps
    rw [Value.matches_identity_eq, arraysRelated_eq_iff] at related
    rw [related]
    exact extendsTo_identity rfl _
  newChecked := by
    intro pairing heap heap' admitted heaps elements elements' related
    cases admitted
    cases Heap.matches_identity_iff.mp heaps
    rw [Value.matches_identity_eq, arraysRelated_eq_iff] at related
    rw [related]
    exact extendsTo_identity rfl _
  newLiteral := by
    intro checks
    rw [unchecked] at checks
    cases checks
  text := by
    intro pairing heap heap' admitted heaps value value' agree
    cases admitted
    cases Heap.matches_identity_iff.mp heaps
    rw [Value.matches_identity_iff.mp agree]

end Comparison

/-- Asked the same over the same containers, every native function answers the
same. -/
theorem Native.carries_identity (name : String) (native : Native) :
    native.Carries Pairing.IsIdentity .none name := by
  intro pairing history history' args args' heap heap' admitted calls arguments heaps
  cases admitted
  cases Heap.matches_identity_iff.mp heaps
  have sameArgs : args = args' := Value.forall₂_matches_identity.mp arguments
  have sameHistory : history = history' := NativeCall.forall₂_matches_identity.mp calls.each
  cases sameArgs
  cases sameHistory
  refine ⟨.identity, le_refl _, rfl, ?_, Heap.matches_identity_iff.mpr rfl, trivial⟩
  cases (native.respond history args heap).1 with
  | ok value => exact .ok (Value.matches_identity value)
  | error error => exact .error (.refl error)

/-! ### What agreement says -/

/-- The endings are the same, but for the texts of two errors. -/
inductive Flow.Agrees {α : Type} : Flow α → Flow α → Prop where
  | refl (flow : Flow α) : Agrees flow flow
  | error {error error' : EvalError} (agrees : error.Agrees error') :
      Agrees (.error error) (.error error')

/-- The uses ended alike, with the same containers and the same calls of native
functions. -/
structure OutcomesAgree {α : Type} (outcome outcome' : Flow α × Session) : Prop where
  flow : outcome.1.Agrees outcome'.1
  heap : outcome.2.machine.heap = outcome'.2.machine.heap
  calls : outcome.2.machine.calls = outcome'.2.machine.calls

theorem Flow.agrees_of_matches
    {α : Type}
    {results : Pairing → α → α → Prop}
    (same : ∀ result result', results .identity result result' → result = result')
    {flow flow' : Flow α}
    (agree : flow.Matches .identity (results .identity) flow') :
    flow.Agrees flow' := by
  cases agree with
  | next related =>
      rw [same _ _ related]
      exact .refl _
  | ret values =>
      rw [Value.matches_identity_iff.mp values]
      exact .refl _
  | error agrees => exact .error agrees
  | exhausted => exact .refl _

theorem OutcomesAgree.of_matches
    {S : Comparison}
    (onlyIdentity : S.admits = Pairing.IsIdentity)
    {α : Type}
    {results : Pairing → α → α → Prop}
    (same : ∀ result result', results .identity result result' → result = result')
    {outcome outcome' : Flow α × Session}
    (flows : outcome.1.Matches .identity (results .identity) outcome'.1)
    (sessions : S.SessionsMatch .identity outcome.2 outcome'.2) :
    OutcomesAgree outcome outcome' := by
  have calls := sessions.machines.calls.each
  rw [onlyIdentity] at calls
  exact ⟨Flow.agrees_of_matches same flows, Heap.matches_identity_iff.mp sessions.machines.heap,
    NativeCall.forall₂_matches_identity.mp calls⟩

namespace Comparison

variable {S : Comparison}

/-- Where no invocation is refused, uses that agree have the same outcome. -/
theorem outcomesAgree
    (onlyIdentity : S.admits = Pairing.IsIdentity)
    (refusesNothing : ∀ invocation invocation' error, ¬ S.refused invocation invocation' error)
    {α : Type}
    {results : Pairing → α → α → Prop}
    (same : ∀ result result', results .identity result result' → result = result')
    {outcome outcome' : Flow α × Session}
    (agree : S.UsesMatch .identity results outcome outcome') :
    OutcomesAgree outcome outcome' ∧ S.SessionsMatch .identity outcome.2 outcome'.2 := by
  rcases agree with ⟨later, -, isIdentity, flows, sessions⟩ | stopped
  · rw [onlyIdentity] at isIdentity
    cases isIdentity
    exact ⟨.of_matches onlyIdentity same flows sessions, sessions⟩
  · obtain ⟨_, _, _, _, _, _, _, _, _, _, _, refused, _⟩ := stopped.refusal
    exact absurd refused (refusesNothing _ _ _)

/-- Sessions that agree go on to agree over any containers. -/
theorem sessionsMatch_withHeap
    {session session' : Session}
    (agree : S.SessionsMatch .identity session session')
    (heap : Heap) :
    S.SessionsMatch .identity (session.withHeap heap) (session'.withHeap heap) :=
  ⟨agree.programs,
    ⟨Heap.matches_identity_iff.mpr rfl, agree.machines.env, agree.machines.callSites,
      agree.machines.calls, agree.machines.invocations⟩,
    agree.rules, agree.plain⟩

end Comparison

end NilSafety
