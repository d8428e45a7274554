import NilSafety.Eval.Env
import NilSafety.Proofs.Symbols.RelatedMaps

/-!
Contract: variables that agree although one side has more scopes.

Owns:
- the shape of nested scopes, which tells for each scope of the second side
  whether the first side has it too;
- environments that agree along a shape: shared scopes bind the same names to
  related values, and added ones bind no name that the first side may look for;
- that look-up, assignment, binding, opening and closing respect this.

Does not own: which scopes are added.
-/

namespace NilSafety

/-- Whether both sides have a scope, or only the second one. -/
inductive Layer where
  | shared
  | added
deriving DecidableEq

/-- The scopes agree along a shape, the innermost first. -/
inductive ScopesMatch (known : Symbol → Bool) (values : Value → Value → Prop) :
    List Layer → List (SymbolMap Value) → List (SymbolMap Value) → Prop where
  | nil : ScopesMatch known values [] [] []
  | shared {scope scope' : SymbolMap Value} {shape : List Layer}
      {rest rest' : List (SymbolMap Value)}
      (related : SymbolMap.Related values scope scope')
      (others : ScopesMatch known values shape rest rest') :
      ScopesMatch known values (.shared :: shape) (scope :: rest) (scope' :: rest')
  | added {scope' : SymbolMap Value} {shape : List Layer}
      {rest rest' : List (SymbolMap Value)}
      (foreign : ∀ name, known name → scope'.get? name = none)
      (others : ScopesMatch known values shape rest rest') :
      ScopesMatch known values (.added :: shape) rest (scope' :: rest')

namespace ScopesMatch

variable
  {known : Symbol → Bool}
  {values : Value → Value → Prop}
  {shape : List Layer}
  {scopes scopes' : List (SymbolMap Value)}

theorem mono
    {values' : Value → Value → Prop}
    (agree : ScopesMatch known values shape scopes scopes')
    (implied : ∀ value value', values value value' → values' value value') :
    ScopesMatch known values' shape scopes scopes' := by
  induction agree with
  | nil => exact .nil
  | shared related _ inductionHypothesis => exact .shared (related.mono implied) inductionHypothesis
  | added foreign _ inductionHypothesis => exact .added foreign inductionHypothesis

theorem length_eq (agree : ScopesMatch known values shape scopes scopes') :
    scopes.length = shape.count .shared ∧ scopes'.length = shape.length := by
  induction agree with
  | nil => exact ⟨rfl, rfl⟩
  | shared _ _ inductionHypothesis =>
      simp [inductionHypothesis.1, inductionHypothesis.2]
  | added _ _ inductionHypothesis =>
      simp [inductionHypothesis.1, inductionHypothesis.2]

theorem lookup
    (agree : ScopesMatch known values shape scopes scopes')
    {name : Symbol}
    (isKnown : known name) :
    Option.Rel values (Env.lookup name scopes) (Env.lookup name scopes') := by
  induction agree with
  | nil => exact .none
  | @shared scope scope' shape rest rest' related _ inductionHypothesis =>
      have found := related.get? name
      unfold Env.lookup
      generalize scope.get? name = value at found ⊢
      generalize scope'.get? name = value' at found ⊢
      cases found with
      | none => exact inductionHypothesis
      | some holds => exact .some holds
  | added foreign _ inductionHypothesis =>
      rw [Env.lookup, foreign name isKnown]
      exact inductionHypothesis

theorem assignIn
    (agree : ScopesMatch known values shape scopes scopes')
    {name : Symbol}
    (isKnown : known name)
    {value value' : Value}
    (holds : values value value') :
    Option.Rel (ScopesMatch known values shape) (Env.assignIn name value scopes)
      (Env.assignIn name value' scopes') := by
  induction agree with
  | nil => exact .none
  | @shared scope scope' shape rest rest' related others inductionHypothesis =>
      unfold Env.assignIn
      rw [related.contains_eq name]
      by_cases bound : scope'.contains name
      · rw [if_pos bound, if_pos bound]
        exact .some (.shared (related.set name holds) others)
      · rw [if_neg bound, if_neg bound]
        generalize Env.assignIn name value rest = assigned at inductionHypothesis ⊢
        generalize Env.assignIn name value' rest' = assigned' at inductionHypothesis ⊢
        cases inductionHypothesis with
        | none => exact .none
        | some agree => exact .some (.shared related agree)
  | @added scope' shape rest rest' foreign others inductionHypothesis =>
      have unbound : scope'.contains name = false := by
        unfold SymbolMap.contains
        rw [foreign name isKnown]
        rfl
      have skips : Env.assignIn name value' (scope' :: rest') =
          (Env.assignIn name value' rest').map (scope' :: ·) := by
        rw [Env.assignIn, unbound]
        rfl
      rw [skips]
      generalize Env.assignIn name value rest = assigned at inductionHypothesis ⊢
      generalize Env.assignIn name value' rest' = assigned' at inductionHypothesis ⊢
      cases inductionHypothesis with
      | none => exact .none
      | some agree => exact .some (.added foreign agree)

end ScopesMatch

namespace Env

/-- All scopes, the innermost first. -/
def scopes (env : Env) : List (SymbolMap Value) :=
  env.inner :: env.outer

/-- The variables agree along a shape. -/
def Matches
    (known : Symbol → Bool)
    (values : Value → Value → Prop)
    (shape : List Layer)
    (env env' : Env) :
    Prop :=
  ScopesMatch known values shape env.scopes env'.scopes

/-- Assignment works through all scopes alike. -/
theorem map_scopes_assign? (env : Env) (name : Symbol) (value : Value) :
    (env.assign? name value).map scopes = assignIn name value env.scopes := by
  unfold assign? scopes
  rw [assignIn]
  split
  · rfl
  · rw [Option.map_map, Function.comp_def]

namespace Matches

variable
  {known : Symbol → Bool}
  {values : Value → Value → Prop}
  {shape : List Layer}
  {env env' : Env}
  {name : Symbol}
  {value value' : Value}

theorem start : Matches known values [.shared] Env.start Env.start :=
  .shared .empty .nil

theorem mono
    {values' : Value → Value → Prop}
    (agree : Matches known values shape env env')
    (implied : ∀ value value', values value value' → values' value value') :
    Matches known values' shape env env' :=
  ScopesMatch.mono agree implied

/-- The first side always has a scope. -/
theorem shared_mem (agree : Matches known values shape env env') : Layer.shared ∈ shape := by
  have lengths := ScopesMatch.length_eq agree
  have positive : 0 < env.scopes.length := Nat.succ_pos _
  rw [lengths.1] at positive
  exact List.count_pos_iff.mp positive

theorem get? (agree : Matches known values shape env env') (isKnown : known name) :
    Option.Rel values (env.get? name) (env'.get? name) :=
  ScopesMatch.lookup agree isKnown

theorem assign?
    (agree : Matches known values shape env env')
    (isKnown : known name)
    (holds : values value value') :
    Option.Rel (Matches known values shape) (env.assign? name value)
      (env'.assign? name value') := by
  have assigned := ScopesMatch.assignIn agree isKnown holds
  rw [← map_scopes_assign?, ← map_scopes_assign?] at assigned
  generalize env.assign? name value = result at assigned ⊢
  generalize env'.assign? name value' = result' at assigned ⊢
  cases result <;> cases result' <;> cases assigned
  · exact .none
  · exact .some ‹_›

theorem define
    (agree : Matches known values (.shared :: shape) env env')
    (holds : values value value') :
    Matches known values (.shared :: shape) (env.define name value) (env'.define name value') := by
  cases agree with
  | shared related others => exact .shared (related.set name holds) others

/-- A binding of a name that the first side does not look for, in an added
scope. -/
theorem defineAdded
    (agree : Matches known values (.added :: shape) env env')
    (isForeign : known name = false) :
    Matches known values (.added :: shape) env (env'.define name value') := by
  obtain ⟨inner', outer'⟩ := env'
  cases agree with
  | added foreign others =>
      refine .added ?_ others
      intro other isKnown
      have different : other ≠ name := by
        intro same
        rw [same, isForeign] at isKnown
        cases isKnown
      exact (SymbolMap.get?_set_of_ne _ different _).trans (foreign other isKnown)

theorem push (agree : Matches known values shape env env') :
    Matches known values (.shared :: shape) env.push env'.push :=
  .shared .empty agree

/-- A scope that only the second side opens. -/
theorem pushAdded (agree : Matches known values shape env env') :
    Matches known values (.added :: shape) env env'.push :=
  .added (fun _ _ => rfl) agree

theorem pop
    (agree : Matches known values (.shared :: shape) env env')
    (within : Layer.shared ∈ shape) :
    Matches known values shape env.pop env'.pop := by
  obtain ⟨inner, outer⟩ := env
  obtain ⟨inner', outer'⟩ := env'
  cases agree with
  | shared related others =>
      have lengths := others.length_eq
      have positive : 0 < shape.count .shared := List.count_pos_iff.mpr within
      have positive' : 0 < shape.length := List.length_pos_of_mem within
      cases outer with
      | nil => exact absurd lengths.1 (by rw [List.length_nil]; omega)
      | cons scope rest =>
          cases outer' with
          | nil => exact absurd lengths.2 (by rw [List.length_nil]; omega)
          | cons scope' rest' => exact others

theorem popAdded (agree : Matches known values (.added :: shape) env env') :
    Matches known values shape env env'.pop := by
  obtain ⟨inner', outer'⟩ := env'
  have within : Layer.shared ∈ shape := by
    have member := agree.shared_mem
    simpa using member
  have positive : 0 < shape.length := List.length_pos_of_mem within
  cases agree with
  | added foreign others =>
      have lengths := others.length_eq
      cases outer' with
      | nil => exact absurd lengths.2 (by rw [List.length_nil]; omega)
      | cons scope' rest' => exact others

end Matches

end Env

end NilSafety
