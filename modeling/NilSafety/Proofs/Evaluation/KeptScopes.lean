import Mathlib.Order.Defs.Unbundled
import NilSafety.Proofs.Evaluation.Scopes

/-!
Contract: what assignments leave of nested scopes.

Owns:
- scopes that still bind the same names after some variables were assigned to, where only
  the innermost binding of a name was replaced;
- environments of which all scopes are kept so, and those of which the scopes around the
  innermost one are;
- that assignment, binding, opening and closing respect this.

Does not own: which variables an expression assigns to.
-/

namespace NilSafety

/-- The same names are bound, whatever their values. -/
def SymbolMap.SameNames {α : Type} (map map' : SymbolMap α) : Prop :=
  ∀ name, map'.contains name = map.contains name

/-- Each scope binds the same names as before, and no value but the innermost one of a
written name has changed. -/
inductive ScopesKept :
    (Symbol → Prop) → List (SymbolMap Value) → List (SymbolMap Value) → Prop where
  | nil {written : Symbol → Prop} : ScopesKept written [] []
  | cons {written : Symbol → Prop} {scope scope' : SymbolMap Value}
      {rest rest' : List (SymbolMap Value)}
      (names : scope.SameNames scope')
      (values : ∀ name, ¬written name → scope'.get? name = scope.get? name)
      (others : ScopesKept (fun name => written name ∧ scope.contains name = false) rest rest') :
      ScopesKept written (scope :: rest) (scope' :: rest')

namespace ScopesKept

variable {written wider : Symbol → Prop} {scopes scopes' scopes'' : List (SymbolMap Value)}

theorem refl (written : Symbol → Prop) (scopes : List (SymbolMap Value)) :
    ScopesKept written scopes scopes := by
  induction scopes generalizing written with
  | nil => exact .nil
  | cons scope rest inductionHypothesis =>
      exact .cons (fun _ => rfl) (fun _ _ => rfl) (inductionHypothesis _)

theorem mono
    (kept : ScopesKept written scopes scopes')
    (implied : ∀ name, written name → wider name) :
    ScopesKept wider scopes scopes' := by
  induction kept generalizing wider with
  | nil => exact .nil
  | cons names values _ inductionHypothesis =>
      refine .cons names (fun name isKept => values name (mt (implied name) isKept)) ?_
      exact inductionHypothesis fun name isHere => ⟨implied name isHere.1, isHere.2⟩

theorem trans
    (first : ScopesKept written scopes scopes')
    (second : ScopesKept written scopes' scopes'') :
    ScopesKept written scopes scopes'' := by
  induction first generalizing scopes'' with
  | nil => exact second
  | cons names values _ inductionHypothesis =>
      cases second with
      | cons names' values' others' =>
          refine .cons (fun name => (names' name).trans (names name))
            (fun name isKept => (values' name isKept).trans (values name isKept)) ?_
          simp only [names _] at others'
          exact inductionHypothesis others'

theorem sameNames (kept : ScopesKept written scopes scopes') :
    List.Forall₂ SymbolMap.SameNames scopes scopes' := by
  induction kept with
  | nil => exact .nil
  | cons names _ _ inductionHypothesis => exact .cons names inductionHypothesis

/-- The same names are bound somewhere. -/
theorem isSome_lookup (kept : ScopesKept written scopes scopes') (name : Symbol) :
    (Env.lookup name scopes').isSome = (Env.lookup name scopes).isSome := by
  induction kept with
  | nil => rfl
  | @cons _ scope scope' _ _ names _ _ inductionHypothesis =>
      have same := names name
      unfold SymbolMap.contains at same
      unfold Env.lookup
      generalize scope.get? name = value at same ⊢
      generalize scope'.get? name = value' at same ⊢
      cases value <;> cases value' <;> first | exact inductionHypothesis | simp_all

/-- What is not written reads as before. -/
theorem lookup_eq
    (kept : ScopesKept written scopes scopes')
    {name : Symbol}
    (isKept : ¬written name) :
    Env.lookup name scopes' = Env.lookup name scopes := by
  induction kept with
  | nil => rfl
  | cons names values _ inductionHypothesis =>
      simp only [Env.lookup, values name isKept, inductionHypothesis fun isHere => isKept isHere.1]

theorem assignIn
    {name : Symbol}
    {value : Value}
    (isWritten : written name)
    (assigned : Env.assignIn name value scopes = some scopes') :
    ScopesKept written scopes scopes' := by
  induction scopes generalizing written scopes' with
  | nil => cases assigned
  | cons scope rest inductionHypothesis =>
      unfold Env.assignIn at assigned
      by_cases bound : scope.contains name
      · rw [if_pos bound] at assigned
        cases assigned
        refine .cons (fun other => ?_) (fun other isKept => ?_) (.refl _ _)
        · by_cases same : other = name
          · rw [same, bound]
            simp [SymbolMap.contains]
          · simp only [SymbolMap.contains, SymbolMap.get?_set_of_ne scope same]
        · have different : other ≠ name := by
            rintro rfl
            exact isKept isWritten
          exact SymbolMap.get?_set_of_ne scope different value
      · rw [if_neg bound] at assigned
        obtain ⟨rest', assignedRest, rfl⟩ := Option.map_eq_some_iff.mp assigned
        refine .cons (fun _ => rfl) (fun _ _ => rfl) (inductionHypothesis ?_ assignedRest)
        exact ⟨isWritten, Bool.eq_false_iff.mpr bound⟩

end ScopesKept

namespace Env

/-! ### All scopes -/

/-- The environment differs at most in the values of written variables. -/
def Kept (written : Symbol → Prop) (env env' : Env) : Prop :=
  ScopesKept written env.scopes env'.scopes

namespace Kept

variable {written wider : Symbol → Prop} {env env' : Env}

instance : IsPreorder Env (Kept written) where
  refl env := ScopesKept.refl written env.scopes
  trans _ _ _ := ScopesKept.trans

theorem mono (kept : Kept written env env') (implied : ∀ name, written name → wider name) :
    Kept wider env env' :=
  ScopesKept.mono kept implied

theorem assign?
    {name : Symbol}
    {value : Value}
    (isWritten : written name)
    (assigned : env.assign? name value = some env') :
    Kept written env env' := by
  apply ScopesKept.assignIn isWritten
  rw [← map_scopes_assign?, assigned]
  rfl

theorem isSome_get? (kept : Kept written env env') (name : Symbol) :
    (env'.get? name).isSome = (env.get? name).isSome :=
  ScopesKept.isSome_lookup kept name

theorem get?_eq (kept : Kept written env env') {name : Symbol} (isKept : ¬written name) :
    env'.get? name = env.get? name :=
  ScopesKept.lookup_eq kept isKept

end Kept

/-! ### The scopes around the innermost one -/

/-- The scopes around the innermost one differ at most in the values of written variables
that the innermost one does not bind, and this one still binds what it did. -/
structure KeptAround (written : Symbol → Prop) (env env' : Env) : Prop where
  inner : ∀ name, env.inner.contains name → env'.inner.contains name
  outer : ScopesKept (fun name => written name ∧ env.inner.contains name = false)
    env.outer env'.outer

namespace KeptAround

variable {written wider : Symbol → Prop} {env env' : Env}

instance : IsPreorder Env (KeptAround written) where
  refl env := ⟨fun _ => id, .refl _ _⟩
  trans env env' env'' first second := by
    refine ⟨fun name isBound => second.inner name (first.inner name isBound),
      first.outer.trans (second.outer.mono fun name isHere => ⟨isHere.1, ?_⟩)⟩
    have boundLater := mt (first.inner name)
    simp only [Bool.not_eq_true] at boundLater
    exact boundLater isHere.2

theorem mono
    (kept : KeptAround written env env')
    (implied : ∀ name, written name → wider name) :
    KeptAround wider env env' :=
  ⟨kept.inner, kept.outer.mono fun name isHere => ⟨implied name isHere.1, isHere.2⟩⟩

theorem of_kept (kept : Kept written env env') : KeptAround written env env' := by
  obtain ⟨inner, outer⟩ := env
  obtain ⟨inner', outer'⟩ := env'
  cases kept with
  | cons names values others => exact ⟨fun name isBound => (names name).trans isBound, others⟩

theorem contains_define (env : Env) (name other : Symbol) (value : Value) :
    (env.define name value).inner.contains other = true ↔
      other = name ∨ env.inner.contains other = true := by
  by_cases same : other = name
  · simp [define, SymbolMap.contains, same]
  · simp [define, SymbolMap.contains, same, SymbolMap.get?_set_of_ne]

/-- A binding hides its name from the scopes around. -/
theorem of_define
    {name : Symbol}
    {value : Value}
    (kept : KeptAround written (env.define name value) env')
    (implied : ∀ other, other ≠ name → written other → wider other) :
    KeptAround wider env env' := by
  refine ⟨fun other isBound => kept.inner other ((contains_define ..).mpr (.inr isBound)),
    kept.outer.mono fun other isHere => ?_⟩
  have notBound := Bool.eq_false_iff.mp isHere.2
  rw [ne_eq, contains_define, not_or] at notBound
  exact ⟨implied other notBound.1 isHere.1, Bool.eq_false_iff.mpr notBound.2⟩

theorem define (env : Env) (name : Symbol) (value : Value) :
    KeptAround written env (env.define name value) :=
  of_define (refl_of (KeptAround written) (env.define name value)) fun _ _ => id

/-- What happens in a new innermost scope keeps all scopes, once this one is closed. -/
theorem pop (kept : KeptAround written env.push env') : Kept written env env'.pop := by
  obtain ⟨inner', outer'⟩ := env'
  have around := kept.outer.mono fun _ isHere => isHere.1
  cases around with
  | cons names values others => exact .cons names values others

end KeptAround

end Env

end NilSafety
