import Mathlib.Logic.Function.Iterate
import NilSafety.Eval.Value

/-!
Contract: host equality in terms of what values hold under their present layers.

Owns:
- a value as its core under a number of present layers;
- values that are one scalar, or refer to one container;
- host equality by cores and numbers of layers, and that it is an equivalence.

Does not own: where programs compare values.

Equality takes layers off both sides as long as both have some. If nil or absence is left
on one side, nothing more comes off the other side. So the number of layers counts exactly
where the cores are nil or absent.
-/

namespace NilSafety

namespace Value

/-! ### Layers -/

/-- The value is under no present layer. -/
def IsPlain (value : Value) : Prop :=
  ∀ inner, value ≠ present inner

/-- The number of present layers around the core. -/
def layers : Value → Nat
  | present inner => layers inner + 1
  | _ => 0

theorem isPlain_core (value : Value) : value.core.IsPlain := by
  induction value with
  | present inner inductionHypothesis => exact inductionHypothesis
  | _ => exact nofun

theorem iterate_layers_core (value : Value) : present^[value.layers] value.core = value := by
  induction value with
  | present inner inductionHypothesis =>
      rw [layers, core, Function.iterate_succ_apply', inductionHypothesis]
  | _ => rfl

/-! ### Equality -/

/-- The values are one scalar, or refer to one container. Nil and absence are neither. -/
inductive Identical : Value → Value → Prop where
  | unit : Identical .unit .unit
  | int (value : Int64) : Identical (.int value) (.int value)
  | bool (value : Bool) : Identical (.bool value) (.bool value)
  | str (value : String) : Identical (.str value) (.str value)
  | object (cls : Symbol) (address : Nat) : Identical (.object cls address) (.object cls address)
  | array (address : Nat) : Identical (.array address) (.array address)
  | checkedArray (address : Nat) : Identical (.checkedArray address) (.checkedArray address)

theorem identical_iff {value other : Value} (isPlain : value.IsPlain) :
    value.Identical other ↔ value.isNil = false ∧ value = other := by
  constructor
  · intro identical
    cases identical <;> exact ⟨rfl, rfl⟩
  · rintro ⟨notNil, rfl⟩
    cases value with
    | nil | absent => cases notNil
    | present inner => exact absurd rfl (isPlain inner)
    | _ => constructor

section

variable {plain other : Value} (isPlain : plain.IsPlain)

include isPlain

theorem hostEq_of_isPlain (value : Value) : plain.hostEq value = plain.equalsPlain value := by
  cases plain with
  | present inner => exact absurd rfl (isPlain inner)
  | _ => rfl

theorem equalsPlain_of_isPlain (value : Value) :
    value.equalsPlain plain =
      if value.isNil || plain.isNil then value.isNil && plain.isNil else value = plain := by
  cases plain with
  | present inner => exact absurd rfl (isPlain inner)
  | _ => rfl

theorem present_hostEq_of_isPlain (inner : Value) :
    (present inner).hostEq plain = (!plain.isNil && inner.hostEq plain) := by
  cases plain with
  | present inner => exact absurd rfl (isPlain inner)
  | _ => rfl

/-- Where nothing is left on one side, nothing must be left on the other one, under as many
layers. Elsewhere layers do not count. -/
theorem hostEq_iterate (isPlainOther : other.IsPlain) (count count' : Nat) :
    (present^[count] plain).hostEq (present^[count'] other) =
      if plain.isNil || other.isNil then plain.isNil && other.isNil && count == count'
      else plain = other := by
  induction count generalizing count' with
  | zero =>
      change plain.hostEq _ = _
      rw [hostEq_of_isPlain isPlain]
      induction count' with
      | zero => simp [equalsPlain_of_isPlain isPlainOther]
      | succ count' inductionHypothesis =>
          rw [Function.iterate_succ_apply', equalsPlain, inductionHypothesis]
          cases plain.isNil <;> cases other.isNil <;> simp
  | succ count inductionHypothesis =>
      rw [Function.iterate_succ_apply']
      cases count' with
      | zero =>
          rw [Function.iterate_zero_apply, present_hostEq_of_isPlain isPlainOther]
          have below := inductionHypothesis 0
          rw [Function.iterate_zero_apply] at below
          rw [below]
          cases plain.isNil <;> cases other.isNil <;> simp
      | succ count' =>
          rw [Function.iterate_succ_apply', hostEq, inductionHypothesis count']
          simp

end

theorem hostEq_iff {left right : Value} :
    left.hostEq right ↔
      left.core.Identical right.core ∨
        (left.core.isNil ∧ right.core.isNil ∧ left.layers = right.layers) := by
  have layered := hostEq_iterate left.isPlain_core right.isPlain_core left.layers right.layers
  rw [iterate_layers_core, iterate_layers_core] at layered
  rw [layered, identical_iff left.isPlain_core]
  cases isNil : left.core.isNil <;> cases isNil' : right.core.isNil
  · simp
  · -- A core that is nil is not the other one, which is none.
    have differ : left.core ≠ right.core := by
      intro same
      rw [same, isNil'] at isNil
      cases isNil
    simp [differ]
  · simp
  · simp

theorem Identical.symm {left right : Value} (identical : left.Identical right) :
    right.Identical left := by
  cases identical <;> constructor

theorem Identical.trans
    {left middle right : Value}
    (first : left.Identical middle)
    (second : middle.Identical right) :
    left.Identical right := by
  cases first <;> exact second

theorem Identical.isNil_right {left right : Value} (identical : left.Identical right) :
    right.isNil = false := by
  cases identical <;> rfl

theorem hostEq_refl (value : Value) : value.hostEq value := by
  rw [hostEq_iff, identical_iff value.isPlain_core]
  cases value.core.isNil <;> simp

theorem hostEq_symm {left right : Value} (same : left.hostEq right) : right.hostEq left := by
  rw [hostEq_iff] at same ⊢
  refine same.imp Identical.symm ?_
  rintro ⟨isNil, isNil', layers⟩
  exact ⟨isNil', isNil, layers.symm⟩

theorem hostEq_trans
    {left middle right : Value}
    (first : left.hostEq middle)
    (second : middle.hostEq right) :
    left.hostEq right := by
  rw [hostEq_iff] at first second ⊢
  rcases first with identical | ⟨isNil, isNilMiddle, layers⟩
  · rcases second with identical' | ⟨isNilMiddle, -, -⟩
    · exact .inl (identical.trans identical')
    · rw [identical.isNil_right] at isNilMiddle
      cases isNilMiddle
  · rcases second with identical' | ⟨-, isNilRight, layers'⟩
    · rw [identical'.symm.isNil_right] at isNilMiddle
      cases isNilMiddle
    · exact .inr ⟨isNil, isNilRight, layers.trans layers'⟩

/-- **Host equality.** It is an equivalence. Every value is a core without present layers
under a number of them, and two values are equal exactly if their cores are one scalar or
refer to one container, whatever layers are around them, or if both cores are nil or absent
and under equally many layers. -/
theorem host_equality_by_cores :
    Equivalence (fun left right : Value => left.hostEq right) ∧
    (∀ value : Value, value.core.IsPlain ∧ present^[value.layers] value.core = value) ∧
    ∀ left right : Value, left.hostEq right ↔
      left.core.Identical right.core ∨
        (left.core.isNil ∧ right.core.isNil ∧ left.layers = right.layers) :=
  ⟨⟨hostEq_refl, hostEq_symm, hostEq_trans⟩,
    fun value => ⟨value.isPlain_core, value.iterate_layers_core⟩, fun _ _ => hostEq_iff⟩

/-- Two nils that were stored in nested arrays differ from one that was stored once; a
number is the same under any layers. -/
example :
    hostEq (present (present nil)) (present nil) = false ∧
      hostEq (present nil) (present absent) ∧
      hostEq (present (present (int 2))) (int 2) := by
  decide

end Value

end NilSafety
