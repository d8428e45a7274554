import Mathlib.Data.List.Forall2
import Mathlib.Order.Defs.PartialOrder
import NilSafety.Eval.EvalError

/-!
Contract: values that agree up to the identities of containers.

Owns:
- pairings, which pair containers of one heap with containers of another, each
  with at most one, and may say how many containers there are;
- values that agree up to a pairing, and that kinds, nil, present layers and host
  equality cannot tell them apart;
- errors that agree.

Does not own: the contents of containers.
-/

namespace NilSafety

/-- The sorts of containers, each with addresses of its own. -/
inductive ContainerSort where
  | object
  | array
  | checkedArray
deriving DecidableEq

/-- Which containers of one heap stand for which containers of another. -/
structure Pairing where
  pairs : ContainerSort → Nat → Nat → Prop
  functional : ∀ {sort address other other'},
    pairs sort address other → pairs sort address other' → other = other'
  injective : ∀ {sort address address' other},
    pairs sort address other → pairs sort address' other → address = address'
  /-- How many containers of each sort there are on both sides, should only these be
  paired. -/
  extent : Option ((ContainerSort → Nat) × (ContainerSort → Nat))
  within : ∀ {first second}, extent = some (first, second) → ∀ {sort address other},
    pairs sort address other → address < first sort ∧ other < second sort

namespace Pairing

/-- Every container stands for the one at the same address. -/
def identity : Pairing where
  pairs := fun _ address other => address = other
  functional := fun first second => first.symm.trans second
  injective := fun first second => first.trans second.symm
  extent := none
  within := nofun

/-- A pairing is below those that pair more containers. -/
instance : Preorder Pairing where
  le := fun pairing later =>
    ∀ sort address other, pairing.pairs sort address other → later.pairs sort address other
  le_refl := fun _ _ _ _ paired => paired
  le_trans := fun _ _ _ first second sort address other paired =>
    second sort address other (first sort address other paired)

end Pairing

namespace Value

/-- The values agree up to a pairing. -/
inductive Matches (pairing : Pairing) : Value → Value → Prop where
  | nil : Matches pairing nil nil
  | unit : Matches pairing unit unit
  | int (value : Int64) : Matches pairing (int value) (int value)
  | bool (value : Bool) : Matches pairing (bool value) (bool value)
  | str (value : String) : Matches pairing (str value) (str value)
  | object (cls : Symbol) {address other : Nat} (paired : pairing.pairs .object address other) :
      Matches pairing (object cls address) (object cls other)
  | array {address other : Nat} (paired : pairing.pairs .array address other) :
      Matches pairing (array address) (array other)
  | checkedArray {address other : Nat} (paired : pairing.pairs .checkedArray address other) :
      Matches pairing (checkedArray address) (checkedArray other)
  | absent : Matches pairing absent absent
  | present {inner inner' : Value} (holds : Matches pairing inner inner') :
      Matches pairing (present inner) (present inner')

namespace Matches

variable {pairing later : Pairing} {value value' other other' : Value}

theorem mono (first : Matches pairing value value') (further : pairing ≤ later) :
    Matches later value value' := by
  induction first with
  | nil => exact .nil
  | unit => exact .unit
  | int value => exact .int value
  | bool value => exact .bool value
  | str value => exact .str value
  | object cls paired => exact .object cls (further _ _ _ paired)
  | array paired => exact .array (further _ _ _ paired)
  | checkedArray paired => exact .checkedArray (further _ _ _ paired)
  | absent => exact .absent
  | present _ inductionHypothesis => exact .present inductionHypothesis

theorem kind_eq (first : Matches pairing value value') : value.kind = value'.kind := by
  cases first <;> rfl

theorem isNil_eq (first : Matches pairing value value') : value.isNil = value'.isNil := by
  cases first <;> rfl

theorem core (first : Matches pairing value value') : Matches pairing value.core value'.core := by
  induction first with
  | present _ inductionHypothesis => exact inductionHypothesis
  | object cls paired => exact .object cls paired
  | array paired => exact .array paired
  | checkedArray paired => exact .checkedArray paired
  | _ => constructor

theorem toOption (first : Matches pairing value value') :
    Option.Rel (Matches pairing) value.toOption value'.toOption := by
  cases first with
  | nil => exact .none
  | absent => exact .none
  | present holds => exact .some holds
  | unit => exact .some .unit
  | int value => exact .some (.int value)
  | bool value => exact .some (.bool value)
  | str value => exact .some (.str value)
  | object cls paired => exact .some (.object cls paired)
  | array paired => exact .some (.array paired)
  | checkedArray paired => exact .some (.checkedArray paired)

theorem ofOption
    {given given' : Option Value}
    (first : Option.Rel (Matches pairing) given given') :
    Matches pairing (Value.ofOption given) (Value.ofOption given') := by
  cases first with
  | none => exact .absent
  | some holds => exact .present holds

/-- A pairing keeps apart what was apart. -/
theorem eq_iff
    (first : Matches pairing value value')
    (second : Matches pairing other other') :
    value = other ↔ value' = other' := by
  induction first generalizing other other' with
  | object cls paired =>
      cases second with
      | object cls' paired' =>
          constructor
          · intro same
            cases same
            rw [pairing.functional paired paired']
          · intro same
            cases same
            rw [pairing.injective paired paired']
      | _ => exact ⟨nofun, nofun⟩
  | array paired =>
      cases second with
      | array paired' =>
          constructor
          · intro same
            cases same
            rw [pairing.functional paired paired']
          · intro same
            cases same
            rw [pairing.injective paired paired']
      | _ => exact ⟨nofun, nofun⟩
  | checkedArray paired =>
      cases second with
      | checkedArray paired' =>
          constructor
          · intro same
            cases same
            rw [pairing.functional paired paired']
          · intro same
            cases same
            rw [pairing.injective paired paired']
      | _ => exact ⟨nofun, nofun⟩
  | present _ inductionHypothesis =>
      cases second with
      | present holds => rw [Value.present.injEq, Value.present.injEq, inductionHypothesis holds]
      | _ => exact ⟨nofun, nofun⟩
  | _ => cases second <;> simp

theorem equalsPlain_eq
    (first : Matches pairing value value')
    (second : Matches pairing other other') :
    value.equalsPlain other = value'.equalsPlain other' := by
  induction second with
  | present _ inductionHypothesis =>
      unfold equalsPlain
      rw [first.isNil_eq, inductionHypothesis]
  | object cls paired =>
      have second := Matches.object cls paired
      simp only [equalsPlain, first.isNil_eq, second.isNil_eq, first.eq_iff second]
  | array paired =>
      have second := Matches.array paired
      simp only [equalsPlain, first.isNil_eq, second.isNil_eq, first.eq_iff second]
  | checkedArray paired =>
      have second := Matches.checkedArray paired
      simp only [equalsPlain, first.isNil_eq, second.isNil_eq, first.eq_iff second]
  | nil => simp only [equalsPlain, first.isNil_eq, first.eq_iff .nil]
  | unit => simp only [equalsPlain, first.isNil_eq, first.eq_iff .unit]
  | int value => simp only [equalsPlain, first.isNil_eq, first.eq_iff (.int value)]
  | bool value => simp only [equalsPlain, first.isNil_eq, first.eq_iff (.bool value)]
  | str value => simp only [equalsPlain, first.isNil_eq, first.eq_iff (.str value)]
  | absent => simp only [equalsPlain, first.isNil_eq, first.eq_iff .absent]

theorem hostEq_eq
    (first : Matches pairing value value')
    (second : Matches pairing other other') :
    value.hostEq other = value'.hostEq other' := by
  induction first generalizing other other' with
  | present _ inductionHypothesis =>
      cases second with
      | present holds => exact inductionHypothesis holds
      | object cls paired =>
          simp only [hostEq]
          rw [inductionHypothesis (.object cls paired)]
          rfl
      | array paired =>
          simp only [hostEq]
          rw [inductionHypothesis (.array paired)]
          rfl
      | checkedArray paired =>
          simp only [hostEq]
          rw [inductionHypothesis (.checkedArray paired)]
          rfl
      | nil => rfl
      | absent => rfl
      | unit => simp only [hostEq, inductionHypothesis .unit]
      | int value => simp only [hostEq, inductionHypothesis (.int value)]
      | bool value => simp only [hostEq, inductionHypothesis (.bool value)]
      | str value => simp only [hostEq, inductionHypothesis (.str value)]
  | object cls paired => exact (Matches.object cls paired).equalsPlain_eq second
  | array paired => exact (Matches.array paired).equalsPlain_eq second
  | checkedArray paired => exact (Matches.checkedArray paired).equalsPlain_eq second
  | nil => exact Matches.nil.equalsPlain_eq second
  | unit => exact Matches.unit.equalsPlain_eq second
  | int value => exact (Matches.int value).equalsPlain_eq second
  | bool value => exact (Matches.bool value).equalsPlain_eq second
  | str value => exact (Matches.str value).equalsPlain_eq second
  | absent => exact Matches.absent.equalsPlain_eq second

end Matches

theorem matches_identity (value : Value) : Matches .identity value value := by
  induction value with
  | nil => exact .nil
  | unit => exact .unit
  | int value => exact .int value
  | bool value => exact .bool value
  | str value => exact .str value
  | object cls address => exact .object cls rfl
  | array address => exact .array rfl
  | checkedArray address => exact .checkedArray rfl
  | absent => exact .absent
  | present inner inductionHypothesis => exact .present inductionHypothesis

/-- Up to the identity, values agree that are the same. -/
theorem matches_identity_iff {value value' : Value} :
    Matches .identity value value' ↔ value = value' := by
  constructor
  · intro first
    exact (first.eq_iff (matches_identity value')).mpr rfl
  · intro same
    rw [same]
    exact matches_identity value'

theorem matches_identity_eq : Matches .identity = Eq := by
  funext value value'
  exact propext matches_identity_iff

theorem forall₂_matches_identity {values values' : List Value} :
    List.Forall₂ (Matches .identity) values values' ↔ values = values' := by
  rw [matches_identity_eq, List.forall₂_eq_eq_eq]

end Value

/-! ### Errors -/

/-- The errors agree but for the text of an expression that cannot be called, and
for the name of a class that the first table lacks. -/
inductive EvalError.Agrees : EvalError → EvalError → Prop where
  | refl (error : EvalError) : Agrees error error
  | notCallable (callee callee' : Expr) (span : Span) :
      Agrees (.type (.notCallable callee) span) (.type (.notCallable callee') span)
  | unknownOwner (owner member : String) (span : Span) :
      Agrees (.unknownMember "<unknown>" member span) (.unknownMember owner member span)

/-- Results that stand in a relation, or errors that agree. -/
inductive ExceptAgrees {α β : Type} (results : α → β → Prop) :
    Except EvalError α → Except EvalError β → Prop where
  | ok {result : α} {result' : β} (related : results result result') :
      ExceptAgrees results (.ok result) (.ok result')
  | error {error error' : EvalError} (agrees : error.Agrees error') :
      ExceptAgrees results (.error error) (.error error')

end NilSafety
