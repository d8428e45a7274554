import NilSafety.Eval.Expression
import NilSafety.Proofs.Evaluation.Heaps
import NilSafety.Proofs.Symbols.Growth

/-!
Contract: accesses to values that agree up to the identities of containers.

Owns:
- that operators, reads, writes and the methods of arrays and texts have the same
  outcome on both sides, over a table and over one grown from it;
- which method calls the language answers by itself.

Does not own: allocation, and the evaluation of operands.
-/

namespace NilSafety

section

variable {pairing : Pairing} {value value' other other' : Value}

theorem UnaryOp.apply_eq (op : UnaryOp) (agree : value.Matches pairing value') :
    op.apply value = op.apply value' := by
  cases op <;> cases agree <;> rfl

/-- The operators between operands yield numbers, truth values and texts. -/
theorem BinaryOp.apply_eq
    (op : BinaryOp)
    (agree : value.Matches pairing value')
    (agreeOther : other.Matches pairing other') :
    op.apply value other = op.apply value' other' := by
  cases op with
  | equal => simp only [apply, agree.hostEq_eq agreeOther]
  | notEqual => simp only [apply, agree.hostEq_eq agreeOther]
  | _ => cases agree <;> cases agreeOther <;> rfl

/-- What the operators yield names no container. -/
theorem UnaryOp.matches_apply
    {op : UnaryOp}
    {result : Value}
    (applied : op.apply value = .ok result) :
    result.Matches pairing result := by
  unfold apply at applied
  split at applied
  · cases applied
    exact .bool _
  · cases applied
    exact .int _
  · cases applied

theorem BinaryOp.matches_apply
    {op : BinaryOp}
    {result : Value}
    (applied : op.apply value other = .ok result) :
    result.Matches pairing result := by
  unfold apply at applied
  split at applied
  all_goals cases applied
  all_goals constructor

end

namespace Member

variable
  {pairing : Pairing}
  {heap heap' : Heap}
  {table grown : SymbolTable}
  {value value' other other' : Value}

theorem elementAt?_rel
    {elements elements' : Array Value}
    (related : ArraysRelated (Value.Matches pairing) elements elements')
    (position : Int64) :
    Option.Rel (Value.Matches pairing) (elementAt? elements position)
      (elementAt? elements' position) := by
  have arrays : CheckedArray.Related (Value.Matches pairing) ⟨elements⟩ ⟨elements'⟩ := related
  exact arrays.get? position.toInt

theorem getD_nil
    {found found' : Option Value}
    (related : Option.Rel (Value.Matches pairing) found found') :
    (found.getD .nil).Matches pairing (found'.getD .nil) := by
  cases related with
  | none => exact .nil
  | some holds => exact holds

/-- A class that the first table lacks is the one thing whose name may differ. -/
theorem agrees_unknownMember
    (grows : table.Later grown)
    (cls : Symbol)
    (member : String)
    (span : Span) :
    EvalError.Agrees (.unknownMember (table.display cls) member span)
      (.unknownMember (grown.display cls) member span) := by
  cases known : table.knows cls with
  | true =>
      rw [grows.display_eq known]
      exact .refl _
  | false =>
      have unnamed : table.display cls = "<unknown>" := by
        unfold SymbolTable.knows at known
        unfold SymbolTable.display
        rw [Option.isSome_eq_false_iff, Option.isNone_iff_eq_none] at known
        rw [known]
        rfl
      rw [unnamed]
      exact .unknownOwner _ member span

theorem readField_agrees
    (grows : table.Later grown)
    (agreeHeap : heap.Matches pairing heap')
    (agree : value.Matches pairing value')
    {name : Symbol}
    (known : table.knows name)
    (span : Span) :
    ExceptAgrees (Value.Matches pairing) (readField table heap value name span)
      (readField grown heap' value' name span) := by
  have agreeCore := agree.core
  unfold readField
  generalize value.core = core at agreeCore ⊢
  generalize value'.core = core' at agreeCore ⊢
  rw [grows.display_eq known]
  cases agreeCore with
  | object cls paired =>
      have found := (agreeHeap.fields paired).get? name
      dsimp only
      generalize (heap.fields _).get? name = field at found ⊢
      generalize (heap'.fields _).get? name = field' at found ⊢
      cases found with
      | none => exact .error (agrees_unknownMember grows cls _ span)
      | some holds => exact .ok holds
  | _ => exact .error (.refl _)

theorem readElement_agrees
    (agreeHeap : heap.Matches pairing heap')
    (agree : value.Matches pairing value')
    (agreePosition : other.Matches pairing other')
    (span : Span) :
    ExceptAgrees (Value.Matches pairing) (readElement heap value other span)
      (readElement heap' value' other' span) := by
  have agreeCore := agree.core
  unfold readElement
  generalize value.core = core at agreeCore ⊢
  generalize value'.core = core' at agreeCore ⊢
  cases agreePosition with
  | int position =>
      cases agreeCore with
      | array paired => exact .ok (getD_nil (elementAt?_rel (agreeHeap.elements paired) position))
      | checkedArray paired =>
          exact .ok (.ofOption ((agreeHeap.checked paired).get? position.toInt))
      | _ => exact .error (.refl _)
  | _ => exact .error (.refl _)

/-- What has no method of this name for such arguments agrees with nothing that has
one. -/
theorem callBuiltin_eq_none
    (agree : value.Matches pairing value')
    {method : String}
    {args args' : List Value}
    (agreeArgs : List.Forall₂ (Value.Matches pairing) args args')
    (none : callBuiltin heap value method args = none) :
    callBuiltin heap' value' method args' = .none := by
  unfold callBuiltin
  split
  next =>
    cases agree
    cases agreeArgs
    cases none
  next =>
    cases agree
    rcases agreeArgs with - | ⟨agreeFirst, rest⟩
    cases agreeFirst
    cases rest
    cases none
  next =>
    cases agree
    rcases agreeArgs with - | ⟨agreeFirst, rest⟩
    cases rest
    cases none
  next =>
    cases agree
    cases agreeArgs
    cases none
  next =>
    cases agree
    rcases agreeArgs with - | ⟨agreeFirst, rest⟩
    cases agreeFirst
    cases rest
    cases none
  next =>
    cases agree
    rcases agreeArgs with - | ⟨agreeFirst, rest⟩
    cases rest
    cases none
  next =>
    cases agree
    cases agreeArgs
    cases none
  next => rfl

theorem callBuiltin_rel
    (agreeHeap : heap.Matches pairing heap')
    (agree : value.Matches pairing value')
    (method : String)
    {args args' : List Value}
    (agreeArgs : List.Forall₂ (Value.Matches pairing) args args') :
    Option.Rel
      (fun outcome outcome' =>
        outcome.1.Matches pairing outcome'.1 ∧ outcome.2.Matches pairing outcome'.2)
      (callBuiltin heap value method args) (callBuiltin heap' value' method args') := by
  cases answer : callBuiltin heap value method args with
  | none =>
      rw [callBuiltin_eq_none agree agreeArgs answer]
      exact .none
  | some outcome =>
      unfold callBuiltin at answer
      split at answer
      next address =>
        cases agree with
        | array paired =>
            cases agreeArgs
            cases answer
            exact .some ⟨(agreeHeap.elements paired).size_eq ▸ .int _, agreeHeap⟩
      next address position =>
        cases agree with
        | array paired =>
            rcases agreeArgs with - | ⟨agreeFirst, rest⟩
            cases agreeFirst
            cases rest
            cases answer
            exact .some ⟨getD_nil (elementAt?_rel (agreeHeap.elements paired) position), agreeHeap⟩
      next address pushed =>
        cases agree with
        | array paired =>
            rcases agreeArgs with - | ⟨agreeFirst, rest⟩
            cases rest
            cases answer
            exact .some ⟨.unit,
              agreeHeap.setElements paired ((agreeHeap.elements paired).push agreeFirst)⟩
      next address =>
        cases agree with
        | checkedArray paired =>
            cases agreeArgs
            cases answer
            unfold CheckedArray.length
            exact .some ⟨(agreeHeap.checked paired).size_eq ▸ .int _, agreeHeap⟩
      next address position =>
        cases agree with
        | checkedArray paired =>
            rcases agreeArgs with - | ⟨agreeFirst, rest⟩
            cases agreeFirst
            cases rest
            cases answer
            exact .some ⟨.ofOption ((agreeHeap.checked paired).get? position.toInt), agreeHeap⟩
      next address pushed =>
        cases agree with
        | checkedArray paired =>
            rcases agreeArgs with - | ⟨agreeFirst, rest⟩
            cases rest
            cases answer
            exact .some ⟨.unit,
              agreeHeap.setChecked paired
                (ArraysRelated.push (agreeHeap.checked paired) agreeFirst)⟩
      next text =>
        cases agree
        cases agreeArgs
        cases answer
        exact .some ⟨.int _, agreeHeap⟩
      next => cases answer

theorem writeField_agrees
    (grows : table.Later grown)
    (agreeHeap : heap.Matches pairing heap')
    (agree : value.Matches pairing value')
    {name : Symbol}
    (known : table.knows name)
    (agreeNew : other.Matches pairing other')
    (span : Span) :
    ExceptAgrees (Heap.Matches pairing) (writeField table heap value name other span)
      (writeField grown heap' value' name other' span) := by
  unfold writeField
  rw [grows.display_eq known]
  cases agree with
  | object cls paired =>
      exact .ok (agreeHeap.setFields paired ((agreeHeap.fields paired).set name agreeNew))
  | _ => exact .error (.refl _)

theorem writeElement_agrees
    {position position' : Value}
    (agreeHeap : heap.Matches pairing heap')
    (agree : value.Matches pairing value')
    (agreePosition : position.Matches pairing position')
    (agreeNew : other.Matches pairing other')
    (span : Span) :
    ExceptAgrees (Heap.Matches pairing) (writeElement heap value position other span)
      (writeElement heap' value' position' other' span) := by
  unfold writeElement
  cases agreePosition with
  | int position =>
      cases agree with
      | array paired =>
          have arrays : CheckedArray.Related (Value.Matches pairing) ⟨heap.elements _⟩
              ⟨heap'.elements _⟩ := agreeHeap.elements paired
          have changed := arrays.set? position.toInt agreeNew
          dsimp only
          generalize CheckedArray.set? _ _ other = array at changed ⊢
          generalize CheckedArray.set? _ _ other' = array' at changed ⊢
          cases changed with
          | none => exact .error (.refl _)
          | some related => exact .ok (agreeHeap.setElements paired related)
      | checkedArray paired =>
          have changed := (agreeHeap.checked paired).set? position.toInt agreeNew
          dsimp only
          generalize CheckedArray.set? _ _ other = array at changed ⊢
          generalize CheckedArray.set? _ _ other' = array' at changed ⊢
          cases changed with
          | none => exact .error (.refl _)
          | some related => exact .ok (agreeHeap.setChecked paired related)
      | _ => exact .error (.refl _)
  | _ => exact .error (.refl _)

end Member

/-! ### Methods that the language offers -/

namespace Context

/-- The call of a method that no class declares. -/
def callBuiltin
    (context : Context)
    (core : Value)
    (method : Symbol)
    (args : List Value)
    (span : Span) :
    Eval Value := do
  let machine ← Eval.machine
  match Member.callBuiltin machine.heap core (context.name method) args with
  | some outcome => Eval.yieldWith outcome
  | none => Eval.fail (.unknownMember core.kind.name (context.name method) span)

/-- Only objects have methods of their own, and only nil and absence refuse every
call. -/
theorem callMethod_eq_callBuiltin
    (context : Context)
    {receiver : Value}
    (notNil : receiver.core.isNil = false)
    (notObject : ∀ cls address, receiver.core ≠ .object cls address)
    (method : Symbol)
    (args : List Value)
    (span : Span) :
    context.callMethod receiver method args span =
      context.callBuiltin receiver.core method args span := by
  unfold callMethod
  generalize receiver.core = core at notNil notObject
  cases core with
  | nil | absent => cases notNil
  | object cls address => exact absurd rfl (notObject cls address)
  | _ => rfl

end Context

end NilSafety
