import NilSafety.Eval.EvalError

/-!
Contract: what operators do to values.

Owns: the two operators before an operand, and the operators between operands
that always need both.

Does not own: conjunction and disjunction, which may not evaluate their right
side. Applied to two values they are faults.

Arithmetic wraps around at 64 bits.
-/

namespace NilSafety

/-- The value of an operator before its operand. -/
def UnaryOp.apply : UnaryOp → Value → Except TypeFault Value
  | .not, .bool value => .ok (.bool !value)
  | .negate, .int value => .ok (.int (-value))
  | op, operand => .error (.operand op operand.kind)

/-- The value of an operator between its operands. -/
def BinaryOp.apply : BinaryOp → Value → Value → Except TypeFault Value
  | .equal, left, right => .ok (.bool (left.hostEq right))
  | .notEqual, left, right => .ok (.bool !(left.hostEq right))
  | .add, .int left, .int right => .ok (.int (left + right))
  | .add, .str left, .str right => .ok (.str (left ++ right))
  | .subtract, .int left, .int right => .ok (.int (left - right))
  | .multiply, .int left, .int right => .ok (.int (left * right))
  | .less, .int left, .int right => .ok (.bool (left < right))
  | .greater, .int left, .int right => .ok (.bool (right < left))
  | op, left, right => .error (.operands op left.kind right.kind)

end NilSafety
