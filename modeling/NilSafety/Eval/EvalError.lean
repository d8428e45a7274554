import NilSafety.Eval.Value
import NilSafety.Presence.Failure
import NilSafety.Tree.Record

/-!
Contract: what can stop an evaluation.

Owns:
- one cause per error, with the region where it arose;
- the messages.

Does not own: the rules that raise an error.
-/

namespace NilSafety

/-- Why an operation does not fit the values it is applied to. -/
inductive TypeFault where
  /-- A prefixed operator does not apply to this kind. -/
  | operand (op : UnaryOp) (found : ValueKind)
  /-- An operator does not apply to these kinds. -/
  | operands (op : BinaryOp) (left right : ValueKind)
  /-- A condition is no truth value. -/
  | condition (found : ValueKind)
  /-- The expression in front of the arguments is no name. -/
  | notCallable (callee : Expr)
  /-- A checked array is to be built from something else than an array. -/
  | notArray (found : ValueKind)
  /-- The position of an element to be read is no number. -/
  | position (found : ValueKind)
  /-- The position of an element to be replaced is no number. -/
  | targetPosition
  /-- A value without elements is indexed. -/
  | notIndexable (found : ValueKind)
  /-- A field is to be set on something else than an object. -/
  | notAssignable (found : ValueKind)
  /-- No element at this position can be replaced. -/
  | outOfBounds (index : Int64)
  /-- The left side of an assignment is no target. -/
  | target
  /-- A native function's own words. -/
  | native (message : String)
deriving DecidableEq

/-- The fault in words. -/
def TypeFault.message : TypeFault → String
  | operand op found => s!"cannot apply `{op.text}` to {found.name}"
  | operands op left right => s!"cannot apply `{op.text}` to {left.name} and {right.name}"
  | condition found => s!"condition must be Bool, found {found.name}"
  | notCallable callee => s!"cannot call {callee.record}"
  | notArray found => s!"SafeArray::from expects an array, found {found.name}"
  | position found => s!"index must be Int, found {found.name}"
  | targetPosition => "index must be Int"
  | notIndexable found => s!"cannot index {found.name}"
  | notAssignable found => s!"cannot assign a field on {found.name}"
  | outOfBounds index => s!"index {index.toInt} out of bounds"
  | target => "invalid assignment target"
  | native message => message

/-- An error that stops an evaluation. -/
inductive EvalError where
  /-- A parameter guard failed. -/
  | guardFailed (failure : GuardFailure)
  /-- A value that was insisted on is absent. -/
  | valueAbsent (failure : AbsenceFailure)
  /-- A member of nil was accessed. -/
  | nullReference (member : String) (span : Span)
  /-- A name is not bound. -/
  | unbound (name : String) (span : Span)
  /-- No function has this name. -/
  | unknownFunction (name : String) (span : Span)
  /-- A value of this class or kind has no such member. -/
  | unknownMember (owner member : String) (span : Span)
  /-- A function was given a wrong number of arguments. -/
  | arity (function : String) (expected found : Nat) (span : Span)
  /-- An operation does not fit its values. -/
  | type (fault : TypeFault) (span : Span)
deriving DecidableEq

namespace EvalError

/-- The region where the error arose; the failures of run-time checks have
none. -/
def span? : EvalError → Option Span
  | guardFailed _ | valueAbsent _ => none
  | nullReference _ span | unbound _ span | unknownFunction _ span | unknownMember _ _ span
  | arity _ _ _ span | type _ span => some span

/-- The failure of a parameter guard, if this is one. -/
def guard? : EvalError → Option GuardFailure
  | guardFailed failure => some failure
  | _ => none

/-- Whether a run-time check failed. -/
def isCheckFailure : EvalError → Bool
  | guardFailed _ | valueAbsent _ => true
  | _ => false

/-- The error as reports show it. -/
def message : EvalError → String
  | guardFailed failure => failure.message
  | valueAbsent failure => failure.message
  | nullReference member span => s!"{span.text}: cannot access `{member}` on nil"
  | unbound name span => s!"{span.text}: `{name}` is not bound"
  | unknownFunction name span => s!"{span.text}: no function named `{name}`"
  | unknownMember owner member span => s!"{span.text}: `{owner}` has no member `{member}`"
  | arity function expected found span =>
      s!"{span.text}: `{function}` takes {expected} arguments but {found} were given"
  | type fault span => s!"{span.text}: {fault.message}"

end EvalError

end NilSafety
