import NilSafety.Tree.Expr

/-!
Contract: expansion of one marked access.

Owns: the block that stands for `receiver?.member`:

    {
        let temp = receiver;
        if temp == nil { nil } else { temp.member }
    }

The receiver is evaluated once. The member is not touched, and the arguments of
a method are not evaluated, when the receiver is nil. Every new node carries the
region of the access.

Does not own: the choice of `temp`, or the accesses inside the receiver and the
arguments, which must be expanded before.
-/

namespace NilSafety

namespace Expr

/-- A block that holds one expression. -/
def inBraces (inner : Expr) (span : Span) : Expr :=
  block [] (some inner) span

/-- The block that binds `temp` to `receiver` and yields nil or else `access`. -/
def nilChecked (temp : Symbol) (receiver access : Expr) (span : Span) : Expr :=
  block [.bind temp false none (some receiver) span]
    (some (cond (binary (ident temp span) .equal (nil span) span)
      (inBraces (nil span) span) (some (inBraces access span)) span))
    span

/-- The expansion of a marked access; every other expression stays as it is. -/
def expandAccess (temp : Symbol) : Expr → Expr
  | field object name true span =>
      nilChecked temp object (field (ident temp span) name false span) span
  | method receiver name args true span =>
      nilChecked temp receiver (method (ident temp span) name args false span) span
  | other => other

end Expr

end NilSafety
