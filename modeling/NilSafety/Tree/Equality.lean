import NilSafety.Tree.Expr

/-!
Contract: decidable equality of expressions and statements.

Owns:
- a comparison that runs over two trees at once;
- the proof that it decides equality, regions included.

Does not own: comparisons up to regions or up to the numbering of symbols.
-/

namespace NilSafety

namespace Expr

mutual

/-- Whether two expressions agree in shape, names and regions. -/
def same : Expr → Expr → Bool
  | int value span, int value' span' => value == value' && span == span'
  | str value span, str value' span' => value == value' && span == span'
  | bool value span, bool value' span' => value == value' && span == span'
  | nil span, nil span' => span == span'
  | ident name span, ident name' span' => name == name' && span == span'
  | path segments span, path segments' span' => segments == segments' && span == span'
  | unary op operand span, unary op' operand' span' =>
      op == op' && same operand operand' && span == span'
  | binary left op right span, binary left' op' right' span' =>
      same left left' && op == op' && same right right' && span == span'
  | cond condition thenBranch elseBranch span, cond condition' thenBranch' elseBranch' span' =>
      same condition condition' && same thenBranch thenBranch' &&
        sameOption elseBranch elseBranch' && span == span'
  | block stmts tail span, block stmts' tail' span' =>
      sameStmts stmts stmts' && sameOption tail tail' && span == span'
  | call callee args span, call callee' args' span' =>
      same callee callee' && sameArgs args args' && span == span'
  | method receiver name args marked span, method receiver' name' args' marked' span' =>
      same receiver receiver' && name == name' && sameArgs args args' &&
        marked == marked' && span == span'
  | field object name marked span, field object' name' marked' span' =>
      same object object' && name == name' && marked == marked' && span == span'
  | index collection position span, index collection' position' span' =>
      same collection collection' && same position position' && span == span'
  | construct name inits span, construct name' inits' span' =>
      name == name' && sameInits inits inits' && span == span'
  | array elements span, array elements' span' => sameList elements elements' && span == span'
  | paren inner span, paren inner' span' => same inner inner' && span == span'
  | _, _ => false

/-- Whether two optional expressions agree. -/
def sameOption : Option Expr → Option Expr → Bool
  | none, none => true
  | some expr, some expr' => same expr expr'
  | _, _ => false

/-- Whether two sequences of expressions agree. -/
def sameList : List Expr → List Expr → Bool
  | [], [] => true
  | expr :: rest, expr' :: rest' => same expr expr' && sameList rest rest'
  | _, _ => false

/-- Whether two sequences of arguments agree. -/
def sameArgs : List Arg → List Arg → Bool
  | [], [] => true
  | .mk label value :: rest, .mk label' value' :: rest' =>
      label == label' && same value value' && sameArgs rest rest'
  | _, _ => false

/-- Whether two sequences of initializers agree. -/
def sameInits : List Init → List Init → Bool
  | [], [] => true
  | .mk name value :: rest, .mk name' value' :: rest' =>
      name == name' && same value value' && sameInits rest rest'
  | _, _ => false

/-- Whether two statements agree. -/
def sameStmt : Stmt → Stmt → Bool
  | .bind name isMutable note init span, .bind name' isMutable' note' init' span' =>
      name == name' && isMutable == isMutable' && note == note' && sameOption init init' &&
        span == span'
  | .ret value span, .ret value' span' => sameOption value value' && span == span'
  | .assign target value span, .assign target' value' span' =>
      same target target' && same value value' && span == span'
  | .loop condition body span, .loop condition' body' span' =>
      same condition condition' && same body body' && span == span'
  | .eval expr span, .eval expr' span' => same expr expr' && span == span'
  | _, _ => false

/-- Whether two sequences of statements agree. -/
def sameStmts : List Stmt → List Stmt → Bool
  | [], [] => true
  | stmt :: rest, stmt' :: rest' => sameStmt stmt stmt' && sameStmts rest rest'
  | _, _ => false

end

mutual

theorem same_iff (expr other : Expr) : same expr other = true ↔ expr = other := by
  cases expr <;> cases other <;> simp [same]
  case unary.unary op operand span op' operand' span' =>
    simp [same_iff operand operand', and_assoc]
  case binary.binary left op right span left' op' right' span' =>
    simp [same_iff left left', same_iff right right', and_assoc]
  case cond.cond condition thenBranch elseBranch span condition' thenBranch' elseBranch' span' =>
    simp [same_iff condition condition', same_iff thenBranch thenBranch',
      sameOption_iff elseBranch elseBranch', and_assoc]
  case block.block stmts tail span stmts' tail' span' =>
    simp [sameStmts_iff stmts stmts', sameOption_iff tail tail', and_assoc]
  case call.call callee args span callee' args' span' =>
    simp [same_iff callee callee', sameArgs_iff args args', and_assoc]
  case method.method receiver name args marked span receiver' name' args' marked' span' =>
    simp [same_iff receiver receiver', sameArgs_iff args args', and_assoc]
  case field.field object name marked span object' name' marked' span' =>
    simp [same_iff object object', and_assoc]
  case index.index collection position span collection' position' span' =>
    simp [same_iff collection collection', same_iff position position', and_assoc]
  case construct.construct name inits span name' inits' span' =>
    simp [sameInits_iff inits inits', and_assoc]
  case array.array elements span elements' span' => simp [sameList_iff elements elements']
  case paren.paren inner span inner' span' => simp [same_iff inner inner']

theorem sameOption_iff (option other : Option Expr) :
    sameOption option other = true ↔ option = other := by
  cases option <;> cases other <;> simp [sameOption]
  case some.some expr expr' => simp [same_iff expr expr']

theorem sameList_iff (exprs others : List Expr) :
    sameList exprs others = true ↔ exprs = others := by
  cases exprs <;> cases others <;> simp [sameList]
  case cons.cons expr rest expr' rest' => simp [same_iff expr expr', sameList_iff rest rest']

theorem sameArgs_iff (args others : List Arg) :
    sameArgs args others = true ↔ args = others := by
  rcases args with _ | ⟨⟨label, value⟩, rest⟩ <;>
    rcases others with _ | ⟨⟨label', value'⟩, rest'⟩ <;> simp [sameArgs]
  simp [same_iff value value', sameArgs_iff rest rest']

theorem sameInits_iff (inits others : List Init) :
    sameInits inits others = true ↔ inits = others := by
  rcases inits with _ | ⟨⟨name, value⟩, rest⟩ <;>
    rcases others with _ | ⟨⟨name', value'⟩, rest'⟩ <;> simp [sameInits]
  simp [same_iff value value', sameInits_iff rest rest']

theorem sameStmt_iff (stmt other : Stmt) : sameStmt stmt other = true ↔ stmt = other := by
  cases stmt <;> cases other <;> simp [sameStmt]
  case bind.bind name isMutable note init span name' isMutable' note' init' span' =>
    simp [sameOption_iff init init', and_assoc]
  case ret.ret value span value' span' => simp [sameOption_iff value value']
  case assign.assign target value span target' value' span' =>
    simp [same_iff target target', same_iff value value', and_assoc]
  case loop.loop condition body span condition' body' span' =>
    simp [same_iff condition condition', same_iff body body', and_assoc]
  case eval.eval expr span expr' span' => simp [same_iff expr expr']

theorem sameStmts_iff (stmts others : List Stmt) :
    sameStmts stmts others = true ↔ stmts = others := by
  cases stmts <;> cases others <;> simp [sameStmts]
  case cons.cons stmt rest stmt' rest' =>
    simp [sameStmt_iff stmt stmt', sameStmts_iff rest rest']

end

instance : DecidableEq Expr := fun expr other =>
  decidable_of_iff (same expr other = true) (same_iff expr other)

end Expr

instance : DecidableEq Stmt := fun stmt other =>
  decidable_of_iff (Expr.sameStmt stmt other = true) (Expr.sameStmt_iff stmt other)

end NilSafety
