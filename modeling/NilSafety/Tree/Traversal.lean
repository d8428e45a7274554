import NilSafety.Tree.Expr

/-!
Contract: the walk over all expressions of a tree, inner ones first.

Owns:
- the order of the walk: the children of a node from left to right as they are
  written, then the node itself with its new children;
- the positions it reaches: every expression, those inside statements,
  arguments and initializers included.

Does not own: what is done at a node. A node that the action puts in place of
another is not walked again.
-/

namespace NilSafety

namespace Expr

variable {m : Type → Type} [Monad m]

mutual

/-- Applies an action to every expression of a tree, inner ones first. -/
def mapUp (action : Expr → m Expr) : Expr → m Expr
  | int value span => action (int value span)
  | str value span => action (str value span)
  | bool value span => action (bool value span)
  | nil span => action (nil span)
  | ident name span => action (ident name span)
  | path segments span => action (path segments span)
  | unary op operand span => do
      let operand ← mapUp action operand
      action (unary op operand span)
  | binary left op right span => do
      let left ← mapUp action left
      let right ← mapUp action right
      action (binary left op right span)
  | cond condition thenBranch elseBranch span => do
      let condition ← mapUp action condition
      let thenBranch ← mapUp action thenBranch
      let elseBranch ← mapUpOption action elseBranch
      action (cond condition thenBranch elseBranch span)
  | block stmts tail span => do
      let stmts ← mapUpStmts action stmts
      let tail ← mapUpOption action tail
      action (block stmts tail span)
  | call callee args span => do
      let callee ← mapUp action callee
      let args ← mapUpArgs action args
      action (call callee args span)
  | method receiver name args marked span => do
      let receiver ← mapUp action receiver
      let args ← mapUpArgs action args
      action (method receiver name args marked span)
  | field object name marked span => do
      let object ← mapUp action object
      action (field object name marked span)
  | index collection position span => do
      let collection ← mapUp action collection
      let position ← mapUp action position
      action (index collection position span)
  | construct name inits span => do
      let inits ← mapUpInits action inits
      action (construct name inits span)
  | array elements span => do
      let elements ← mapUpList action elements
      action (array elements span)
  | paren inner span => do
      let inner ← mapUp action inner
      action (paren inner span)

/-- The walk over an expression that may be missing. -/
def mapUpOption (action : Expr → m Expr) : Option Expr → m (Option Expr)
  | none => pure none
  | some expr => do
      let expr ← mapUp action expr
      return some expr

/-- The walk over several expressions. -/
def mapUpList (action : Expr → m Expr) : List Expr → m (List Expr)
  | [] => pure []
  | expr :: rest => do
      let expr ← mapUp action expr
      let rest ← mapUpList action rest
      return expr :: rest

/-- The walk over the arguments of a call. -/
def mapUpArgs (action : Expr → m Expr) : List Arg → m (List Arg)
  | [] => pure []
  | .mk label value :: rest => do
      let value ← mapUp action value
      let rest ← mapUpArgs action rest
      return .mk label value :: rest

/-- The walk over the initializers of a new object. -/
def mapUpInits (action : Expr → m Expr) : List Init → m (List Init)
  | [] => pure []
  | .mk name value :: rest => do
      let value ← mapUp action value
      let rest ← mapUpInits action rest
      return .mk name value :: rest

/-- The walk over a statement. -/
def mapUpStmt (action : Expr → m Expr) : Stmt → m Stmt
  | .bind name isMutable note init span => do
      let init ← mapUpOption action init
      return .bind name isMutable note init span
  | .ret value span => do
      let value ← mapUpOption action value
      return .ret value span
  | .assign target value span => do
      let target ← mapUp action target
      let value ← mapUp action value
      return .assign target value span
  | .loop condition body span => do
      let condition ← mapUp action condition
      let body ← mapUp action body
      return .loop condition body span
  | .eval expr span => do
      let expr ← mapUp action expr
      return .eval expr span

/-- The walk over several statements. -/
def mapUpStmts (action : Expr → m Expr) : List Stmt → m (List Stmt)
  | [] => pure []
  | stmt :: rest => do
      let stmt ← mapUpStmt action stmt
      let rest ← mapUpStmts action rest
      return stmt :: rest

end

end Expr

end NilSafety
