import NilSafety.Tree.TypeNote

/-!
Contract: expressions and statements of the host language.

Owns:
- the operators and how they are written;
- the shapes of expressions, statements, call arguments and initializers;
- the source region of a node, and the same node at another region or under
  another name;
- recognition of nil and of marked accesses.

Does not own: equality of trees, what a tree means, how it is written, or how it
is rewritten.

Every node carries its region as its last field. A marked access is a field
read or a method call written with `?.`.
-/

namespace NilSafety

/-- Operators before one operand. -/
inductive UnaryOp where
  | not
  | negate
deriving DecidableEq

/-- The operator as it is written. -/
def UnaryOp.text : UnaryOp → String
  | .not => "!"
  | .negate => "-"

/-- The operator of a text. -/
def UnaryOp.ofText? : String → Option UnaryOp
  | "!" => some .not
  | "-" => some .negate
  | _ => none

/-- Operators between two operands. -/
inductive BinaryOp where
  | add
  | subtract
  | multiply
  | equal
  | notEqual
  | less
  | greater
  | and
  | or
deriving DecidableEq

/-- The operator as it is written. -/
def BinaryOp.text : BinaryOp → String
  | .add => "+"
  | .subtract => "-"
  | .multiply => "*"
  | .equal => "=="
  | .notEqual => "!="
  | .less => "<"
  | .greater => ">"
  | .and => "&&"
  | .or => "||"

/-- The operator of a text. -/
def BinaryOp.ofText? : String → Option BinaryOp
  | "+" => some .add
  | "-" => some .subtract
  | "*" => some .multiply
  | "==" => some .equal
  | "!=" => some .notEqual
  | "<" => some .less
  | ">" => some .greater
  | "&&" => some .and
  | "||" => some .or
  | _ => none

@[simp] theorem UnaryOp.ofText?_text (op : UnaryOp) : ofText? op.text = some op := by
  cases op <;> rfl

@[simp] theorem BinaryOp.ofText?_text (op : BinaryOp) : ofText? op.text = some op := by
  cases op <;> rfl

mutual

/-- An expression. -/
inductive Expr where
  /-- An integer: `42`. -/
  | int (value : Int64) (span : Span)
  /-- A string: `"text"`; its characters are interned like a name. -/
  | str (value : Symbol) (span : Span)
  /-- A truth value. -/
  | bool (value : Bool) (span : Span)
  /-- The null value: `nil`. -/
  | nil (span : Span)
  /-- A variable: `x`. -/
  | ident (name : Symbol) (span : Span)
  /-- A qualified name: `a::b::c`. -/
  | path (segments : List Symbol) (span : Span)
  /-- An operator before its operand. -/
  | unary (op : UnaryOp) (operand : Expr) (span : Span)
  /-- An operator between its operands. -/
  | binary (left : Expr) (op : BinaryOp) (right : Expr) (span : Span)
  /-- A choice: `if condition { .. } else { .. }`. -/
  | cond (condition thenBranch : Expr) (elseBranch : Option Expr) (span : Span)
  /-- A block: statements, then the expression that gives its value. -/
  | block (stmts : List Stmt) (tail : Option Expr) (span : Span)
  /-- A call: `callee(args)`. -/
  | call (callee : Expr) (args : List Arg) (span : Span)
  /-- A method call: `receiver.name(args)`, or `receiver?.name(args)` when
  marked. -/
  | method (receiver : Expr) (name : Symbol) (args : List Arg) (marked : Bool) (span : Span)
  /-- A field: `object.name`, or `object?.name` when marked. -/
  | field (object : Expr) (name : Symbol) (marked : Bool) (span : Span)
  /-- An element: `collection[position]`. -/
  | index (collection position : Expr) (span : Span)
  /-- A new object: `Name { field: value }`. -/
  | construct (name : Symbol) (inits : List Init) (span : Span)
  /-- An array: `[a, b]`. -/
  | array (elements : List Expr) (span : Span)
  /-- An expression in parentheses. -/
  | paren (inner : Expr) (span : Span)

/-- A statement. -/
inductive Stmt where
  /-- A binding: `let name: note = init;`. -/
  | bind (name : Symbol) (isMutable : Bool) (note : Option TypeNote) (init : Option Expr)
      (span : Span)
  /-- A return from the enclosing function. -/
  | ret (value : Option Expr) (span : Span)
  /-- An assignment: `target = value;`. -/
  | assign (target value : Expr) (span : Span)
  /-- A loop: `while condition { .. }`. -/
  | loop (condition body : Expr) (span : Span)
  /-- An expression evaluated for its effects. -/
  | eval (expr : Expr) (span : Span)

/-- An argument of a call, with a label or without. -/
inductive Arg where
  | mk (label : Option Symbol) (value : Expr)

/-- The value that a field of a new object starts with. -/
inductive Init where
  | mk (name : Symbol) (value : Expr)

end

instance : Inhabited Expr := ⟨.nil default⟩

namespace Arg

/-- The label, if the argument has one. -/
def label : Arg → Option Symbol
  | mk label _ => label

/-- The expression that is passed. -/
def value : Arg → Expr
  | mk _ value => value

/-- An argument without a label. -/
def plain (value : Expr) : Arg := mk none value

end Arg

namespace Init

/-- The field that is set. -/
def name : Init → Symbol
  | mk name _ => name

/-- The expression for the value. -/
def value : Init → Expr
  | mk _ value => value

end Init

namespace Expr

/-- The source region of the node. -/
def span : Expr → Span
  | int _ span | str _ span | bool _ span | nil span | ident _ span | path _ span
  | unary _ _ span | binary _ _ _ span | cond _ _ _ span | block _ _ span | call _ _ span
  | method _ _ _ _ span | field _ _ _ span | index _ _ span | construct _ _ span
  | array _ span | paren _ span => span

/-- The same node at another region; its children keep theirs. -/
def withSpan (span : Span) : Expr → Expr
  | int value _ => int value span
  | str value _ => str value span
  | bool value _ => bool value span
  | nil _ => nil span
  | ident name _ => ident name span
  | path segments _ => path segments span
  | unary op operand _ => unary op operand span
  | binary left op right _ => binary left op right span
  | cond condition thenBranch elseBranch _ => cond condition thenBranch elseBranch span
  | block stmts tail _ => block stmts tail span
  | call callee args _ => call callee args span
  | method receiver name args marked _ => method receiver name args marked span
  | field object name marked _ => field object name marked span
  | index collection position _ => index collection position span
  | construct name inits _ => construct name inits span
  | array elements _ => array elements span
  | paren inner _ => paren inner span

/-- The same node under another name: a string's text, a variable, the last
segment of a qualified name, a member or a constructed class. Nodes without a
name stay as they are. -/
def withName (name : Symbol) : Expr → Expr
  | str _ span => str name span
  | ident _ span => ident name span
  | path [] span => path [] span
  | path (first :: rest) span => path ((first :: rest).dropLast ++ [name]) span
  | method receiver _ args marked span => method receiver name args marked span
  | field object _ marked span => field object name marked span
  | construct _ inits span => construct name inits span
  | other => other

/-- Whether this is the literal `nil`. -/
def isNil : Expr → Bool
  | nil _ => true
  | _ => false

/-- Whether this is a field read or a method call written with `?.`. -/
def isMarkedAccess : Expr → Bool
  | field _ _ marked _ => marked
  | method _ _ _ marked _ => marked
  | _ => false

/-- Whether this is an array literal. -/
def isArray : Expr → Bool
  | array .. => true
  | _ => false

/-- Whether this is a block or a choice, the expressions that end in a brace. -/
def isBraced : Expr → Bool
  | block .. | cond .. => true
  | _ => false

end Expr

namespace Stmt

/-- The source region of the statement. -/
def span : Stmt → Span
  | bind _ _ _ _ span | ret _ span | assign _ _ span | loop _ _ span | eval _ span => span

/-- The same statement at another region; its children keep theirs. -/
def withSpan (span : Span) : Stmt → Stmt
  | bind name isMutable note init _ => bind name isMutable note init span
  | ret value _ => ret value span
  | assign target value _ => assign target value span
  | loop condition body _ => loop condition body span
  | eval expr _ => eval expr span

/-- The same statement under another name; only bindings have one. -/
def withName (name : Symbol) : Stmt → Stmt
  | bind _ isMutable note init span => bind name isMutable note init span
  | other => other

end Stmt

end NilSafety
