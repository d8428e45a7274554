import NilSafety.Tree.Decl

/-!
Contract: putting trees together without a source text.

Owns:
- the state of an assembly, the names interned so far and the number of regions
  handed out;
- one operation per kind of node, which interns the node's names and then takes
  a fresh region;
- the refusal of a unit whose package is no dotted path.

Does not own: the order in which children are assembled, which the caller
chooses. A node's children are finished before the node itself.
-/

namespace NilSafety

/-- How far an assembly has come. -/
structure Assembly where
  table : SymbolTable
  next : Nat

/-- A step of an assembly. -/
abbrev Assemble := StateM Assembly

namespace Assembly

/-- Nothing assembled yet. -/
def start : Assembly := ⟨.empty, 0⟩

/-- The symbol of a name, interned if it is new. -/
def intern (name : String) : Assemble Symbol := fun assembly =>
  let (symbol, table) := assembly.table.intern name
  (symbol, { assembly with table })

/-- The symbols of several names, interned one after another. -/
def internAll (names : List String) : Assemble (List Symbol) := fun assembly =>
  let (symbols, table) := assembly.table.internAll names
  (symbols, { assembly with table })

/-- A region of one byte, one column past the one handed out before. -/
def freshSpan : Assemble Span := fun assembly =>
  let start := assembly.next
  (⟨start, start + 1, 1, start + 1⟩, { assembly with next := start + 1 })

/-! ### Expressions -/

def int (value : Int64) : Assemble Expr :=
  return .int value (← freshSpan)

def str (value : String) : Assemble Expr := do
  let value ← intern value
  return .str value (← freshSpan)

def bool (value : Bool) : Assemble Expr :=
  return .bool value (← freshSpan)

def nil : Assemble Expr :=
  return .nil (← freshSpan)

def ident (name : String) : Assemble Expr := do
  let name ← intern name
  return .ident name (← freshSpan)

def path (segments : List String) : Assemble Expr := do
  let segments ← internAll segments
  return .path segments (← freshSpan)

def unary (op : UnaryOp) (operand : Expr) : Assemble Expr :=
  return .unary op operand (← freshSpan)

def binary (left : Expr) (op : BinaryOp) (right : Expr) : Assemble Expr :=
  return .binary left op right (← freshSpan)

def cond (condition thenBranch : Expr) (elseBranch : Option Expr) : Assemble Expr :=
  return .cond condition thenBranch elseBranch (← freshSpan)

def block (stmts : List Stmt) (tail : Option Expr) : Assemble Expr :=
  return .block stmts tail (← freshSpan)

def call (callee : Expr) (args : List Arg) : Assemble Expr :=
  return .call callee args (← freshSpan)

def method (receiver : Expr) (name : String) (args : List Arg) (marked : Bool) :
    Assemble Expr := do
  let name ← intern name
  return .method receiver name args marked (← freshSpan)

def field (object : Expr) (name : String) (marked : Bool) : Assemble Expr := do
  let name ← intern name
  return .field object name marked (← freshSpan)

def index (collection position : Expr) : Assemble Expr :=
  return .index collection position (← freshSpan)

/-- A new object. The class is interned before the fields, the fields in
order. -/
def construct (name : String) (inits : List (String × Expr)) : Assemble Expr := do
  let name ← intern name
  let fields ← internAll (inits.map Prod.fst)
  let inits := fields.zipWith (fun field init => Init.mk field init.2) inits
  return .construct name inits (← freshSpan)

def array (elements : List Expr) : Assemble Expr :=
  return .array elements (← freshSpan)

def paren (inner : Expr) : Assemble Expr :=
  return .paren inner (← freshSpan)

/-- An argument under a label. -/
def labelled (label : String) (value : Expr) : Assemble Arg :=
  return .mk (some (← intern label)) value

/-! ### Statements -/

def bind
    (name : String)
    (isMutable : Bool)
    (note : Option TypeNote)
    (init : Option Expr) :
    Assemble Stmt := do
  let name ← intern name
  return .bind name isMutable note init (← freshSpan)

def ret (value : Option Expr) : Assemble Stmt :=
  return .ret value (← freshSpan)

def assign (target value : Expr) : Assemble Stmt :=
  return .assign target value (← freshSpan)

def loop (condition body : Expr) : Assemble Stmt :=
  return .loop condition body (← freshSpan)

def eval (expr : Expr) : Assemble Stmt :=
  return .eval expr (← freshSpan)

/-! ### Type notes -/

def named (name : String) : Assemble TypeNote := do
  let name ← intern name
  return .named name (← freshSpan)

def generic (name : String) (args : List TypeNote) : Assemble TypeNote := do
  let name ← intern name
  return .generic name args (← freshSpan)

def arrayOf (element : TypeNote) : Assemble TypeNote :=
  return .array element (← freshSpan)

def optional (inner : TypeNote) : Assemble TypeNote :=
  return .optional inner (← freshSpan)

def functionFrom (params : List TypeNote) (result : TypeNote) : Assemble TypeNote :=
  return .function params result (← freshSpan)

def inferred : Assemble TypeNote :=
  return .inferred (← freshSpan)

/-! ### Declarations -/

def param (name : String) (note : TypeNote) : Assemble Param := do
  let name ← intern name
  return ⟨name, note, ← freshSpan⟩

def function
    (name : String)
    (isStatic : Bool)
    (params : List Param)
    (result : Option TypeNote)
    (body : Expr)
    (visibility : Visibility) :
    Assemble Function := do
  let name ← intern name
  return ⟨name, isStatic, params, result, body, visibility, ← freshSpan⟩

/-- The fields of a class, each with a region of its own. -/
def fields : List (String × TypeNote) → Assemble (List FieldDecl)
  | [] => return []
  | (name, note) :: rest => do
      let name ← intern name
      let field := ⟨name, note, ← freshSpan⟩
      return field :: (← fields rest)

def record
    (name : String)
    (fieldNotes : List (String × TypeNote))
    (methods : List Function)
    (visibility : Visibility) :
    Assemble Decl := do
  let name ← intern name
  let fields ← fields fieldNotes
  return .record name fields methods visibility (← freshSpan)

def extension (name : String) (methods : List Function) : Assemble Decl := do
  let name ← intern name
  return .extension name methods (← freshSpan)

def constant
    (name : String)
    (note : TypeNote)
    (value : Expr)
    (visibility : Visibility) :
    Assemble Decl := do
  let name ← intern name
  return .constant name note value visibility (← freshSpan)

/-- A unit was given a package that is no dotted path. -/
structure BadPackage where
  cause : Path.Malformed
deriving DecidableEq

/-- What is wrong with the package. -/
def BadPackage.message (problem : BadPackage) : String :=
  s!"builder given {problem.cause.message}"

/-- The unit of the given declarations under a package in dotted notation. -/
def sourceUnit (package : String) (decls : List Decl) : Except BadPackage SourceUnit :=
  match Path.parse package with
  | .ok package => .ok ⟨package, decls⟩
  | .error cause => .error ⟨cause⟩

end Assembly

end NilSafety
