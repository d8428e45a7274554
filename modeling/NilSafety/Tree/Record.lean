import NilSafety.Tree.Equality

/-!
Contract: trees written out field by field.

Owns:
- the record text of an expression, which names every node's form and fields,
  regions and symbol numbers included.

Does not own: source text. Record text stands in the message about a callee
that cannot be called, where no symbol table is needed to write it.
-/

namespace NilSafety

namespace Record

/-- Texts with commas between. -/
def commas (texts : List String) : String :=
  ", ".intercalate texts

/-- A form with named fields. -/
def form (name : String) (fields : List (String × String)) : String :=
  name ++ " \x7b " ++ commas (fields.map fun (key, text) => s!"{key}: {text}") ++ " \x7d"

/-- A sequence. -/
def sequence (items : List String) : String :=
  s!"[{commas items}]"

/-- Something that may be missing. -/
def option : Option String → String
  | some text => s!"Some({text})"
  | none => "None"

/-- A truth value. -/
def bool (value : Bool) : String :=
  if value then "true" else "false"

/-- A source region. -/
def span (span : Span) : String :=
  form "Span" [("start", toString span.start), ("end", toString span.stop),
    ("line", toString span.line), ("col", toString span.column)]

/-- An operator before one operand. -/
def unaryOp : UnaryOp → String
  | .not => "Not"
  | .negate => "Minus"

/-- An operator between two operands. -/
def binaryOp : BinaryOp → String
  | .add => "Add"
  | .subtract => "Sub"
  | .multiply => "Mul"
  | .equal => "Eq"
  | .notEqual => "Neq"
  | .less => "Lt"
  | .greater => "Gt"
  | .and => "And"
  | .or => "Or"

mutual

/-- A type note. -/
def typeNote : TypeNote → String
  | .named name s => form "Simple" [("name", name.text), ("span", span s)]
  | .generic name args s =>
      form "Generic" [("name", name.text), ("params", sequence (typeNotes args)), ("span", span s)]
  | .array element s => form "Array" [("element", typeNote element), ("span", span s)]
  | .function params result s =>
      form "Function" [("params", sequence (typeNotes params)), ("return_type", typeNote result),
        ("span", span s)]
  | .optional inner s => form "Optional" [("inner", typeNote inner), ("span", span s)]
  | .inferred s => form "Inferred" [("span", span s)]

/-- Several type notes. -/
def typeNotes : List TypeNote → List String
  | [] => []
  | note :: rest => typeNote note :: typeNotes rest

end

mutual

/-- An expression. -/
def expr : Expr → String
  | .int value s =>
      form "IntegerLiteral" [("value", toString value.toInt), ("span", span s)]
  | .str value s => form "StringLiteral" [("value", value.text), ("span", span s)]
  | .bool value s => form "BoolLiteral" [("value", bool value), ("span", span s)]
  | .nil s => form "Nil" [("span", span s)]
  | .ident name s => form "Identifier" [("name", name.text), ("span", span s)]
  | .path segments s =>
      form "Path" [("segments", sequence (segments.map Symbol.text)), ("span", span s)]
  | .unary op operand s =>
      form "Unary" [("op", unaryOp op), ("operand", expr operand), ("span", span s)]
  | .binary left op right s =>
      form "Binary" [("left", expr left), ("op", binaryOp op), ("right", expr right),
        ("span", span s)]
  | .cond condition thenBranch elseBranch s =>
      form "If" [("condition", expr condition), ("then_branch", expr thenBranch),
        ("else_branch", option (optionExpr elseBranch)), ("span", span s)]
  | .block stmts tail s =>
      form "Block" [("stmts", sequence (stmtTexts stmts)), ("expr", option (optionExpr tail)),
        ("span", span s)]
  | .call callee args s =>
      form "Call" [("callee", expr callee), ("args", sequence (argTexts args)), ("span", span s)]
  | .method receiver name args marked s =>
      form "MethodCall" [("receiver", expr receiver), ("method", name.text),
        ("args", sequence (argTexts args)), ("safe", bool marked), ("span", span s)]
  | .field object name marked s =>
      form "Field" [("object", expr object), ("field", name.text), ("safe", bool marked),
        ("span", span s)]
  | .index collection position s =>
      form "Index" [("collection", expr collection), ("index", expr position), ("span", span s)]
  | .construct name inits s =>
      form "Struct" [("name", name.text), ("fields", sequence (initTexts inits)),
        ("span", span s)]
  | .array elements s =>
      form "Array" [("elements", sequence (exprTexts elements)), ("span", span s)]
  | .paren inner s => form "Paren" [("expr", expr inner), ("span", span s)]

/-- An expression that may be missing. -/
def optionExpr : Option Expr → Option String
  | none => none
  | some e => some (expr e)

/-- Several expressions. -/
def exprTexts : List Expr → List String
  | [] => []
  | e :: rest => expr e :: exprTexts rest

/-- Several arguments. -/
def argTexts : List Arg → List String
  | [] => []
  | .mk label value :: rest =>
      form "CallArg" [("label", option (label.map Symbol.text)), ("value", expr value)] ::
        argTexts rest

/-- Several initializers. -/
def initTexts : List Init → List String
  | [] => []
  | .mk name value :: rest =>
      form "FieldInit" [("name", name.text), ("value", expr value)] :: initTexts rest

/-- A statement. -/
def stmt : Stmt → String
  | .bind name isMutable note init s =>
      form "Let" [("name", name.text), ("mutable", bool isMutable),
        ("type_annotation", option (note.map typeNote)), ("init", option (optionExpr init)),
        ("span", span s)]
  | .ret value s => form "Return" [("value", option (optionExpr value)), ("span", span s)]
  | .assign target value s =>
      form "Assign" [("target", expr target), ("value", expr value), ("span", span s)]
  | .loop condition body s =>
      form "While" [("condition", expr condition), ("body", expr body), ("span", span s)]
  | .eval e s => form "Expr" [("expr", expr e), ("span", span s)]

/-- Several statements. -/
def stmtTexts : List Stmt → List String
  | [] => []
  | s :: rest => stmt s :: stmtTexts rest

end

end Record

/-- The record text of an expression. -/
def Expr.record (expr : Expr) : String := Record.expr expr

end NilSafety
