import NilSafety.Tree.Writing

/-!
Contract: trees written as source text.

Owns:
- the source text of type notes;
- the writing of expressions, statements, declarations and units;
- their source text, expressions, statements and functions at any nesting depth.

Does not own: reading source text back. The writer adds no parentheses: a tree
shows exactly those it holds.

A block is written on one line when it has no statements and its tail is not
braced itself. A statement that is a block or a choice takes no semicolon, nor
does a loop.
-/

namespace NilSafety

namespace Layout

/-- Texts with commas between. -/
def commas (texts : List String) : String :=
  ", ".intercalate texts

/-! ### Type notes -/

mutual

/-- A type note as source text. -/
def typeNote (layout : Layout) : TypeNote → String
  | .named name _ => layout.name name
  | .generic name args _ => layout.name name ++ "<" ++ commas (layout.typeNotes args) ++ ">"
  | .array element _ => "[" ++ layout.typeNote element ++ "]"
  | .function params result _ =>
      "(" ++ commas (layout.typeNotes params) ++ ") -> " ++ layout.typeNote result
  | .optional inner _ => layout.typeNote inner ++ "?"
  | .inferred _ => "_"

/-- The texts of several type notes. -/
def typeNotes (layout : Layout) : List TypeNote → List String
  | [] => []
  | note :: rest => layout.typeNote note :: layout.typeNotes rest

end

/-- The note of a binding, which may have none. -/
def bindingNote (layout : Layout) : Option TypeNote → String
  | some note => ": " ++ layout.typeNote note
  | none => ""

/-! ### Expressions and statements -/

/-- The text between an access and its member. -/
def accessMark (marked : Bool) : String :=
  if marked then "?." else "."

/-- The word that opens a binding. -/
def bindingWord (isMutable : Bool) : String :=
  if isMutable then "let mut" else "let"

/-- Writing of an argument's value under its label, if it has one. -/
def labelled (layout : Layout) (label : Option Symbol) (value : Writing) : Writing :=
  match label with
  | some name => .literal (layout.name name ++ ": ") ++ value
  | none => value

mutual

/-- Writing of an expression. -/
def writeExpr (layout : Layout) : Expr → Writing
  | .int value _ => .literal (toString value.toInt)
  | .str value _ => .literal ("\"" ++ layout.name value ++ "\"")
  | .bool true _ => .literal "true"
  | .bool false _ => .literal "false"
  | .nil _ => .literal "nil"
  | .ident name _ => .literal (layout.name name)
  | .path segments _ => .literal ("::".intercalate (segments.map layout.name))
  | .unary op operand _ => .literal op.text ++ layout.writeExpr operand
  | .binary left op right _ =>
      layout.writeExpr left ++ .literal (" " ++ op.text ++ " ") ++ layout.writeExpr right
  | .paren inner _ => .literal "(" ++ layout.writeExpr inner ++ .literal ")"
  | .cond condition thenBranch none _ =>
      .literal "if " ++ layout.writeExpr condition ++ .literal " " ++
        layout.writeExpr thenBranch
  | .cond condition thenBranch (some elseBranch) _ =>
      .literal "if " ++ layout.writeExpr condition ++ .literal " " ++
        layout.writeExpr thenBranch ++ .literal " else " ++ layout.writeExpr elseBranch
  | .block [] none _ => .literal "\x7b\x7d"
  | .block [] (some tail) _ =>
      if tail.isBraced then layout.inBraces [layout.writeExpr tail]
      else .literal "\x7b " ++ layout.writeExpr tail ++ .literal " \x7d"
  | .block (stmt :: rest) none _ => layout.inBraces (layout.writeStmts (stmt :: rest))
  | .block (stmt :: rest) (some tail) _ =>
      layout.inBraces (layout.writeStmts (stmt :: rest) ++ [layout.writeExpr tail])
  | .call callee args _ =>
      layout.writeExpr callee ++ .literal "(" ++ .commas (layout.writeArgs args) ++ .literal ")"
  | .method receiver name args marked _ =>
      layout.writeExpr receiver ++ .literal (accessMark marked ++ layout.name name ++ "(") ++
        .commas (layout.writeArgs args) ++ .literal ")"
  | .field object name marked _ =>
      layout.writeExpr object ++ .literal (accessMark marked ++ layout.name name)
  | .index collection position _ =>
      layout.writeExpr collection ++ .literal "[" ++ layout.writeExpr position ++ .literal "]"
  | .construct name [] _ => .literal (layout.name name ++ " \x7b\x7d")
  | .construct name (init :: rest) _ =>
      .literal (layout.name name ++ " \x7b ") ++ .commas (layout.writeInits (init :: rest)) ++
        .literal " \x7d"
  | .array elements _ => .literal "[" ++ .commas (layout.writeExprs elements) ++ .literal "]"

/-- The writing of each of several expressions. -/
def writeExprs (layout : Layout) : List Expr → List Writing
  | [] => []
  | expr :: rest => layout.writeExpr expr :: layout.writeExprs rest

/-- The writing of each of a call's arguments. -/
def writeArgs (layout : Layout) : List Arg → List Writing
  | [] => []
  | .mk label value :: rest =>
      layout.labelled label (layout.writeExpr value) :: layout.writeArgs rest

/-- The writing of each of a new object's initializers. -/
def writeInits (layout : Layout) : List Init → List Writing
  | [] => []
  | .mk name value :: rest =>
      layout.labelled (some name) (layout.writeExpr value) :: layout.writeInits rest

/-- Writing of a statement. -/
def writeStmt (layout : Layout) : Stmt → Writing
  | .bind name isMutable note none _ =>
      .literal (bindingWord isMutable ++ " " ++ layout.name name ++ layout.bindingNote note ++ ";")
  | .bind name isMutable note (some init) _ =>
      .literal
          (bindingWord isMutable ++ " " ++ layout.name name ++ layout.bindingNote note ++ " = ") ++
        layout.writeExpr init ++ .literal ";"
  | .ret none _ => .literal "return;"
  | .ret (some value) _ => .literal "return " ++ layout.writeExpr value ++ .literal ";"
  | .assign target value _ =>
      layout.writeExpr target ++ .literal " = " ++ layout.writeExpr value ++ .literal ";"
  | .loop condition body _ =>
      .literal "while " ++ layout.writeExpr condition ++ .literal " " ++ layout.writeExpr body
  | .eval expr _ =>
      if expr.isBraced then layout.writeExpr expr else layout.writeExpr expr ++ .literal ";"

/-- The writing of each of several statements. -/
def writeStmts (layout : Layout) : List Stmt → List Writing
  | [] => []
  | stmt :: rest => layout.writeStmt stmt :: layout.writeStmts rest

end

/-! ### Declarations -/

/-- The word before a declaration that every package may use. -/
def visibilityWord : Visibility → String
  | .exposed => "pub "
  | .hidden => ""

/-- A parameter as source text. -/
def param (layout : Layout) (param : Param) : String :=
  layout.name param.name ++ ": " ++ layout.typeNote param.note

/-- The result type of a function, which may have none. -/
def resultNote (layout : Layout) : Option TypeNote → String
  | some note => " -> " ++ layout.typeNote note
  | none => ""

/-- What a function is written with before its body. -/
def functionHead (layout : Layout) (f : Function) : String :=
  visibilityWord f.visibility ++ (if f.isStatic then "static " else "") ++ "fn " ++
    layout.name f.name ++ "(" ++ commas (f.params.map layout.param) ++ ")" ++
    layout.resultNote f.result ++ " "

/-- Writing of a function. -/
def writeFunction (layout : Layout) (f : Function) : Writing :=
  .literal (layout.functionHead f) ++ layout.writeExpr f.body

/-- Writing of a field of a class. -/
def writeField (layout : Layout) (field : FieldDecl) : Writing :=
  .literal (layout.name field.name ++ ": " ++ layout.typeNote field.note ++ ";")

/-- Writing of a declaration. What a class or an extension holds is written line by
line, with the closing brace at the left margin. -/
def writeDecl (layout : Layout) : Decl → Writing
  | .function f => layout.writeFunction f
  | .record name fields methods visibility _ =>
      .literal (visibilityWord visibility ++ "class " ++ layout.name name ++ " ") ++
        layout.braced (fields.map layout.writeField ++ methods.map layout.writeFunction)
          (.literal "\n")
  | .extension name methods _ =>
      .literal ("impl " ++ layout.name name ++ " ") ++
        layout.braced (methods.map layout.writeFunction) (.literal "\n")
  | .constant name note value visibility _ =>
      .literal (visibilityWord visibility ++ "const " ++ layout.name name ++ ": " ++
          layout.typeNote note ++ " = ") ++
        layout.writeExpr value ++ .literal ";"

/-- Writing of a unit: the package, unless it is the root, and the declarations with
blank lines between. -/
def writeUnit (layout : Layout) (unit : SourceUnit) : Writing :=
  let header := if unit.package.isRoot then "" else "package " ++ unit.package.text ++ ";\n\n"
  .literal header ++ .separated "\n\n" (unit.decls.map layout.writeDecl) ++ .literal "\n"

/-! ### Source text -/

/-- An expression as source text at nesting depth `depth`. -/
def expr (layout : Layout) (depth : Nat) (expr : Expr) : String :=
  (layout.writeExpr expr).text depth

/-- A statement as source text at nesting depth `depth`. -/
def stmt (layout : Layout) (depth : Nat) (stmt : Stmt) : String :=
  (layout.writeStmt stmt).text depth

/-- A function as source text at nesting depth `depth`. -/
def function (layout : Layout) (depth : Nat) (f : Function) : String :=
  (layout.writeFunction f).text depth

/-- A declaration as source text. -/
def decl (layout : Layout) (decl : Decl) : String :=
  (layout.writeDecl decl).text 0

/-- A unit as source text. -/
def sourceUnit (layout : Layout) (unit : SourceUnit) : String :=
  (layout.writeUnit unit).text 0

end Layout

end NilSafety
