import NilSafety.Proofs.Tree.Names
import NilSafety.Tree.Source

/-!
Contract: trees up to regions and the numbering of symbols.

Owns:
- the outline of a tree, which has blank regions and, for symbols, their texts;
- that the source text of a tree is that of its outline.

Does not own: which trees have one source text.
-/

namespace NilSafety

/-! ### Symbols -/

/-- The text for which a symbol stands itself. -/
def Symbol.toText (symbol : Symbol) : String :=
  .ofList (((Encodable.decode symbol.number : Option (List Nat)).getD []).map Char.ofNat)

@[simp] theorem Symbol.toText_ofText (text : String) : (Symbol.ofText text).toText = text := by
  simp [toText, ofText, Function.comp_def]

/-! ### Outlines -/

namespace TypeNote

mutual

/-- The outline of a note. -/
def outline (name : Symbol → String) : TypeNote → TypeNote
  | .named symbol _ => .named (.ofText (name symbol)) default
  | .generic symbol args _ => .generic (.ofText (name symbol)) (outlineOfList name args) default
  | .array element _ => .array (outline name element) default
  | .function params result _ =>
      .function (outlineOfList name params) (outline name result) default
  | .optional inner _ => .optional (outline name inner) default
  | .inferred _ => .inferred default

/-- The outlines of several notes. -/
def outlineOfList (name : Symbol → String) : List TypeNote → List TypeNote
  | [] => []
  | note :: rest => outline name note :: outlineOfList name rest

end

end TypeNote

mutual

/-- The outline of an expression. -/
def Expr.outline (name : Symbol → String) : Expr → Expr
  | .int value _ => .int value default
  | .str value _ => .str (.ofText (name value)) default
  | .bool value _ => .bool value default
  | .nil _ => .nil default
  | .ident symbol _ => .ident (.ofText (name symbol)) default
  | .path segments _ => .path (segments.map fun segment => .ofText (name segment)) default
  | .unary op operand _ => .unary op (operand.outline name) default
  | .binary left op right _ => .binary (left.outline name) op (right.outline name) default
  | .cond condition thenBranch elseBranch _ =>
      .cond (condition.outline name) (thenBranch.outline name)
        (Expr.outlineOption name elseBranch) default
  | .block stmts tail _ => .block (Stmt.outlines name stmts) (Expr.outlineOption name tail) default
  | .call callee args _ => .call (callee.outline name) (Arg.outlines name args) default
  | .method receiver symbol args marked _ =>
      .method (receiver.outline name) (.ofText (name symbol)) (Arg.outlines name args) marked
        default
  | .field object symbol marked _ =>
      .field (object.outline name) (.ofText (name symbol)) marked default
  | .index collection position _ =>
      .index (collection.outline name) (position.outline name) default
  | .construct symbol inits _ =>
      .construct (.ofText (name symbol)) (Init.outlines name inits) default
  | .array elements _ => .array (Expr.outlines name elements) default
  | .paren inner _ => .paren (inner.outline name) default

/-- The outline of an expression that may be missing. -/
def Expr.outlineOption (name : Symbol → String) : Option Expr → Option Expr
  | none => none
  | some expr => some (expr.outline name)

/-- The outlines of several expressions. -/
def Expr.outlines (name : Symbol → String) : List Expr → List Expr
  | [] => []
  | expr :: rest => expr.outline name :: Expr.outlines name rest

/-- The outlines of the arguments of a call. -/
def Arg.outlines (name : Symbol → String) : List Arg → List Arg
  | [] => []
  | .mk label value :: rest =>
      .mk (label.map fun symbol => .ofText (name symbol)) (value.outline name) ::
        Arg.outlines name rest

/-- The outlines of the initializers of a new object. -/
def Init.outlines (name : Symbol → String) : List Init → List Init
  | [] => []
  | .mk symbol value :: rest =>
      .mk (.ofText (name symbol)) (value.outline name) :: Init.outlines name rest

/-- The outline of a statement. -/
def Stmt.outline (name : Symbol → String) : Stmt → Stmt
  | .bind symbol isMutable note init _ =>
      .bind (.ofText (name symbol)) isMutable (note.map (TypeNote.outline name))
        (Expr.outlineOption name init) default
  | .ret value _ => .ret (Expr.outlineOption name value) default
  | .assign target value _ => .assign (target.outline name) (value.outline name) default
  | .loop condition body _ => .loop (condition.outline name) (body.outline name) default
  | .eval expr _ => .eval (expr.outline name) default

/-- The outlines of several statements. -/
def Stmt.outlines (name : Symbol → String) : List Stmt → List Stmt
  | [] => []
  | stmt :: rest => stmt.outline name :: Stmt.outlines name rest

end

/-- The outline of a parameter. -/
def Param.outline (name : Symbol → String) (param : Param) : Param :=
  ⟨.ofText (name param.name), param.note.outline name, default⟩

/-- The outline of a function. -/
def Function.outline (name : Symbol → String) (f : Function) : Function where
  name := .ofText (name f.name)
  isStatic := f.isStatic
  params := f.params.map (Param.outline name)
  result := f.result.map (TypeNote.outline name)
  body := f.body.outline name
  visibility := f.visibility
  span := default

/-- The outline of a field. -/
def FieldDecl.outline (name : Symbol → String) (field : FieldDecl) : FieldDecl :=
  ⟨.ofText (name field.name), field.note.outline name, default⟩

/-- The outline of a declaration. -/
def Decl.outline (name : Symbol → String) : Decl → Decl
  | .function f => .function (f.outline name)
  | .record symbol fields methods visibility _ =>
      .record (.ofText (name symbol)) (fields.map (FieldDecl.outline name))
        (methods.map (Function.outline name)) visibility default
  | .extension symbol methods _ =>
      .extension (.ofText (name symbol)) (methods.map (Function.outline name)) default
  | .constant symbol note value visibility _ =>
      .constant (.ofText (name symbol)) (note.outline name) (value.outline name) visibility default

/-- The outline of a unit. -/
def SourceUnit.outline (name : Symbol → String) (unit : SourceUnit) : SourceUnit :=
  ⟨unit.package, unit.decls.map (Decl.outline name)⟩

/-! ### Source text of outlines -/

namespace Layout

/-- The layout of outlines: every symbol is named by the text for which it stands. -/
def ofOutlines (layout : Layout) : Layout := ⟨Symbol.toText, layout.step⟩

/-- Outlines look the same in layouts that have the same step. -/
theorem ofOutlines_eq {layout other : Layout} (sameStep : other.step = layout.step) :
    other.ofOutlines = layout.ofOutlines := by
  rw [ofOutlines, ofOutlines, sameStep]

variable (layout : Layout)

@[simp] theorem name_ofOutlines (symbol : Symbol) :
    layout.ofOutlines.name (.ofText (layout.name symbol)) = layout.name symbol :=
  Symbol.toText_ofText _

mutual

@[simp] theorem typeNote_outline (note : TypeNote) :
    layout.ofOutlines.typeNote (note.outline layout.name) = layout.typeNote note := by
  cases note with
  | named | inferred => simp [TypeNote.outline, typeNote]
  | generic name args span => simp [TypeNote.outline, typeNote, typeNotes_outline args]
  | array element span => simp [TypeNote.outline, typeNote, typeNote_outline element]
  | function params result span =>
      simp [TypeNote.outline, typeNote, typeNotes_outline params, typeNote_outline result]
  | optional inner span => simp [TypeNote.outline, typeNote, typeNote_outline inner]

@[simp] theorem typeNotes_outline (notes : List TypeNote) :
    layout.ofOutlines.typeNotes (TypeNote.outlineOfList layout.name notes) =
      layout.typeNotes notes := by
  cases notes with
  | nil => rfl
  | cons note rest =>
      simp [TypeNote.outlineOfList, typeNotes, typeNote_outline note, typeNotes_outline rest]

end

@[simp] theorem bindingNote_outline (note : Option TypeNote) :
    layout.ofOutlines.bindingNote (note.map (TypeNote.outline layout.name)) =
      layout.bindingNote note := by
  cases note <;> simp [bindingNote]

@[simp] theorem resultNote_outline (note : Option TypeNote) :
    layout.ofOutlines.resultNote (note.map (TypeNote.outline layout.name)) =
      layout.resultNote note := by
  cases note <;> simp [resultNote]

theorem isBraced_outline (name : Symbol → String) (expr : Expr) :
    (expr.outline name).isBraced = expr.isBraced := by
  cases expr <;> rfl

@[simp] theorem margin_ofOutlines (depth : Nat) :
    layout.ofOutlines.margin depth = layout.margin depth := by
  induction depth with
  | zero => rfl
  | succ depth inductionHypothesis => rw [margin, margin, inductionHypothesis]; rfl

@[simp] theorem braced_ofOutlines (lines : List Writing) (close : Writing) :
    layout.ofOutlines.braced lines close = layout.braced lines close := by
  have sameBreak : layout.ofOutlines.lineBreak = layout.lineBreak := by
    funext depth
    simp only [lineBreak, margin_ofOutlines]
  simp only [braced, sameBreak]

@[simp] theorem inBraces_ofOutlines (lines : List Writing) :
    layout.ofOutlines.inBraces lines = layout.inBraces lines := by
  have sameBreak : layout.ofOutlines.lineBreak = layout.lineBreak := by
    funext depth
    simp only [lineBreak, margin_ofOutlines]
  simp only [inBraces, braced_ofOutlines, sameBreak]

mutual

@[simp] theorem writeExpr_outline (expr : Expr) :
    layout.ofOutlines.writeExpr (expr.outline layout.name) = layout.writeExpr expr := by
  cases expr with
  | int | nil | str | ident => simp [Expr.outline, writeExpr]
  | bool value span => cases value <;> rfl
  | path segments span => simp [Expr.outline, writeExpr, Function.comp_def]
  | unary op operand span => simp [Expr.outline, writeExpr, writeExpr_outline operand]
  | binary left op right span =>
      simp [Expr.outline, writeExpr, writeExpr_outline left, writeExpr_outline right]
  | cond condition thenBranch elseBranch span =>
      cases elseBranch with
      | none =>
          simp [Expr.outline, Expr.outlineOption, writeExpr, writeExpr_outline condition,
            writeExpr_outline thenBranch]
      | some elseBranch =>
          simp [Expr.outline, Expr.outlineOption, writeExpr, writeExpr_outline condition,
            writeExpr_outline thenBranch, writeExpr_outline elseBranch]
  | block stmts tail span =>
      have inside := writeStmts_outlines stmts
      cases tail with
      | none =>
          cases stmts <;>
            simp_all [Expr.outline, Expr.outlineOption, Stmt.outlines, writeExpr]
      | some tail =>
          have last := writeExpr_outline tail
          cases stmts <;>
            simp_all [Expr.outline, Expr.outlineOption, Stmt.outlines, writeExpr,
              isBraced_outline]
  | call callee args span =>
      simp [Expr.outline, writeExpr, writeExpr_outline callee, writeArgs_outlines args]
  | method receiver name args marked span =>
      simp [Expr.outline, writeExpr, writeExpr_outline receiver, writeArgs_outlines args]
  | field object name marked span => simp [Expr.outline, writeExpr, writeExpr_outline object]
  | index collection position span =>
      simp [Expr.outline, writeExpr, writeExpr_outline collection, writeExpr_outline position]
  | construct name inits span =>
      have inside := writeInits_outlines inits
      rcases inits with _ | ⟨⟨field, value⟩, rest⟩ <;>
        simp_all [Expr.outline, Init.outlines, writeExpr]
  | array elements span => simp [Expr.outline, writeExpr, writeExprs_outlines elements]
  | paren inner span => simp [Expr.outline, writeExpr, writeExpr_outline inner]

@[simp] theorem writeExprs_outlines (exprs : List Expr) :
    layout.ofOutlines.writeExprs (Expr.outlines layout.name exprs) = layout.writeExprs exprs := by
  cases exprs with
  | nil => rfl
  | cons expr rest =>
      simp [Expr.outlines, writeExprs, writeExpr_outline expr, writeExprs_outlines rest]

@[simp] theorem writeArgs_outlines (args : List Arg) :
    layout.ofOutlines.writeArgs (Arg.outlines layout.name args) = layout.writeArgs args := by
  rcases args with _ | ⟨⟨label, value⟩, rest⟩
  · rfl
  · cases label <;>
      simp [Arg.outlines, writeArgs, labelled, writeExpr_outline value, writeArgs_outlines rest]

@[simp] theorem writeInits_outlines (inits : List Init) :
    layout.ofOutlines.writeInits (Init.outlines layout.name inits) = layout.writeInits inits := by
  rcases inits with _ | ⟨⟨name, value⟩, rest⟩
  · rfl
  · simp [Init.outlines, writeInits, labelled, writeExpr_outline value, writeInits_outlines rest]

@[simp] theorem writeStmt_outline (stmt : Stmt) :
    layout.ofOutlines.writeStmt (stmt.outline layout.name) = layout.writeStmt stmt := by
  cases stmt with
  | bind name isMutable note init span =>
      cases init with
      | none => simp [Stmt.outline, Expr.outlineOption, writeStmt]
      | some init => simp [Stmt.outline, Expr.outlineOption, writeStmt, writeExpr_outline init]
  | ret value span =>
      cases value with
      | none => rfl
      | some value => simp [Stmt.outline, Expr.outlineOption, writeStmt, writeExpr_outline value]
  | assign target value span =>
      simp [Stmt.outline, writeStmt, writeExpr_outline target, writeExpr_outline value]
  | loop condition body span =>
      simp [Stmt.outline, writeStmt, writeExpr_outline condition, writeExpr_outline body]
  | eval expr span => simp [Stmt.outline, writeStmt, isBraced_outline, writeExpr_outline expr]

@[simp] theorem writeStmts_outlines (stmts : List Stmt) :
    layout.ofOutlines.writeStmts (Stmt.outlines layout.name stmts) = layout.writeStmts stmts := by
  cases stmts with
  | nil => rfl
  | cons stmt rest =>
      simp [Stmt.outlines, writeStmts, writeStmt_outline stmt, writeStmts_outlines rest]

end

@[simp] theorem param_outline (param : Param) :
    layout.ofOutlines.param (param.outline layout.name) = layout.param param := by
  simp [Param.outline, Layout.param]

@[simp] theorem writeFunction_outline (f : Function) :
    layout.ofOutlines.writeFunction (f.outline layout.name) = layout.writeFunction f := by
  have params : (f.params.map (Param.outline layout.name)).map layout.ofOutlines.param =
      f.params.map layout.param := by
    rw [List.map_map]
    exact List.map_congr_left fun param _ => layout.param_outline param
  simp only [Function.outline, writeFunction, functionHead, params, name_ofOutlines,
    resultNote_outline, writeExpr_outline]
  rfl

@[simp] theorem writeField_outline (field : FieldDecl) :
    layout.ofOutlines.writeField (field.outline layout.name) = layout.writeField field := by
  simp [FieldDecl.outline, writeField]

@[simp] theorem writeDecl_outline (decl : Decl) :
    layout.ofOutlines.writeDecl (decl.outline layout.name) = layout.writeDecl decl := by
  cases decl <;> simp [Decl.outline, writeDecl, Function.comp_def]

@[simp] theorem writeUnit_outline (unit : SourceUnit) :
    layout.ofOutlines.writeUnit (unit.outline layout.name) = layout.writeUnit unit := by
  have decls : (unit.decls.map (Decl.outline layout.name)).map layout.ofOutlines.writeDecl =
      unit.decls.map layout.writeDecl := by
    rw [List.map_map]
    exact List.map_congr_left fun decl _ => layout.writeDecl_outline decl
  simp only [SourceUnit.outline, writeUnit, decls]
  rfl

end Layout

end NilSafety
