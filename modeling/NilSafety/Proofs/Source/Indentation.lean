import NilSafety.Proofs.Source.Outlines
import NilSafety.Proofs.Source.Writings

/-!
Contract: how source text depends on the nesting depth and on the tree.

Owns:
- that every expression, statement and function is written at any depth as at the left
  margin, moved to the right, and leaves the depth as it was, if its names and the
  indentation step hold no line break;
- the text of a block that is written line by line, of a class and of an extension, in
  terms of the texts of what they hold;
- that trees with one outline have one source text.

Does not own: what source text says about the tree.
-/

namespace NilSafety

namespace Layout

variable {layout : Layout}

/-! ### Texts of one line -/

/-- The names of the symbols hold no line break. -/
def OneLineNames (layout : Layout) (symbols : List Symbol) : Prop :=
  ∀ symbol ∈ symbols, OneLine (layout.name symbol)

instance (layout : Layout) (symbols : List Symbol) : Decidable (layout.OneLineNames symbols) :=
  inferInstanceAs (Decidable (∀ _ ∈ _, _))

namespace OneLineNames

variable {symbol : Symbol} {symbols others : List Symbol}

theorem left (areShort : layout.OneLineNames (symbols ++ others)) : layout.OneLineNames symbols :=
  fun symbol member => areShort symbol (List.mem_append_left _ member)

theorem right (areShort : layout.OneLineNames (symbols ++ others)) : layout.OneLineNames others :=
  fun symbol member => areShort symbol (List.mem_append_right _ member)

theorem tail (areShort : layout.OneLineNames (symbol :: others)) : layout.OneLineNames others :=
  fun symbol member => areShort symbol (List.mem_cons_of_mem _ member)

end OneLineNames

theorem oneLine_commas {texts : List String} (areShort : ∀ text ∈ texts, OneLine text) :
    OneLine (commas texts) :=
  oneLine_intercalate (by decide) areShort

mutual

theorem oneLine_typeNote
    (note : TypeNote)
    (areShort : layout.OneLineNames note.symbols) :
    OneLine (layout.typeNote note) := by
  cases note with
  | named name span => exact areShort name List.mem_cons_self
  | generic name args span =>
      have inside := oneLine_commas (oneLine_typeNotes args areShort.tail)
      have isName := areShort name List.mem_cons_self
      simp only [typeNote, oneLine_append, isName, inside, and_true, true_and]
      decide
  | array element span =>
      simp only [typeNote, oneLine_append, oneLine_typeNote element areShort, and_true]
      decide
  | function params result span =>
      have inside := oneLine_commas (oneLine_typeNotes params areShort.left)
      have last := oneLine_typeNote result areShort.right
      simp only [typeNote, oneLine_append, inside, last, and_true]
      decide
  | optional inner span =>
      simp only [typeNote, oneLine_append, oneLine_typeNote inner areShort, true_and]
      decide
  | inferred span => exact (by decide : OneLine "_")

theorem oneLine_typeNotes
    (notes : List TypeNote)
    (areShort : layout.OneLineNames (TypeNote.symbolsOfList notes)) :
    ∀ text ∈ layout.typeNotes notes, OneLine text := by
  cases notes with
  | nil => exact fun _ member => absurd member List.not_mem_nil
  | cons note rest =>
      refine List.forall_mem_cons.mpr ⟨?_, ?_⟩
      · exact oneLine_typeNote note areShort.left
      · exact oneLine_typeNotes rest areShort.right

end

theorem oneLine_bindingNote
    (note : Option TypeNote)
    (areShort : layout.OneLineNames ((note.map TypeNote.symbols).getD [])) :
    OneLine (layout.bindingNote note) := by
  cases note with
  | none => exact (by decide : OneLine "")
  | some note => exact oneLine_append.mpr ⟨by decide, oneLine_typeNote note areShort⟩

theorem oneLine_resultNote
    (note : Option TypeNote)
    (areShort : layout.OneLineNames ((note.map TypeNote.symbols).getD [])) :
    OneLine (layout.resultNote note) := by
  cases note with
  | none => exact (by decide : OneLine "")
  | some note => exact oneLine_append.mpr ⟨by decide, oneLine_typeNote note areShort⟩

theorem oneLine_functionHead
    (f : Function)
    (areShort : layout.OneLineNames f.headSymbols) :
    OneLine (layout.functionHead f) := by
  have params : OneLine (commas (f.params.map layout.param)) := by
    refine oneLine_commas fun text member => ?_
    obtain ⟨param, isParam, rfl⟩ := List.mem_map.mp member
    have inParam : layout.OneLineNames param.symbols := by
      intro symbol isSymbol
      apply areShort symbol
      simp only [Function.headSymbols, List.mem_append, List.mem_cons, List.mem_flatMap]
      exact .inl (.inr ⟨param, isParam, isSymbol⟩)
    simp only [Layout.param, oneLine_append, inParam _ List.mem_cons_self, true_and,
      oneLine_typeNote param.note inParam.tail]
    decide
  have result := oneLine_resultNote f.result areShort.right
  have words : OneLine (visibilityWord f.visibility) ∧
      OneLine (if f.isStatic then "static " else "") := by
    cases f.visibility <;> cases f.isStatic <;> decide
  have isName : OneLine (layout.name f.name) :=
    areShort f.name (List.mem_append_left _ List.mem_cons_self)
  simp only [functionHead, oneLine_append, words, isName, params, result, true_and]
  decide

theorem oneLine_operator (op : UnaryOp) : OneLine op.text := by
  cases op <;> decide

theorem oneLine_operatorBetween (op : BinaryOp) : OneLine (" " ++ op.text ++ " ") := by
  cases op <;> decide

theorem oneLine_accessMark (marked : Bool) : OneLine (accessMark marked) := by
  cases marked <;> decide

theorem oneLine_bindingWord (isMutable : Bool) : OneLine (bindingWord isMutable) := by
  cases isMutable <;> decide

/-! ### Sequences -/

theorem writeExprs_eq (exprs : List Expr) :
    layout.writeExprs exprs = exprs.map layout.writeExpr := by
  induction exprs with
  | nil => rfl
  | cons expr rest inductionHypothesis => rw [writeExprs, inductionHypothesis, List.map_cons]

theorem writeArgs_eq (args : List Arg) :
    layout.writeArgs args =
      args.map fun arg => layout.labelled arg.label (layout.writeExpr arg.value) := by
  induction args with
  | nil => rfl
  | cons arg rest inductionHypothesis =>
      cases arg
      rw [writeArgs, inductionHypothesis, List.map_cons]
      rfl

theorem writeInits_eq (inits : List Init) :
    layout.writeInits inits =
      inits.map fun init => layout.labelled (some init.name) (layout.writeExpr init.value) := by
  induction inits with
  | nil => rfl
  | cons init rest inductionHypothesis =>
      cases init
      rw [writeInits, inductionHypothesis, List.map_cons]
      rfl

theorem writeStmts_eq (stmts : List Stmt) :
    layout.writeStmts stmts = stmts.map layout.writeStmt := by
  induction stmts with
  | nil => rfl
  | cons stmt rest inductionHypothesis => rw [writeStmts, inductionHypothesis, List.map_cons]

/-- A block with statements, or with a braced tail, is written line by line. -/
theorem writeExpr_block
    {stmts : List Stmt}
    {tail : Option Expr}
    (isTall : stmts ≠ [] ∨ ∃ inner ∈ tail, inner.isBraced)
    (span : Span) :
    layout.writeExpr (.block stmts tail span) =
      layout.inBraces (stmts.map layout.writeStmt ++ tail.toList.map layout.writeExpr) := by
  cases stmts with
  | nil =>
      obtain ⟨inner, isTail, isBraced⟩ := isTall.resolve_left fun nonempty => nonempty rfl
      obtain rfl := Option.mem_def.mp isTail
      rw [writeExpr, if_pos isBraced]
      rfl
  | cons stmt rest =>
      cases tail with
      | none => rw [writeExpr, writeStmts_eq]; simp
      | some inner => rw [writeExpr, writeStmts_eq]; rfl

/-! ### Nodes -/

section Nodes

variable (isShort : OneLine layout.step)

theorem indents_labelled
    {label : Option Symbol}
    (isLabel : ∀ symbol ∈ label, OneLine (layout.name symbol))
    {value : Writing}
    (indents : layout.Indents value) :
    layout.Indents (layout.labelled label value) := by
  cases label with
  | none => exact indents
  | some name =>
      exact (indents_literal (oneLine_append.mpr ⟨isLabel name rfl, by decide⟩)).append indents

theorem indents_args
    {args : List Arg}
    (areLabels : layout.OneLineNames (args.filterMap Arg.label))
    (inside : ∀ child ∈ args.map Arg.value, layout.Indents (layout.writeExpr child)) :
    layout.Indents (.commas (layout.writeArgs args)) := by
  rw [writeArgs_eq]
  refine indents_separated (by decide) fun writing member => ?_
  obtain ⟨arg, isArg, rfl⟩ := List.mem_map.mp member
  refine indents_labelled (fun symbol isLabel => ?_) (inside _ (List.mem_map_of_mem isArg))
  exact areLabels symbol (List.mem_filterMap.mpr ⟨arg, isArg, isLabel⟩)

theorem indents_inits
    {inits : List Init}
    (areNames : layout.OneLineNames (inits.map Init.name))
    (inside : ∀ child ∈ inits.map Init.value, layout.Indents (layout.writeExpr child)) :
    layout.Indents (.commas (layout.writeInits inits)) := by
  rw [writeInits_eq]
  refine indents_separated (by decide) fun writing member => ?_
  obtain ⟨init, isInit, rfl⟩ := List.mem_map.mp member
  refine indents_labelled (fun symbol isName => ?_) (inside _ (List.mem_map_of_mem isInit))
  obtain rfl := Option.mem_some.mp isName
  exact areNames _ (List.mem_map_of_mem isInit)

/-- A statement is written so if its expressions are. -/
theorem indents_stmt_of_children
    (stmt : Stmt)
    (areShort : layout.OneLineNames stmt.ownSymbols)
    (inside : ∀ child ∈ stmt.children, layout.Indents (layout.writeExpr child)) :
    layout.Indents (layout.writeStmt stmt) := by
  cases stmt with
  | bind name isMutable note init span =>
      have isName := areShort name List.mem_cons_self
      have isNote := oneLine_bindingNote note areShort.tail
      have head : OneLine (bindingWord isMutable ++ " " ++ layout.name name ++
          layout.bindingNote note) := by
        simp only [oneLine_append, oneLine_bindingWord, isName, isNote, and_true, true_and]
        decide
      cases init with
      | none => exact indents_literal (oneLine_append.mpr ⟨head, by decide⟩)
      | some init =>
          exact ((indents_literal (oneLine_append.mpr ⟨head, by decide⟩)).append
            (inside init List.mem_cons_self)).append (indents_literal (by decide))
  | ret value span =>
      cases value with
      | none => exact indents_literal (by decide)
      | some value =>
          exact ((indents_literal (by decide)).append (inside value List.mem_cons_self)).append
            (indents_literal (by decide))
  | assign target value span =>
      have isTarget := inside target List.mem_cons_self
      have isValue := inside value (List.mem_cons_of_mem _ List.mem_cons_self)
      exact ((isTarget.append (indents_literal (by decide))).append isValue).append
        (indents_literal (by decide))
  | loop condition body span =>
      have isCondition := inside condition List.mem_cons_self
      have isBody := inside body (List.mem_cons_of_mem _ List.mem_cons_self)
      exact (((indents_literal (by decide)).append isCondition).append
        (indents_literal (by decide))).append isBody
  | eval expr span =>
      have isExpr := inside expr List.mem_cons_self
      unfold writeStmt
      split
      · exact isExpr
      · exact isExpr.append (indents_literal (by decide))

include isShort

theorem indents_block
    (stmts : List Stmt)
    (tail : Option Expr)
    (span : Span)
    (inStmts : ∀ stmt ∈ stmts, layout.Indents (layout.writeStmt stmt))
    (inTail : ∀ inner ∈ tail, layout.Indents (layout.writeExpr inner)) :
    layout.Indents (layout.writeExpr (.block stmts tail span)) := by
  by_cases isTall : stmts ≠ [] ∨ ∃ inner ∈ tail, inner.isBraced
  · rw [writeExpr_block isTall]
    refine indents_braced isShort (fun line isLine => ?_) indents_lineBreak
    rcases List.mem_append.mp isLine with ofStmt | ofTail
    · obtain ⟨stmt, isStmt, rfl⟩ := List.mem_map.mp ofStmt
      exact inStmts stmt isStmt
    · obtain ⟨inner, isTail, rfl⟩ := List.mem_map.mp ofTail
      exact inTail inner (Option.mem_toList.mp isTail)
  · obtain ⟨noStmts, unbraced⟩ := not_or.mp isTall
    obtain rfl := not_not.mp noStmts
    cases tail with
    | none => exact indents_literal (by decide)
    | some inner =>
        rw [writeExpr, if_neg fun isBraced => unbraced ⟨inner, rfl, isBraced⟩]
        exact ((indents_literal (by decide)).append (inTail inner rfl)).append
          (indents_literal (by decide))

/-- A node is written so if its children are. -/
theorem indents_expr_of_children
    (expr : Expr)
    (areShort : layout.OneLineNames expr.localSymbols)
    (inside : ∀ child ∈ expr.children, layout.Indents (layout.writeExpr child)) :
    layout.Indents (layout.writeExpr expr) := by
  have own : layout.OneLineNames expr.ownSymbols := areShort.left
  cases expr with
  | int value span => exact indents_literal (oneLine_toString _)
  | str value span =>
      have isName := own value List.mem_cons_self
      refine indents_literal (oneLine_append.mpr ⟨oneLine_append.mpr ⟨?_, isName⟩, ?_⟩) <;> decide
  | bool value span => cases value <;> exact indents_literal (by decide)
  | nil span => exact indents_literal (by decide)
  | ident name span => exact indents_literal (own name List.mem_cons_self)
  | path segments span =>
      refine indents_literal (oneLine_intercalate (by decide) fun text member => ?_)
      obtain ⟨segment, isSegment, rfl⟩ := List.mem_map.mp member
      exact own segment isSegment
  | unary op operand span =>
      exact (indents_literal (oneLine_operator op)).append (inside operand List.mem_cons_self)
  | binary left op right span =>
      have isLeft := inside left List.mem_cons_self
      have isRight := inside right (List.mem_cons_of_mem _ List.mem_cons_self)
      exact (isLeft.append (indents_literal (oneLine_operatorBetween op))).append isRight
  | cond condition thenBranch elseBranch span =>
      have isCondition := inside condition List.mem_cons_self
      have isThen := inside thenBranch (List.mem_cons_of_mem _ List.mem_cons_self)
      have choice := (((indents_literal (by decide : OneLine "if ")).append isCondition).append
        (indents_literal (by decide : OneLine " "))).append isThen
      cases elseBranch with
      | none => exact choice
      | some elseBranch =>
          have isElse := inside elseBranch
            (List.mem_cons_of_mem _ (List.mem_cons_of_mem _ List.mem_cons_self))
          exact (choice.append (indents_literal (by decide))).append isElse
  | block stmts tail span =>
      refine indents_block isShort stmts tail span (fun stmt isStmt => ?_) fun inner isTail => ?_
      · refine indents_stmt_of_children stmt (fun symbol member => ?_) fun child isChild => ?_
        · exact areShort symbol
            (List.mem_append_right _ (List.mem_flatMap_of_mem isStmt member))
        · exact inside child
            (List.mem_append_left _ (List.mem_flatMap_of_mem isStmt isChild))
      · exact inside inner (List.mem_append_right _ (Option.mem_toList.mpr isTail))
  | call callee args span =>
      have isCallee := inside callee List.mem_cons_self
      have areArgs := indents_args own fun child isChild =>
        inside child (List.mem_cons_of_mem _ isChild)
      exact ((isCallee.append (indents_literal (by decide))).append areArgs).append
        (indents_literal (by decide))
  | method receiver name args marked span =>
      have isReceiver := inside receiver List.mem_cons_self
      have isName := own name List.mem_cons_self
      have areArgs := indents_args own.tail fun child isChild =>
        inside child (List.mem_cons_of_mem _ isChild)
      have access : OneLine (accessMark marked ++ layout.name name ++ "(") := by
        simp only [oneLine_append, oneLine_accessMark, isName, true_and]
        decide
      exact ((isReceiver.append (indents_literal access)).append areArgs).append
        (indents_literal (by decide))
  | field object name marked span =>
      have isName := own name List.mem_cons_self
      exact (inside object List.mem_cons_self).append
        (indents_literal (oneLine_append.mpr ⟨oneLine_accessMark marked, isName⟩))
  | index collection position span =>
      have isCollection := inside collection List.mem_cons_self
      have isPosition := inside position (List.mem_cons_of_mem _ List.mem_cons_self)
      exact ((isCollection.append (indents_literal (by decide))).append isPosition).append
        (indents_literal (by decide))
  | construct name inits span =>
      have isName := own name List.mem_cons_self
      cases inits with
      | nil => exact indents_literal (oneLine_append.mpr ⟨isName, by decide⟩)
      | cons init rest =>
          have areInits := indents_inits own.tail inside
          exact ((indents_literal (oneLine_append.mpr ⟨isName, by decide⟩)).append
            areInits).append (indents_literal (by decide))
  | array elements span =>
      have areElements : layout.Indents (.commas (layout.writeExprs elements)) := by
        rw [writeExprs_eq]
        refine indents_separated (by decide) fun writing member => ?_
        obtain ⟨element, isElement, rfl⟩ := List.mem_map.mp member
        exact inside element isElement
      exact ((indents_literal (by decide)).append areElements).append (indents_literal (by decide))
  | paren inner span =>
      exact ((indents_literal (by decide)).append (inside inner List.mem_cons_self)).append
        (indents_literal (by decide))

/-! ### Trees -/

theorem indents_expr
    (expr : Expr)
    (areShort : layout.OneLineNames expr.symbols) :
    layout.Indents (layout.writeExpr expr) := by
  induction expr using Expr.childInduction with
  | node expr inductionHypothesis =>
      rw [Expr.symbols_eq] at areShort
      refine indents_expr_of_children isShort expr (fun symbol isOwn => ?_) fun child isChild => ?_
      · exact areShort symbol (List.mem_append_left _ isOwn)
      · exact inductionHypothesis child isChild fun symbol inChild =>
          areShort symbol (List.mem_append_right _ (List.mem_flatMap_of_mem isChild inChild))

theorem indents_stmt
    (stmt : Stmt)
    (areShort : layout.OneLineNames stmt.symbols) :
    layout.Indents (layout.writeStmt stmt) := by
  refine indents_stmt_of_children stmt (fun symbol isOwn => ?_) fun child isChild => ?_
  · exact areShort symbol (List.mem_append_left _ isOwn)
  · exact indents_expr isShort child fun symbol inChild =>
      areShort symbol (List.mem_append_right _ (List.mem_flatMap_of_mem isChild inChild))

theorem indents_function
    (f : Function)
    (areShort : layout.OneLineNames f.symbols) :
    layout.Indents (layout.writeFunction f) := by
  have head := oneLine_functionHead f areShort.left
  have body := indents_expr isShort f.body areShort.right
  exact (indents_literal head).append body

/-! ### What stands in braces -/

/-- The text of a block that is written line by line. -/
theorem text_block
    {stmts : List Stmt}
    {tail : Option Expr}
    {span : Span}
    (areShort : layout.OneLineNames (Expr.block stmts tail span).symbols)
    (isTall : stmts ≠ [] ∨ ∃ inner ∈ tail, inner.isBraced) :
    layout.expr 0 (.block stmts tail span) =
      layout.bracedText (stmts.map (layout.stmt 0) ++ tail.toList.map (layout.expr 0)) := by
  have inBlock : layout.OneLineNames
      (stmts.flatMap Stmt.symbols ++ tail.toList.flatMap Expr.symbols) := fun symbol member =>
    areShort symbol ((Expr.symbols_block stmts tail span).mem_iff.mpr member)
  have indent : ∀ line ∈ stmts.map layout.writeStmt ++ tail.toList.map layout.writeExpr,
      layout.Indents line := by
    intro line isLine
    rcases List.mem_append.mp isLine with ofStmt | ofTail
    · obtain ⟨stmt, isStmt, rfl⟩ := List.mem_map.mp ofStmt
      exact indents_stmt isShort stmt fun symbol member =>
        inBlock symbol (List.mem_append_left _ (List.mem_flatMap_of_mem isStmt member))
    · obtain ⟨inner, isTail, rfl⟩ := List.mem_map.mp ofTail
      exact indents_expr isShort inner fun symbol member =>
        inBlock symbol (List.mem_append_right _ (List.mem_flatMap_of_mem isTail member))
  rw [expr, writeExpr_block isTall, inBraces, text_braced indent (by simp [margin]),
    List.map_append, List.map_map, List.map_map]
  rfl

/-- The methods of a declaration are written so. -/
theorem indents_methods
    {decl : Decl}
    (areShort : layout.OneLineNames decl.symbols) :
    ∀ method ∈ decl.methods, layout.Indents (layout.writeFunction method) := by
  intro method isMethod
  refine indents_function isShort method fun symbol member => areShort symbol ?_
  have inHead : symbol ∈ method.headSymbols → symbol ∈ decl.headSymbols := by
    intro isHead
    cases decl with
    | function | constant => cases isMethod
    | record name fields methods visibility span =>
        exact List.mem_append_right _ (List.mem_flatMap_of_mem isMethod isHead)
    | extension name methods span =>
        exact List.mem_cons_of_mem _ (List.mem_flatMap_of_mem isMethod isHead)
  have isBody : method.body ∈ decl.bodies := by
    cases decl with
    | function | constant => cases isMethod
    | record | extension => exact List.mem_map_of_mem isMethod
  rcases List.mem_append.mp member with isHead | inBody
  · exact List.mem_append_left _ (inHead isHead)
  · exact List.mem_append_right _ (List.mem_flatMap_of_mem isBody inBody)

/-- The text of a class. -/
theorem text_record
    {name : Symbol}
    {fields : List FieldDecl}
    {methods : List Function}
    {visibility : Visibility}
    {span : Span}
    (areShort : layout.OneLineNames (Decl.record name fields methods visibility span).symbols) :
    layout.decl (.record name fields methods visibility span) =
      visibilityWord visibility ++ "class " ++ layout.name name ++ " " ++
        layout.bracedText
          (fields.map (fun field => (layout.writeField field).text 0) ++
            methods.map (layout.function 0)) := by
  have indent : ∀ line ∈ fields.map layout.writeField ++ methods.map layout.writeFunction,
      layout.Indents line := by
    intro line isLine
    rcases List.mem_append.mp isLine with ofField | ofMethod
    · obtain ⟨field, isField, rfl⟩ := List.mem_map.mp ofField
      have inField : layout.OneLineNames field.symbols := fun symbol member =>
        areShort symbol (List.mem_append_left _ (List.mem_append_left _
          (List.mem_cons_of_mem _ (List.mem_flatMap_of_mem isField member))))
      refine indents_literal ?_
      simp only [oneLine_append, inField _ List.mem_cons_self, true_and,
        oneLine_typeNote field.note inField.tail]
      decide
    · obtain ⟨method, isMethod, rfl⟩ := List.mem_map.mp ofMethod
      exact indents_methods isShort areShort method isMethod
  rw [decl, writeDecl, Writing.text_append, Writing.text_literal, Writing.finish_literal,
    text_braced indent rfl, List.map_append, List.map_map, List.map_map]
  rfl

/-- The text of an extension. -/
theorem text_extension
    {name : Symbol}
    {methods : List Function}
    {span : Span}
    (areShort : layout.OneLineNames (Decl.extension name methods span).symbols) :
    layout.decl (.extension name methods span) =
      "impl " ++ layout.name name ++ " " ++
        layout.bracedText (methods.map (layout.function 0)) := by
  have indent : ∀ line ∈ methods.map layout.writeFunction, layout.Indents line := by
    intro line isLine
    obtain ⟨method, isMethod, rfl⟩ := List.mem_map.mp isLine
    exact indents_methods isShort areShort method isMethod
  rw [decl, writeDecl, Writing.text_append, Writing.text_literal, Writing.finish_literal,
    text_braced indent rfl, List.map_map]
  rfl

end Nodes

/-! ### The result -/

/-- If the indentation step and the names hold no line break, every expression, statement
and function leaves the nesting depth as it was, and is written at any depth as at the left
margin, moved to the right. What stands in braces line by line stands there with its own
text, moved one step to the right. Trees with one outline have one text at every depth. -/
theorem source_text_compositional (layout : Layout) (isShort : OneLine layout.step) :
    ((∀ expr : Expr, layout.OneLineNames expr.symbols → ∀ depth,
        (layout.writeExpr expr).finish depth = depth ∧
          layout.expr depth expr = layout.nested depth (layout.expr 0 expr)) ∧
      (∀ stmt : Stmt, layout.OneLineNames stmt.symbols → ∀ depth,
        (layout.writeStmt stmt).finish depth = depth ∧
          layout.stmt depth stmt = layout.nested depth (layout.stmt 0 stmt)) ∧
      ∀ f : Function, layout.OneLineNames f.symbols → ∀ depth,
        (layout.writeFunction f).finish depth = depth ∧
          layout.function depth f = layout.nested depth (layout.function 0 f)) ∧
    ((∀ stmts tail span, layout.OneLineNames (Expr.block stmts tail span).symbols →
        (stmts ≠ [] ∨ ∃ inner ∈ tail, inner.isBraced) →
        layout.expr 0 (.block stmts tail span) =
          layout.bracedText (stmts.map (layout.stmt 0) ++ tail.toList.map (layout.expr 0))) ∧
      (∀ name fields methods visibility span,
        layout.OneLineNames (Decl.record name fields methods visibility span).symbols →
        layout.decl (.record name fields methods visibility span) =
          visibilityWord visibility ++ "class " ++ layout.name name ++ " " ++
            layout.bracedText
              (fields.map (fun field => (layout.writeField field).text 0) ++
                methods.map (layout.function 0))) ∧
      ∀ name methods span, layout.OneLineNames (Decl.extension name methods span).symbols →
        layout.decl (.extension name methods span) =
          "impl " ++ layout.name name ++ " " ++
            layout.bracedText (methods.map (layout.function 0))) ∧
    ∀ other : Layout, other.step = layout.step →
      (∀ expr expr' : Expr, expr'.outline other.name = expr.outline layout.name →
        other.writeExpr expr' = layout.writeExpr expr) ∧
      (∀ stmt stmt' : Stmt, stmt'.outline other.name = stmt.outline layout.name →
        other.writeStmt stmt' = layout.writeStmt stmt) ∧
      (∀ f f' : Function, f'.outline other.name = f.outline layout.name →
        other.writeFunction f' = layout.writeFunction f) ∧
      (∀ decl decl' : Decl, decl'.outline other.name = decl.outline layout.name →
        other.writeDecl decl' = layout.writeDecl decl) ∧
      ∀ unit unit' : SourceUnit, unit'.outline other.name = unit.outline layout.name →
        other.writeUnit unit' = layout.writeUnit unit := by
  refine ⟨⟨fun expr areShort depth => ?_, fun stmt areShort depth => ?_,
      fun f areShort depth => ?_⟩,
    ⟨fun stmts tail span => text_block isShort,
      fun name fields methods visibility span => text_record isShort,
      fun name methods span => text_extension isShort⟩,
    fun other sameStep => ⟨fun expr expr' same => ?_, fun stmt stmt' same => ?_,
      fun f f' same => ?_, fun decl decl' same => ?_, fun unit unit' same => ?_⟩⟩
  · have indents := indents_expr isShort expr areShort
    exact ⟨indents.finish depth, indents.text depth⟩
  · have indents := indents_stmt isShort stmt areShort
    exact ⟨indents.finish depth, indents.text depth⟩
  · have indents := indents_function isShort f areShort
    exact ⟨indents.finish depth, indents.text depth⟩
  · rw [← writeExpr_outline, same, ofOutlines_eq sameStep, writeExpr_outline]
  · rw [← writeStmt_outline, same, ofOutlines_eq sameStep, writeStmt_outline]
  · rw [← writeFunction_outline, same, ofOutlines_eq sameStep, writeFunction_outline]
  · rw [← writeDecl_outline, same, ofOutlines_eq sameStep, writeDecl_outline]
  · rw [← writeUnit_outline, same, ofOutlines_eq sameStep, writeUnit_outline]

/-- A function that calls itself with a block as the argument, assembled with two tables
and at different regions. -/
theorem source_text_compositional_of_block_argument :
    let layout : Layout := .ofTable (SymbolTable.empty.internAll ["run", "x"]).2 "\t"
    let inner : Expr := .block [.eval (.ident ⟨1⟩ default) default] none default
    let stmt : Stmt := .eval (.call (.ident ⟨0⟩ default) [.mk none inner] default) default
    let f : Function :=
      ⟨⟨0⟩, false, [], none, .block [stmt] (some inner) default, .hidden, default⟩
    let other : Layout := .ofTable (SymbolTable.empty.internAll ["x", "run"]).2 "\t"
    let inner' : Expr := .block [.eval (.ident ⟨0⟩ ⟨3, 4, 1, 4⟩) default] none ⟨2, 5, 1, 3⟩
    let stmt' : Stmt := .eval (.call (.ident ⟨1⟩ default) [.mk none inner'] default) default
    let f' : Function :=
      ⟨⟨1⟩, false, [], none, .block [stmt'] (some inner') default, .hidden, ⟨0, 9, 1, 1⟩⟩
    (layout.writeFunction f).finish 2 = 2 ∧
      layout.function 2 f = layout.nested 2 (layout.function 0 f) ∧
      layout.expr 0 f.body = layout.bracedText [layout.stmt 0 stmt, layout.expr 0 inner] ∧
      layout.decl (.record ⟨0⟩ [] [f] .hidden default) =
        "class run " ++ layout.bracedText [layout.function 0 f] ∧
      layout.decl (.extension ⟨0⟩ [f] default) =
        "impl run " ++ layout.bracedText [layout.function 0 f] ∧
      other.writeFunction f' = layout.writeFunction f := by
  intro layout inner stmt f other inner' stmt' f'
  obtain ⟨⟨-, -, functions⟩, ⟨blocks, records, extensions⟩, outlines⟩ :=
    source_text_compositional layout (by decide)
  obtain ⟨finish, text⟩ := functions f (by decide) 2
  refine ⟨finish, text, ?_, ?_, ?_, ?_⟩
  · exact blocks [stmt] (some inner) default (by decide) (.inl (List.cons_ne_nil _ _))
  · exact records ⟨0⟩ [] [f] .hidden default (by decide)
  · exact extensions ⟨0⟩ [f] default (by decide)
  · exact (outlines other rfl).2.2.1 f f' rfl

end Layout

end NilSafety
