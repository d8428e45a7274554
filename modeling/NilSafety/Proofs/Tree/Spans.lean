import NilSafety.Proofs.Tree.Names

/-!
Contract: the regions in trees.

Owns:
- all occurrences of regions in type notes, expressions and declarations;
- that a node over other children has the regions it carries itself and those of the
  children.

Does not own: which source text a region belongs to.
-/

namespace NilSafety

/-! ### Type notes -/

namespace TypeNote

mutual

/-- The regions in a note, its own first. -/
def spans : TypeNote → List Span
  | .named _ span | .inferred span => [span]
  | .generic _ args span => span :: spansOfList args
  | .array inner span | .optional inner span => span :: spans inner
  | .function params result span => span :: (spansOfList params ++ spans result)

/-- The regions in several notes. -/
def spansOfList : List TypeNote → List Span
  | [] => []
  | note :: rest => spans note ++ spansOfList rest

end

end TypeNote

/-! ### Nodes -/

namespace Stmt

/-- The regions that a statement carries itself, those of its note included. -/
def ownSpans : Stmt → List Span
  | bind _ _ note _ span => span :: note.toList.flatMap TypeNote.spans
  | ret _ span | assign _ _ span | loop _ _ span | eval _ span => [span]

theorem ownSpans_refill (stmt : Stmt) (exprs : List Expr) :
    (stmt.refill exprs).ownSpans = stmt.ownSpans := by
  cases stmt <;> rfl

theorem ownSpans_refillEach
    (stmts : List Stmt)
    {exprs : List Expr}
    (fits : exprs.length = (stmts.flatMap children).length) :
    (refillEach children refill stmts exprs).flatMap ownSpans = stmts.flatMap ownSpans := by
  rw [List.flatMap_def, List.flatMap_def,
    map_refillEach (fun stmt exprs _ => stmt.ownSpans_refill exprs) stmts fits]

end Stmt

namespace Expr

/-- The regions that a node carries itself, those of its statements included. -/
def localSpans (expr : Expr) : List Span :=
  expr.span :: expr.statements.flatMap Stmt.ownSpans

theorem localSpans_refill
    (expr : Expr)
    {exprs : List Expr}
    (fits : exprs.length = expr.children.length) :
    (expr.refill exprs).localSpans = expr.localSpans := by
  cases expr with
  | block stmts tail span =>
      rw [children, List.length_append] at fits
      rw [refill_block fits]
      exact congrArg (span :: ·) (Stmt.ownSpans_refillEach stmts (length_take_of_eq_add fits))
  | _ => rfl

/-- The regions in a tree, as often as they occur. -/
def spans : Expr → List Span :=
  foldUp fun node inside => node.localSpans ++ inside.flatten

theorem spans_eq (expr : Expr) :
    expr.spans = expr.localSpans ++ expr.children.flatMap spans := by
  unfold spans
  rw [foldUp_eq, List.flatMap_def]

theorem spans_refill
    (expr : Expr)
    {exprs : List Expr}
    (fits : exprs.length = expr.children.length) :
    (expr.refill exprs).spans = expr.localSpans ++ exprs.flatMap spans := by
  rw [spans_eq, localSpans_refill expr fits, children_refill expr fits]

theorem span_mem_spans (expr : Expr) : expr.span ∈ expr.spans := by
  rw [spans_eq]
  exact List.mem_append_left _ List.mem_cons_self

/-- The regions in a tree are those that its nodes carry. -/
theorem mem_spans {item : Span} {expr : Expr} :
    item ∈ expr.spans ↔ ∃ node ∈ expr.postOrder, item ∈ node.localSpans := by
  induction expr using childInduction with
  | node expr inductionHypothesis =>
      rw [spans_eq, postOrder_eq, List.mem_append, List.mem_flatMap]
      constructor
      · rintro (isOwn | ⟨child, isChild, inChild⟩)
        · exact ⟨expr, List.mem_append_right _ List.mem_cons_self, isOwn⟩
        · obtain ⟨node, inside, isLocal⟩ := (inductionHypothesis child isChild).mp inChild
          exact ⟨node, List.mem_append_left _ (List.mem_flatMap_of_mem isChild inside), isLocal⟩
      · rintro ⟨node, inside, isLocal⟩
        rcases List.mem_append.mp inside with below | isRoot
        · obtain ⟨child, isChild, inChild⟩ := List.mem_flatMap.mp below
          exact .inr ⟨child, isChild, (inductionHypothesis child isChild).mpr
            ⟨node, inChild, isLocal⟩⟩
        · rw [List.mem_singleton.mp isRoot] at isLocal
          exact .inl isLocal

end Expr

/-- The regions in a statement. -/
def Stmt.spans (stmt : Stmt) : List Span :=
  stmt.ownSpans ++ stmt.children.flatMap Expr.spans

theorem Expr.mem_spans_block
    {item span : Span}
    {stmts : List Stmt}
    {tail : Option Expr} :
    item ∈ (block stmts tail span).spans ↔
      item = span ∨ (∃ stmt ∈ stmts, item ∈ stmt.spans) ∨ ∃ inner ∈ tail, item ∈ inner.spans := by
  rw [spans_eq]
  simp only [localSpans, statements, Expr.span, children, Stmt.spans, List.mem_append,
    List.mem_cons, List.mem_flatMap, Option.mem_toList, Option.mem_def]
  constructor
  · rintro ((isOwn | ⟨stmt, isStmt, inStmt⟩) | ⟨child, ⟨stmt, isStmt, isChild⟩ | isTail, inChild⟩)
    · exact .inl isOwn
    · exact .inr (.inl ⟨stmt, isStmt, .inl inStmt⟩)
    · exact .inr (.inl ⟨stmt, isStmt, .inr ⟨child, isChild, inChild⟩⟩)
    · exact .inr (.inr ⟨child, isTail, inChild⟩)
  · rintro (isOwn | ⟨stmt, isStmt, inStmt | ⟨child, isChild, inChild⟩⟩ | ⟨inner, isTail, inTail⟩)
    · exact .inl (.inl isOwn)
    · exact .inl (.inr ⟨stmt, isStmt, inStmt⟩)
    · exact .inr ⟨child, .inl ⟨stmt, isStmt, isChild⟩, inChild⟩
    · exact .inr ⟨inner, .inr isTail, inTail⟩

/-! ### Declarations -/

/-- The regions in a parameter. -/
def Param.spans (param : Param) : List Span :=
  param.span :: param.note.spans

/-- The regions in a field. -/
def FieldDecl.spans (field : FieldDecl) : List Span :=
  field.span :: field.note.spans

namespace Function

/-- The regions in a function, those in its body aside. -/
def headSpans (f : Function) : List Span :=
  f.span :: (f.params.flatMap Param.spans ++ f.result.toList.flatMap TypeNote.spans)

/-- The regions in a function. -/
def spans (f : Function) : List Span :=
  f.headSpans ++ f.body.spans

theorem paramSpan_mem_spans {f : Function} {param : Param} (isParam : param ∈ f.params) :
    param.span ∈ f.spans := by
  refine List.mem_append_left _ (List.mem_cons_of_mem _ (List.mem_append_left _ ?_))
  exact List.mem_flatMap_of_mem isParam List.mem_cons_self

end Function

namespace Decl

/-- The regions in a declaration. -/
def spans : Decl → List Span
  | function f => f.spans
  | record _ fields methods _ span =>
      span :: (fields.flatMap FieldDecl.spans ++ methods.flatMap Function.spans)
  | extension _ methods span => span :: methods.flatMap Function.spans
  | constant _ note value _ span => span :: (note.spans ++ value.spans)

end Decl

end NilSafety
