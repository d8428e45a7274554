import NilSafety.Proofs.Tree.Walks

/-!
Contract: the assignments in a tree.

Owns:
- what may be assigned to;
- the assignments that a block holds itself, and those at any depth of a tree, in the
  order of walks;
- how they come down to the children of a node and to its own;
- that a node over other children has the same assignments, over these.

Does not own: what an assignment does.
-/

namespace NilSafety

/-- An assignment statement. -/
structure Assignment where
  target : Expr
  value : Expr
  span : Span

/-- The assignment as a statement. -/
def Assignment.stmt (assignment : Assignment) : Stmt :=
  .assign assignment.target assignment.value assignment.span

/-- The assignment that a statement is, if it is one. -/
def Stmt.ownAssignments : Stmt → List Assignment
  | assign target value span => [⟨target, value, span⟩]
  | bind .. | ret .. | loop .. | eval .. => []

namespace Expr

/-- Whether the expression may be assigned to. -/
def isTarget : Expr → Bool
  | ident .. | field .. | index .. => true
  | _ => false

/-- The assignments among the statements of a block. -/
def ownAssignments : Expr → List Assignment
  | block stmts _ _ => stmts.flatMap Stmt.ownAssignments
  | _ => []

/-- The assignments in a tree, at any depth, in the order of walks. -/
def assignments (expr : Expr) : List Assignment :=
  expr.postOrder.flatMap ownAssignments

theorem assignments_eq (expr : Expr) :
    expr.assignments = expr.children.flatMap assignments ++ expr.ownAssignments := by
  unfold assignments
  rw [postOrder_eq, List.flatMap_append, List.flatMap_assoc, List.flatMap_singleton]

theorem assignments_subset {child expr : Expr} (inside : child ∈ expr.children) :
    child.assignments ⊆ expr.assignments := by
  rw [assignments_eq expr]
  exact fun _ isInside => List.mem_append_left _ (List.mem_flatMap_of_mem inside isInside)

theorem ownAssignments_subset (expr : Expr) : expr.ownAssignments ⊆ expr.assignments := by
  rw [assignments_eq expr]
  exact List.subset_append_right _ _

theorem mem_children_of_mem_ownAssignments
    {expr : Expr}
    {assignment : Assignment}
    (isOwn : assignment ∈ expr.ownAssignments) :
    assignment.target ∈ expr.children ∧ assignment.value ∈ expr.children := by
  cases expr with
  | block stmts tail span =>
      obtain ⟨stmt, isStmt, isAssignment⟩ := List.mem_flatMap.mp isOwn
      have within : stmt.children ⊆ (block stmts tail span).children :=
        fun _ isInside => List.mem_append_left _ (List.mem_flatMap_of_mem isStmt isInside)
      cases stmt with
      | assign target value span =>
          obtain rfl := List.mem_singleton.mp isAssignment
          exact ⟨within List.mem_cons_self, within (List.mem_cons_of_mem _ List.mem_cons_self)⟩
      | _ => cases isAssignment
  | _ => cases isOwn

end Expr

/-! ### Related trees -/

/-- The assignments are for one region, with related targets and related values. -/
structure Assignment.Related
    (relation : Expr → Expr → Prop)
    (assignment assignment' : Assignment) : Prop where
  span : assignment'.span = assignment.span
  target : relation assignment.target assignment'.target
  value : relation assignment.value assignment'.value

section

variable {relation : Expr → Expr → Prop}

theorem Stmt.related_refill
    {stmt : Stmt}
    {exprs : List Expr}
    (related : List.Forall₂ relation stmt.children exprs) :
    List.Forall₂ (Assignment.Related relation)
      stmt.ownAssignments (stmt.refill exprs).ownAssignments := by
  cases stmt with
  | assign target value span =>
      cases related with
      | cons ofTarget rest =>
          cases rest with
          | cons ofValue none =>
              cases none
              exact .cons ⟨rfl, ofTarget, ofValue⟩ .nil
  | _ => exact .nil

theorem related_refillEach
    {stmts : List Stmt}
    {others exprs : List Expr}
    (related : List.Forall₂ relation (stmts.flatMap Stmt.children ++ others) exprs) :
    List.Forall₂ (Assignment.Related relation) (stmts.flatMap Stmt.ownAssignments)
      ((refillEach Stmt.children Stmt.refill stmts exprs).flatMap Stmt.ownAssignments) := by
  induction stmts generalizing exprs with
  | nil => exact .nil
  | cons stmt rest inductionHypothesis =>
      rw [List.flatMap_cons, List.append_assoc] at related
      obtain ⟨ofFirst, ofRest⟩ := forall₂_split related
      exact List.rel_append (Stmt.related_refill ofFirst) (inductionHypothesis ofRest)

/-- A node over related children has related assignments of its own. -/
theorem Expr.related_refill
    {expr : Expr}
    {exprs : List Expr}
    (related : List.Forall₂ relation expr.children exprs) :
    List.Forall₂ (Assignment.Related relation)
      expr.ownAssignments (expr.refill exprs).ownAssignments := by
  cases expr with
  | block stmts tail span => exact related_refillEach related
  | _ => exact .nil

end

@[simp] theorem Expr.isTarget_refill (expr : Expr) (exprs : List Expr) :
    (expr.refill exprs).isTarget = expr.isTarget := by
  cases expr <;> rfl

end NilSafety
