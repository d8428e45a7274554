import Mathlib.Data.List.Forall2
import NilSafety.Tree.Traversal

/-!
Contract: expressions as nodes with children.

Owns:
- the children of an expression: the expressions directly inside it, those of its
  statements, arguments and initializers included, from left to right as written;
- the statements of an expression, whose children are among its own;
- the same node over other children, and the name that a statement binds besides;
- that what is related to the children of a sequence splits as the sequence does;
- the induction over children.

Does not own: what a node carries beside its children.

What is said of whole trees comes down to one case here, the node with its children,
in place of one case for every shape of expression and statement.
-/

namespace NilSafety

/-! ### Children -/

/-- The items of a sequence over other expressions, each over as many as it has. -/
def refillEach
    {α : Type}
    (parts : α → List Expr)
    (refill : List Expr → α → α) :
    List α → List Expr → List α
  | [], _ => []
  | item :: rest, exprs =>
      refill (exprs.take (parts item).length) item ::
        refillEach parts refill rest (exprs.drop (parts item).length)

/-- The same argument with another value. -/
def Arg.withValue (arg : Arg) (value : Expr) : Arg :=
  .mk arg.label value

/-- The same initializer with another value. -/
def Init.withValue (init : Init) (value : Expr) : Init :=
  .mk init.name value

namespace Stmt

/-- The expressions directly inside a statement. -/
def children : Stmt → List Expr
  | bind _ _ _ init _ => init.toList
  | ret value _ => value.toList
  | assign target value _ => [target, value]
  | loop condition body _ => [condition, body]
  | eval expr _ => [expr]

/-- The statement over other expressions, as many as it has. -/
def refill (exprs : List Expr) : Stmt → Stmt
  | bind name isMutable note _ span => bind name isMutable note exprs.head? span
  | ret _ span => ret exprs.head? span
  | assign target value span => assign (exprs.getD 0 target) (exprs.getD 1 value) span
  | loop condition body span => loop (exprs.getD 0 condition) (exprs.getD 1 body) span
  | eval expr span => eval (exprs.getD 0 expr) span

/-- The name that a statement binds. -/
def boundName? : Stmt → Option Symbol
  | bind name _ _ _ _ => some name
  | _ => none

end Stmt

namespace Expr

/-- The expressions directly inside an expression. -/
def children : Expr → List Expr
  | int .. | str .. | bool .. | nil .. | ident .. | path .. => []
  | unary _ operand _ => [operand]
  | binary left _ right _ => [left, right]
  | cond condition thenBranch elseBranch _ => condition :: thenBranch :: elseBranch.toList
  | block stmts tail _ => stmts.flatMap Stmt.children ++ tail.toList
  | call callee args _ => callee :: args.map Arg.value
  | method receiver _ args _ _ => receiver :: args.map Arg.value
  | field object _ _ _ => [object]
  | index collection position _ => [collection, position]
  | construct _ inits _ => inits.map Init.value
  | array elements _ => elements
  | paren inner _ => [inner]

/-- The statements directly inside an expression. -/
def statements : Expr → List Stmt
  | block stmts _ _ => stmts
  | _ => []

/-- The node over other children, as many as it has. -/
def refill (exprs : List Expr) : Expr → Expr
  | unary op operand span => unary op (exprs.getD 0 operand) span
  | binary left op right span => binary (exprs.getD 0 left) op (exprs.getD 1 right) span
  | cond condition thenBranch _ span =>
      cond (exprs.getD 0 condition) (exprs.getD 1 thenBranch) (exprs.drop 2).head? span
  | block stmts _ span =>
      block (refillEach Stmt.children Stmt.refill stmts exprs)
        (exprs.drop (stmts.flatMap Stmt.children).length).head? span
  | call callee args span =>
      call (exprs.getD 0 callee) (args.zipWith Arg.withValue exprs.tail) span
  | method receiver name args marked span =>
      method (exprs.getD 0 receiver) name (args.zipWith Arg.withValue exprs.tail) marked span
  | field object name marked span => field (exprs.getD 0 object) name marked span
  | index collection position span =>
      index (exprs.getD 0 collection) (exprs.getD 1 position) span
  | construct name inits span => construct name (inits.zipWith Init.withValue exprs) span
  | array _ span => array exprs span
  | paren inner span => paren (exprs.getD 0 inner) span
  | expr => expr

end Expr

/-! ### Sequences -/

/-- As many expressions as two parts have split into as many as each has. -/
theorem length_take_of_eq_add
    {exprs : List Expr}
    {count others : Nat}
    (fits : exprs.length = count + others) :
    (exprs.take count).length = count := by
  rw [List.length_take]
  omega

theorem length_drop_of_eq_add
    {exprs : List Expr}
    {count others : Nat}
    (fits : exprs.length = count + others) :
    (exprs.drop count).length = others := by
  rw [List.length_drop]
  omega

/-- What is related to a sequence splits as the sequence does. -/
theorem forall₂_split
    {α β : Type}
    {relation : α → β → Prop}
    {first rest : List α}
    {images : List β}
    (related : List.Forall₂ relation (first ++ rest) images) :
    List.Forall₂ relation first (images.take first.length) ∧
      List.Forall₂ relation rest (images.drop first.length) :=
  ⟨(List.forall₂_take_append _ _ _ related.flip).flip,
    (List.forall₂_drop_append _ _ _ related.flip).flip⟩

section Sequences

variable {α β : Type} {parts : α → List Expr} {refill : List Expr → α → α}

/-- Only the expressions that the items have room for are looked at. -/
theorem refillEach_append
    (items : List α)
    {exprs : List Expr}
    (fits : exprs.length = (items.flatMap parts).length)
    (others : List Expr) :
    refillEach parts refill items (exprs ++ others) = refillEach parts refill items exprs := by
  induction items generalizing exprs with
  | nil => rfl
  | cons item rest inductionHypothesis =>
      rw [List.flatMap_cons, List.length_append] at fits
      have room : (parts item).length ≤ exprs.length := by omega
      rw [refillEach, refillEach, List.take_append_of_le_length room,
        List.drop_append_of_le_length room, inductionHypothesis (length_drop_of_eq_add fits)]

theorem flatMap_refillEach
    (filled : ∀ item exprs, exprs.length = (parts item).length →
      parts (refill exprs item) = exprs)
    (items : List α)
    {exprs : List Expr}
    (fits : exprs.length = (items.flatMap parts).length) :
    (refillEach parts refill items exprs).flatMap parts = exprs := by
  induction items generalizing exprs with
  | nil => rw [List.length_eq_zero_iff.mp fits]; rfl
  | cons item rest inductionHypothesis =>
      rw [List.flatMap_cons, List.length_append] at fits
      rw [refillEach, List.flatMap_cons, filled item _ (length_take_of_eq_add fits),
        inductionHypothesis (length_drop_of_eq_add fits), List.take_append_drop]

theorem refillEach_flatMap
    (own : ∀ item, refill (parts item) item = item)
    (items : List α) :
    refillEach parts refill items (items.flatMap parts) = items := by
  induction items with
  | nil => rfl
  | cons item rest inductionHypothesis =>
      rw [refillEach, List.flatMap_cons, List.take_left, List.drop_left, own, inductionHypothesis]

/-- The expressions filled in first do not matter later. -/
theorem refillEach_refillEach
    (filled : ∀ item exprs, exprs.length = (parts item).length →
      parts (refill exprs item) = exprs)
    (refilled : ∀ item exprs others, exprs.length = (parts item).length →
      others.length = (parts item).length → refill others (refill exprs item) = refill others item)
    (items : List α)
    {exprs others : List Expr}
    (fits : exprs.length = (items.flatMap parts).length)
    (fitsOthers : others.length = (items.flatMap parts).length) :
    refillEach parts refill (refillEach parts refill items exprs) others =
      refillEach parts refill items others := by
  induction items generalizing exprs others with
  | nil => rfl
  | cons item rest inductionHypothesis =>
      rw [List.flatMap_cons, List.length_append] at fits fitsOthers
      have first := length_take_of_eq_add fits
      have firstOther := length_take_of_eq_add fitsOthers
      simp only [refillEach, filled item _ first, first]
      rw [refilled item _ _ first firstOther,
        inductionHypothesis (length_drop_of_eq_add fits) (length_drop_of_eq_add fitsOthers)]

/-- What does not depend on the expressions in the items is as before. -/
theorem map_refillEach
    {key : α → β}
    (ignored : ∀ item exprs, exprs.length = (parts item).length →
      key (refill exprs item) = key item)
    (items : List α)
    {exprs : List Expr}
    (fits : exprs.length = (items.flatMap parts).length) :
    (refillEach parts refill items exprs).map key = items.map key := by
  induction items generalizing exprs with
  | nil => rfl
  | cons item rest inductionHypothesis =>
      rw [List.flatMap_cons, List.length_append] at fits
      rw [refillEach, List.map_cons, ignored item _ (length_take_of_eq_add fits),
        inductionHypothesis (length_drop_of_eq_add fits), List.map_cons]

/-- Images of refilled items are the refilled images. -/
theorem map_refillEach_image
    {image : α → α}
    {imageOfPart : Expr → Expr}
    (room : ∀ item, (parts (image item)).length = (parts item).length)
    (commutes : ∀ item exprs,
      image (refill exprs item) = refill (exprs.map imageOfPart) (image item))
    (items : List α)
    (exprs : List Expr) :
    (refillEach parts refill items exprs).map image =
      refillEach parts refill (items.map image) (exprs.map imageOfPart) := by
  induction items generalizing exprs with
  | nil => rfl
  | cons item rest inductionHypothesis =>
      rw [refillEach, List.map_cons, List.map_cons, refillEach, commutes, inductionHypothesis,
        room, List.map_take, List.map_drop]

end Sequences

/-! ### Arguments and initializers -/

namespace Expr

section Items

variable {α β : Type} {value : α → Expr} {withValue : α → Expr → α} {items : List α}
  {exprs : List Expr}

/-- Items take the values they are given. -/
theorem map_value_zipWith
    (taken : ∀ item expr, value (withValue item expr) = expr)
    (fits : exprs.length = items.length) :
    (items.zipWith withValue exprs).map value = exprs := by
  induction items generalizing exprs with
  | nil => rw [List.length_eq_zero_iff.mp fits]; rfl
  | cons item rest inductionHypothesis =>
      cases exprs with
      | nil => cases fits
      | cons expr exprs =>
          rw [List.zipWith_cons_cons, List.map_cons, taken,
            inductionHypothesis (Nat.succ.inj fits)]

/-- Items over their own values are themselves. -/
theorem zipWith_map_value
    (own : ∀ item, withValue item (value item) = item)
    (items : List α) :
    items.zipWith withValue (items.map value) = items := by
  induction items with
  | nil => rfl
  | cons item rest inductionHypothesis =>
      rw [List.map_cons, List.zipWith_cons_cons, own, inductionHypothesis]

/-- What does not depend on the values is as before. -/
theorem map_zipWith_withValue
    {key : α → β}
    (ignored : ∀ item expr, key (withValue item expr) = key item)
    (fits : exprs.length = items.length) :
    (items.zipWith withValue exprs).map key = items.map key := by
  induction items generalizing exprs with
  | nil => rfl
  | cons item rest inductionHypothesis =>
      cases exprs with
      | nil => cases fits
      | cons expr exprs =>
          rw [List.zipWith_cons_cons, List.map_cons, ignored,
            inductionHypothesis (Nat.succ.inj fits), List.map_cons]

/-- The values taken first do not matter later. -/
theorem zipWith_zipWith_withValue
    (replaced : ∀ item expr other,
      withValue (withValue item expr) other = withValue item other)
    (fits : exprs.length = items.length)
    (others : List Expr) :
    (items.zipWith withValue exprs).zipWith withValue others = items.zipWith withValue others := by
  induction items generalizing exprs others with
  | nil => rfl
  | cons item rest inductionHypothesis =>
      cases exprs with
      | nil => cases fits
      | cons expr exprs =>
          cases others with
          | nil => rfl
          | cons other others =>
              rw [List.zipWith_cons_cons, List.zipWith_cons_cons, replaced,
                inductionHypothesis (Nat.succ.inj fits), List.zipWith_cons_cons]

end Items

end Expr

theorem Arg.withValue_withValue (arg : Arg) (value other : Expr) :
    (arg.withValue value).withValue other = arg.withValue other := rfl

theorem Init.withValue_withValue (init : Init) (value other : Expr) :
    (init.withValue value).withValue other = init.withValue other := rfl

theorem Arg.withValue_value (arg : Arg) : arg.withValue arg.value = arg := by
  cases arg
  rfl

theorem Init.withValue_value (init : Init) : init.withValue init.value = init := by
  cases init
  rfl

/-! ### Refilled nodes -/

/-- An option of as many values as a list has is the list's head. -/
theorem Expr.toList_head?
    {option : Option Expr}
    {exprs : List Expr}
    (fits : exprs.length = option.toList.length) :
    exprs.head?.toList = exprs := by
  cases option with
  | none => rw [List.length_eq_zero_iff.mp fits]; rfl
  | some value =>
      obtain ⟨other, rfl⟩ := List.length_eq_one_iff.mp fits
      rfl

namespace Stmt

theorem children_refill
    (stmt : Stmt)
    (exprs : List Expr)
    (fits : exprs.length = stmt.children.length) :
    (stmt.refill exprs).children = exprs := by
  cases stmt with
  | bind name isMutable note init span => exact Expr.toList_head? fits
  | ret value span => exact Expr.toList_head? fits
  | assign target value span =>
      obtain ⟨target', value', rfl⟩ := List.length_eq_two.mp fits
      rfl
  | loop condition body span =>
      obtain ⟨condition', body', rfl⟩ := List.length_eq_two.mp fits
      rfl
  | eval expr span =>
      obtain ⟨expr', rfl⟩ := List.length_eq_one_iff.mp fits
      rfl

theorem refill_children (stmt : Stmt) : stmt.refill stmt.children = stmt := by
  cases stmt with
  | bind name isMutable note init span => cases init <;> rfl
  | ret value span => cases value <;> rfl
  | assign | loop | eval => rfl

theorem refill_refill
    (stmt : Stmt)
    (exprs others : List Expr)
    (fits : exprs.length = stmt.children.length)
    (fitsOthers : others.length = stmt.children.length) :
    (stmt.refill exprs).refill others = stmt.refill others := by
  cases stmt with
  | bind | ret => rfl
  | assign | loop =>
      obtain ⟨first, second, rfl⟩ := List.length_eq_two.mp fits
      obtain ⟨first', second', rfl⟩ := List.length_eq_two.mp fitsOthers
      rfl
  | eval expr span =>
      obtain ⟨first, rfl⟩ := List.length_eq_one_iff.mp fits
      obtain ⟨first', rfl⟩ := List.length_eq_one_iff.mp fitsOthers
      rfl

end Stmt

namespace Expr

/-- A block takes expressions for its statements first, then one for its tail. -/
theorem refill_block
    {stmts : List Stmt}
    {tail : Option Expr}
    {span : Span}
    {exprs : List Expr}
    (fits : exprs.length = (stmts.flatMap Stmt.children).length + tail.toList.length) :
    (block stmts tail span).refill exprs =
      block (refillEach Stmt.children Stmt.refill stmts (exprs.take (stmts.flatMap Stmt.children).length))
        (exprs.drop (stmts.flatMap Stmt.children).length).head? span := by
  rw [refill, ← refillEach_append stmts (length_take_of_eq_add fits)
    (exprs.drop (stmts.flatMap Stmt.children).length), List.take_append_drop]

theorem children_refill
    (expr : Expr)
    {exprs : List Expr}
    (fits : exprs.length = expr.children.length) :
    (expr.refill exprs).children = exprs := by
  cases expr with
  | int | str | bool | nil | ident | path => exact (List.length_eq_zero_iff.mp fits).symm
  | unary | field | paren =>
      obtain ⟨first, rfl⟩ := List.length_eq_one_iff.mp fits
      rfl
  | binary | index =>
      obtain ⟨first, second, rfl⟩ := List.length_eq_two.mp fits
      rfl
  | cond condition thenBranch elseBranch span =>
      obtain _ | ⟨condition', _ | ⟨thenBranch', rest⟩⟩ := exprs
      · cases fits
      · cases fits
      · have fitsElse : rest.length = elseBranch.toList.length := by
          simpa [children] using fits
        show condition' :: thenBranch' :: rest.head?.toList = _
        rw [toList_head? fitsElse]
  | block stmts tail span =>
      rw [children, List.length_append] at fits
      rw [refill_block fits, children,
        flatMap_refillEach Stmt.children_refill stmts (length_take_of_eq_add fits),
        toList_head? (length_drop_of_eq_add fits), List.take_append_drop]
  | call callee args span | method callee name args marked span =>
      obtain _ | ⟨callee', values⟩ := exprs
      · cases fits
      · have fitsArgs : values.length = args.length := by simpa [children] using fits
        show callee' :: (args.zipWith Arg.withValue values).map Arg.value = _
        rw [map_value_zipWith (fun _ _ => rfl) fitsArgs]
  | construct name inits span =>
      have fitsInits : exprs.length = inits.length := by simpa [children] using fits
      exact map_value_zipWith (fun _ _ => rfl) fitsInits
  | array elements span => rfl

theorem refill_children (expr : Expr) : expr.refill expr.children = expr := by
  cases expr with
  | cond condition thenBranch elseBranch span => cases elseBranch <;> rfl
  | block stmts tail span =>
      simp only [refill, children, refillEach_append stmts rfl, refillEach_flatMap Stmt.refill_children,
        List.drop_left]
      cases tail <;> rfl
  | call callee args span =>
      exact congrArg (fun args => call callee args span) (zipWith_map_value Arg.withValue_value args)
  | method callee name args marked span =>
      exact congrArg (fun args => method callee name args marked span)
        (zipWith_map_value Arg.withValue_value args)
  | construct name inits span =>
      exact congrArg (fun inits => construct name inits span)
        (zipWith_map_value Init.withValue_value inits)
  | _ => rfl

theorem refill_refill
    (expr : Expr)
    {exprs others : List Expr}
    (fits : exprs.length = expr.children.length)
    (fitsOthers : others.length = expr.children.length) :
    (expr.refill exprs).refill others = expr.refill others := by
  cases expr with
  | int | str | bool | nil | ident | path | array => rfl
  | unary | field | paren =>
      obtain ⟨first, rfl⟩ := List.length_eq_one_iff.mp fits
      obtain ⟨first', rfl⟩ := List.length_eq_one_iff.mp fitsOthers
      rfl
  | binary | index =>
      obtain ⟨first, second, rfl⟩ := List.length_eq_two.mp fits
      obtain ⟨first', second', rfl⟩ := List.length_eq_two.mp fitsOthers
      rfl
  | cond condition thenBranch elseBranch span =>
      obtain _ | ⟨condition', _ | ⟨thenBranch', rest⟩⟩ := exprs
      · cases fits
      · cases fits
      · obtain _ | ⟨condition', _ | ⟨thenBranch', rest⟩⟩ := others
        · cases fitsOthers
        · cases fitsOthers
        · rfl
  | block stmts tail span =>
      rw [children, List.length_append] at fits fitsOthers
      have first := length_take_of_eq_add fits
      have kept := flatMap_refillEach Stmt.children_refill stmts first
      have fitsRefilled : others.length =
          ((refillEach Stmt.children Stmt.refill stmts (exprs.take (stmts.flatMap Stmt.children).length)).flatMap
              Stmt.children).length +
            (exprs.drop (stmts.flatMap Stmt.children).length).head?.toList.length := by
        rw [kept, first, toList_head? (length_drop_of_eq_add fits), length_drop_of_eq_add fits,
          fitsOthers]
      rw [refill_block fits, refill_block fitsRefilled, refill_block fitsOthers, kept, first,
        refillEach_refillEach Stmt.children_refill Stmt.refill_refill stmts first (length_take_of_eq_add fitsOthers)]
  | call callee args span | method callee name args marked span =>
      obtain _ | ⟨callee', values⟩ := exprs
      · cases fits
      · obtain _ | ⟨callee', others⟩ := others
        · cases fitsOthers
        · have fitsArgs : values.length = args.length := by simpa [children] using fits
          simp only [refill, List.tail_cons, List.getD_cons_zero]
          rw [zipWith_zipWith_withValue Arg.withValue_withValue fitsArgs]
  | construct name inits span =>
      have fitsInits : exprs.length = inits.length := by simpa [children] using fits
      simp only [refill]
      rw [zipWith_zipWith_withValue Init.withValue_withValue fitsInits]

@[simp] theorem span_refill (expr : Expr) (exprs : List Expr) :
    (expr.refill exprs).span = expr.span := by
  cases expr <;> rfl

@[simp] theorem isMarkedAccess_refill (expr : Expr) (exprs : List Expr) :
    (expr.refill exprs).isMarkedAccess = expr.isMarkedAccess := by
  cases expr <;> rfl

@[simp] theorem isArray_refill (expr : Expr) (exprs : List Expr) :
    (expr.refill exprs).isArray = expr.isArray := by
  cases expr <;> rfl

/-! ### Induction -/

theorem sizeOf_lt_of_mem_stmtChildren {expr : Expr} {stmt : Stmt} (inside : expr ∈ stmt.children) :
    sizeOf expr < sizeOf stmt := by
  cases stmt with
  | bind name isMutable note init span =>
      rw [Stmt.children, Option.mem_toList] at inside
      subst inside
      simp only [Stmt.bind.sizeOf_spec, Option.some.sizeOf_spec]
      omega
  | ret value span =>
      rw [Stmt.children, Option.mem_toList] at inside
      subst inside
      simp only [Stmt.ret.sizeOf_spec, Option.some.sizeOf_spec]
      omega
  | assign first second span | loop first second span =>
      simp only [Stmt.children, List.mem_cons, List.not_mem_nil, or_false] at inside
      rcases inside with rfl | rfl <;>
        simp only [Stmt.assign.sizeOf_spec, Stmt.loop.sizeOf_spec] <;> omega
  | eval inner span =>
      rw [List.mem_singleton.mp inside, Stmt.eval.sizeOf_spec]
      omega

theorem sizeOf_lt_of_mem_children {child expr : Expr} (inside : child ∈ expr.children) :
    sizeOf child < sizeOf expr := by
  cases expr with
  | int | str | bool | nil | ident | path => cases inside
  | unary | field | paren =>
      rw [List.mem_singleton.mp inside]
      simp only [unary.sizeOf_spec, field.sizeOf_spec, paren.sizeOf_spec]
      omega
  | binary | index =>
      simp only [children, List.mem_cons, List.not_mem_nil, or_false] at inside
      rcases inside with rfl | rfl <;>
        simp only [binary.sizeOf_spec, index.sizeOf_spec] <;> omega
  | cond condition thenBranch elseBranch span =>
      simp only [children, List.mem_cons, Option.mem_toList] at inside
      rcases inside with rfl | rfl | rfl <;>
        simp only [cond.sizeOf_spec, Option.some.sizeOf_spec] <;> omega
  | block stmts tail span =>
      simp only [children, List.mem_append, List.mem_flatMap, Option.mem_toList] at inside
      rcases inside with ⟨stmt, isStmt, inStmt⟩ | rfl
      · have below := List.sizeOf_lt_of_mem isStmt
        have inner := sizeOf_lt_of_mem_stmtChildren inStmt
        rw [block.sizeOf_spec]
        omega
      · simp only [block.sizeOf_spec, Option.some.sizeOf_spec]
        omega
  | call callee args span | method callee name args marked span =>
      simp only [children, List.mem_cons, List.mem_map] at inside
      rcases inside with rfl | ⟨⟨label, value⟩, isArg, rfl⟩
      · simp only [call.sizeOf_spec, method.sizeOf_spec]
        omega
      · have below := List.sizeOf_lt_of_mem isArg
        simp only [Arg.mk.sizeOf_spec] at below
        simp only [Arg.value, call.sizeOf_spec, method.sizeOf_spec]
        omega
  | construct name inits span =>
      simp only [children, List.mem_map] at inside
      obtain ⟨⟨name, value⟩, isInit, rfl⟩ := inside
      have below := List.sizeOf_lt_of_mem isInit
      simp only [Init.mk.sizeOf_spec] at below
      simp only [Init.value, construct.sizeOf_spec]
      omega
  | array elements span =>
      have below := List.sizeOf_lt_of_mem (show child ∈ elements from inside)
      rw [array.sizeOf_spec]
      omega

theorem children_subset_of_mem_statements
    {expr : Expr}
    {stmt : Stmt}
    (inside : stmt ∈ expr.statements) :
    stmt.children ⊆ expr.children := by
  cases expr with
  | block stmts tail span =>
      intro child isChild
      exact List.mem_append_left _ (List.mem_flatMap_of_mem inside isChild)
  | _ => cases inside

/-- What holds of a node whenever it holds of its children holds of every tree. -/
theorem childInduction
    {motive : Expr → Prop}
    (node : ∀ expr, (∀ child ∈ expr.children, motive child) → motive expr)
    (expr : Expr) :
    motive expr :=
  node expr fun child inside =>
    have := sizeOf_lt_of_mem_children inside
    childInduction node child
termination_by sizeOf expr

end Expr

end NilSafety
