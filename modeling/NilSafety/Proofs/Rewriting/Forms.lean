import NilSafety.Proofs.Rewriting.Units
import NilSafety.Proofs.Tree.Names

/-!
Contract: the forms that rewriting builds, as trees.

Owns, for the expansion of a marked access, the wrapped array literal and the body
behind guards:
- the form with other symbols;
- the symbols in it, as often as they occur;
- the nodes in it.

Does not own: when a form is built, or what it evaluates to.
-/

namespace NilSafety

/-! ### Blocks -/

namespace Stmt

/-- The statement with other symbols. -/
def mapSymbols (rename : Symbol → Symbol) (stmt : Stmt) : Stmt :=
  (stmt.mapOwn rename).refill (stmt.children.map (Expr.mapSymbols rename))

end Stmt

namespace Expr

theorem mapSymbols_block
    (rename : Symbol → Symbol)
    (stmts : List Stmt)
    (tail : Option Expr)
    (span : Span) :
    (block stmts tail span).mapSymbols rename =
      block (stmts.map (Stmt.mapSymbols rename)) (tail.map (mapSymbols rename)) span := by
  have each : refillEach Stmt.children Stmt.refill (stmts.map (Stmt.mapOwn rename))
      ((stmts.flatMap Stmt.children).map (mapSymbols rename)) =
        stmts.map (Stmt.mapSymbols rename) := by
    induction stmts with
    | nil => rfl
    | cons stmt rest inductionHypothesis =>
        have room : ((stmt.mapOwn rename).children).length =
            (stmt.children.map (mapSymbols rename)).length := by
          rw [Stmt.children_mapOwn, List.length_map]
        rw [List.map_cons, List.flatMap_cons, List.map_append, refillEach, room, List.take_left,
          List.drop_left, inductionHypothesis]
        rfl
  have room : ((stmts.map (Stmt.mapOwn rename)).flatMap Stmt.children).length =
      ((stmts.flatMap Stmt.children).map (mapSymbols rename)).length := by
    rw [List.flatMap_map, List.length_map]
    simp only [Stmt.children_mapOwn]
  rw [mapSymbols_eq, children, List.map_append, mapOwn, refill, refillEach_append _ room.symm, each,
    room, List.drop_left]
  cases tail <;> rfl

/-! ### Expansions -/

theorem mapSymbols_expandAccess (rename : Symbol → Symbol) (temp : Symbol) (expr : Expr) :
    (expr.expandAccess temp).mapSymbols rename =
      (expr.mapSymbols rename).expandAccess (rename temp) := by
  cases expr with
  | field object name marked span => cases marked <;> rfl
  | method receiver name args marked span => cases marked <;> rfl
  | block stmts tail span =>
      rw [expandAccess, mapSymbols_block, expandAccess]
      all_goals nofun
  | _ => rfl

theorem symbols_field (object : Expr) (name : Symbol) (marked : Bool) (span : Span) :
    (field object name marked span).symbols = name :: object.symbols := by
  rw [symbols_eq, children, List.flatMap_singleton]
  rfl

theorem symbols_method
    (receiver : Expr)
    (name : Symbol)
    (args : List Arg)
    (marked : Bool)
    (span : Span) :
    (method receiver name args marked span).symbols =
      name :: (args.filterMap Arg.label ++
        (receiver.symbols ++ (args.map Arg.value).flatMap symbols)) := by
  have own : (method receiver name args marked span).localSymbols =
      name :: args.filterMap Arg.label ++ [] := rfl
  rw [symbols_eq, children, List.flatMap_cons, own, List.append_nil]
  rfl

theorem symbols_nilChecked (temp : Symbol) (receiver access : Expr) (span : Span) :
    (nilChecked temp receiver access span).symbols =
      temp :: (receiver.symbols ++ temp :: access.symbols) := by
  have computed : (nilChecked temp receiver access span).symbols =
      temp :: (receiver.symbols ++ (temp :: ((access.symbols ++ []) ++ []) ++ [])) := rfl
  rw [computed, List.append_nil, List.append_nil, List.append_nil]

/-- An expansion mentions its temporary three times, and otherwise what the access
mentions. -/
theorem symbols_expandAccess
    (temp : Symbol)
    {expr : Expr}
    (marked : expr.isMarkedAccess) :
    (expr.expandAccess temp).symbols.Perm ([temp, temp, temp] ++ expr.symbols) := by
  cases expr with
  | field object name isMarked span =>
      obtain rfl : isMarked = true := marked
      rw [expandAccess, symbols_nilChecked, symbols_field, symbols_field]
      have ofTemp : (ident temp span).symbols = [temp] := rfl
      rw [ofTemp]
      grind
  | method receiver name args isMarked span =>
      obtain rfl : isMarked = true := marked
      rw [expandAccess, symbols_nilChecked, symbols_method, symbols_method]
      have ofTemp : (ident temp span).symbols = [temp] := rfl
      rw [ofTemp]
      grind
  | _ => cases marked

theorem postOrder_nilChecked (temp : Symbol) (receiver access : Expr) (span : Span) :
    (nilChecked temp receiver access span).postOrder =
      receiver.postOrder ++ [ident temp span, nil span,
        binary (ident temp span) .equal (nil span) span, nil span, inBraces (nil span) span] ++
        access.postOrder ++ [inBraces access span,
          cond (binary (ident temp span) .equal (nil span) span) (inBraces (nil span) span)
            (some (inBraces access span)) span,
          nilChecked temp receiver access span] := by
  have computed : (nilChecked temp receiver access span).postOrder =
      receiver.postOrder ++ (([ident temp span] ++ ([nil span] ++ []) ++
        [binary (ident temp span) .equal (nil span) span]) ++
        ((([nil span] ++ []) ++ [inBraces (nil span) span]) ++
          (((access.postOrder ++ []) ++ [inBraces access span]) ++ [])) ++
        [cond (binary (ident temp span) .equal (nil span) span) (inBraces (nil span) span)
            (some (inBraces access span)) span] ++ []) ++
        [nilChecked temp receiver access span] := rfl
  rw [computed]
  simp only [List.append_assoc, List.append_nil, List.cons_append, List.nil_append]

theorem postOrder_field (object : Expr) (name : Symbol) (marked : Bool) (span : Span) :
    (field object name marked span).postOrder =
      object.postOrder ++ [field object name marked span] := by
  rw [postOrder_eq, children, List.flatMap_singleton]

theorem postOrder_method
    (receiver : Expr)
    (name : Symbol)
    (args : List Arg)
    (marked : Bool)
    (span : Span) :
    (method receiver name args marked span).postOrder =
      receiver.postOrder ++ (args.map Arg.value).flatMap postOrder ++
        [method receiver name args marked span] := by
  rw [postOrder_eq, children, List.flatMap_cons]

/-- Expansion keeps the nodes inside the access. -/
theorem postOrder_subset_expandAccess (temp : Symbol) {expr : Expr} (marked : expr.isMarkedAccess) :
    expr.children.flatMap postOrder ⊆ (expr.expandAccess temp).postOrder := by
  cases expr with
  | field object name isMarked span =>
      obtain rfl : isMarked = true := marked
      rw [expandAccess, postOrder_nilChecked, children, List.flatMap_singleton]
      grind
  | method receiver name args isMarked span =>
      obtain rfl : isMarked = true := marked
      rw [expandAccess, postOrder_nilChecked, children, List.flatMap_cons, postOrder_method]
      grind
  | _ => cases marked

/-- Among nodes that are neither marked accesses nor array literals there are none of a kind
that takes in only these. -/
theorem filter_eq_nil_of_plain
    {kind : Expr → Bool}
    (plain : ∀ node, kind node → node.isMarkedAccess ∨ node.isArray)
    {nodes : List Expr}
    (others : ∀ node ∈ nodes, node.isMarkedAccess = false ∧ node.isArray = false) :
    nodes.filter kind = [] := by
  rw [List.filter_eq_nil_iff]
  intro node inNodes isKind
  obtain ⟨unmarked, noLiteral⟩ := others node inNodes
  rcases plain node isKind with isMarked | isLiteral
  · rw [unmarked] at isMarked
    cases isMarked
  · rw [noLiteral] at isLiteral
    cases isLiteral

/-- Expansion adds nothing that is a marked access or an array literal. -/
theorem filter_postOrder_expandAccess
    {kind : Expr → Bool}
    (plain : ∀ node, kind node → node.isMarkedAccess ∨ node.isArray)
    (temp : Symbol)
    {expr : Expr}
    (marked : expr.isMarkedAccess) :
    (expr.expandAccess temp).postOrder.filter kind =
      expr.children.flatMap fun child => child.postOrder.filter kind := by
  have none : ∀ nodes : List Expr,
      (∀ node ∈ nodes, node.isMarkedAccess = false ∧ node.isArray = false) →
        nodes.filter kind = [] :=
    fun _ => filter_eq_nil_of_plain plain
  have ofChecked : ∀ (receiver access : Expr) (span : Span),
      (nilChecked temp receiver access span).postOrder.filter kind =
        receiver.postOrder.filter kind ++ access.postOrder.filter kind := by
    intro receiver access span
    rw [postOrder_nilChecked, List.filter_append, List.filter_append, List.filter_append,
      none [ident temp span, _, _, _, _] (by simp [inBraces, isMarkedAccess, isArray]),
      none [inBraces access span, _, _] (by simp [inBraces, nilChecked, isMarkedAccess, isArray]),
      List.append_nil, List.append_nil]
  have ofTemp : ∀ span : Span, (ident temp span).postOrder.filter kind = [] :=
    fun span => none [ident temp span] (by simp [isMarkedAccess, isArray])
  cases expr with
  | field object name isMarked span =>
      obtain rfl : isMarked = true := marked
      rw [expandAccess, ofChecked, postOrder_field, List.filter_append, ofTemp,
        none [field _ _ _ _] (by simp [isMarkedAccess, isArray]), children, List.flatMap_singleton,
        List.append_nil, List.append_nil]
  | method receiver name args isMarked span =>
      obtain rfl : isMarked = true := marked
      rw [expandAccess, ofChecked, postOrder_method, List.filter_append, List.filter_append, ofTemp,
        none [method _ _ _ _ _] (by simp [isMarkedAccess, isArray]), List.filter_flatMap,
        children, List.flatMap_cons, List.append_nil, List.nil_append]
  | _ => cases marked

theorem markers_expandAccess
    (temp : Symbol)
    {expr : Expr}
    (marked : expr.isMarkedAccess) :
    (expr.expandAccess temp).markers = expr.children.flatMap markers :=
  filter_postOrder_expandAccess (fun _ => .inl) temp marked

theorem literals_expandAccess
    (temp : Symbol)
    {expr : Expr}
    (marked : expr.isMarkedAccess) :
    (expr.expandAccess temp).literals = expr.children.flatMap literals :=
  filter_postOrder_expandAccess (fun _ => .inr) temp marked

/-! ### Wrapped literals -/

/-- The wrapped form of an array literal, over the segments of the constructor's name. -/
def wrappedBy (segments : List Symbol) : Expr → Expr
  | array elements span => call (path segments span) [.plain (array elements span)] span
  | other => other

theorem wrapArray_eq (table : SymbolTable) {expr : Expr} (isLiteral : expr.isArray) :
    expr.wrapArray table =
      (expr.wrappedBy (table.internAll checkedArrayPath).1,
        (table.internAll checkedArrayPath).2) := by
  cases expr with
  | array elements span => rfl
  | _ => cases isLiteral

theorem mapSymbols_wrappedBy
    (rename : Symbol → Symbol)
    (segments : List Symbol)
    {expr : Expr}
    (isLiteral : expr.isArray) :
    (expr.wrappedBy segments).mapSymbols rename =
      (expr.mapSymbols rename).wrappedBy (segments.map rename) := by
  cases expr with
  | array elements span => rfl
  | _ => cases isLiteral

theorem symbols_wrappedBy
    (segments : List Symbol)
    {expr : Expr}
    (isLiteral : expr.isArray) :
    (expr.wrappedBy segments).symbols = segments ++ expr.symbols := by
  cases expr with
  | array elements span =>
      have computed : ((array elements span).wrappedBy segments).symbols =
          ((segments ++ []) ++ []) ++ ((array elements span).symbols ++ []) := rfl
      rw [computed]
      simp
  | _ => cases isLiteral

/-- Wrapping keeps the nodes of the literal. -/
theorem postOrder_subset_wrappedBy
    (segments : List Symbol)
    {expr : Expr}
    (isLiteral : expr.isArray) :
    expr.postOrder ⊆ (expr.wrappedBy segments).postOrder := by
  cases expr with
  | array elements span =>
      rw [wrappedBy, postOrder_eq (call _ _ _)]
      exact List.subset_append_of_subset_left _ fun node member =>
        List.mem_flatMap_of_mem (List.mem_cons_of_mem _ List.mem_cons_self) member
  | _ => cases isLiteral

/-! ### Guarded bodies -/

theorem mapSymbols_precededBy (rename : Symbol → Symbol) (stmts : List Stmt) (expr : Expr) :
    (expr.precededBy stmts).mapSymbols rename =
      (expr.mapSymbols rename).precededBy (stmts.map (Stmt.mapSymbols rename)) := by
  cases expr with
  | block body tail span =>
      rw [mapSymbols_block, precededBy, precededBy, mapSymbols_block, List.map_append]
  | _ => exact mapSymbols_block rename stmts (some _) _

/-- A body with statements in front keeps its nodes, but for itself if it is a block. -/
theorem mem_postOrder_precededBy
    (stmts : List Stmt)
    {node expr : Expr}
    (inside : node ∈ expr.postOrder) :
    node ∈ (expr.precededBy stmts).postOrder ∨ node = expr := by
  have wrapped : ∀ span : Span, node ∈ (block stmts (some expr) span).postOrder := by
    intro span
    refine postOrder_subset ?_ inside
    rw [children]
    exact List.mem_append_right _ List.mem_cons_self
  cases expr with
  | block body tail span =>
      rw [postOrder_eq, List.mem_append, List.mem_singleton] at inside
      refine inside.imp (fun inChildren => ?_) id
      obtain ⟨child, isChild, inChild⟩ := List.mem_flatMap.mp inChildren
      refine postOrder_subset ?_ inChild
      rw [children, List.mem_append] at isChild
      rw [precededBy, children, List.flatMap_append, List.append_assoc]
      exact List.mem_append_right _ (List.mem_append.mpr isChild)
  | _ => exact .inl (wrapped _)

/-- Up to their order, the symbols in a body with statements in front are theirs and
its own. -/
theorem symbols_precededBy (stmts : List Stmt) (expr : Expr) :
    (expr.precededBy stmts).symbols.Perm (stmts.flatMap Stmt.symbols ++ expr.symbols) := by
  have wrapped : ∀ span : Span, (block stmts (some expr) span).symbols.Perm
      (stmts.flatMap Stmt.symbols ++ expr.symbols) := by
    intro span
    have perm := symbols_block stmts (some expr) span
    rwa [Option.toList_some, List.flatMap_singleton] at perm
  cases expr with
  | block body tail span =>
      rw [precededBy]
      refine (symbols_block (stmts ++ body) tail span).trans ?_
      rw [List.flatMap_append, List.append_assoc]
      exact (symbols_block body tail span).symm.append_left _
  | _ => exact wrapped _

end Expr

end NilSafety
