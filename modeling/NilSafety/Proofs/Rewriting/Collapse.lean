import Mathlib.Data.List.Forall2
import NilSafety.Proofs.Rewriting.Forms
import NilSafety.Proofs.Rewriting.Walk
import NilSafety.Proofs.Symbols.Supply
import NilSafety.Proofs.Tree.Names

/-!
Contract: the way back from a rewritten tree to the original one.

Owns:
- the collapse of expansions and of wrapped literals, which knows nothing of the original
  tree but the features and the size of the symbol table;
- that the walk over a body followed by the collapse changes nothing, so that the walk keeps
  different bodies apart;
- that nodes on which the walk does not act are found in its result over the images of
  their children.

Does not own: guards, which are put in front of a body after the walk.

Two things tell what was generated from what was written. An expansion binds a symbol that
is new to the table, so no block of the original tree begins like it. A wrapped literal is
the argument of a call, and where literals are wrapped no literal of the original tree
stays the argument of the call in which it was written: it is wrapped itself.
-/

namespace NilSafety

namespace Expr

/-! ### Generated nodes -/

/-- Whether the node is a call of one argument, an array literal without a label. -/
def isWrapped : Expr → Bool
  | call _ [.mk none (array _ _)] _ => true
  | _ => false

/-- Whether the node is a block that begins with a binding of a symbol past the first
`size` ones. -/
def bindsPast (size : Nat) : Expr → Bool
  | block (.bind name _ _ _ _ :: _) _ _ => decide (size ≤ name.number)
  | _ => false

/-- The marked access to the same member of another receiver. -/
def marked (access receiver : Expr) : Expr :=
  match access with
  | field _ name _ span => field receiver name true span
  | method _ name args _ span => method receiver name args true span
  | other => other

/-- The marked access behind an expansion, given what is inside the block: the receiver,
and the choice that holds the access. -/
def accessOf? : List Expr → Option Expr
  | [receiver, cond _ _ (some (block [] (some access) _)) _] => some (access.marked receiver)
  | _ => none

/-- A node over collapsed children, itself collapsed. -/
def collapseNode (features : FeatureSet) (size : Nat) (node : Expr) (inside : List Expr) : Expr :=
  if features.arrays && node.isWrapped then inside.getD 1 node
  else if features.navigation && node.bindsPast size then (accessOf? inside).getD node
  else node.refill inside

/-- The tree with its expansions turned back into marked accesses, and its wrapped literals
into literals. -/
def collapse (features : FeatureSet) (size : Nat) : Expr → Expr :=
  foldUp (collapseNode features size)

theorem exists_array_of_isWrapped {expr : Expr} (wrapped : expr.isWrapped) :
    ∃ child ∈ expr.children, child.isArray := by
  unfold isWrapped at wrapped
  split at wrapped
  next callee elements span outer =>
    exact ⟨array elements span, List.mem_cons_of_mem _ List.mem_cons_self, rfl⟩
  next => cases wrapped

theorem exists_symbol_of_bindsPast {size : Nat} {expr : Expr} (binds : expr.bindsPast size) :
    ∃ symbol ∈ expr.localSymbols, size ≤ symbol.number := by
  unfold bindsPast at binds
  split at binds
  next name isMutable note init inner stmts tail span =>
    refine ⟨name, ?_, of_decide_eq_true binds⟩
    unfold localSymbols
    exact List.mem_append_right _ (List.mem_flatMap_of_mem List.mem_cons_self List.mem_cons_self)
  next => cases binds

section

variable {features : FeatureSet} {size : Nat}

theorem collapse_eq (expr : Expr) :
    expr.collapse features size =
      collapseNode features size expr (expr.children.map (collapse features size)) :=
  foldUp_eq _ expr

/-- A node that is not generated keeps its shape. -/
theorem collapse_of_plain
    {expr : Expr}
    (unwrapped : features.arrays → expr.isWrapped = false)
    (bindsEarly : expr.bindsPast size = false) :
    expr.collapse features size =
      expr.refill (expr.children.map (collapse features size)) := by
  rw [collapse_eq, collapseNode, bindsEarly, Bool.and_false, if_neg Bool.false_ne_true, if_neg]
  rw [Bool.and_eq_true]
  rintro ⟨on, wrapped⟩
  rw [unwrapped on] at wrapped
  cases wrapped

/-- An expansion collapses to the access in it, marked and with the receiver that was bound. -/
theorem collapse_nilChecked
    (on : features.navigation)
    {temp : Symbol}
    (isNew : size ≤ temp.number)
    (receiver access : Expr)
    (span : Span) :
    (nilChecked temp receiver access span).collapse features size =
      (access.collapse features size).marked (receiver.collapse features size) := by
  -- Inside the block, only the access is more than one fixed node.
  have inBlock : ∀ expr : Expr, (inBraces expr span).collapse features size =
      inBraces (expr.collapse features size) span :=
    fun expr => collapse_of_plain (fun _ => rfl) rfl
  have condition : (binary (ident temp span) .equal (nil span) span).collapse features size =
      binary (ident temp span) .equal (nil span) span := by
    rw [collapse_of_plain (fun _ => rfl) rfl]
    simp only [children, List.map_cons, List.map_nil, refill, List.getD_cons_zero,
      List.getD_cons_succ]
    rw [collapse_of_plain (fun _ => rfl) rfl, collapse_of_plain (fun _ => rfl) rfl]
    rfl
  have choice : (cond (binary (ident temp span) .equal (nil span) span) (inBraces (nil span) span)
        (some (inBraces access span)) span).collapse features size =
      cond (binary (ident temp span) .equal (nil span) span)
        (inBraces ((nil span).collapse features size) span)
        (some (inBraces (access.collapse features size) span)) span := by
    rw [collapse_of_plain (fun _ => rfl) rfl]
    simp only [children, Option.toList_some, List.map_cons, List.map_nil, condition, inBlock]
    rfl
  have binds : (nilChecked temp receiver access span).bindsPast size = true :=
    decide_eq_true isNew
  rw [collapse_eq, collapseNode, on, binds]
  unfold nilChecked
  simp only [isWrapped, Bool.and_false, Bool.false_eq_true, ↓reduceIte, Bool.and_true, children,
    List.flatMap_cons, List.flatMap_nil, Stmt.children, Option.toList_some, List.cons_append,
    List.nil_append, List.append_nil, List.map_cons, List.map_nil, choice]
  rfl

theorem collapse_wrappedBy
    (on : features.arrays)
    (segments : List Symbol)
    (elements : List Expr)
    (span : Span) :
    ((array elements span).wrappedBy segments).collapse features size =
      array (elements.map (collapse features size)) span := by
  have literal : (array elements span).collapse features size =
      array (elements.map (collapse features size)) span :=
    collapse_of_plain (fun _ => rfl) rfl
  have wrapped : ((array elements span).wrappedBy segments).isWrapped = true := rfl
  rw [collapse_eq, collapseNode, on, wrapped]
  exact literal

/-- The expansion of a marked access over images of what is inside collapses to the access. -/
theorem collapse_expandAccess
    (on : features.navigation)
    {temp : Symbol}
    (isNew : size ≤ temp.number)
    {expr : Expr}
    (isMarked : expr.isMarkedAccess)
    {images : List Expr}
    (collapsed : images.map (collapse features size) = expr.children) :
    ((expr.refill images).expandAccess temp).collapse features size = expr := by
  cases expr with
  | field object name isMarked' span =>
      obtain rfl : isMarked' = true := isMarked
      obtain ⟨image, rfl, rfl⟩ := List.map_eq_singleton_iff.mp collapsed
      refine (collapse_nilChecked on isNew _ _ _).trans ?_
      rw [collapse_of_plain (fun _ => rfl) rfl]
      rfl
  | method receiver name args isMarked' span =>
      obtain rfl : isMarked' = true := isMarked
      obtain ⟨image, images, rfl, rfl, values⟩ := List.map_eq_cons_iff.mp collapsed
      have fits : images.length = args.length := by
        rw [← List.length_map, values, List.length_map]
      refine (collapse_nilChecked on isNew _ _ _).trans ?_
      rw [collapse_of_plain (fun _ => rfl) rfl]
      have sameArgs : (args.zipWith Arg.withValue images).zipWith Arg.withValue
          (((args.zipWith Arg.withValue images).map Arg.value).map (collapse features size)) =
          args := by
        rw [map_value_zipWith (fun _ _ => rfl) fits, values,
          zipWith_zipWith_withValue Arg.withValue_withValue fits,
          zipWith_map_value Arg.withValue_value]
      exact congrArg (fun args => method (image.collapse features size) name args true span)
        sameArgs
  | _ => cases isMarked

/-! ### One node -/

/-- A node over images keeps its shape unless it was generated, which neither its symbols nor
images that are no literals allow. -/
theorem collapse_refill
    {expr : Expr}
    (below : ∀ symbol ∈ expr.localSymbols, symbol.number < size)
    {images : List Expr}
    (collapsed : images.map (collapse features size) = expr.children)
    (apart : features.arrays → ∀ image ∈ images, image.isArray = false) :
    (expr.refill images).collapse features size = expr := by
  have fits : images.length = expr.children.length := by
    rw [← collapsed, List.length_map]
  have unwrapped : features.arrays → (expr.refill images).isWrapped = false := by
    intro on
    rw [Bool.eq_false_iff]
    intro wrapped
    obtain ⟨image, isImage, isArray⟩ := exists_array_of_isWrapped wrapped
    rw [children_refill expr fits] at isImage
    rw [apart on image isImage] at isArray
    cases isArray
  have bindsEarly : (expr.refill images).bindsPast size = false := by
    rw [Bool.eq_false_iff]
    intro binds
    obtain ⟨symbol, isLocal, past⟩ := exists_symbol_of_bindsPast binds
    rw [localSymbols_refill expr fits] at isLocal
    exact Nat.not_lt_of_le past (below symbol isLocal)
  rw [collapse_of_plain unwrapped bindsEarly, children_refill expr fits, collapsed,
    refill_refill expr fits rfl, refill_children]

end

theorem isArray_expandAccess (temp : Symbol) {expr : Expr} (isMarked : expr.isMarkedAccess) :
    (expr.expandAccess temp).isArray = false := by
  cases expr with
  | field object name isMarked' span =>
      obtain rfl : isMarked' = true := isMarked
      rfl
  | method receiver name args isMarked' span =>
      obtain rfl : isMarked' = true := isMarked
      rfl
  | _ => cases isMarked

end Expr

namespace FreshNames

/-- The symbol of a name that is handed out is past those of the table. -/
theorem size_le_fresh (names : FreshNames) (table : SymbolTable) :
    table.size ≤ (names.fresh table).1.number := by
  have isNew := knows_fresh names table
  rwa [Bool.eq_false_iff, ne_eq, SymbolTable.knows_iff, Nat.not_lt] at isNew

end FreshNames

namespace Rewrite

variable {declaration : Path} {features : FeatureSet} {size : Nat}

/-- What rewriting makes of a node over images collapses to the node. Where literals are
wrapped, none is left. -/
theorem collapse_node
    {expr : Expr}
    (below : ∀ symbol ∈ expr.localSymbols, symbol.number < size)
    {images : List Expr}
    (collapsed : images.map (Expr.collapse features size) = expr.children)
    (apart : features.arrays → ∀ image ∈ images, image.isArray = false)
    {progress : Progress}
    (later : size ≤ progress.table.size) :
    (node declaration features (expr.refill images) progress).1.collapse features size = expr ∧
      (features.arrays →
        (node declaration features (expr.refill images) progress).1.isArray = false) := by
  have kept := Expr.collapse_refill below collapsed apart
  unfold node
  rw [Expr.isMarkedAccess_refill, Expr.isArray_refill]
  split
  next isMarked =>
    have noArray := Expr.isArray_of_isMarkedAccess isMarked
    split
    next on =>
      have isNew := later.trans (progress.names.size_le_fresh progress.table)
      exact ⟨Expr.collapse_expandAccess on isNew isMarked collapsed, fun _ =>
        Expr.isArray_expandAccess _ ((expr.isMarkedAccess_refill images).trans isMarked)⟩
    next off => exact ⟨kept, fun _ => (expr.isArray_refill images).trans noArray⟩
  next =>
    split
    next wraps =>
      rw [Bool.and_eq_true] at wraps
      obtain ⟨on, isLiteral⟩ := wraps
      cases expr with
      | array elements span =>
          refine ⟨(Expr.collapse_wrappedBy on _ images span).trans ?_, fun _ => rfl⟩
          exact congrArg (Expr.array · span) collapsed
      | _ => cases isLiteral
    next plain =>
      refine ⟨kept, fun on => (expr.isArray_refill images).trans ?_⟩
      rw [on, Bool.true_and] at plain
      exact Bool.eq_false_of_not_eq_true plain

/-- A node that is rewritten keeps what is inside it. -/
theorem postOrder_subset_node
    (declaration : Path)
    (features : FeatureSet)
    (expr : Expr)
    (progress : Progress)
    {child : Expr}
    (isChild : child ∈ expr.children) :
    child.postOrder ⊆ (node declaration features expr progress).1.postOrder := by
  unfold node
  split
  next isMarked =>
    split
    next =>
      refine List.Subset.trans ?_ (Expr.postOrder_subset_expandAccess _ isMarked)
      exact fun inner member => List.mem_flatMap_of_mem isChild member
    next => exact Expr.postOrder_subset isChild
  next =>
    split
    next wraps =>
      rw [Bool.and_eq_true] at wraps
      unfold wrap
      rw [Expr.wrapArray_eq progress.table wraps.2]
      exact List.Subset.trans (Expr.postOrder_subset isChild)
        (Expr.postOrder_subset_wrappedBy _ wraps.2)
    next => exact Expr.postOrder_subset isChild

/-- A node is left alone that is neither a marked access, where navigation is on, nor an
array literal, where literals are wrapped. -/
theorem node_of_untouched
    {expr : Expr}
    (noAccess : (features.navigation && expr.isMarkedAccess) = false)
    (noLiteral : (features.arrays && expr.isArray) = false)
    (progress : Progress) :
    (node declaration features expr progress).1 = expr := by
  unfold node
  split
  next isMarked =>
    rw [isMarked, Bool.and_true] at noAccess
    rw [noAccess, if_neg Bool.false_ne_true]
    rfl
  next =>
    rw [noLiteral, if_neg Bool.false_ne_true]
    rfl

/-! ### Whole trees -/

theorem size_le_node
    (declaration : Path)
    (features : FeatureSet)
    (size : Nat)
    (expr : Expr)
    (progress : Progress)
    (later : size ≤ progress.table.size) :
    size ≤ (node declaration features expr progress).2.table.size :=
  later.trans (node_advancing declaration features expr progress).table.size_le

/-- The walk followed by the collapse changes nothing. Where literals are wrapped, what the
walk makes of a tree is none. -/
theorem collapse_body
    {expr : Expr}
    (below : ∀ symbol ∈ expr.symbols, symbol.number < size)
    (progress : Progress)
    (later : size ≤ progress.table.size) :
    (body declaration features expr progress).1.collapse features size = expr ∧
      (features.arrays → (body declaration features expr progress).1.isArray = false) := by
  induction expr using Expr.childInduction generalizing progress with
  | node expr inductionHypothesis =>
      rw [Expr.symbols_eq, List.forall_mem_append] at below
      obtain ⟨belowHere, belowInside⟩ := below
      obtain ⟨laterInside, walked⟩ := Expr.mapUpList_forall₂
        (fun progress => size ≤ progress.table.size) (size_le_node declaration features size)
        expr.children progress later
      have each : List.Forall₂ (fun child image =>
          image.collapse features size = child ∧ (features.arrays → image.isArray = false))
          expr.children
          (Expr.mapUpList (node declaration features) expr.children progress).1 := by
        refine List.Forall₂.imp ?_ ((List.forall₂_and_left (p := (· ∈ expr.children)) _ _).mpr
          ⟨fun _ isChild => isChild, walked⟩)
        rintro child image ⟨isChild, before, earlier, rfl⟩
        exact inductionHypothesis child isChild
          (fun symbol inChild => belowInside symbol (List.mem_flatMap_of_mem isChild inChild))
          before earlier
      have collapsed : (Expr.mapUpList (node declaration features) expr.children progress).1.map
          (Expr.collapse features size) = expr.children := by
        rw [← List.forall₂_eq_eq_eq, List.forall₂_map_left_iff]
        exact (each.imp fun _ _ both => both.1).flip
      have apart : features.arrays →
          ∀ image ∈ (Expr.mapUpList (node declaration features) expr.children progress).1,
            image.isArray = false := by
        intro on image isImage
        obtain ⟨child, -, -, noArray⟩ := Expr.exists_mem_of_forall₂ each.flip isImage
        exact noArray on
      unfold body
      rw [Expr.mapUp_apply]
      exact collapse_node belowHere collapsed apart laterInside

/-- What the walk makes of a node on which it does not act is in its result, over what it
makes of the children. -/
theorem exists_images
    {expr inner : Expr}
    (inside : inner ∈ expr.postOrder)
    (noAccess : (features.navigation && inner.isMarkedAccess) = false)
    (noLiteral : (features.arrays && inner.isArray) = false)
    (progress : Progress)
    (later : size ≤ progress.table.size) :
    ∃ images,
      List.Forall₂ (fun child image => ∃ before : Progress,
          size ≤ before.table.size ∧ (body declaration features child before).1 = image)
        inner.children images ∧
      inner.refill images ∈ (body declaration features expr progress).1.postOrder := by
  obtain ⟨before, earlier, isInside⟩ := Expr.mapUp_covers
    (fun progress => size ≤ progress.table.size) (size_le_node declaration features size)
    (fun expr progress child isChild =>
      postOrder_subset_node declaration features expr progress isChild)
    expr progress later inner inside
  have walked := (Expr.mapUpList_forall₂ (fun progress => size ≤ progress.table.size)
    (size_le_node declaration features size) inner.children before earlier).2
  have untouched : (inner.mapUp (node declaration features) before).1 =
      inner.refill (Expr.mapUpList (node declaration features) inner.children before).1 := by
    rw [Expr.mapUp_apply]
    refine node_of_untouched ?_ ?_ _
    · rwa [Expr.isMarkedAccess_refill]
    · rwa [Expr.isArray_refill]
  rw [untouched] at isInside
  exact ⟨_, walked, isInside⟩

end Rewrite

theorem Expr.symbols_below
    {expr : Expr}
    {table : SymbolTable}
    (resolves : expr.resolves table) :
    ∀ symbol ∈ expr.symbols, symbol.number < table.size :=
  fun symbol inExpr => SymbolTable.knows_iff.mp ((Expr.resolves_iff expr).mp resolves symbol inExpr)

/-- **The walk over a body loses nothing.** One function, which knows no more than the
features and the size of a table under which the body resolved, takes what the walk makes of
the body back to the body, whatever the table has learnt before the walk. Hence the walk
makes different results of different bodies. Every node of the body that is neither a marked
access, where navigation is on, nor an array literal, where literals are wrapped, is in the
result as it was, over what the walk makes of its children, in their order. -/
theorem walk_loses_nothing
    (declaration : Path)
    (features : FeatureSet)
    {table : SymbolTable}
    {expr : Expr}
    (resolves : expr.resolves table)
    {progress : Progress}
    (grows : table.Grows progress.table) :
    let result := (Rewrite.body declaration features expr progress).1
    result.collapse features table.size = expr ∧
      (∀ (declaration' : Path) (table' : SymbolTable) (expr' : Expr) (progress' : Progress),
        table'.size = table.size → expr'.resolves table' → table'.Grows progress'.table →
          (Rewrite.body declaration' features expr' progress').1 = result → expr' = expr) ∧
      ∀ inner ∈ expr.postOrder,
        (features.navigation && inner.isMarkedAccess) = false →
        (features.arrays && inner.isArray) = false →
        ∃ images,
          List.Forall₂ (fun child image =>
              (∃ before, (Rewrite.body declaration features child before).1 = image) ∧
                image.collapse features table.size = child)
            inner.children images ∧
          inner.refill images ∈ result.postOrder := by
  intro result
  have collapsed : result.collapse features table.size = expr :=
    (Rewrite.collapse_body (Expr.symbols_below resolves) progress grows.size_le).1
  refine ⟨collapsed, ?_, ?_⟩
  · intro declaration' table' expr' progress' sameSize resolves' grows' sameResult
    have collapsed' : (Rewrite.body declaration' features expr' progress').1.collapse features
        table'.size = expr' :=
      (Rewrite.collapse_body (Expr.symbols_below resolves') progress' grows'.size_le).1
    rw [← collapsed', sameResult, sameSize, collapsed]
  · intro inner inside noAccess noLiteral
    obtain ⟨images, walked, isInside⟩ :=
      Rewrite.exists_images inside noAccess noLiteral progress grows.size_le
    refine ⟨images, ?_, isInside⟩
    refine List.Forall₂.imp ?_ ((List.forall₂_and_left (p := (· ∈ inner.children)) _ _).mpr
      ⟨fun _ isChild => isChild, walked⟩)
    rintro child image ⟨isChild, before, later, rfl⟩
    refine ⟨⟨before, rfl⟩, (Rewrite.collapse_body ?_ before later).1⟩
    intro symbol inChild
    have inInner : symbol ∈ inner.symbols := by
      rw [Expr.symbols_eq]
      exact List.mem_append_right _ (List.mem_flatMap_of_mem isChild inChild)
    exact Expr.symbols_below resolves symbol ((Expr.symbols_sublist inside).subset inInner)

/-! ### A body that looks rewritten -/

namespace Collapse

/-- The names of a body that spells out what rewriting generates. -/
def sampleTable : SymbolTable :=
  (SymbolTable.empty.internAll ["it", "person", "name", "nullsafe", "SafeArray", "from"]).2

/-- The body

    {
        let it = nullsafe::SafeArray::from([person?.name]);
        if it == nil { nil } else { it.name }
    }
-/
def sampleBody : Expr :=
  .nilChecked ⟨0⟩
    (.call (.path [⟨3⟩, ⟨4⟩, ⟨5⟩] default)
      [.plain (.array [.field (.ident ⟨1⟩ default) ⟨2⟩ true default] default)] default)
    (.field (.ident ⟨0⟩ default) ⟨2⟩ false default) default

end Collapse

theorem walk_loses_nothing_of_lookalike :
    let result := (Rewrite.body ⟨["app", "greet"]⟩ .full Collapse.sampleBody
      (.start Collapse.sampleTable)).1
    result ≠ Collapse.sampleBody ∧
      result.collapse .full Collapse.sampleTable.size = Collapse.sampleBody := by
  intro result
  refine ⟨by decide +kernel, ?_⟩
  exact (walk_loses_nothing ⟨["app", "greet"]⟩ .full (by decide) (.refl Collapse.sampleTable)).1

end NilSafety
