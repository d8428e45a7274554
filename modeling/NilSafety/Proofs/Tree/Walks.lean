import Mathlib.Algebra.GroupWithZero.Nat
import NilSafety.Proofs.Tree.Children

/-!
Contract: computations that go over a tree from the leaves up.

Owns:
- folds, which combine every node with what its children come to;
- the nodes of a tree in the order in which walks reach them;
- that a walk goes over the children, then acts on the node over what became of
  them, what a walk accumulates, and what holds of walks that end as asked;
- walks that go hand in hand.

Does not own: the actions of the walks that rewrite.
-/

namespace NilSafety

namespace Expr

variable {α : Type}

mutual

/-- Combines every node of a tree with what its children come to. -/
def foldUp (combine : Expr → List α → α) : Expr → α
  | int value span => combine (int value span) []
  | str value span => combine (str value span) []
  | bool value span => combine (bool value span) []
  | nil span => combine (nil span) []
  | ident name span => combine (ident name span) []
  | path segments span => combine (path segments span) []
  | unary op operand span => combine (unary op operand span) [foldUp combine operand]
  | binary left op right span =>
      combine (binary left op right span) [foldUp combine left, foldUp combine right]
  | cond condition thenBranch elseBranch span =>
      combine (cond condition thenBranch elseBranch span)
        (foldUp combine condition :: foldUp combine thenBranch :: foldUpOption combine elseBranch)
  | block stmts tail span =>
      combine (block stmts tail span) (foldUpStmts combine stmts ++ foldUpOption combine tail)
  | call callee args span =>
      combine (call callee args span) (foldUp combine callee :: foldUpArgs combine args)
  | method receiver name args marked span =>
      combine (method receiver name args marked span)
        (foldUp combine receiver :: foldUpArgs combine args)
  | field object name marked span =>
      combine (field object name marked span) [foldUp combine object]
  | index collection position span =>
      combine (index collection position span)
        [foldUp combine collection, foldUp combine position]
  | construct name inits span => combine (construct name inits span) (foldUpInits combine inits)
  | array elements span => combine (array elements span) (foldUpList combine elements)
  | paren inner span => combine (paren inner span) [foldUp combine inner]

/-- What an expression that may be missing comes to. -/
def foldUpOption (combine : Expr → List α → α) : Option Expr → List α
  | none => []
  | some expr => [foldUp combine expr]

/-- What several expressions come to. -/
def foldUpList (combine : Expr → List α → α) : List Expr → List α
  | [] => []
  | expr :: rest => foldUp combine expr :: foldUpList combine rest

/-- What the values of arguments come to. -/
def foldUpArgs (combine : Expr → List α → α) : List Arg → List α
  | [] => []
  | .mk _ value :: rest => foldUp combine value :: foldUpArgs combine rest

/-- What the values of initializers come to. -/
def foldUpInits (combine : Expr → List α → α) : List Init → List α
  | [] => []
  | .mk _ value :: rest => foldUp combine value :: foldUpInits combine rest

/-- What the expressions of a statement come to. -/
def foldUpStmt (combine : Expr → List α → α) : Stmt → List α
  | .bind _ _ _ init _ => foldUpOption combine init
  | .ret value _ => foldUpOption combine value
  | .assign target value _ => [foldUp combine target, foldUp combine value]
  | .loop condition body _ => [foldUp combine condition, foldUp combine body]
  | .eval expr _ => [foldUp combine expr]

/-- What the expressions of several statements come to. -/
def foldUpStmts (combine : Expr → List α → α) : List Stmt → List α
  | [] => []
  | stmt :: rest => foldUpStmt combine stmt ++ foldUpStmts combine rest

end

section Folds

variable (combine : Expr → List α → α)

theorem foldUpOption_eq (expr : Option Expr) :
    foldUpOption combine expr = expr.toList.map (foldUp combine) := by
  cases expr <;> rfl

theorem foldUpList_eq (exprs : List Expr) :
    foldUpList combine exprs = exprs.map (foldUp combine) := by
  induction exprs with
  | nil => rfl
  | cons expr rest inductionHypothesis => rw [foldUpList, inductionHypothesis, List.map_cons]

theorem foldUpArgs_eq (args : List Arg) :
    foldUpArgs combine args = (args.map Arg.value).map (foldUp combine) := by
  induction args with
  | nil => rfl
  | cons arg rest inductionHypothesis =>
      obtain ⟨label, value⟩ := arg
      rw [foldUpArgs, inductionHypothesis]
      rfl

theorem foldUpInits_eq (inits : List Init) :
    foldUpInits combine inits = (inits.map Init.value).map (foldUp combine) := by
  induction inits with
  | nil => rfl
  | cons init rest inductionHypothesis =>
      obtain ⟨name, value⟩ := init
      rw [foldUpInits, inductionHypothesis]
      rfl

theorem foldUpStmts_eq (stmts : List Stmt) :
    foldUpStmts combine stmts = (stmts.flatMap Stmt.children).map (foldUp combine) := by
  induction stmts with
  | nil => rfl
  | cons stmt rest inductionHypothesis =>
      have one : foldUpStmt combine stmt = stmt.children.map (foldUp combine) := by
        cases stmt with
        | bind | ret => exact foldUpOption_eq combine _
        | assign | loop | eval => rfl
      rw [foldUpStmts, inductionHypothesis, one, List.flatMap_cons, List.map_append]

/-- A fold combines a node with the folds of its children. -/
theorem foldUp_eq (expr : Expr) :
    expr.foldUp combine = combine expr (expr.children.map (foldUp combine)) := by
  cases expr with
  | cond | block | call | method | construct | array =>
      simp only [foldUp, children, foldUpOption_eq, foldUpList_eq, foldUpArgs_eq, foldUpInits_eq,
        foldUpStmts_eq, List.map_cons, List.map_append]
  | _ => rfl

/-- A fold that puts a node back together gives the tree. -/
theorem foldUp_refill (expr : Expr) : (expr.foldUp fun node inside => node.refill inside) = expr := by
  induction expr using childInduction with
  | node expr inductionHypothesis =>
      rw [foldUp_eq, List.map_congr_left inductionHypothesis, List.map_id', refill_children]

end Folds

/-! ### Nodes in the order of walks -/

/-- The expressions of a tree, the children of a node from left to right before the
node itself. -/
def postOrder : Expr → List Expr :=
  foldUp fun node inside => inside.flatten ++ [node]

/-- The marked accesses of a tree, in the order of walks. -/
def markers (expr : Expr) : List Expr :=
  expr.postOrder.filter isMarkedAccess

/-- The array literals of a tree, in the order of walks. -/
def literals (expr : Expr) : List Expr :=
  expr.postOrder.filter isArray

theorem postOrder_eq (expr : Expr) :
    expr.postOrder = expr.children.flatMap postOrder ++ [expr] := by
  unfold postOrder
  rw [foldUp_eq, List.flatMap_def]

theorem isArray_of_isMarkedAccess {expr : Expr} (marked : expr.isMarkedAccess) :
    expr.isArray = false := by
  cases expr with
  | array => cases marked
  | _ => rfl

theorem markers_eq (expr : Expr) :
    expr.markers =
      expr.children.flatMap markers ++ if expr.isMarkedAccess then [expr] else [] := by
  unfold markers
  rw [postOrder_eq, List.filter_append, List.filter_flatMap, List.filter_singleton]
  cases expr.isMarkedAccess <;> rfl

theorem literals_eq (expr : Expr) :
    expr.literals = expr.children.flatMap literals ++ if expr.isArray then [expr] else [] := by
  unfold literals
  rw [postOrder_eq, List.filter_append, List.filter_flatMap, List.filter_singleton]
  cases expr.isArray <;> rfl

theorem self_mem_postOrder (expr : Expr) : expr ∈ expr.postOrder := by
  rw [postOrder_eq]
  exact List.mem_append_right _ List.mem_cons_self

theorem postOrder_subset {child expr : Expr} (inside : child ∈ expr.children) :
    child.postOrder ⊆ expr.postOrder := by
  intro node member
  rw [postOrder_eq expr]
  exact List.mem_append_left _ (List.mem_flatMap.mpr ⟨child, inside, member⟩)

/-! ### Walks -/

section Walks

variable {σ : Type} (action : Expr → StateM σ Expr)

theorem length_mapUpList (exprs : List Expr) (state : σ) :
    (mapUpList action exprs state).1.length = exprs.length := by
  induction exprs generalizing state with
  | nil => rfl
  | cons expr rest inductionHypothesis => exact congrArg Nat.succ (inductionHypothesis _)

theorem mapUpList_append (exprs others : List Expr) (state : σ) :
    mapUpList action (exprs ++ others) state =
      ((mapUpList action exprs state).1 ++
          (mapUpList action others (mapUpList action exprs state).2).1,
        (mapUpList action others (mapUpList action exprs state).2).2) := by
  induction exprs generalizing state with
  | nil => rfl
  | cons expr rest inductionHypothesis =>
      have further := inductionHypothesis (expr.mapUp action state).2
      exact congrArg (fun walked => (((expr.mapUp action state).1 :: walked.1, walked.2) :
        List Expr × σ)) further

theorem mapUpOption_apply (expr : Option Expr) (state : σ) :
    mapUpOption action expr state =
      ((mapUpList action expr.toList state).1.head?, (mapUpList action expr.toList state).2) := by
  cases expr <;> rfl

theorem mapUpArgs_apply (args : List Arg) (state : σ) :
    mapUpArgs action args state =
      (args.zipWith Arg.withValue (mapUpList action (args.map Arg.value) state).1,
        (mapUpList action (args.map Arg.value) state).2) := by
  induction args generalizing state with
  | nil => rfl
  | cons arg rest inductionHypothesis =>
      obtain ⟨label, value⟩ := arg
      have further := inductionHypothesis (value.mapUp action state).2
      exact congrArg (fun walked => ((Arg.mk label (value.mapUp action state).1 :: walked.1,
        walked.2) : List Arg × σ)) further

theorem mapUpInits_apply (inits : List Init) (state : σ) :
    mapUpInits action inits state =
      (inits.zipWith Init.withValue (mapUpList action (inits.map Init.value) state).1,
        (mapUpList action (inits.map Init.value) state).2) := by
  induction inits generalizing state with
  | nil => rfl
  | cons init rest inductionHypothesis =>
      obtain ⟨name, value⟩ := init
      have further := inductionHypothesis (value.mapUp action state).2
      exact congrArg (fun walked => ((Init.mk name (value.mapUp action state).1 :: walked.1,
        walked.2) : List Init × σ)) further

theorem mapUpStmt_apply (stmt : Stmt) (state : σ) :
    mapUpStmt action stmt state =
      (stmt.refill (mapUpList action stmt.children state).1,
        (mapUpList action stmt.children state).2) := by
  cases stmt with
  | bind name isMutable note init span =>
      exact congrArg (fun walked => ((Stmt.bind name isMutable note walked.1 span, walked.2) :
        Stmt × σ)) (mapUpOption_apply action init state)
  | ret value span =>
      exact congrArg (fun walked => ((Stmt.ret walked.1 span, walked.2) : Stmt × σ))
        (mapUpOption_apply action value state)
  | assign | loop | eval => rfl

theorem mapUpStmts_apply (stmts : List Stmt) (state : σ) :
    mapUpStmts action stmts state =
      (refillEach Stmt.children Stmt.refill stmts
          (mapUpList action (stmts.flatMap Stmt.children) state).1,
        (mapUpList action (stmts.flatMap Stmt.children) state).2) := by
  induction stmts generalizing state with
  | nil => rfl
  | cons stmt rest inductionHypothesis =>
      have one := mapUpStmt_apply action stmt state
      have further := inductionHypothesis (mapUpStmt action stmt state).2
      have both : mapUpStmts action (stmt :: rest) state =
          ((mapUpStmt action stmt state).1 ::
              (mapUpStmts action rest (mapUpStmt action stmt state).2).1,
            (mapUpStmts action rest (mapUpStmt action stmt state).2).2) := rfl
      have room := length_mapUpList action stmt.children state
      rw [both, further, one, List.flatMap_cons, mapUpList_append, refillEach, ← room,
        List.take_left, List.drop_left]

/-- The walk over a tree is the walk over its children and then the action at the
node, over what became of them. -/
theorem mapUp_apply (expr : Expr) (state : σ) :
    expr.mapUp action state =
      action (expr.refill (mapUpList action expr.children state).1)
        (mapUpList action expr.children state).2 := by
  cases expr with
  | cond condition thenBranch elseBranch span => cases elseBranch <;> rfl
  | block stmts tail span =>
      have both : (block stmts tail span).mapUp action state =
          action (block (mapUpStmts action stmts state).1
              (mapUpOption action tail (mapUpStmts action stmts state).2).1 span)
            (mapUpOption action tail (mapUpStmts action stmts state).2).2 := rfl
      have room := length_mapUpList action (stmts.flatMap Stmt.children) state
      rw [both, mapUpStmts_apply, mapUpOption_apply, children, mapUpList_append, refill,
        refillEach_append stmts room, ← room, List.drop_left]
  | call callee args span =>
      exact congrArg (fun walked : List Arg × σ =>
        action (call (callee.mapUp action state).1 walked.1 span) walked.2)
        (mapUpArgs_apply action args (callee.mapUp action state).2)
  | method receiver name args marked span =>
      exact congrArg (fun walked : List Arg × σ =>
        action (method (receiver.mapUp action state).1 name walked.1 marked span) walked.2)
        (mapUpArgs_apply action args (receiver.mapUp action state).2)
  | construct name inits span =>
      exact congrArg (fun walked : List Init × σ =>
        action (construct name walked.1 span) walked.2)
        (mapUpInits_apply action inits state)
  | _ => rfl

end Walks

section Laws

variable {σ β : Type} {action : Expr → StateM σ Expr}

/-- To show something of what a walk makes of every tree and state, show it of the action at
a node over what became of the children, given the same of them one after another. -/
theorem mapUp_induction
    (motive : Expr → σ → Expr → σ → Prop)
    (motives : List Expr → σ → List Expr → σ → Prop)
    (nil : ∀ state, motives [] state [] state)
    (cons : ∀ expr rest state result middle results last,
      motive expr state result middle → motives rest middle results last →
        motives (expr :: rest) state (result :: results) last)
    (node : ∀ expr state results middle, results.length = expr.children.length →
      motives expr.children state results middle →
        motive expr state (action (expr.refill results) middle).1
          (action (expr.refill results) middle).2)
    (expr : Expr) :
    ∀ state, motive expr state (expr.mapUp action state).1 (expr.mapUp action state).2 := by
  induction expr using childInduction with
  | node expr inductionHypothesis =>
      have list : ∀ exprs : List Expr, exprs ⊆ expr.children → ∀ state,
          motives exprs state (mapUpList action exprs state).1 (mapUpList action exprs state).2 := by
        intro exprs
        induction exprs with
        | nil => exact fun _ => nil
        | cons first rest ofRest =>
            intro within state
            exact cons first rest state _ _ _ _
              (inductionHypothesis first (within List.mem_cons_self) state)
              (ofRest (List.subset_of_cons_subset within) _)
      intro state
      rw [mapUp_apply]
      exact node expr state _ _ (length_mapUpList action expr.children state)
        (list expr.children (List.Subset.refl _) state)

/-- Walks over several trees that end as asked also began so, and so does each of them, if
this is so for one tree. -/
theorem mapUpList_ends
    (ending : σ → Prop)
    (relation : Expr → Expr → Prop)
    (exprs : List Expr)
    (each : ∀ expr ∈ exprs, ∀ state, ending (expr.mapUp action state).2 →
      ending state ∧ relation expr (expr.mapUp action state).1) :
    ∀ state, ending (mapUpList action exprs state).2 →
      ending state ∧
        List.Forall₂ (fun expr result => relation expr result ∧
            ∃ before, ending (expr.mapUp action before).2 ∧ (expr.mapUp action before).1 = result)
          exprs (mapUpList action exprs state).1 := by
  induction exprs with
  | nil => exact fun _ last => ⟨last, .nil⟩
  | cons expr rest inductionHypothesis =>
      intro state last
      obtain ⟨between, related⟩ := inductionHypothesis
        (fun other member => each other (List.mem_cons_of_mem expr member)) _ last
      obtain ⟨initially, holds⟩ := each expr List.mem_cons_self state between
      exact ⟨initially, .cons ⟨holds, state, between, rfl⟩ related⟩

/-- Where the action at a node that ends as asked also began so, a walk does. What is to
hold of the trees then follows at each node from the same of its children, each walked
to such an end. -/
theorem mapUp_ends
    (ending : σ → Prop)
    (relation : Expr → Expr → Prop)
    (node : ∀ expr results state, results.length = expr.children.length →
      ending (action (expr.refill results) state).2 →
        ending state ∧
          (List.Forall₂ (fun child result => relation child result ∧
              ∃ before, ending (child.mapUp action before).2 ∧
                (child.mapUp action before).1 = result)
            expr.children results →
          relation expr (action (expr.refill results) state).1))
    (expr : Expr) :
    ∀ state, ending (expr.mapUp action state).2 →
      ending state ∧ relation expr (expr.mapUp action state).1 := by
  induction expr using childInduction with
  | node expr inductionHypothesis =>
      intro state last
      rw [mapUp_apply] at last ⊢
      obtain ⟨between, atNode⟩ :=
        node expr _ _ (length_mapUpList action expr.children state) last
      obtain ⟨initially, ofChildren⟩ :=
        mapUpList_ends ending relation expr.children inductionHypothesis state between
      exact ⟨initially, atNode ofChildren⟩

/-- What every action keeps a walk keeps. -/
theorem mapUp_keeps
    (invariant : σ → Prop)
    (node : ∀ expr state, invariant state → invariant (action expr state).2)
    (expr : Expr) :
    ∀ state, invariant state → invariant (expr.mapUp action state).2 :=
  mapUp_induction (fun _ state _ last => invariant state → invariant last)
    (fun _ state _ last => invariant state → invariant last)
    (fun _ holds => holds)
    (fun _ _ _ _ _ _ _ ofFirst ofRest holds => ofRest (ofFirst holds))
    (fun _ _ _ _ _ ofChildren holds => node _ _ (ofChildren holds))
    expr

/-- A walk whose actions neither read nor change the state is a fold. -/
theorem mapUp_stateless
    {combine : Expr → List Expr → Expr}
    (node : ∀ expr exprs state, exprs.length = expr.children.length →
      action (expr.refill exprs) state = (combine expr exprs, state))
    (expr : Expr) :
    ∀ state, expr.mapUp action state = (expr.foldUp combine, state) := by
  refine mapUp_induction (fun expr state result last => (result, last) = (foldUp combine expr, state))
    (fun exprs state results last => (results, last) = (exprs.map (foldUp combine), state))
    (fun _ => rfl) ?_ ?_ expr
  · intro first rest state result middle results last ofFirst ofRest
    obtain ⟨rfl, rfl⟩ := Prod.mk.inj ofFirst
    obtain ⟨rfl, rfl⟩ := Prod.mk.inj ofRest
    rfl
  · intro expr state results middle fits ofChildren
    obtain ⟨rfl, rfl⟩ := Prod.mk.inj ofChildren
    rw [foldUp_eq]
    exact node expr _ middle fits

/-- Where the action at a node adds something that does not depend on what became of
the children, a walk adds it for all nodes, in its order. -/
theorem mapUp_accumulates
    (view : σ → β)
    (add : β → Expr → β)
    (node : ∀ expr state, view (action expr state).2 = add (view state) expr)
    (ignored : ∀ total expr exprs, add total (expr.refill exprs) = add total expr)
    (expr : Expr) :
    ∀ state, view (expr.mapUp action state).2 = expr.postOrder.foldl add (view state) := by
  refine mapUp_induction
    (fun expr state _ last => view last = expr.postOrder.foldl add (view state))
    (fun exprs state _ last => view last = (exprs.flatMap postOrder).foldl add (view state))
    (fun _ => rfl) ?_ ?_ expr
  · intro first rest state result middle results last ofFirst ofRest
    rw [List.flatMap_cons, List.foldl_append, ← ofFirst, ofRest]
  · intro expr state results middle fits ofChildren
    rw [node, ignored, ofChildren, postOrder_eq, List.foldl_append]
    rfl

/-- Where the action at a node changes a measure of the tree by what it adds to one account
of the state and takes from another, so does a walk, provided that the measure adds up over
the children. -/
theorem mapUp_balances
    (measure own : Expr → Nat)
    (added taken : σ → Nat)
    (additive : ∀ expr exprs, exprs.length = expr.children.length →
      measure (expr.refill exprs) = own expr + (exprs.map measure).sum)
    (node : ∀ expr state,
      measure (action expr state).1 + added state + taken (action expr state).2 =
        measure expr + added (action expr state).2 + taken state)
    (expr : Expr) :
    ∀ state, measure (expr.mapUp action state).1 + added state + taken (expr.mapUp action state).2 =
      measure expr + added (expr.mapUp action state).2 + taken state := by
  refine mapUp_induction
    (fun expr state result last =>
      measure result + added state + taken last = measure expr + added last + taken state)
    (fun exprs state results last =>
      (results.map measure).sum + added state + taken last =
        (exprs.map measure).sum + added last + taken state)
    (fun _ => rfl) ?_ ?_ expr
  · intro first rest state result middle results last ofFirst ofRest
    simp only [List.map_cons, List.sum_cons]
    omega
  · intro expr state results middle fits ofChildren
    have atNode := node (expr.refill results) middle
    have before := additive expr expr.children rfl
    have after := additive expr results fits
    rw [refill_children] at before
    omega

theorem exists_mem_of_forall₂
    {γ δ : Type}
    {relation : γ → δ → Prop}
    {items : List γ}
    {images : List δ}
    (related : List.Forall₂ relation items images)
    {item : γ}
    (member : item ∈ items) :
    ∃ image ∈ images, relation item image := by
  induction related with
  | nil => cases member
  | cons holds _ inductionHypothesis =>
      rcases List.mem_cons.mp member with rfl | inRest
      · exact ⟨_, List.mem_cons_self, holds⟩
      · obtain ⟨image, isImage, holdsLater⟩ := inductionHypothesis inRest
        exact ⟨image, List.mem_cons_of_mem _ isImage, holdsLater⟩

/-- A walk over several trees is a walk over each of them, and what every action keeps holds
before and after each. -/
theorem mapUpList_forall₂
    (invariant : σ → Prop)
    (node : ∀ expr state, invariant state → invariant (action expr state).2)
    (exprs : List Expr) :
    ∀ state, invariant state →
      invariant (mapUpList action exprs state).2 ∧
        List.Forall₂ (fun expr result =>
            ∃ before, invariant before ∧ (expr.mapUp action before).1 = result)
          exprs (mapUpList action exprs state).1 := by
  induction exprs with
  | nil => exact fun _ holds => ⟨holds, .nil⟩
  | cons expr rest inductionHypothesis =>
      intro state holds
      obtain ⟨holdsLast, walked⟩ :=
        inductionHypothesis _ (mapUp_keeps invariant node expr state holds)
      exact ⟨holdsLast, .cons ⟨state, holds, rfl⟩ walked⟩

/-- Where the action at a node keeps the trees inside it, what a walk makes of a part of the
tree is part of what it makes of the tree. -/
theorem mapUp_covers
    (invariant : σ → Prop)
    (node : ∀ expr state, invariant state → invariant (action expr state).2)
    (inside : ∀ expr state, ∀ child ∈ expr.children,
      child.postOrder ⊆ (action expr state).1.postOrder)
    (expr : Expr) :
    ∀ state, invariant state → ∀ inner ∈ expr.postOrder,
      ∃ before, invariant before ∧
        (inner.mapUp action before).1 ∈ (expr.mapUp action state).1.postOrder := by
  induction expr using childInduction with
  | node expr inductionHypothesis =>
      intro state holds inner member
      rw [postOrder_eq, List.mem_append, List.mem_singleton] at member
      rcases member with below | rfl
      · obtain ⟨child, isChild, inChild⟩ := List.mem_flatMap.mp below
        have walked := (mapUpList_forall₂ invariant node expr.children state holds).2
        obtain ⟨image, isImage, before, holdsBefore, rfl⟩ :=
          exists_mem_of_forall₂ walked isChild
        obtain ⟨before', holdsBefore', isInside⟩ :=
          inductionHypothesis child isChild before holdsBefore inner inChild
        refine ⟨before', holdsBefore', ?_⟩
        rw [mapUp_apply]
        refine inside _ _ _ ?_ isInside
        rwa [children_refill expr (length_mapUpList action expr.children state)]
      · exact ⟨state, holds, self_mem_postOrder _⟩

end Laws

end Expr

/-! ### Hand in hand -/

/-- Two steps that keep a relation between their states and come to related results,
the latter provided that the first one ends as asked; then it also began so. -/
def InStep
    {σ τ α β : Type}
    (states : σ → τ → Prop)
    (ending : σ → Prop)
    (results : α → β → Prop)
    (step : StateM σ α)
    (step' : StateM τ β) :
    Prop :=
  ∀ state state', states state state' →
    states (step state).2 (step' state').2 ∧
      (ending (step state).2 → ending state ∧ results (step state).1 (step' state').1)

namespace InStep

variable {σ τ α β γ δ : Type} {states : σ → τ → Prop} {ending : σ → Prop}

theorem pure
    {results : α → β → Prop}
    {result : α}
    {result' : β}
    (related : results result result') :
    InStep states ending results (Pure.pure result) (Pure.pure result') :=
  fun _ _ before => ⟨before, fun last => ⟨last, related⟩⟩

theorem bind
    {first : StateM σ α}
    {first' : StateM τ β}
    {rest : α → StateM σ γ}
    {rest' : β → StateM τ δ}
    {between : α → β → Prop}
    {results : γ → δ → Prop}
    (begins : InStep states ending between first first')
    (continues : ∀ value value',
      InStep states ending (fun result result' => between value value' → results result result')
        (rest value) (rest' value')) :
    InStep states ending results (first >>= rest) (first' >>= rest') := by
  intro state state' before
  obtain ⟨middle, related⟩ := begins state state' before
  obtain ⟨after, relatedLater⟩ := continues _ _ _ _ middle
  refine ⟨after, fun last => ?_⟩
  obtain ⟨lastOfFirst, implied⟩ := relatedLater last
  obtain ⟨initially, holds⟩ := related lastOfFirst
  exact ⟨initially, implied holds⟩

/-- Steps that go hand in hand for every item do so for a list of items. -/
theorem mapM
    {ι : Type}
    {results : α → β → Prop}
    {step : ι → StateM σ α}
    {step' : ι → StateM τ β}
    (items : List ι)
    (each : ∀ item ∈ items, InStep states ending results (step item) (step' item)) :
    InStep states ending (List.Forall₂ results) (items.mapM step) (items.mapM step') := by
  induction items with
  | nil => exact .pure .nil
  | cons item rest inductionHypothesis =>
      rw [List.mapM_cons, List.mapM_cons]
      apply (each item List.mem_cons_self).bind
      intro value value'
      apply (inductionHypothesis fun other member =>
        each other (List.mem_cons_of_mem item member)).bind
      intro values values'
      exact .pure fun relatedRest related => .cons related relatedRest

/-- Walks over a tree and over its image go hand in hand where their actions do. What
the actions do to the states must not depend on what became of the children, since
these need not be related unless the walk ends as asked. -/
theorem mapUp
    {action : Expr → StateM σ Expr}
    {action' : Expr → StateM τ Expr}
    {image : Expr → Expr}
    {results : Expr → Expr → Prop}
    (children : ∀ expr, (image expr).children = expr.children.map image)
    (expr : Expr)
    (node : ∀ inner ∈ expr.postOrder, ∀ exprs exprs', exprs.length = inner.children.length →
      InStep states ending
        (fun result result' => List.Forall₂ results exprs exprs' → results result result')
        (action (inner.refill exprs)) (action' ((image inner).refill exprs'))) :
    InStep states ending results (expr.mapUp action) ((image expr).mapUp action') := by
  induction expr using Expr.childInduction with
  | node expr inductionHypothesis =>
      have list : ∀ exprs : List Expr, exprs ⊆ expr.children →
          InStep states ending (List.Forall₂ results)
            (Expr.mapUpList action exprs) (Expr.mapUpList action' (exprs.map image)) := by
        intro exprs
        induction exprs with
        | nil => exact fun _ => .pure .nil
        | cons first rest ofRest =>
            intro within
            have inside := within List.mem_cons_self
            apply (inductionHypothesis first inside fun inner member =>
              node inner (Expr.postOrder_subset inside member)).bind
            intro value value'
            apply (ofRest (List.subset_of_cons_subset within)).bind
            intro values values'
            exact .pure fun relatedRest related => .cons related relatedRest
      intro state state' before
      obtain ⟨middle, related⟩ := list expr.children (List.Subset.refl _) state state' before
      have length := Expr.length_mapUpList action expr.children state
      rw [Expr.mapUp_apply, Expr.mapUp_apply, children]
      obtain ⟨after, relatedLater⟩ :=
        node expr expr.self_mem_postOrder _ _ length _ _ middle
      refine ⟨after, fun last => ?_⟩
      obtain ⟨lastOfChildren, implied⟩ := relatedLater last
      obtain ⟨initially, holds⟩ := related lastOfChildren
      exact ⟨initially, implied holds⟩

end InStep

end NilSafety
