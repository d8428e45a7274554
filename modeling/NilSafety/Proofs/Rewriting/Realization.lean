import NilSafety.Eval.Expression
import NilSafety.Proofs.Rewriting.Walk
import NilSafety.Proofs.Tree.Everywhere
import NilSafety.Proofs.Tree.Walks

/-!
Contract: what a rewritten body looks like.

Owns:
- the relation between an expression that is read by rules of its own and one
  that realizes these rules in code: the same shape everywhere, but for marked
  accesses, which become checks for nil, and array literals, which become calls;
- that an expression is realized child by child and then at its node;
- that rewriting yields such a realization.

Does not own: what either expression evaluates to.

The relation is between the symbols of one table and those of a table that has
grown since: the bindings of the checks carry names that the first one lacks.
-/

namespace NilSafety

namespace Expr

/-- `realized` builds, as `rules` and the grown table ask for it, the array whose
elements are written as `elements`. -/
def RealizesArray
    (rules : Rules)
    (grown : SymbolTable)
    (elements : List Expr)
    (span : Span)
    (realized : Expr) :
    Prop :=
  if rules.checksLiterals then
    ∃ segments : List Symbol,
      segments.map grown.display = checkedArrayPath ∧
        realized = call (path segments span) [.plain (array elements span)] span
  else
    realized = array elements span

/-- `realized` is the access that `access` makes to a receiver, as `rules` ask
for it: behind a check for nil under a name that the table lacks, or made
directly. -/
def RealizesAccess
    (rules : Rules)
    (table : SymbolTable)
    (marked : Bool)
    (receiver : Expr)
    (access : Expr → Bool → Expr)
    (span : Span)
    (realized : Expr) :
    Prop :=
  if rules.skipsNil && marked then
    ∃ temp : Symbol,
      table.knows temp = false ∧
        realized = nilChecked temp receiver (access (ident temp span) false) span
  else
    realized = access receiver marked

variable (rules : Rules) (table grown : SymbolTable)

mutual

/-- The second expression realizes the first one under `rules`. -/
def Realizes : Expr → Expr → Prop
  | int value span, realized => realized = int value span
  | str value span, realized => table.knows value ∧ realized = str value span
  | bool value span, realized => realized = bool value span
  | nil span, realized => realized = nil span
  | ident name span, realized => table.knows name ∧ realized = ident name span
  | path segments span, realized =>
      (∀ name ∈ segments, table.knows name) ∧ realized = path segments span
  | unary op operand span, realized =>
      ∃ operand', Realizes operand operand' ∧ realized = unary op operand' span
  | binary left op right span, realized =>
      ∃ left' right', Realizes left left' ∧ Realizes right right' ∧
        realized = binary left' op right' span
  | cond condition thenBranch elseBranch span, realized =>
      ∃ condition' thenBranch' elseBranch', Realizes condition condition' ∧
        Realizes thenBranch thenBranch' ∧ RealizesOption elseBranch elseBranch' ∧
        realized = cond condition' thenBranch' elseBranch' span
  | block stmts tail span, realized =>
      ∃ stmts' tail', RealizesStmts stmts stmts' ∧ RealizesOption tail tail' ∧
        realized = block stmts' tail' span
  | call callee args span, realized =>
      ∃ callee' args', Realizes callee callee' ∧ RealizesArgs args args' ∧
        realized = call callee' args' span
  | method receiver name args marked span, realized =>
      ∃ receiver' args', table.knows name ∧ Realizes receiver receiver' ∧
        RealizesArgs args args' ∧
        RealizesAccess rules table marked receiver'
          (fun on marked => method on name args' marked span) span realized
  | field object name marked span, realized =>
      ∃ object', table.knows name ∧ Realizes object object' ∧
        RealizesAccess rules table marked object'
          (fun on marked => field on name marked span) span realized
  | index collection position span, realized =>
      ∃ collection' position', Realizes collection collection' ∧
        Realizes position position' ∧ realized = index collection' position' span
  | construct name inits span, realized =>
      ∃ inits', RealizesInits inits inits' ∧ realized = construct name inits' span
  | array elements span, realized =>
      ∃ elements', RealizesList elements elements' ∧
        RealizesArray rules grown elements' span realized
  | paren inner span, realized =>
      ∃ inner', Realizes inner inner' ∧ realized = paren inner' span

/-- Realization of an expression that may be missing. -/
def RealizesOption : Option Expr → Option Expr → Prop
  | none, realized => realized = none
  | some expr, realized => ∃ expr', Realizes expr expr' ∧ realized = some expr'

/-- Realization of several expressions. -/
def RealizesList : List Expr → List Expr → Prop
  | [], realized => realized = []
  | expr :: rest, realized =>
      ∃ expr' rest', Realizes expr expr' ∧ RealizesList rest rest' ∧ realized = expr' :: rest'

/-- Realization of the arguments of a call. -/
def RealizesArgs : List Arg → List Arg → Prop
  | [], realized => realized = []
  | .mk label value :: rest, realized =>
      ∃ value' rest', Realizes value value' ∧ RealizesArgs rest rest' ∧
        realized = .mk label value' :: rest'

/-- Realization of the initializers of a new object. -/
def RealizesInits : List Init → List Init → Prop
  | [], realized => realized = []
  | .mk name value :: rest, realized =>
      ∃ value' rest', Realizes value value' ∧ RealizesInits rest rest' ∧
        realized = .mk name value' :: rest'

/-- Realization of a statement. An assignment has no marked target. -/
def RealizesStmt : Stmt → Stmt → Prop
  | .bind name isMutable note init span, realized =>
      ∃ init', RealizesOption init init' ∧ realized = .bind name isMutable note init' span
  | .ret value span, realized =>
      ∃ value', RealizesOption value value' ∧ realized = .ret value' span
  | .assign target value span, realized =>
      ∃ target' value', target.isMarkedAccess = false ∧ Realizes target target' ∧
        Realizes value value' ∧ realized = .assign target' value' span
  | .loop condition body span, realized =>
      ∃ condition' body', Realizes condition condition' ∧ Realizes body body' ∧
        realized = .loop condition' body' span
  | .eval expr span, realized => ∃ expr', Realizes expr expr' ∧ realized = .eval expr' span

/-- Realization of several statements. -/
def RealizesStmts : List Stmt → List Stmt → Prop
  | [], realized => realized = []
  | stmt :: rest, realized =>
      ∃ stmt' rest', RealizesStmt stmt stmt' ∧ RealizesStmts rest rest' ∧
        realized = stmt' :: rest'

end

/-! ### Node by node -/

/-- `realized` is what `rules` ask for in place of a node over children that are realized
already. -/
def RealizesNode : Expr → Expr → Prop
  | str value span, realized => table.knows value ∧ realized = str value span
  | ident name span, realized => table.knows name ∧ realized = ident name span
  | path segments span, realized =>
      (∀ name ∈ segments, table.knows name) ∧ realized = path segments span
  | method receiver name args marked span, realized =>
      table.knows name ∧
        RealizesAccess rules table marked receiver
          (fun on marked => method on name args marked span) span realized
  | field object name marked span, realized =>
      table.knows name ∧
        RealizesAccess rules table marked object
          (fun on marked => field on name marked span) span realized
  | array elements span, realized => RealizesArray rules grown elements span realized
  | node, realized => realized = node

variable {rules table grown}

theorem realizesOption_iff {expr realized : Option Expr} :
    RealizesOption rules table grown expr realized ↔
      ∃ exprs, List.Forall₂ (Realizes rules table grown) expr.toList exprs ∧
        realized = exprs.head? := by
  cases expr <;> simp [RealizesOption, List.forall₂_cons_left_iff]

theorem realizesList_iff {list realized : List Expr} :
    RealizesList rules table grown list realized ↔
      List.Forall₂ (Realizes rules table grown) list realized := by
  induction list generalizing realized with
  | nil => simp [RealizesList]
  | cons expr rest inductionHypothesis =>
      simp only [RealizesList, inductionHypothesis, List.forall₂_cons_left_iff]

theorem realizesArgs_iff {args realized : List Arg} :
    RealizesArgs rules table grown args realized ↔
      ∃ exprs, List.Forall₂ (Realizes rules table grown) (args.map Arg.value) exprs ∧
        realized = args.zipWith Arg.withValue exprs := by
  induction args generalizing realized with
  | nil => simp [RealizesArgs]
  | cons arg rest inductionHypothesis =>
      obtain ⟨label, value⟩ := arg
      simp only [RealizesArgs, inductionHypothesis, List.map_cons, List.forall₂_cons_left_iff]
      constructor
      · rintro ⟨value', _, ofValue, ⟨exprs, ofRest, rfl⟩, rfl⟩
        exact ⟨value' :: exprs, ⟨value', exprs, ofValue, ofRest, rfl⟩, rfl⟩
      · rintro ⟨_, ⟨value', exprs, ofValue, ofRest, rfl⟩, rfl⟩
        exact ⟨value', _, ofValue, ⟨exprs, ofRest, rfl⟩, rfl⟩

theorem realizesInits_iff {inits realized : List Init} :
    RealizesInits rules table grown inits realized ↔
      ∃ exprs, List.Forall₂ (Realizes rules table grown) (inits.map Init.value) exprs ∧
        realized = inits.zipWith Init.withValue exprs := by
  induction inits generalizing realized with
  | nil => simp [RealizesInits]
  | cons init rest inductionHypothesis =>
      obtain ⟨name, value⟩ := init
      simp only [RealizesInits, inductionHypothesis, List.map_cons, List.forall₂_cons_left_iff]
      constructor
      · rintro ⟨value', _, ofValue, ⟨exprs, ofRest, rfl⟩, rfl⟩
        exact ⟨value' :: exprs, ⟨value', exprs, ofValue, ofRest, rfl⟩, rfl⟩
      · rintro ⟨_, ⟨value', exprs, ofValue, ofRest, rfl⟩, rfl⟩
        exact ⟨value', _, ofValue, ⟨exprs, ofRest, rfl⟩, rfl⟩

theorem realizesStmt_iff {stmt realized : Stmt} :
    RealizesStmt rules table grown stmt realized ↔
      stmt.assignsMarked = false ∧
        ∃ exprs, List.Forall₂ (Realizes rules table grown) stmt.children exprs ∧
          realized = stmt.refill exprs := by
  cases stmt <;>
    simp only [RealizesStmt, realizesOption_iff, Stmt.assignsMarked, Stmt.children, Stmt.refill,
      List.forall₂_cons_left_iff, List.forall₂_nil_left_iff, List.getD_cons_zero,
      List.getD_cons_succ, ↓existsAndEq, exists_and_left, and_assoc, and_true, true_and]

theorem realizesStmts_iff {stmts realized : List Stmt} :
    RealizesStmts rules table grown stmts realized ↔
      (∀ stmt ∈ stmts, stmt.assignsMarked = false) ∧
        ∃ exprs,
          List.Forall₂ (Realizes rules table grown) (stmts.flatMap Stmt.children) exprs ∧
            realized = refillEach Stmt.children Stmt.refill stmts exprs := by
  induction stmts generalizing realized with
  | nil => simp [RealizesStmts, refillEach]
  | cons stmt rest inductionHypothesis =>
      simp only [RealizesStmts, inductionHypothesis, realizesStmt_iff, List.flatMap_cons,
        List.forall_mem_cons]
      constructor
      · rintro ⟨_, _, ⟨plain, exprs, ofStmt, rfl⟩, ⟨plainRest, others, ofRest, rfl⟩, rfl⟩
        refine ⟨⟨plain, plainRest⟩, exprs ++ others, List.rel_append ofStmt ofRest, ?_⟩
        rw [refillEach, ofStmt.length_eq, List.take_left, List.drop_left]
      · rintro ⟨⟨plain, plainRest⟩, exprs, both, rfl⟩
        obtain ⟨ofStmt, ofRest⟩ := forall₂_split both
        exact ⟨_, _, ⟨plain, _, ofStmt, rfl⟩, ⟨plainRest, _, ofRest, rfl⟩, rfl⟩

/-- An expression is realized by what realizes its node over what realizes its children. An
assignment in it has no marked target. -/
theorem realizes_iff {expr realized : Expr} :
    expr.Realizes rules table grown realized ↔
      (∀ stmt ∈ expr.statements, stmt.assignsMarked = false) ∧
        ∃ exprs, List.Forall₂ (Realizes rules table grown) expr.children exprs ∧
          RealizesNode rules table grown (expr.refill exprs) realized := by
  cases expr with
  | block stmts tail span =>
      simp only [Realizes, realizesStmts_iff, realizesOption_iff, statements, children]
      constructor
      · rintro ⟨_, _, ⟨plain, exprs, ofStmts, rfl⟩, ⟨others, ofTail, rfl⟩, rfl⟩
        refine ⟨plain, exprs ++ others, List.rel_append ofStmts ofTail, ?_⟩
        have room := ofStmts.length_eq.symm
        rw [refill, refillEach_append stmts room, ← room, List.drop_left]
        rfl
      · rintro ⟨plain, exprs, both, atNode⟩
        obtain ⟨ofStmts, ofTail⟩ := forall₂_split both
        have room := both.length_eq.symm
        rw [List.length_append] at room
        rw [refill_block room] at atNode
        exact ⟨_, _, ⟨plain, _, ofStmts, rfl⟩, ⟨_, ofTail, rfl⟩, atNode⟩
  | method receiver name args marked span =>
      simp only [Realizes, realizesArgs_iff, statements, children]
      constructor
      · rintro ⟨receiver', _, known, ofReceiver, ⟨exprs, ofArgs, rfl⟩, access⟩
        exact ⟨List.forall_mem_nil _, receiver' :: exprs, .cons ofReceiver ofArgs, known, access⟩
      · rintro ⟨-, _, _ | ⟨ofReceiver, ofArgs⟩, known, access⟩
        exact ⟨_, _, known, ofReceiver, ⟨_, ofArgs, rfl⟩, access⟩
  | field object name marked span =>
      simp only [Realizes, statements, children]
      constructor
      · rintro ⟨object', known, ofObject, access⟩
        exact ⟨List.forall_mem_nil _, [object'], .cons ofObject .nil, known, access⟩
      · rintro ⟨-, _, _ | ⟨ofObject, ⟨⟩⟩, known, access⟩
        exact ⟨_, known, ofObject, access⟩
  | _ =>
      simp only [Realizes, realizesOption_iff, realizesList_iff, realizesArgs_iff,
        realizesInits_iff, statements, children, refill, RealizesNode,
        List.forall₂_cons_left_iff, List.forall₂_nil_left_iff, List.not_mem_nil,
        List.getD_cons_zero, List.getD_cons_succ, List.drop_succ_cons, List.drop_zero,
        List.tail_cons, IsEmpty.forall_iff, implies_true, ↓existsAndEq, exists_and_left,
        and_assoc, and_true, true_and]

/-! ### Where nothing is to be realized -/

/-- Without marks, an access is made directly. -/
theorem RealizesAccess.eq_of_unmarked
    {marked : Bool}
    {receiver : Expr}
    {access : Expr → Bool → Expr}
    {span : Span}
    {realized : Expr}
    (unmarked : marked = false)
    (realizes : RealizesAccess rules table marked receiver access span realized) :
    realized = access receiver marked := by
  unfold RealizesAccess at realizes
  rwa [unmarked, Bool.and_false, if_neg Bool.false_ne_true, ← unmarked] at realizes

theorem RealizesNode.eq_of_unmarked
    (unchecked : rules.checksLiterals = false)
    {node realized : Expr}
    (unmarked : node.isMarkedAccess = false)
    (realizes : RealizesNode rules table grown node realized) :
    realized = node := by
  cases node with
  | str | ident | path => exact realizes.2
  | method | field => exact realizes.2.eq_of_unmarked unmarked
  | array elements span =>
      simp only [RealizesNode, RealizesArray, unchecked] at realizes
      exact realizes
  | _ => exact realizes

/-- Without marks, and where literals stay as they are, an expression is realized
by itself alone. -/
theorem Realizes.eq_of_unmarked
    (unchecked : rules.checksLiterals = false)
    (expr realized : Expr)
    (unmarked : expr.isUnmarked)
    (realizes : expr.Realizes rules table grown realized) :
    realized = expr := by
  induction expr using childInduction generalizing realized with
  | node expr inductionHypothesis =>
      simp only [isUnmarked, everywhere_eq _ _ expr, Bool.and_eq_true, Bool.not_eq_true',
        List.all_eq_true] at unmarked
      obtain ⟨⟨atNode, -⟩, inside⟩ := unmarked
      obtain ⟨-, exprs, ofChildren, ofNode⟩ := realizes_iff.mp realizes
      have same : exprs = expr.children := by
        have each := (List.forall₂_and_left (p := (· ∈ expr.children)) _ _).mpr
          ⟨fun _ isChild => isChild, ofChildren⟩
        rw [← List.forall₂_eq_eq_eq]
        exact (each.imp fun child result both =>
          inductionHypothesis child both.1 result (inside child both.1) both.2).flip
      rw [same, refill_children] at ofNode
      exact ofNode.eq_of_unmarked unchecked atNode

end Expr

namespace Rewrite

/-- What the realization lemma asks of the nodes and statements of a tree: the
table knows their symbols, marked accesses stand only where the rules give them a
meaning, and never as the target of an assignment. -/
structure Fits
    (rules : Rules)
    (table : SymbolTable)
    (node : Expr → Bool)
    (statement : Stmt → Bool) :
    Prop where
  symbols : ∀ expr, node expr → expr.ownSymbols.all table.knows
  marks : rules.skipsNil ∨ ∀ expr, node expr → expr.isMarkedAccess = false
  targets : ∀ target value span, statement (.assign target value span) →
    node target → target.isMarkedAccess = false

/-- Trees without marked accesses fit all rules. -/
theorem fits_unmarked (rules : Rules) (table : SymbolTable) :
    Fits rules table (fun node => node.ownSymbols.all table.knows && !node.isMarkedAccess)
      (fun statement => statement.ownSymbols.all table.knows && true) where
  symbols := by
    intro expr holds
    rw [Bool.and_eq_true] at holds
    exact holds.1
  marks := by
    apply Or.inr
    intro expr holds
    rw [Bool.and_eq_true, Bool.not_eq_true'] at holds
    exact holds.2
  targets := by
    intro target value span _ holds
    rw [Bool.and_eq_true, Bool.not_eq_true'] at holds
    exact holds.2

/-- The features of a body suit rules under which it is to be read: literals are
wrapped where they are to be checked. -/
def Suits (rules : Rules) (features : FeatureSet) : Prop :=
  features.arrays = rules.checksLiterals

/-! ### One node -/

section Node

variable
  {rules : Rules}
  {table grown : SymbolTable}
  {declaration : Path}
  {features : FeatureSet}

/-- A node that is no access and no array stays as it is. -/
theorem node_of_other
    {expr : Expr}
    (noAccess : expr.isMarkedAccess = false)
    (noArray : expr.isArray = false)
    (progress : Progress) :
    node declaration features expr progress = (expr, progress) := by
  unfold node
  rw [noAccess, noArray, Bool.and_false]
  rfl

/-- Only a marked access can be refused. -/
theorem node_keeps
    {expr : Expr}
    (noAccess : expr.isMarkedAccess = false)
    (progress : Progress)
    (_ : table.Later progress.table) :
    (node declaration features expr progress).2.problems = progress.problems := by
  unfold node
  rw [noAccess, if_neg Bool.false_ne_true]
  split <;> rfl

theorem node_realizesArray
    (suits : Suits rules features)
    (elements : List Expr)
    (span : Span)
    (progress : Progress)
    (grows : (node declaration features (.array elements span) progress).2.table.Later grown) :
    Expr.RealizesArray rules grown elements span
      (node declaration features (.array elements span) progress).1 := by
  unfold Expr.RealizesArray
  unfold Suits at suits
  cases checks : rules.checksLiterals with
  | false =>
      have unwrapped : node declaration features (.array elements span) progress =
          (.array elements span, progress) := by
        unfold node
        rw [suits, checks]
        rfl
      rw [unwrapped]
      rfl
  | true =>
      have wrapped : node declaration features (.array elements span) progress =
          wrap declaration (.array elements span) progress := by
        unfold node
        rw [suits, checks]
        rfl
      rw [wrapped] at grows ⊢
      have shown := SymbolTable.display_internAll progress.table Expr.checkedArrayPath
      refine ⟨(progress.table.internAll Expr.checkedArrayPath).1, ?_, rfl⟩
      calc
        (progress.table.internAll Expr.checkedArrayPath).1.map grown.display
          = (progress.table.internAll Expr.checkedArrayPath).1.map
              (progress.table.internAll Expr.checkedArrayPath).2.display :=
            List.map_congr_left fun symbol member => grows.display_eq (shown.2 symbol member)
        _ = Expr.checkedArrayPath := shown.1

/-- The node of an access becomes what the rules ask for, unless it is refused. -/
theorem node_realizesAccess
    {access : Expr → Bool → Expr}
    {receiver : Expr}
    {marked : Bool}
    {span : Span}
    (isMarked : (access receiver marked).isMarkedAccess = marked)
    (noArray : (access receiver marked).isArray = false)
    (expands : ∀ temp, (access receiver true).expandAccess temp =
      .nilChecked temp receiver (access (.ident temp span) false) span)
    (marks : rules.skipsNil ∨ marked = false)
    (progress : Progress)
    (base : table.Later progress.table)
    (clean : (node declaration features (access receiver marked) progress).2.problems = []) :
    Expr.RealizesAccess rules table marked receiver access span
      (node declaration features (access receiver marked) progress).1 := by
  unfold Expr.RealizesAccess
  cases marked with
  | false =>
      rw [node_of_other isMarked noArray, Bool.and_false]
      rfl
  | true =>
      have skips : rules.skipsNil = true := marks.resolve_right (by decide)
      rw [skips]
      unfold node at clean ⊢
      rw [isMarked] at clean ⊢
      cases enabled : features.navigation with
      | false =>
          rw [enabled] at clean
          exact absurd clean (by simp [refuse])
      | true =>
          refine ⟨(progress.names.fresh progress.table).1, ?_, expands _⟩
          have new := FreshNames.knows_fresh progress.names progress.table
          rw [Bool.eq_false_iff] at new ⊢
          exact fun known => new (base.knows known)

end Node

/-! ### A whole body -/

/-- A step that, over tables grown from a given one, only adds to what is carried
along, finds no problems where no marks are expected, and whose result, if no
problem was found until then, stands in a relation to every table grown from the
one it leaves. -/
structure Yields {α : Type} (rules : Rules) (table : SymbolTable) (step : Rewrite α)
    (relation : SymbolTable → α → Prop) : Prop where
  advances : ∀ progress : Progress, table.Later progress.table →
    progress.Advances (step progress).2
  keeps : rules.skipsNil = false → ∀ progress : Progress, table.Later progress.table →
    (step progress).2.problems = progress.problems
  yields : ∀ progress : Progress, table.Later progress.table →
    (step progress).2.problems = [] →
    ∀ grown, (step progress).2.table.Later grown → relation grown (step progress).1

namespace Yields

variable {α β : Type} {rules : Rules} {table : SymbolTable}

theorem pure
    {relation : SymbolTable → α → Prop}
    {value : α}
    (holds : ∀ grown, relation grown value) :
    Yields rules table (Pure.pure value) relation :=
  ⟨fun progress _ => .refl progress, fun _ _ _ => rfl, fun _ _ _ grown _ => holds grown⟩

theorem bind
    {step : Rewrite α}
    {rest : α → Rewrite β}
    {relation : SymbolTable → α → Prop}
    {relation' : SymbolTable → β → Prop}
    (first : Yields rules table step relation)
    (second : ∀ value, Yields rules table (rest value)
      fun grown result => relation grown value → relation' grown result) :
    Yields rules table (step >>= rest) relation' := by
  have middle : ∀ progress : Progress, table.Later progress.table →
      table.Later (step progress).2.table :=
    fun progress base => base.trans (first.advances progress base).table
  have further : ∀ progress : Progress, table.Later progress.table →
      (step progress).2.Advances ((step >>= rest) progress).2 :=
    fun progress base =>
      (second (step progress).1).advances (step progress).2 (middle progress base)
  refine ⟨fun progress base => (first.advances progress base).trans (further progress base), ?_, ?_⟩
  · intro unmarked progress base
    have before := first.keeps unmarked progress base
    have after := (second (step progress).1).keeps unmarked (step progress).2
      (middle progress base)
    exact after.trans before
  · intro progress base clean grown grows
    have further := further progress base
    refine (second (step progress).1).yields (step progress).2 (middle progress base) clean grown
      grows ?_
    exact first.yields progress base (further.clean clean) grown (further.table.trans grows)

/-- What a step does that looks at the state. -/
theorem ofGet
    {rest : Progress → Rewrite β}
    {relation : SymbolTable → β → Prop}
    (each : ∀ progress : Progress, table.Later progress.table →
      Yields rules table (rest progress) relation) :
    Yields rules table (get >>= rest) relation :=
  ⟨fun progress base => (each progress base).advances progress base,
    fun unmarked progress base => (each progress base).keeps unmarked progress base,
    fun progress base => (each progress base).yields progress base⟩

theorem imp
    {step : Rewrite α}
    {relation relation' : SymbolTable → α → Prop}
    (first : Yields rules table step relation)
    (implied : ∀ grown result, relation grown result → relation' grown result) :
    Yields rules table step relation' :=
  ⟨first.advances, first.keeps, fun progress base clean grown grows =>
    implied grown _ (first.yields progress base clean grown grows)⟩

end Yields

section Body

variable
  {rules : Rules}
  {table : SymbolTable}
  {declaration : Path}
  {features : FeatureSet}
  {check : Expr → Bool}
  {statement : Stmt → Bool}

theorem yields_other
    (declaration : Path)
    (features : FeatureSet)
    {expr : Expr}
    (noAccess : expr.isMarkedAccess = false)
    (noArray : expr.isArray = false) :
    Yields rules table (node declaration features expr) fun _ result => result = expr := by
  refine ⟨fun progress _ => node_advancing declaration features expr progress,
    fun _ => node_keeps noAccess, ?_⟩
  intro progress base clean grown grows
  rw [node_of_other noAccess noArray]

theorem yields_nodeArray
    (suits : Suits rules features)
    (elements : List Expr)
    (span : Span) :
    Yields rules table (node declaration features (.array elements span))
      fun grown result => Expr.RealizesArray rules grown elements span result :=
  ⟨fun progress _ => node_advancing _ _ _ progress, fun _ => node_keeps rfl,
    fun progress _ _ _ grows => node_realizesArray suits elements span progress grows⟩

theorem yields_nodeAccess
    (access : Expr → Bool → Expr)
    {receiver : Expr}
    {marked : Bool}
    {span : Span}
    (isMarked : (access receiver marked).isMarkedAccess = marked)
    (noArray : (access receiver marked).isArray = false)
    (expands : ∀ temp, (access receiver true).expandAccess temp =
      .nilChecked temp receiver (access (.ident temp span) false) span)
    (marks : rules.skipsNil ∨ marked = false) :
    Yields rules table (node declaration features (access receiver marked))
      fun _ result => Expr.RealizesAccess rules table marked receiver access span result := by
  refine ⟨fun progress _ => node_advancing _ _ _ progress, ?_, ?_⟩
  · intro unmarked
    rw [unmarked] at marks
    exact node_keeps (isMarked.trans (marks.resolve_left (by decide)))
  · intro progress base clean _ _
    exact node_realizesAccess isMarked noArray expands marks progress base clean

/-- What the walk makes of a node over realized children realizes it. -/
theorem yields_node
    (suits : Suits rules features)
    {expr : Expr}
    (known : expr.ownSymbols.all table.knows)
    (marks : rules.skipsNil ∨ expr.isMarkedAccess = false)
    (exprs : List Expr) :
    Yields rules table (node declaration features (expr.refill exprs)) fun grown result =>
      (expr.refill exprs).RealizesNode rules table grown result := by
  cases expr with
  | str | ident | path =>
      apply (yields_other _ _ rfl rfl).imp
      intro grown result same
      exact ⟨by simpa [Expr.ownSymbols] using known, same⟩
  | method receiver name args marked span =>
      apply (yields_nodeAccess (fun on marked => .method on name _ marked span) rfl rfl
        (fun _ => rfl) marks).imp
      intro grown result realized
      have known : table.knows name := by
        simp only [Expr.ownSymbols, List.all_cons, Bool.and_eq_true] at known
        exact known.1
      exact ⟨known, realized⟩
  | field object name marked span =>
      apply (yields_nodeAccess (fun on marked => .field on name marked span) rfl rfl
        (fun _ => rfl) marks).imp
      intro grown result realized
      exact ⟨by simpa [Expr.ownSymbols] using known, realized⟩
  | array elements span => exact yields_nodeArray suits exprs span
  | _ => exact yields_other _ _ rfl rfl

theorem yields_mapUpList
    {action : Expr → Rewrite Expr}
    {relation : Expr → SymbolTable → Expr → Prop}
    (exprs : List Expr)
    (each : ∀ expr ∈ exprs, Yields rules table (expr.mapUp action) (relation expr)) :
    Yields rules table (Expr.mapUpList action exprs) fun grown results =>
      List.Forall₂ (fun expr result => relation expr grown result) exprs results := by
  induction exprs with
  | nil => exact .pure fun _ => .nil
  | cons expr rest inductionHypothesis =>
      apply (each expr List.mem_cons_self).bind
      intro result
      apply (inductionHypothesis fun other member =>
        each other (List.mem_cons_of_mem expr member)).bind
      intro results
      exact .pure fun _ ofRest ofFirst => .cons ofFirst ofRest

/-- A body whose rewriting finds no problem realizes the original one. -/
theorem yields_body
    (declaration : Path)
    (suits : Suits rules features)
    (fits : Fits rules table check statement)
    {expr : Expr}
    (everywhere : expr.everywhere check statement) :
    Yields rules table (body declaration features expr)
      fun grown result => expr.Realizes rules table grown result := by
  induction expr using Expr.childInduction with
  | node expr inductionHypothesis =>
      have walk : body declaration features expr =
          (do
            let exprs ← Expr.mapUpList (node declaration features) expr.children
            node declaration features (expr.refill exprs)) :=
        funext (Expr.mapUp_apply _ expr)
      simp only [Expr.everywhere_eq _ _ expr, Bool.and_eq_true, List.all_eq_true] at everywhere
      obtain ⟨⟨atNode, atStmts⟩, inside⟩ := everywhere
      have plain : ∀ stmt ∈ expr.statements, stmt.assignsMarked = false := by
        intro stmt isStmt
        cases stmt with
        | assign target value span =>
            have isChild := Expr.children_subset_of_mem_statements isStmt List.mem_cons_self
            exact fits.targets target value span (atStmts _ isStmt)
              (Expr.everywhere_self (inside target isChild))
        | _ => rfl
      rw [walk]
      apply (yields_mapUpList expr.children fun child isChild =>
        inductionHypothesis child isChild (inside child isChild)).bind
      intro exprs
      apply (yields_node suits (fits.symbols expr atNode)
        (fits.marks.imp_right fun unmarked => unmarked expr atNode) exprs).imp
      intro grown result ofNode ofChildren
      exact Expr.realizes_iff.mpr ⟨plain, exprs, ofChildren, ofNode⟩

end Body

end Rewrite

end NilSafety
