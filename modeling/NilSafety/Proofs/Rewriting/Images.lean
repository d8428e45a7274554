import NilSafety.Proofs.Rewriting.Units
import NilSafety.Proofs.Tree.Walks

/-!
Contract: what becomes of every expression of a unit.

Owns:
- the expressions enclosed in an expression, at any depth;
- what rewriting a step without problems ensures, put together step by step;
- that the image of every expression of a body is among the expressions of the
  rewritten one, whatever mix of features is in effect;
- the image of a marked access: its expansion, over the images of its receiver
  and its arguments.

Does not own: what an image evaluates to.

Nothing is asked of the unit here but that its rewriting finds no problem: neither
that its symbols resolve, nor that assignments have plain targets.
-/

namespace NilSafety

namespace Expr

mutual

/-- The expressions inside an expression, at any depth. -/
def enclosed : Expr → List Expr
  | int .. | str .. | bool .. | nil .. | ident .. | path .. => []
  | unary _ operand _ => operand :: enclosed operand
  | binary left _ right _ => (left :: enclosed left) ++ (right :: enclosed right)
  | cond condition thenBranch elseBranch _ =>
      (condition :: enclosed condition) ++ (thenBranch :: enclosed thenBranch) ++
        enclosedOption elseBranch
  | block stmts tail _ => enclosedStmts stmts ++ enclosedOption tail
  | call callee args _ => (callee :: enclosed callee) ++ enclosedArgs args
  | method receiver _ args _ _ => (receiver :: enclosed receiver) ++ enclosedArgs args
  | field object _ _ _ => object :: enclosed object
  | index collection position _ =>
      (collection :: enclosed collection) ++ (position :: enclosed position)
  | construct _ inits _ => enclosedInits inits
  | array elements _ => enclosedList elements
  | paren inner _ => inner :: enclosed inner

/-- The expressions of one that may be missing. -/
def enclosedOption : Option Expr → List Expr
  | none => []
  | some expr => expr :: enclosed expr

/-- The expressions of several. -/
def enclosedList : List Expr → List Expr
  | [] => []
  | expr :: rest => (expr :: enclosed expr) ++ enclosedList rest

/-- The expressions of arguments. -/
def enclosedArgs : List Arg → List Expr
  | [] => []
  | .mk _ value :: rest => (value :: enclosed value) ++ enclosedArgs rest

/-- The expressions of initializers. -/
def enclosedInits : List Init → List Expr
  | [] => []
  | .mk _ value :: rest => (value :: enclosed value) ++ enclosedInits rest

/-- The expressions of a statement. -/
def enclosedStmt : Stmt → List Expr
  | .bind _ _ _ init _ => enclosedOption init
  | .ret value _ => enclosedOption value
  | .assign target value _ => (target :: enclosed target) ++ (value :: enclosed value)
  | .loop condition body _ => (condition :: enclosed condition) ++ (body :: enclosed body)
  | .eval expr _ => expr :: enclosed expr

/-- The expressions of several statements. -/
def enclosedStmts : List Stmt → List Expr
  | [] => []
  | stmt :: rest => enclosedStmt stmt ++ enclosedStmts rest

end

/-- An expression and those inside it. -/
def nodes (expr : Expr) : List Expr :=
  expr :: expr.enclosed

theorem enclosedOption_eq (expr : Option Expr) :
    enclosedOption expr = expr.toList.flatMap nodes := by
  cases expr with
  | none => rfl
  | some expr => exact (List.flatMap_singleton nodes expr).symm

theorem enclosedList_eq (exprs : List Expr) : enclosedList exprs = exprs.flatMap nodes := by
  induction exprs with
  | nil => rfl
  | cons expr rest inductionHypothesis =>
      rw [enclosedList, inductionHypothesis, List.flatMap_cons, nodes]

theorem enclosedArgs_eq (args : List Arg) :
    enclosedArgs args = (args.map Arg.value).flatMap nodes := by
  induction args with
  | nil => rfl
  | cons arg rest inductionHypothesis =>
      obtain ⟨label, value⟩ := arg
      rw [enclosedArgs, inductionHypothesis, List.map_cons, List.flatMap_cons, Arg.value, nodes]

theorem enclosedInits_eq (inits : List Init) :
    enclosedInits inits = (inits.map Init.value).flatMap nodes := by
  induction inits with
  | nil => rfl
  | cons init rest inductionHypothesis =>
      obtain ⟨name, value⟩ := init
      rw [enclosedInits, inductionHypothesis, List.map_cons, List.flatMap_cons, Init.value, nodes]

theorem enclosedStmts_eq (stmts : List Stmt) :
    enclosedStmts stmts = (stmts.flatMap Stmt.children).flatMap nodes := by
  induction stmts with
  | nil => rfl
  | cons stmt rest inductionHypothesis =>
      have one : enclosedStmt stmt = stmt.children.flatMap nodes := by
        cases stmt with
        | bind | ret => exact enclosedOption_eq _
        | assign | loop | eval => simp [enclosedStmt, Stmt.children, nodes]
      rw [enclosedStmts, inductionHypothesis, one, List.flatMap_cons, List.flatMap_append]

/-- What is inside an expression are its children and what is inside these. -/
theorem enclosed_eq (expr : Expr) : expr.enclosed = expr.children.flatMap nodes := by
  cases expr with
  | cond | block | call | method | construct | array =>
      simp only [enclosed, children, enclosedOption_eq, enclosedList_eq, enclosedArgs_eq,
        enclosedInits_eq, enclosedStmts_eq, List.flatMap_cons, List.flatMap_append, nodes,
        List.append_assoc]
  | _ => simp [enclosed, children, nodes]

/-- Expansion of an access keeps its receiver and its arguments. -/
theorem enclosed_expandAccess (temp : Symbol) (expr : Expr) :
    expr.enclosed ⊆ (expr.expandAccess temp).enclosed := by
  cases expr with
  | method receiver name args marked span =>
      cases marked with
      | false => exact List.Subset.refl _
      | true =>
          intro node member
          simp only [enclosed, List.mem_append] at member
          simp only [expandAccess, nilChecked, inBraces, enclosed, enclosedStmts, enclosedStmt,
            enclosedOption, List.mem_append, List.mem_cons]
          rcases member with inReceiver | inArgs
          · exact .inl (.inl (List.mem_cons.mp inReceiver))
          · simp [inArgs]
  | field object name marked span =>
      cases marked with
      | false => exact List.Subset.refl _
      | true =>
          intro node inObject
          simp only [expandAccess, nilChecked, enclosed, enclosedStmts, enclosedStmt,
            enclosedOption, List.mem_append]
          exact .inl (.inl inObject)
  | _ => exact List.Subset.refl _

/-- A wrapped literal has all its elements. -/
theorem enclosed_wrapArray (table : SymbolTable) (expr : Expr) :
    expr.enclosed ⊆ (expr.wrapArray table).1.enclosed := by
  cases expr with
  | array elements span =>
      intro node inElements
      simp only [enclosed] at inElements
      simp only [wrapArray, Arg.plain, enclosed, enclosedArgs, List.mem_append, List.mem_cons]
      exact .inr (.inl (.inr inElements))
  | _ => exact List.Subset.refl _

end Expr

/-- An access to a member, apart from its receiver. -/
inductive MemberAccess where
  | field (name : Symbol)
  | method (name : Symbol) (args : List Arg)

namespace MemberAccess

/-- The member that is accessed. -/
def name : MemberAccess → Symbol
  | field name | method name _ => name

/-- The access to a member of a receiver. -/
def on (access : MemberAccess) (receiver : Expr) (marked : Bool) (span : Span) : Expr :=
  match access with
  | field name => .field receiver name marked span
  | method name args => .method receiver name args marked span

theorem isMarkedAccess_on
    (access : MemberAccess)
    (receiver : Expr)
    (marked : Bool)
    (span : Span) :
    (access.on receiver marked span).isMarkedAccess = marked := by
  cases access with
  | field | method => rfl

/-- Every marked access is one to a member of a receiver. -/
theorem exists_of_isMarkedAccess {expr : Expr} (marked : expr.isMarkedAccess) :
    ∃ (access : MemberAccess) (receiver : Expr) (span : Span),
      expr = access.on receiver true span := by
  cases expr with
  | method receiver name args isMarked span =>
      obtain rfl : isMarked = true := marked
      exact ⟨.method name args, receiver, span, rfl⟩
  | field object name isMarked span =>
      obtain rfl : isMarked = true := marked
      exact ⟨.field name, object, span, rfl⟩
  | _ => cases marked

theorem expandAccess_on
    (access : MemberAccess)
    (temp : Symbol)
    (receiver : Expr)
    (span : Span) :
    (access.on receiver true span).expandAccess temp =
      .nilChecked temp receiver (access.on (.ident temp span) false span) span := by
  cases access with
  | field | method => rfl

/-- The walk over the arguments of an access. -/
def mapUp (action : Expr → Rewrite Expr) : MemberAccess → Rewrite MemberAccess
  | field name => return field name
  | method name args => do
      let args ← Expr.mapUpArgs action args
      return method name args

/-- The walk goes over the receiver, then the arguments, then the access itself. -/
theorem mapUp_on
    (action : Expr → Rewrite Expr)
    (access : MemberAccess)
    (receiver : Expr)
    (marked : Bool)
    (span : Span) :
    (access.on receiver marked span).mapUp action =
      (do
        let receiver ← receiver.mapUp action
        let access ← access.mapUp action
        action (access.on receiver marked span)) := by
  cases access with
  | field | method => rfl

end MemberAccess

namespace Rewrite

variable {α β : Type}

/-! ### Steps without problems -/

/-- If the step ends without problems, then it began without any, and `relation`
holds of its result. -/
def Ensures (step : Rewrite α) (relation : α → Prop) : Prop :=
  ∀ progress : Progress, (step progress).2.problems = [] →
    progress.problems = [] ∧ relation (step progress).1

namespace Ensures

theorem pure {relation : α → Prop} {value : α} (holds : relation value) :
    Ensures (Pure.pure value) relation :=
  fun _ clean => ⟨clean, holds⟩

theorem bind
    {step : Rewrite α}
    {rest : α → Rewrite β}
    {relation : α → Prop}
    {relation' : β → Prop}
    (first : Ensures step relation)
    (second : ∀ value, Ensures (rest value) fun result => relation value → relation' result) :
    Ensures (step >>= rest) relation' := by
  intro progress clean
  obtain ⟨between, implied⟩ := second (step progress).1 (step progress).2 clean
  obtain ⟨before, holds⟩ := first progress between
  exact ⟨before, implied holds⟩

theorem imp
    {step : Rewrite α}
    {relation relation' : α → Prop}
    (first : Ensures step relation)
    (implied : ∀ result, relation result → relation' result) :
    Ensures step relation' := by
  intro progress clean
  obtain ⟨before, holds⟩ := first progress clean
  exact ⟨before, implied _ holds⟩

/-- A result comes about at some point, without a problem. -/
theorem reached
    {step : Rewrite α}
    {relation : α → Prop}
    (first : Ensures step relation) :
    Ensures step fun result => ∃ progress : Progress,
      (step progress).2.problems = [] ∧ (step progress).1 = result :=
  fun progress clean => ⟨(first progress clean).1, progress, clean, rfl⟩

/-- What a step does that looks at the state. -/
theorem ofGet
    {rest : Progress → Rewrite β}
    {relation : β → Prop}
    (each : ∀ progress, Ensures (rest progress) relation) :
    Ensures (get >>= rest) relation :=
  fun progress => each progress progress

end Ensures

/-! ### Images of expressions -/

section Body

variable {declaration : Path} {features : FeatureSet}

/-- A node that is rewritten without problems keeps what is inside it. -/
theorem node_ensures (declaration : Path) (features : FeatureSet) (expr : Expr) :
    Ensures (node declaration features expr) fun result => expr.enclosed ⊆ result.enclosed := by
  unfold node
  split
  · split
    · intro progress clean
      exact ⟨clean, Expr.enclosed_expandAccess _ expr⟩
    · intro progress clean
      exact absurd clean (List.append_ne_nil_of_right_ne_nil _ (List.cons_ne_nil _ _))
  · split
    · intro progress clean
      exact ⟨clean, Expr.enclosed_wrapArray _ expr⟩
    · exact .pure (List.Subset.refl _)

/-- The walk makes `image` of `expr` at some point, without a problem. -/
def Image (declaration : Path) (features : FeatureSet) (expr image : Expr) : Prop :=
  ∃ progress : Progress,
    (body declaration features expr progress).2.problems = [] ∧
      (body declaration features expr progress).1 = image

/-- Every one of the first expressions has its image among the second ones. -/
def Covers (declaration : Path) (features : FeatureSet) (exprs images : List Expr) : Prop :=
  ∀ expr ∈ exprs, ∃ image ∈ images, Image declaration features expr image

namespace Covers

theorem flatMap
    {exprs images : List Expr}
    (each : List.Forall₂
      (fun expr image => Covers declaration features expr.nodes image.nodes) exprs images) :
    Covers declaration features (exprs.flatMap Expr.nodes) (images.flatMap Expr.nodes) := by
  intro inner member
  obtain ⟨expr, isExpr, inExpr⟩ := List.mem_flatMap.mp member
  obtain ⟨image, isImage, covers⟩ := Expr.exists_mem_of_forall₂ each isExpr
  obtain ⟨innerImage, inImage, holds⟩ := covers inner inExpr
  exact ⟨innerImage, List.mem_flatMap.mpr ⟨image, isImage, inImage⟩, holds⟩

theorem mono
    {exprs images images' : List Expr}
    (covers : Covers declaration features exprs images)
    (subset : images ⊆ images') :
    Covers declaration features exprs images' := by
  intro expr member
  obtain ⟨image, isImage, holds⟩ := covers expr member
  exact ⟨image, subset isImage, holds⟩

end Covers

/-- With what is inside an expression, the expression itself has its image. -/
theorem Covers.nodes
    {expr image : Expr}
    (inside : Covers declaration features expr.enclosed image.enclosed)
    (isImage : Image declaration features expr image) :
    Covers declaration features expr.nodes image.nodes := by
  intro inner member
  rcases List.mem_cons.mp member with rfl | isInside
  · exact ⟨image, List.mem_cons_self, isImage⟩
  · obtain ⟨innerImage, inImage, holds⟩ := inside inner isInside
    exact ⟨innerImage, List.mem_cons_of_mem _ inImage, holds⟩

/-- What is to hold of an expression and what the walk makes of it follows at each node
from the same of its children and their images. -/
theorem ensures_body
    {relation : Expr → Expr → Prop}
    (atNode : ∀ expr results, results.length = expr.children.length →
      Ensures (node declaration features (expr.refill results)) fun result =>
        List.Forall₂
          (fun child image => relation child image ∧ Image declaration features child image)
          expr.children results →
        relation expr result)
    (expr : Expr) :
    Ensures (body declaration features expr) (relation expr) :=
  Expr.mapUp_ends (fun progress : Progress => progress.problems = []) relation
    (fun expr results progress fits => atNode expr results fits progress) expr

theorem ensures_covers (expr : Expr) :
    Ensures (body declaration features expr) fun result =>
      Covers declaration features expr.enclosed result.enclosed := by
  apply ensures_body
  intro expr results fits
  apply (node_ensures _ _ _).imp
  intro result kept ofChildren
  rw [Expr.enclosed_eq, Expr.children_refill expr fits] at kept
  rw [Expr.enclosed_eq expr]
  exact (Covers.flatMap (ofChildren.imp fun _ _ both => both.1.nodes both.2)).mono kept

theorem ensures_image (expr : Expr) :
    Ensures (body declaration features expr) (Image declaration features expr) :=
  (ensures_covers expr).reached

/-- The image of an expression holds the images of all that is inside it. -/
theorem Image.covers
    {expr image : Expr}
    (isImage : Image declaration features expr image) :
    Covers declaration features expr.nodes image.nodes := by
  obtain ⟨progress, clean, rfl⟩ := isImage
  exact (ensures_covers expr progress clean).2.nodes ⟨progress, clean, rfl⟩

/-! ### Images of marked accesses -/

/-- The walk makes `image` of the arguments of an access at some point, without a
problem. -/
def AccessImage
    (declaration : Path)
    (features : FeatureSet)
    (access image : MemberAccess) :
    Prop :=
  ∃ progress : Progress,
    (access.mapUp (node declaration features) progress).2.problems = [] ∧
      (access.mapUp (node declaration features) progress).1 = image

theorem AccessImage.name_eq
    {access image : MemberAccess}
    (isImage : AccessImage declaration features access image) :
    image.name = access.name := by
  obtain ⟨progress, -, rfl⟩ := isImage
  cases access with
  | field | method => rfl

theorem ensures_accessImage (access : MemberAccess) :
    Ensures (access.mapUp (node declaration features))
      (AccessImage declaration features access) := by
  have walks : Ensures (access.mapUp (node declaration features)) fun _ => True := by
    cases access with
    | field name => exact .pure trivial
    | method name args =>
        intro progress clean
        have walked := Expr.mapUpList_ends (fun progress : Progress => progress.problems = [])
          (Image declaration features) (args.map Arg.value) (fun value _ => ensures_image value)
        change (Expr.mapUpArgs (node declaration features) args progress).2.problems = [] at clean
        rw [Expr.mapUpArgs_apply] at clean
        exact ⟨(walked progress clean).1, trivial⟩
  exact walks.reached

/-- Where no problem is found, the node of a marked access is expanded. -/
theorem node_expands (declaration : Path) (features : FeatureSet) (expr : Expr) :
    Ensures (node declaration features expr) fun result =>
      expr.isMarkedAccess → ∃ temp, result = expr.expandAccess temp := by
  unfold node
  split
  · split
    · intro progress clean
      exact ⟨clean, fun _ => ⟨_, rfl⟩⟩
    · intro progress clean
      exact absurd clean (List.append_ne_nil_of_right_ne_nil _ (List.cons_ne_nil _ _))
  next unmarked =>
    intro progress clean
    refine ⟨?_, fun marked => absurd marked unmarked⟩
    split at clean
    · exact clean
    · exact clean

/-- `result` is the expansion of a marked access, over the images of its receiver and
of its arguments. -/
def Expansion
    (declaration : Path)
    (features : FeatureSet)
    (access : MemberAccess)
    (receiver : Expr)
    (span : Span)
    (result : Expr) :
    Prop :=
  ∃ (access' : MemberAccess) (receiver' : Expr) (temp : Symbol),
    AccessImage declaration features access access' ∧
      Image declaration features receiver receiver' ∧
        result = .nilChecked temp receiver' (access'.on (.ident temp span) false span) span

/-- The image of a marked access is its expansion. -/
theorem Image.of_marked
    {access : MemberAccess}
    {receiver image : Expr}
    {span : Span}
    (isImage : Image declaration features (access.on receiver true span) image) :
    Expansion declaration features access receiver span image := by
  obtain ⟨progress, clean, rfl⟩ := isImage
  have expanded : Ensures
      (do
        let receiver' ← body declaration features receiver
        let access' ← access.mapUp (node declaration features)
        node declaration features (access'.on receiver' true span))
      (Expansion declaration features access receiver span) := by
    apply (ensures_image receiver).bind
    intro receiver'
    apply (ensures_accessImage access).bind
    intro access'
    apply (node_expands _ _ _).imp
    intro result expands isAccess isReceiver
    obtain ⟨temp, rfl⟩ := expands (access'.isMarkedAccess_on receiver' true span)
    exact ⟨access', receiver', temp, isAccess, isReceiver, access'.expandAccess_on _ _ _⟩
  unfold body at clean ⊢
  rw [MemberAccess.mapUp_on] at clean ⊢
  exact (expanded progress clean).2

end Body

/-! ### Declarations -/

/-- Every expression of `body` has its image in `body'`, which may have statements in
front of what the walk made. -/
def BodyCovers (body body' : Expr) : Prop :=
  ∃ (declaration : Path) (features : FeatureSet) (walked : Expr),
    Covers declaration features body.nodes walked.nodes ∧
      (body' = walked ∨ ∃ checks, body' = walked.precededBy checks)

/-- The body is what the walk made of `body` without a problem, or this behind checks of
parameters. -/
def BodyImage (body body' : Expr) : Prop :=
  ∃ (declaration : Path) (features : FeatureSet) (walked : Expr),
    Image declaration features body walked ∧
      (body' = walked ∨ ∃ (symbols : GuardSymbols) (params : List Param),
        body' = walked.precededBy (params.map symbols.check))

theorem BodyImage.covers {body body' : Expr} (isImage : BodyImage body body') :
    BodyCovers body body' := by
  obtain ⟨declaration, features, walked, isWalked, around⟩ := isImage
  exact ⟨declaration, features, walked, isWalked.covers,
    around.imp_right fun ⟨symbols, params, isGuarded⟩ => ⟨_, isGuarded⟩⟩

theorem ensures_guards (path : Path) (f : Function) :
    Ensures (guards path f) fun f' =>
      f'.body = f.body ∨ ∃ (symbols : GuardSymbols) (params : List Param),
        f'.body = f.body.precededBy (params.map symbols.check) := by
  intro progress clean
  unfold guards Function.withGuards at clean ⊢
  dsimp only at clean ⊢
  split at clean
  next none =>
    rw [if_pos none]
    exact ⟨clean, .inl rfl⟩
  next some =>
    rw [if_neg some]
    refine ⟨clean, ?_⟩
    split
    · exact .inl rfl
    · exact .inr ⟨_, _, rfl⟩

theorem ensures_function
    (set : ActivationSet)
    (place : Placement)
    (ownerExposed : Bool)
    (f : Function) :
    Ensures (function set place ownerExposed f) fun f' => BodyImage f.body f'.body := by
  have rest : Ensures
      (do
        let body ← body place.path (set.featuresAt place) f.body
        if (set.featuresAt place).guards && ownerExposed && decide (f.visibility = .exposed) then
          guards place.path { f with body }
        else
          return { f with body })
      fun f' => BodyImage f.body f'.body := by
    apply (ensures_image f.body).bind
    intro walked
    split
    · apply (ensures_guards _ _).imp
      intro f' guarded isImage
      exact ⟨_, _, walked, isImage, guarded⟩
    · exact .pure fun isImage => ⟨_, _, walked, isImage, .inl rfl⟩
  unfold function
  dsimp only
  split
  · intro progress
    exact rest _
  · exact rest

theorem ensures_methods
    (set : ActivationSet)
    (package : Path)
    (owner : String)
    (ownerExposed : Bool)
    (methods : List Function) :
    Ensures (Rewrite.methods set package owner ownerExposed methods) fun methods' =>
      List.Forall₂ BodyImage (methods.map Function.body) (methods'.map Function.body) := by
  induction methods with
  | nil => exact .pure .nil
  | cons method rest inductionHypothesis =>
      apply Ensures.ofGet
      intro progress
      apply (ensures_function set _ ownerExposed method).bind
      intro method'
      apply inductionHypothesis.bind
      intro rest'
      exact .pure fun areImages isImage => .cons isImage areImages

theorem ensures_decl (set : ActivationSet) (package : Path) (decl : Decl) :
    Ensures (Rewrite.decl set package decl) fun decl' =>
      List.Forall₂ BodyImage decl.bodies decl'.bodies := by
  cases decl with
  | function f =>
      apply Ensures.ofGet
      intro progress
      apply (ensures_function set _ true f).bind
      intro f'
      exact .pure fun isImage => .cons isImage .nil
  | record name fields methods visibility span =>
      apply Ensures.ofGet
      intro progress
      apply (ensures_methods set package _ _ methods).bind
      intro methods'
      exact .pure fun areImages => areImages
  | extension name methods span =>
      apply Ensures.ofGet
      intro progress
      apply (ensures_methods set package _ _ methods).bind
      intro methods'
      exact .pure fun areImages => areImages
  | constant name note value visibility span =>
      apply Ensures.ofGet
      intro progress
      apply (ensures_image value).bind
      intro value'
      exact .pure fun isImage => .cons ⟨_, _, value', isImage, .inl rfl⟩ .nil

theorem ensures_decls (set : ActivationSet) (package : Path) (decls : List Decl) :
    Ensures (Rewrite.decls set package decls) fun decls' =>
      List.Forall₂ BodyImage (decls.flatMap Decl.bodies) (decls'.flatMap Decl.bodies) := by
  induction decls with
  | nil => exact .pure .nil
  | cons decl rest inductionHypothesis =>
      apply (ensures_decl set package decl).bind
      intro decl'
      apply inductionHypothesis.bind
      intro rest'
      exact .pure fun areRest areFirst => List.rel_append areFirst areRest

end Rewrite

/-- If a unit is rewritten, its bodies become their images, behind checks where there are
some. -/
theorem SourceUnit.rewrite_images
    {set : ActivationSet}
    {unit : SourceUnit}
    {table : SymbolTable}
    {counts : Counts}
    (succeeds : (unit.rewrite set table).result = .ok counts) :
    List.Forall₂ Rewrite.BodyImage unit.bodies (unit.rewrite set table).unit.bodies := by
  obtain ⟨-, sameDecls, clean⟩ := unit.rewrite_parts set table
  have images := Rewrite.ensures_decls set unit.package unit.decls (.start table)
    (clean.mp ⟨counts, succeeds⟩)
  unfold SourceUnit.bodies
  rw [sameDecls]
  exact images.2

/-- If a unit is rewritten, every expression in it has its image in the outcome. -/
theorem SourceUnit.rewrite_covers
    {set : ActivationSet}
    {unit : SourceUnit}
    {table : SymbolTable}
    {counts : Counts}
    (succeeds : (unit.rewrite set table).result = .ok counts) :
    List.Forall₂ Rewrite.BodyCovers unit.bodies (unit.rewrite set table).unit.bodies :=
  (rewrite_images succeeds).imp fun _ _ => Rewrite.BodyImage.covers

end NilSafety
