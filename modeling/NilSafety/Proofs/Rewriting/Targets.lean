import NilSafety.Proofs.Evaluation.TargetFaults
import NilSafety.Proofs.Rewriting.Forms
import NilSafety.Proofs.Rewriting.Images

/-!
Contract: what becomes of assignments.

Owns:
- that expansion, wrapping and checks bring no assignments, so that those of a rewritten
  unit are the images of those of the unit;
- that the image of a left side is a target exactly if the left side is one and no marked
  access;
- that uses of a rewritten unit complain of no other left sides.

Does not own: what an assignment to a target does.
-/

namespace NilSafety

/-! ### Rewrites of single nodes -/

namespace Expr

theorem assignments_nilChecked (temp : Symbol) (receiver access : Expr) (span : Span) :
    (nilChecked temp receiver access span).assignments =
      receiver.assignments ++ access.assignments := by
  unfold assignments
  rw [postOrder_nilChecked]
  simp [nilChecked, inBraces, ownAssignments, Stmt.ownAssignments]

theorem assignments_expandAccess (temp : Symbol) (expr : Expr) :
    (expr.expandAccess temp).assignments = expr.assignments := by
  have ofTemp : ∀ span, (ident temp span).assignments = [] := fun _ => rfl
  cases expr with
  | field object name marked span =>
      cases marked with
      | false => rfl
      | true =>
          rw [expandAccess, assignments_nilChecked, assignments_eq (field _ _ _ _),
            assignments_eq (field _ _ _ _), children, children]
          simp [ofTemp, ownAssignments]
  | method receiver name args marked span =>
      cases marked with
      | false => rfl
      | true =>
          rw [expandAccess, assignments_nilChecked, assignments_eq (method _ _ _ _ _),
            assignments_eq (method _ _ _ _ _), children, children]
          simp [ofTemp, ownAssignments]
  | _ => rfl

theorem assignments_wrapArray (table : SymbolTable) (expr : Expr) :
    (expr.wrapArray table).1.assignments = expr.assignments := by
  cases expr with
  | array elements span =>
      have ofPath : ∀ segments span, (path segments span).assignments = [] := fun _ _ => rfl
      rw [wrapArray, assignments_eq (call _ _ _), children]
      simp [ofPath, ownAssignments, Arg.plain, Arg.value]
  | _ => rfl

theorem assignments_precededBy_checks
    (symbols : GuardSymbols)
    (params : List Param)
    (expr : Expr) :
    (expr.precededBy (params.map symbols.check)).assignments = expr.assignments := by
  have own : (params.map symbols.check).flatMap Stmt.ownAssignments = [] := by
    simp [List.flatMap_map, GuardSymbols.check, Stmt.ownAssignments]
  have inside : ((params.map symbols.check).flatMap Stmt.children).flatMap assignments = [] := by
    rw [List.flatMap_assoc, List.flatMap_map, List.flatMap_eq_nil_iff]
    exact fun _ _ => rfl
  have ofBlock : ∀ inner span, (block (params.map symbols.check) (some inner) span).assignments =
      inner.assignments := by
    intro inner span
    rw [assignments_eq (block _ _ _), children, ownAssignments, own, List.flatMap_append, inside]
    simp
  cases expr with
  | block stmts tail span =>
      rw [precededBy, assignments_eq (block _ _ _), assignments_eq (block _ _ _), children, children]
      simp only [ownAssignments, List.flatMap_append, own, inside, List.nil_append]
  | _ => exact ofBlock _ _

end Expr

namespace Rewrite

section

variable {declaration : Path} {features : FeatureSet}

theorem node_assignments (declaration : Path) (features : FeatureSet) (expr : Expr) :
    Ensures (node declaration features expr) fun result =>
      result.assignments = expr.assignments := by
  unfold node
  split
  · split
    · intro progress clean
      exact ⟨clean, Expr.assignments_expandAccess _ expr⟩
    · intro progress clean
      exact absurd clean (List.append_ne_nil_of_right_ne_nil _ (List.cons_ne_nil _ _))
  · split
    · intro progress clean
      exact ⟨clean, Expr.assignments_wrapArray _ expr⟩
    · exact .pure rfl

theorem node_isTarget (declaration : Path) (features : FeatureSet) (expr : Expr) :
    Ensures (node declaration features expr) fun result =>
      (result.isTarget ↔ expr.isTarget ∧ ¬ expr.isMarkedAccess) := by
  intro progress clean
  obtain ⟨before, expands⟩ := node_expands declaration features expr progress clean
  refine ⟨before, ?_⟩
  by_cases marked : expr.isMarkedAccess
  · obtain ⟨temp, expanded⟩ := expands marked
    obtain ⟨access, receiver, span, rfl⟩ := MemberAccess.exists_of_isMarkedAccess marked
    rw [expanded, MemberAccess.expandAccess_on]
    exact iff_of_false Bool.false_ne_true fun both => both.2 marked
  · unfold node
    rw [if_neg marked]
    split
    next wraps =>
      have isLiteral : expr.isArray := (Bool.and_eq_true _ _ ▸ wraps).2
      cases expr with
      | array elements span =>
          exact iff_of_false Bool.false_ne_true fun both => Bool.false_ne_true both.1
      | _ => cases isLiteral
    next => exact (and_iff_left marked).symm

/-- The image of an expression is a target exactly if the expression is one and no marked
access. -/
theorem Image.isTarget_iff
    {expr image : Expr}
    (isImage : Image declaration features expr image) :
    image.isTarget ↔ expr.isTarget ∧ ¬ expr.isMarkedAccess := by
  obtain ⟨progress, clean, rfl⟩ := isImage
  unfold body at clean ⊢
  rw [Expr.mapUp_apply] at clean ⊢
  have atNode := (node_isTarget declaration features _ _ clean).2
  rwa [Expr.isTarget_refill, Expr.isMarkedAccess_refill] at atNode

/-- The assignments in what the walk makes of an expression are the images of those in the
expression. -/
theorem ensures_assignments (expr : Expr) :
    Ensures (body declaration features expr) fun result =>
      List.Forall₂ (Assignment.Related (Image declaration features))
        expr.assignments result.assignments := by
  apply ensures_body
  intro expr results fits
  apply (node_assignments _ _ _).imp
  intro result same ofChildren
  have inside := List.rel_flatMap ofChildren fun _ _ both => both.1
  have images := ofChildren.imp fun _ _ both => both.2
  rw [same, Expr.assignments_eq, Expr.assignments_eq (expr.refill results),
    Expr.children_refill expr fits]
  exact List.rel_append inside (Expr.related_refill images)

end

/-- `assignment'` is the image of an assignment. Its left side is a target exactly if the
original one is a target and no marked access. If it is none, the statement fails on it
once its value is found. -/
def AssignmentImage
    (declaration : Path)
    (features : FeatureSet)
    (assignment assignment' : Assignment) :
    Prop :=
  assignment.Related (Image declaration features) assignment' ∧
  (assignment'.target.isTarget ↔
    assignment.target.isTarget ∧ ¬ assignment.target.isMarkedAccess) ∧
  (¬ assignment'.target.isTarget → ∀ context,
    Eval.stmt context assignment'.stmt =
      Eval.expr context assignment'.value >>= fun _ =>
        Eval.fail (.type .target assignment.span))

theorem AssignmentImage.of_related
    {declaration : Path}
    {features : FeatureSet}
    {assignment assignment' : Assignment}
    (related : assignment.Related (Image declaration features) assignment') :
    AssignmentImage declaration features assignment assignment' := by
  refine ⟨related, related.target.isTarget_iff, fun noTarget context => ?_⟩
  unfold Assignment.stmt
  rw [Eval.stmt, ← related.span]
  refine congrArg (Eval.expr context assignment'.value >>= ·) (funext fun value => ?_)
  exact Eval.assign_of_not_isTarget context (eq_false_of_ne_true noTarget) value _

/-- The assignments of a rewritten body are the images of those of the original one. -/
theorem BodyImage.assignments {body body' : Expr} (isImage : BodyImage body body') :
    ∃ declaration features,
      List.Forall₂ (AssignmentImage declaration features) body.assignments body'.assignments := by
  obtain ⟨declaration, features, walked, ⟨progress, clean, isWalked⟩, around⟩ := isImage
  have related := (@ensures_assignments declaration features body progress clean).2
  rw [isWalked] at related
  refine ⟨declaration, features, ?_⟩
  have sameAssignments : body'.assignments = walked.assignments := by
    rcases around with rfl | ⟨symbols, params, rfl⟩
    · rfl
    · exact walked.assignments_precededBy_checks symbols params
  rw [sameAssignments]
  exact related.imp fun _ _ => AssignmentImage.of_related

end Rewrite

/-! ### Units -/

/-- The body holds an assignment for this region whose left side is no target, or a marked
access. -/
def Expr.LosesTarget (body : Expr) (span : Span) : Prop :=
  ∃ assignment ∈ body.assignments,
    (assignment.target.isTarget = false ∨ assignment.target.isMarkedAccess) ∧
      assignment.span = span

theorem Rewrite.BodyImage.losesTarget
    {body body' : Expr}
    (isImage : Rewrite.BodyImage body body')
    {span : Span}
    (misses : body'.MissesTarget span) :
    body.LosesTarget span := by
  obtain ⟨declaration, features, images⟩ := isImage.assignments
  obtain ⟨assignment', isInside, noTarget, isSpan⟩ := misses
  obtain ⟨assignment, isOriginal, related, isTarget, -⟩ :=
    Expr.exists_mem_of_forall₂ images.flip isInside
  refine ⟨assignment, isOriginal, ?_, related.span.symm.trans isSpan⟩
  by_contra kept
  rw [not_or, Bool.not_eq_false] at kept
  rw [isTarget.mpr kept] at noTarget
  cases noTarget

/-- **Assignments of rewritten units.** If a unit is rewritten, the assignments of each
body become those of the rewritten one, for the same regions. A left side stays a target
exactly if it is one and no marked access; a marked one becomes a block, and the
assignment fails once its value is found. No use of the rewritten unit complains of another
left side: not loading it into whatever session, and neither calls nor evaluations over the
program that is then loaded, unless the complaint stems from the rest of this program or
from the evaluated expression. -/
theorem assignment_targets_exact
    {set : ActivationSet}
    {unit : SourceUnit}
    {table : SymbolTable}
    {counts : Counts}
    (succeeds : (unit.rewrite set table).result = .ok counts) :
    List.Forall₂
      (fun body body' => ∃ declaration features,
        List.Forall₂ (Rewrite.AssignmentImage declaration features)
          body.assignments body'.assignments)
      unit.bodies (unit.rewrite set table).unit.bodies ∧
    ∀ (session : Session) (loadBound : Nat),
      let loaded := session.load loadBound (unit.rewrite set table).unit
      let regions := fun span =>
        session.program.MissesTarget span ∨ ∃ body ∈ unit.bodies, body.LosesTarget span
      (∀ span, loaded.1 = .error (.type .target span) → regions span) ∧
      ∀ later : Session, later.program = loaded.2.program → ∀ bound span,
        (∀ name args, (later.call bound name args).1 = .error (.type .target span) →
          regions span) ∧
        ∀ expr, (later.evaluate bound expr).1 = .error (.type .target span) →
          regions span ∨ expr.MissesTarget span := by
  have images := SourceUnit.rewrite_images succeeds
  refine ⟨images.imp fun _ _ => Rewrite.BodyImage.assignments, fun session loadBound => ?_⟩
  intro loaded regions
  have withinBodies : ∀ body' ∈ (unit.rewrite set table).unit.bodies, ∀ span,
      body'.MissesTarget span → regions span := by
    intro body' isBody span misses
    obtain ⟨body, isOriginal, isImage⟩ := Expr.exists_mem_of_forall₂ images.flip isBody
    exact .inr ⟨body, isOriginal, Rewrite.BodyImage.losesTarget isImage misses⟩
  obtain ⟨within, whileLoading⟩ : Session.MissesOnly regions loaded :=
    Session.missesOnly_loadDecls (fun _ => .inl) loadBound withinBodies
  refine ⟨whileLoading, fun later isLoaded bound span => ?_⟩
  rw [← isLoaded] at within
  refine ⟨fun name args => (Session.missesOnly_call within bound name args).2 span, fun expr => ?_⟩
  have evaluates : Session.MissesOnly (fun span => regions span ∨ expr.MissesTarget span)
      (later.evaluate bound expr) :=
    Session.missesOnly_evaluate (fun span misses => .inl (within span misses)) bound fun _ => .inr
  exact evaluates.2 span

/-! ### A marked left side -/

namespace Targets

/-- The names of a unit with one type and one function. -/
def sampleTable : SymbolTable :=
  (SymbolTable.empty.internAll ["Job", "name", "Int", "run", "p"]).2

/-- A unit that declares `class Job { name: Int }` and
`fn run() { let p = Job { name: 1 }; p?.name = 2; p.name }`. -/
def sampleUnit : SourceUnit where
  package := ⟨["app"]⟩
  decls := [
    .record ⟨0⟩ [⟨⟨1⟩, .named ⟨2⟩ default, default⟩] [] .exposed default,
    .function {
      name := ⟨3⟩
      isStatic := false
      params := []
      result := none
      body := .block
        [.bind ⟨4⟩ false none (some (.construct ⟨0⟩ [.mk ⟨1⟩ (.int 1 default)] default)) default,
          .assign (.field (.ident ⟨4⟩ default) ⟨1⟩ true default) (.int 2 default) default]
        (some (.field (.ident ⟨4⟩ default) ⟨1⟩ false default)) default
      visibility := .exposed
      span := default }]

/-- Navigation in `run`. -/
def sampleSet : ActivationSet where
  activations := [⟨⟨["app", "run"]⟩, false, .navigation⟩]
  nodup := List.nodup_singleton _
  not_root := List.forall_mem_singleton.mpr rfl

/-- A unit, loaded. -/
def loaded (unit : SourceUnit) (table : SymbolTable) : Session :=
  ((Session.start table .empty).load 1 unit).2

end Targets

theorem assignment_targets_exact_of_sample :
    let rewritten := Targets.sampleUnit.rewrite Targets.sampleSet Targets.sampleTable
    rewritten.result = .ok ⟨1, 0, 0, 0⟩ ∧
      List.Forall₂
        (fun body body' => ∃ declaration features,
          List.Forall₂ (Rewrite.AssignmentImage declaration features)
            body.assignments body'.assignments)
        Targets.sampleUnit.bodies rewritten.unit.bodies ∧
      ((Session.start rewritten.table .empty).program.MissesTarget default ∨
        ∃ body ∈ Targets.sampleUnit.bodies, body.LosesTarget default) := by
  intro rewritten
  have succeeds : rewritten.result = .ok ⟨1, 0, 0, 0⟩ := by
    with_unfolding_all rfl
  obtain ⟨images, uses⟩ := assignment_targets_exact succeeds
  have complains : ((Targets.loaded rewritten.unit rewritten.table).call 2 "run" []).1 =
      .error (.type .target default) := by decide +kernel
  obtain ⟨-, inUse⟩ := uses (Session.start rewritten.table .empty) 1
  exact ⟨succeeds, images, (inUse _ rfl 2 default).1 "run" [] complains⟩

/-- A marked left side may be assigned to, but no more when the unit is rewritten. -/
theorem marked_target_fails_when_rewritten :
    let rewritten := Targets.sampleUnit.rewrite Targets.sampleSet Targets.sampleTable
    let targets := fun unit : SourceUnit =>
      (unit.bodies.flatMap Expr.assignments).map fun assignment => assignment.target.isTarget
    rewritten.result = .ok ⟨1, 0, 0, 0⟩ ∧
      targets Targets.sampleUnit = [true] ∧
      targets rewritten.unit = [false] ∧
      ((Targets.loaded Targets.sampleUnit Targets.sampleTable).call 2 "run" []).1 =
        .next (.int 2) ∧
      ((Targets.loaded rewritten.unit rewritten.table).call 2 "run" []).1 =
        .error (.type .target default) := by
  refine ⟨?_, rfl, ?_, ?_, ?_⟩
  · with_unfolding_all rfl
  · decide +kernel
  · decide +kernel
  · decide +kernel

end NilSafety
