import NilSafety.Proofs.Rewriting.Forms
import NilSafety.Proofs.Rewriting.Tasks

/-!
Contract: rewriting as a function of the names that it puts in.

Owns:
- the plan of a rewriting: the symbol of each temporary, by position, and of each text
  that is interned;
- the walk that a plan drives, whose only state is the number of temporaries used;
- that rewriting a unit, once its symbols are replaced by what stands for their names,
  is the planned walk over the unit with its symbols so replaced.

Does not own: which names stand for what.

No decision of the walk depends on the symbol table. The table enters only through the
temporaries, which follow the sequence of free names of the table at the start.
-/

namespace NilSafety

/-- The symbols that rewriting puts in: one for each temporary, in their order, and one
for each text that it interns. -/
structure Plan where
  temporary : Nat → Symbol
  entry : String → Symbol

namespace Plan

/-- The symbols that guards of the function at `path` call and pass on. -/
def guardSymbols (plan : Plan) (path : Path) : GuardSymbols :=
  ⟨plan.entry EntryPoint.module, plan.entry EntryPoint.guardFailure, plan.entry path.text⟩

/-- Rewrites a node whose children are rewritten already. -/
def node (plan : Plan) (features : FeatureSet) (expr : Expr) : StateM Nat Expr := fun issued =>
  if expr.isMarkedAccess then
    if features.navigation then (expr.expandAccess (plan.temporary issued), issued + 1)
    else (expr, issued)
  else if features.arrays && expr.isArray then
    (expr.wrappedBy (Expr.checkedArrayPath.map plan.entry), issued)
  else (expr, issued)

/-- Puts guards for parameters in front of a body. -/
def guardBody (plan : Plan) (path : Path) (guarded : List Param) (body : Expr) : Expr :=
  if guarded.isEmpty then body
  else body.precededBy (guarded.map (plan.guardSymbols path).check)

/-- Performs a task. -/
def task (plan : Plan) (task : Task) : StateM Nat Expr := fun issued =>
  let walked := task.body.mapUp (plan.node task.features) issued
  (plan.guardBody task.path task.guarded walked.1, walked.2)

end Plan

namespace Task

/-- The task with other symbols. -/
def mapSymbols (rename : Symbol → Symbol) (task : Task) : Task :=
  { task with
    guarded := task.guarded.map (Param.mapSymbols rename)
    body := task.body.mapSymbols rename }

/-- The number of marked accesses that the task expands. -/
def expansions (task : Task) : Nat :=
  if task.features.navigation then task.body.markers.length else 0

theorem expansions_mapSymbols (rename : Symbol → Symbol) (task : Task) :
    (task.mapSymbols rename).expansions = task.expansions := by
  unfold expansions mapSymbols
  dsimp only
  rw [Expr.length_markers_mapSymbols]

theorem map_expansions_mapSymbols (rename : Symbol → Symbol) (tasks : List Task) :
    (tasks.map (mapSymbols rename)).map expansions = tasks.map expansions := by
  rw [List.map_map]
  exact List.map_congr_left fun task _ => task.expansions_mapSymbols rename

end Task

namespace Plan

variable (plan : Plan)

theorem issued_node (features : FeatureSet) (expr : Expr) (issued : Nat) :
    (plan.node features expr issued).2 =
      if expr.isMarkedAccess && features.navigation then issued + 1 else issued := by
  unfold Plan.node
  cases expr.isMarkedAccess <;> cases features.navigation <;> simp <;> split <;> rfl

/-- Every marked access uses up one temporary where navigation is on. -/
theorem issued_mapUp (features : FeatureSet) (expr : Expr) (issued : Nat) :
    (expr.mapUp (plan.node features) issued).2 =
      issued + if features.navigation then expr.markers.length else 0 := by
  have walked := Expr.mapUp_accumulates id
    (fun issued node => if node.isMarkedAccess && features.navigation then issued + 1 else issued)
    (plan.issued_node features) (fun issued node exprs => by rw [Expr.isMarkedAccess_refill])
    expr issued
  have counted : ∀ (nodes : List Expr) (issued : Nat),
      nodes.foldl (fun issued node =>
          if node.isMarkedAccess && features.navigation then issued + 1 else issued) issued =
        issued + if features.navigation then (nodes.filter Expr.isMarkedAccess).length else 0 := by
    intro nodes
    induction nodes with
    | nil => intro issued; simp
    | cons node rest inductionHypothesis =>
        intro issued
        rw [List.foldl_cons, inductionHypothesis]
        cases marked : node.isMarkedAccess <;> cases features.navigation <;>
          simp [marked]
        omega
  exact walked.trans (counted _ _)

theorem issued_task (task : Task) (issued : Nat) :
    (plan.task task issued).2 = issued + task.expansions :=
  plan.issued_mapUp task.features task.body issued

theorem issued_tasks (tasks : List Task) (issued : Nat) :
    (tasks.mapM plan.task issued).2 = issued + (tasks.map Task.expansions).sum := by
  induction tasks generalizing issued with
  | nil => rfl
  | cons task rest inductionHypothesis =>
      rw [List.mapM_cons, List.map_cons, List.sum_cons, ← Nat.add_assoc, ← plan.issued_task]
      exact inductionHypothesis _

end Plan

/-! ### Following a plan -/

/-- `rename` puts in place of every symbol that `grown` knows what stands for its
name. -/
def Names (grown : SymbolTable) (rename : Symbol → Symbol) (names : String → Symbol) : Prop :=
  ∀ symbol, grown.knows symbol → rename symbol = names (grown.display symbol)

theorem Names.ofDisplay (grown : SymbolTable) (names : String → Symbol) :
    Names grown (fun symbol => names (grown.display symbol)) names :=
  fun _ _ => rfl

namespace Rewrite

section

variable
  {start grown : SymbolTable}
  {rename : Symbol → Symbol}
  {names : String → Symbol}

/-- The plan of a rewriting that begins with the table. -/
noncomputable def planFrom (start : SymbolTable) (names : String → Symbol) : Plan where
  temporary position := names (FreshNames.supply start position)
  entry := names

/-- The tree mentions only symbols that `grown` knows, and is the other one once they are
replaced. -/
def Becomes (grown : SymbolTable) (rename : Symbol → Symbol) (expr planned : Expr) : Prop :=
  (∀ symbol ∈ expr.symbols, grown.knows symbol) ∧ expr.mapSymbols rename = planned

/-- The rewriting began with `start` and has handed out so many names. -/
def Reached (start : SymbolTable) (progress : Progress) (issued : Nat) : Prop :=
  progress.names.Follows start progress.table issued

/-- What is interned is known from then on and replaced by what stands for its name. -/
theorem rename_intern
    (agree : Names grown rename names)
    {table : SymbolTable}
    {text : String}
    (grows : (table.intern text).2.Grows grown) :
    grown.knows (table.intern text).1 ∧ rename (table.intern text).1 = names text := by
  have known := grows.knows (table.knows_intern text)
  exact ⟨known, by rw [agree _ known, SymbolTable.display_intern grows]⟩

theorem rename_internAll
    (agree : Names grown rename names)
    {table : SymbolTable}
    {texts : List String}
    (grows : (table.internAll texts).2.Grows grown) :
    (∀ symbol ∈ (table.internAll texts).1, grown.knows symbol) ∧
      (table.internAll texts).1.map rename = texts.map names := by
  obtain ⟨shown, known⟩ := table.display_internAll texts
  have knownLater : ∀ symbol ∈ (table.internAll texts).1, grown.knows symbol :=
    fun symbol isInterned => grows.knows (known symbol isInterned)
  refine ⟨knownLater, ?_⟩
  calc (table.internAll texts).1.map rename
      = (table.internAll texts).1.map (names ∘ (table.internAll texts).2.display) := by
        refine List.map_congr_left fun symbol isInterned => ?_
        rw [agree symbol (knownLater symbol isInterned),
          grows.display_eq (known symbol isInterned)]
        rfl
    _ = texts.map names := by rw [← List.map_map, shown]

theorem Becomes.all
    {exprs planned : List Expr}
    (become : List.Forall₂ (Becomes grown rename) exprs planned) :
    (∀ expr ∈ exprs, ∀ symbol ∈ expr.symbols, grown.knows symbol) ∧
      exprs.map (Expr.mapSymbols rename) = planned := by
  induction become with
  | nil => exact ⟨nofun, rfl⟩
  | cons first rest inductionHypothesis =>
      obtain ⟨known, mapped⟩ := inductionHypothesis
      exact ⟨List.forall_mem_cons.mpr ⟨first.1, known⟩, by rw [List.map_cons, first.2, mapped]⟩

theorem Becomes.refill
    {expr : Expr}
    {exprs exprs' : List Expr}
    (known : ∀ symbol ∈ expr.localSymbols, grown.knows symbol)
    (fits : exprs.length = expr.children.length)
    (become : List.Forall₂ (Becomes grown rename) exprs exprs') :
    Becomes grown rename (expr.refill exprs) ((expr.mapSymbols rename).refill exprs') := by
  obtain ⟨knownInside, mapped⟩ := Becomes.all become
  constructor
  · rw [Expr.symbols_refill expr fits]
    intro symbol member
    rcases List.mem_append.mp member with own | inside
    · exact known symbol own
    · obtain ⟨inner, isChild, inChild⟩ := List.mem_flatMap.mp inside
      exact knownInside inner isChild symbol inChild
  · rw [Expr.mapSymbols_refill rename expr fits, mapped]

theorem Becomes.expand
    (agree : Names grown rename names)
    {progress : Progress}
    {issued : Nat}
    (follows : Reached start progress issued)
    (path : Path)
    {expr planned : Expr}
    (marked : expr.isMarkedAccess)
    (last : (expand path expr progress).2.table.Grows grown)
    (become : Becomes grown rename expr planned) :
    Becomes grown rename (expand path expr progress).1
      (planned.expandAccess (names (FreshNames.supply start issued))) := by
  obtain ⟨known, renamed⟩ : grown.knows (progress.names.fresh progress.table).1 ∧
      rename (progress.names.fresh progress.table).1 =
        names (FreshNames.supply start issued) := by
    have grows : (progress.names.fresh progress.table).2.2.Grows grown := last
    rw [follows.fresh_eq] at grows ⊢
    exact rename_intern agree grows
  constructor
  · intro symbol member
    rcases List.mem_append.mp ((Expr.symbols_expandAccess _ marked).mem_iff.mp member) with
      isTemp | inAccess
    · simp only [List.mem_cons, List.not_mem_nil, or_false, or_self] at isTemp
      rw [isTemp]
      exact known
    · exact become.1 symbol inAccess
  · rw [← become.2, ← renamed]
    exact expr.mapSymbols_expandAccess rename (progress.names.fresh progress.table).1

theorem wrap_apply (path : Path) {expr : Expr} (isLiteral : expr.isArray) (progress : Progress) :
    (wrap path expr progress).1 =
        expr.wrappedBy (progress.table.internAll Expr.checkedArrayPath).1 ∧
      (wrap path expr progress).2.table =
        (progress.table.internAll Expr.checkedArrayPath).2 ∧
      (wrap path expr progress).2.names = progress.names := by
  unfold wrap
  rw [Expr.wrapArray_eq progress.table isLiteral]
  exact ⟨rfl, rfl, rfl⟩

theorem Becomes.wrap
    (agree : Names grown rename names)
    (path : Path)
    {expr planned : Expr}
    (isLiteral : expr.isArray)
    {progress : Progress}
    (last : (wrap path expr progress).2.table.Grows grown)
    (become : Becomes grown rename expr planned) :
    Becomes grown rename (Rewrite.wrap path expr progress).1
      (planned.wrappedBy (Expr.checkedArrayPath.map names)) := by
  obtain ⟨wrapped, table, -⟩ := wrap_apply path isLiteral progress
  rw [table] at last
  obtain ⟨known, renamed⟩ := rename_internAll agree last
  rw [wrapped]
  constructor
  · rw [Expr.symbols_wrappedBy _ isLiteral]
    intro symbol member
    exact (List.mem_append.mp member).elim (known symbol) (become.1 symbol)
  · rw [Expr.mapSymbols_wrappedBy rename _ isLiteral, become.2, renamed]

theorem Reached.wrap
    {progress : Progress}
    {issued : Nat}
    (follows : Reached start progress issued)
    (path : Path)
    {expr : Expr}
    (isLiteral : expr.isArray) :
    Reached start (Rewrite.wrap path expr progress).2 issued := by
  obtain ⟨-, table, sameNames⟩ := wrap_apply path isLiteral progress
  unfold Reached
  rw [table, sameNames]
  refine FreshNames.Follows.internAll follows fun text isSegment number => ?_
  refine FreshNames.candidate_ne number ?_
  revert text
  decide

theorem inStep_node
    (agree : Names grown rename names)
    (path : Path)
    (features : FeatureSet)
    {inner : Expr}
    {exprs exprs' : List Expr}
    (known : ∀ symbol ∈ inner.localSymbols, start.knows symbol)
    (fits : exprs.length = inner.children.length) :
    InStep (Reached start) (fun progress => progress.table.Grows grown)
      (fun result result' =>
        List.Forall₂ (Becomes grown rename) exprs exprs' → Becomes grown rename result result')
      (node path features (inner.refill exprs))
      ((planFrom start names).node features ((inner.mapSymbols rename).refill exprs')) := by
  intro progress issued follows
  have growing := grows_node path features (inner.refill exprs) progress
  suffices acts : Reached start (node path features (inner.refill exprs) progress).2
        ((planFrom start names).node features ((inner.mapSymbols rename).refill exprs') issued).2 ∧
      ((node path features (inner.refill exprs) progress).2.table.Grows grown →
        Becomes grown rename (inner.refill exprs) ((inner.mapSymbols rename).refill exprs') →
        Becomes grown rename (node path features (inner.refill exprs) progress).1
          ((planFrom start names).node features
            ((inner.mapSymbols rename).refill exprs') issued).1) by
    refine ⟨acts.1, fun last => ⟨growing.trans last, fun become => acts.2 last ?_⟩⟩
    exact Becomes.refill (fun symbol own =>
      ((follows.grows.trans growing).trans last).knows (known symbol own)) fits become
  unfold node Plan.node
  simp only [Expr.isMarkedAccess_refill, Expr.isArray_refill, Expr.isMarkedAccess_mapSymbols,
    Expr.isArray_mapSymbols]
  split
  next marked =>
    have isMarked : (inner.refill exprs).isMarkedAccess := by
      rwa [Expr.isMarkedAccess_refill]
    split
    next on => exact ⟨follows.fresh, Becomes.expand agree follows path isMarked⟩
    next off => exact ⟨follows, fun _ become => become⟩
  next unmarked =>
    split
    next wraps =>
      have isLiteral : (inner.refill exprs).isArray := by
        rw [Expr.isArray_refill]
        exact (Bool.and_eq_true_iff.mp wraps).2
      exact ⟨follows.wrap path isLiteral, Becomes.wrap agree path isLiteral⟩
    next plain => exact ⟨follows, fun _ become => become⟩

theorem inStep_body
    (agree : Names grown rename names)
    (path : Path)
    (features : FeatureSet)
    {expr : Expr}
    (known : ∀ symbol ∈ expr.symbols, start.knows symbol) :
    InStep (Reached start) (fun progress => progress.table.Grows grown) (Becomes grown rename)
      (body path features expr)
      ((expr.mapSymbols rename).mapUp ((planFrom start names).node features)) := by
  refine InStep.mapUp (Expr.children_mapSymbols rename) expr ?_
  intro inner isInner exprs exprs' fits
  exact inStep_node agree path features
    (fun symbol own => known symbol (Expr.localSymbols_subset isInner own)) fits

theorem symbols_check (symbols : GuardSymbols) (param : Param) :
    (symbols.check param).symbols =
      [param.name, symbols.module, symbols.entry, param.name, symbols.function] := rfl

/-- The symbols that guards call and pass on are known from then on, and replaced by those
of the plan. -/
theorem rename_guardSymbols
    (agree : Names grown rename names)
    {table : SymbolTable}
    {path : Path}
    (grows : (GuardSymbols.intern table path).2.Grows grown) :
    let symbols := (GuardSymbols.intern table path).1
    (∀ symbol ∈ [symbols.module, symbols.entry, symbols.function], grown.knows symbol) ∧
      GuardSymbols.mk (rename symbols.module) (rename symbols.entry) (rename symbols.function) =
        ⟨names EntryPoint.module, names EntryPoint.guardFailure, names path.text⟩ := by
  have growing : ∀ (table : SymbolTable) (text : String), table.Grows (table.intern text).2 :=
    fun table text => table.extendsBy_intern text fun _ => trivial
  have fromEntry := (growing _ path.text).trans grows
  have fromModule := (growing _ EntryPoint.guardFailure).trans fromEntry
  obtain ⟨knownModule, module⟩ := rename_intern agree fromModule
  obtain ⟨knownEntry, entry⟩ := rename_intern agree fromEntry
  obtain ⟨knownFunction, function⟩ := rename_intern agree grows
  refine ⟨?_, ?_⟩
  · simp only [List.forall_mem_cons, List.not_mem_nil, false_implies, implies_true, and_true]
    exact ⟨knownModule, knownEntry, knownFunction⟩
  · exact congr (congr (congrArg GuardSymbols.mk module) entry) function

theorem Becomes.guardBody
    (agree : Names grown rename names)
    (path : Path)
    {guarded : List Param}
    (knownParams : ∀ param ∈ guarded, grown.knows param.name)
    {body planned : Expr}
    {progress : Progress}
    (last : (guardBody path guarded body progress).2.table.Grows grown)
    (become : Becomes grown rename body planned) :
    Becomes grown rename (Rewrite.guardBody path guarded body progress).1
      ((planFrom start names).guardBody path (guarded.map (Param.mapSymbols rename)) planned) := by
  unfold Rewrite.guardBody at last ⊢
  unfold Plan.guardBody
  rw [List.isEmpty_map]
  split at last
  next none => rwa [if_pos none, if_pos none]
  next some =>
    rw [if_neg some, if_neg some]
    obtain ⟨known, renamed⟩ := rename_guardSymbols agree last
    constructor
    · intro symbol member
      rcases List.mem_append.mp ((Expr.symbols_precededBy _ body).mem_iff.mp member) with
        inChecks | inBody
      · obtain ⟨stmt, isCheck, inStmt⟩ := List.mem_flatMap.mp inChecks
        obtain ⟨param, isGuarded, rfl⟩ := List.mem_map.mp isCheck
        rw [symbols_check] at inStmt
        have knownParam := knownParams param isGuarded
        simp only [List.forall_mem_cons] at known
        simp only [List.mem_cons, List.not_mem_nil, or_false] at inStmt
        grind
      · exact become.1 symbol inBody
    · have planned : (planFrom start names).guardSymbols path =
          ⟨names EntryPoint.module, names EntryPoint.guardFailure, names path.text⟩ := rfl
      rw [Expr.mapSymbols_precededBy, become.2, List.map_map, List.map_map, planned, ← renamed]
      rfl

theorem Reached.guardBody
    {progress : Progress}
    {issued : Nat}
    (follows : Reached start progress issued)
    {path : Path}
    (harmless : ∀ number, FreshNames.candidate number = path.text →
      start.find? path.text ≠ none)
    (guarded : List Param)
    (body : Expr) :
    Reached start (Rewrite.guardBody path guarded body progress).2 issued := by
  have notEntry : ∀ text : String, text.toList.head? ≠ some '_' → ∀ number,
      FreshNames.candidate number = text → start.find? text ≠ none :=
    fun text other number same => absurd same (FreshNames.candidate_ne number other)
  unfold Rewrite.guardBody
  split
  · exact follows
  · exact ((FreshNames.Follows.intern follows (notEntry EntryPoint.module (by decide))).intern
      (notEntry EntryPoint.guardFailure (by decide))).intern harmless

theorem inStep_task
    (agree : Names grown rename names)
    {task : Task}
    (fits : task.Fits start) :
    InStep (Reached start) (fun progress => progress.table.Grows grown) (Becomes grown rename)
      (Rewrite.task task) ((planFrom start names).task (task.mapSymbols rename)) := by
  have walk := inStep_body agree task.path task.features fits.body
  have parts : ∀ (progress : Progress) (issued : Nat), Reached start progress issued →
      Reached start
          (guardBody task.path task.guarded (body task.path task.features task.body progress).1
            (body task.path task.features task.body progress).2).2
          ((planFrom start names).task (task.mapSymbols rename) issued).2 ∧
        ((guardBody task.path task.guarded (body task.path task.features task.body progress).1
            (body task.path task.features task.body progress).2).2.table.Grows grown →
          progress.table.Grows grown ∧
            Becomes grown rename
              (guardBody task.path task.guarded
                (body task.path task.features task.body progress).1
                (body task.path task.features task.body progress).2).1
              ((planFrom start names).task (task.mapSymbols rename) issued).1) := by
    intro progress issued follows
    obtain ⟨walked, related⟩ := walk progress issued follows
    refine ⟨walked.guardBody fits.path _ _, fun last => ?_⟩
    obtain ⟨before, become⟩ := related ((grows_guardBody _ _ _ _).trans last)
    refine ⟨before, become.guardBody agree task.path (fun param isGuarded => ?_) last⟩
    exact (follows.grows.trans before).knows
      (fits.guarded param isGuarded param.name List.mem_cons_self)
  intro progress issued follows
  unfold Rewrite.task
  split
  · exact parts (progress.log (.idle task.path)) issued follows
  · exact parts progress issued follows

end

end Rewrite

theorem Task.Fits.mapSymbols_congr
    {table : SymbolTable}
    {task : Task}
    (fits : task.Fits table)
    {rename rename' : Symbol → Symbol}
    (agree : ∀ symbol, table.knows symbol → rename symbol = rename' symbol) :
    task.mapSymbols rename = task.mapSymbols rename' := by
  have guarded : task.guarded.map (Param.mapSymbols rename) =
      task.guarded.map (Param.mapSymbols rename') :=
    List.map_congr_left fun param isGuarded => param.mapSymbols_congr fun symbol member =>
      agree symbol (fits.guarded param isGuarded symbol member)
  unfold Task.mapSymbols
  rw [guarded, task.body.mapSymbols_congr fun symbol member => agree symbol (fits.body symbol member)]

namespace SourceUnit

section

variable
  {set : ActivationSet}
  {start grown : SymbolTable}
  {unit : SourceUnit}
  {rename : Symbol → Symbol}
  {names : String → Symbol}

/-- What the plan of a rewriting from `start` makes of the expressions of a unit, and how
many temporaries it uses. -/
noncomputable def planned
    (set : ActivationSet)
    (start : SymbolTable)
    (rename : Symbol → Symbol)
    (names : String → Symbol)
    (unit : SourceUnit) :
    List Expr × Nat :=
  ((unit.tasks set start).map (Task.mapSymbols rename)).mapM (Rewrite.planFrom start names).task 0

theorem length_planned (unit : SourceUnit) :
    (unit.planned set start rename names).1.length = unit.bodies.length := by
  rw [planned, length_mapM, List.length_map, ← unit.map_body_tasks set start, List.length_map]

/-- For the plan only what is put in place of the symbols of the unit matters. -/
theorem planned_congr
    (set : ActivationSet)
    (names : String → Symbol)
    {base : SymbolTable}
    (grows : base.Grows start)
    (resolves : unit.resolves base)
    {rename' : Symbol → Symbol}
    (agree : ∀ symbol, base.knows symbol → rename symbol = rename' symbol) :
    unit.mapSymbols rename = unit.mapSymbols rename' ∧
      unit.planned set start rename names = unit.planned set start rename' names := by
  refine ⟨unit.mapSymbols_congr fun symbol member =>
    agree symbol ((resolves_iff unit).mp resolves symbol member), ?_⟩
  unfold planned
  rw [tasks_eq grows resolves, List.map_congr_left fun task isTask =>
    (tasks_fit set resolves task isTask).mapSymbols_congr agree]

theorem performed_becomes
    (resolves : unit.resolves start)
    (agree : Names grown rename names) :
    Rewrite.Reached start (unit.performed set start).2
        (unit.planned set start rename names).2 ∧
      ((unit.performed set start).2.table.Grows grown →
        List.Forall₂ (Rewrite.Becomes grown rename) (unit.performed set start).1
          (unit.planned set start rename names).1) := by
  have each := InStep.mapM (unit.tasks set start) fun task isTask =>
    Rewrite.inStep_task agree (unit.tasks_fit set resolves task isTask)
  obtain ⟨reached, become⟩ := each (.start start) 0 (.refl start)
  unfold performed planned
  rw [List.mapM_map]
  exact ⟨reached, fun last => (become last).2⟩

/-- Rewriting a unit leaves only symbols that later tables know. Once they are replaced by
what stands for their names, it comes to the planned walk over the unit with its symbols
so replaced. -/
theorem rewrite_planned
    (resolves : unit.resolves start)
    (grows : (unit.rewrite set start).table.Grows grown)
    (agree : Names grown rename names) :
    (unit.rewrite set start).unit.resolves grown ∧
      (unit.rewrite set start).unit.mapSymbols rename =
        (unit.mapSymbols rename).withBodies (unit.planned set start rename names).1 := by
  obtain ⟨sameUnit, sameTable, -⟩ := rewrite_apply set resolves
  rw [sameTable] at grows
  obtain ⟨known, mapped⟩ := Rewrite.Becomes.all ((performed_becomes resolves agree).2 grows)
  have growing : start.Grows grown :=
    (grows_rewrite set resolves).trans (sameTable ▸ grows)
  rw [sameUnit]
  constructor
  · rw [resolves_iff, symbols_withBodies unit (unit.length_performed set start)]
    intro symbol member
    rcases List.mem_append.mp member with inHead | inBody
    · exact growing.knows ((resolves_iff unit).mp resolves symbol (List.mem_append_left _ inHead))
    · obtain ⟨body, isBody, inBody⟩ := List.mem_flatMap.mp inBody
      exact known body isBody symbol inBody
  · rw [mapSymbols_withBodies, mapped]

end

end SourceUnit

/-! ### In the symbols of a later table -/

theorem Names.own (grown : SymbolTable) : Names grown id grown.symbolOf := by
  intro symbol known
  refine ((SymbolTable.symbolOf_eq_iff known).mpr ?_).symm
  exact SymbolTable.name?_of_find? (SymbolTable.find?_display known)

theorem Task.mapSymbols_id (task : Task) : task.mapSymbols id = task := by
  unfold mapSymbols
  rw [funext Param.mapSymbols_id, List.map_id', task.body.mapSymbols_id]

/-- Rewriting a unit is the planned walk over it in the symbols of any later table. -/
theorem SourceUnit.rewrite_own
    {set : ActivationSet}
    {start grown : SymbolTable}
    {unit : SourceUnit}
    (resolves : unit.resolves start)
    (later : (unit.rewrite set start).table.Grows grown) :
    (unit.rewrite set start).unit.resolves grown ∧
      (unit.rewrite set start).unit = unit.withBodies
        ((unit.tasks set start).mapM (Rewrite.planFrom start grown.symbolOf).task 0).1 := by
  obtain ⟨resolvesLater, planned⟩ := rewrite_planned resolves later (Names.own grown)
  unfold SourceUnit.planned at planned
  rw [mapSymbols_id, mapSymbols_id, funext Task.mapSymbols_id, List.map_id'] at planned
  exact ⟨resolvesLater, planned⟩

/-- A rewritten unit resolves in the table that rewriting leaves behind. -/
theorem SourceUnit.resolves_rewrite
    (set : ActivationSet)
    {table : SymbolTable}
    {unit : SourceUnit}
    (resolves : unit.resolves table) :
    (unit.rewrite set table).unit.resolves (unit.rewrite set table).table :=
  (rewrite_own resolves (.refl _)).1

end NilSafety
