import NilSafety.Proofs.Rewriting.Units
import NilSafety.Proofs.Symbols.Supply
import NilSafety.Proofs.Tree.Names

/-!
Contract: the rewriting of a unit as a list of tasks.

Owns:
- the tasks of a unit: one for every function and every constant, with the decisions
  that settings and notes imply for it;
- that rewriting the declarations of a unit performs its tasks one after another and
  puts what becomes of the expressions in their places;
- that these decisions are the same under every table that grew from one in which the
  unit resolves.

Does not own: what a task does to an expression.
-/

namespace NilSafety

/-- What rewriting has to do with one expression of a unit: the body of a function or
the value of a constant. -/
structure Task where
  path : Path
  isFunction : Bool
  features : FeatureSet
  /-- The parameters to guard, none where guards are off. -/
  guarded : List Param
  body : Expr

/-- The task for another expression in the same place. -/
def Task.withBody (task : Task) (body : Expr) : Task :=
  { task with body }

theorem Task.withBody_withBody (task : Task) (body other : Expr) :
    (task.withBody body).withBody other = task.withBody other := rfl

/-- The task for a function. -/
def Member.task (set : ActivationSet) (table : SymbolTable) (member : Member) : Task where
  path := member.place.path
  isFunction := true
  features := set.featuresAt member.place
  guarded := if set.guards member then member.function.guardedParams table else []
  body := member.function.body

/-- The task for a constant. -/
def Placement.valueTask (set : ActivationSet) (place : Placement) (value : Expr) : Task where
  path := place.path
  isFunction := false
  features := set.featuresAt place
  guarded := []
  body := value

section

variable (set : ActivationSet) (table : SymbolTable)

/-- The tasks for a declaration of a unit in `package`. -/
def Decl.tasks (package : Path) : Decl → List Task
  | constant name _ value _ _ =>
      [(Placement.item package (table.display name)).valueTask set value]
  | other => (other.members table package).map (Member.task set table)

/-- The tasks for a unit, in the order of its declarations. -/
def SourceUnit.tasks (unit : SourceUnit) : List Task :=
  unit.decls.flatMap (Decl.tasks set table unit.package)

end

theorem Decl.map_body_tasks
    (set : ActivationSet)
    (table : SymbolTable)
    (package : Path)
    (decl : Decl) :
    (decl.tasks set table package).map Task.body = decl.bodies := by
  cases decl with
  | function | constant => rfl
  | record | extension =>
      simp only [Decl.tasks, Decl.members, List.map_map]
      rfl

/-! ### Performing tasks -/

section

variable {σ α β : Type}

theorem mapM_cons_apply (step : α → StateM σ β) (first : α) (rest : List α) (state : σ) :
    (first :: rest).mapM step state =
      ((step first state).1 :: (rest.mapM step (step first state).2).1,
        (rest.mapM step (step first state).2).2) := by
  rw [List.mapM_cons]
  rfl

/-- A step for every item of a list yields one result an item. -/
theorem length_mapM (step : α → StateM σ β) (items : List α) (state : σ) :
    (items.mapM step state).1.length = items.length := by
  induction items generalizing state with
  | nil => rfl
  | cons first rest inductionHypothesis =>
      rw [mapM_cons_apply]
      exact congrArg Nat.succ (inductionHypothesis _)

/-- What can be said of each result whatever the state can be said of all. -/
theorem map_mapM
    {γ : Type}
    {view : β → γ}
    {image : α → γ}
    {step : α → StateM σ β}
    (each : ∀ item state, view (step item state).1 = image item)
    (items : List α)
    (state : σ) :
    (items.mapM step state).1.map view = items.map image := by
  induction items generalizing state with
  | nil => rfl
  | cons first rest inductionHypothesis =>
      rw [mapM_cons_apply, List.map_cons, each, inductionHypothesis, List.map_cons]

theorem mapM_append (step : α → StateM σ β) (items others : List α) (state : σ) :
    (items ++ others).mapM step state =
      ((items.mapM step state).1 ++ (others.mapM step (items.mapM step state).2).1,
        (others.mapM step (items.mapM step state).2).2) := by
  rw [List.mapM_append]
  rfl

end

namespace Rewrite

/-- Puts guards for parameters in front of a body. -/
def guardBody (path : Path) (guarded : List Param) (body : Expr) : Rewrite Expr :=
  fun progress =>
    if guarded.isEmpty then (body, progress)
    else
      let (symbols, table) := GuardSymbols.intern progress.table path
      let counts := { progress.counts with
        guards := progress.counts.guards + guarded.length
        guardedFunctions := progress.counts.guardedFunctions + 1 }
      (body.precededBy (guarded.map symbols.check),
        { progress with table, counts }.log (.guarded path guarded.length))

/-- Performs a task: walks over the expression, then puts the guards in place. -/
def task (task : Task) : Rewrite Expr := fun progress =>
  let start :=
    if task.isFunction && task.features.isEmpty then progress.log (.idle task.path) else progress
  let (body, progress) := body task.path task.features task.body start
  guardBody task.path task.guarded body progress

/-! ### Tables grow -/

theorem grows_node (declaration : Path) (features : FeatureSet) (expr : Expr)
    (progress : Progress) :
    progress.table.Grows (node declaration features expr progress).2.table :=
  (node_advancing declaration features expr progress).table.imp fun _ _ => trivial

theorem grows_body (declaration : Path) (features : FeatureSet) (expr : Expr)
    (progress : Progress) :
    progress.table.Grows (body declaration features expr progress).2.table := by
  refine Expr.mapUp_keeps (fun later => progress.table.Grows later.table) ?_ expr progress (.refl _)
  exact fun inner later grows => grows.trans (grows_node declaration features inner later)

theorem grows_guardBody (path : Path) (guarded : List Param) (body : Expr)
    (progress : Progress) :
    progress.table.Grows (guardBody path guarded body progress).2.table := by
  unfold guardBody
  split
  · exact .refl _
  · have grows : ∀ (table : SymbolTable) (text : String), table.Grows (table.intern text).2 :=
      fun table text => table.extendsBy_intern text fun _ => trivial
    exact ((grows _ _).trans (grows _ _)).trans (grows _ _)

theorem grows_task (task : Task) (progress : Progress) :
    progress.table.Grows (Rewrite.task task progress).2.table := by
  have walked := grows_body task.path task.features task.body
    (if task.isFunction && task.features.isEmpty then progress.log (.idle task.path) else progress)
  have same : (if task.isFunction && task.features.isEmpty then progress.log (.idle task.path)
      else progress).table = progress.table := by split <;> rfl
  rw [same] at walked
  exact walked.trans (grows_guardBody _ _ _ _)

theorem grows_tasks (tasks : List Task) (progress : Progress) :
    progress.table.Grows (tasks.mapM Rewrite.task progress).2.table := by
  induction tasks generalizing progress with
  | nil => exact .refl _
  | cons first rest inductionHypothesis =>
      rw [List.mapM_cons]
      exact (grows_task first progress).trans (inductionHypothesis _)

/-! ### Declarations -/

section

variable {table : SymbolTable} (set : ActivationSet)

omit set in
theorem guards_apply
    {path : Path}
    {f : Function}
    {guarded : List Param}
    {progress : Progress}
    (same : f.guardedParams progress.table = guarded) :
    guards path f progress =
      (f.withBody (guardBody path guarded f.body progress).1,
        (guardBody path guarded f.body progress).2) := by
  unfold guards guardBody Function.withGuards
  cases guarded with
  | nil => simp [same, Function.withBody]
  | cons param rest => simp [same, Function.withBody]

/-- A function is walked over, then guarded or left as it came out. -/
theorem function_eq (member : Member) (progress : Progress) :
    function set member.place member.ownerExposed member.function progress =
      let start := if (set.featuresAt member.place).isEmpty then
        progress.log (.idle member.place.path) else progress
      let walked := body member.place.path (set.featuresAt member.place) member.function.body start
      (if set.guards member then guards member.place.path (member.function.withBody walked.1)
        else pure (member.function.withBody walked.1)) walked.2 := by
  obtain ⟨place, ownerExposed, f⟩ := member
  unfold function
  cases (set.featuresAt place).isEmpty <;> rfl

theorem function_apply
    (member : Member)
    (resolves : member.function.resolves table)
    {progress : Progress}
    (grows : table.Grows progress.table) :
    function set member.place member.ownerExposed member.function progress =
      (member.function.withBody (Rewrite.task (member.task set table) progress).1,
        (Rewrite.task (member.task set table) progress).2) := by
  rw [function_eq]
  unfold Rewrite.task Member.task
  simp only [Bool.true_and]
  have growsStart : table.Grows (if (set.featuresAt member.place).isEmpty then
      progress.log (.idle member.place.path) else progress).table := by
    split
    · exact grows
    · exact grows
  generalize (if (set.featuresAt member.place).isEmpty then
      progress.log (.idle member.place.path) else progress) = start at growsStart ⊢
  have walked := growsStart.trans (grows_body member.place.path (set.featuresAt member.place)
    member.function.body start)
  split
  · exact guards_apply (Function.guardedParams_eq walked (Function.resolves_parts resolves).2.1)
  · rfl

theorem methods_apply
    (package : Path)
    (owner : String)
    (ownerExposed : Bool)
    (members : List Function)
    (resolve : ∀ f ∈ members, f.resolves table)
    {progress : Progress}
    (grows : table.Grows progress.table) :
    let tasks := members.map fun f =>
      (Member.mk (.method package owner (table.display f.name)) ownerExposed f).task set table
    methods set package owner ownerExposed members progress =
      (members.zipWith Function.withBody (tasks.mapM Rewrite.task progress).1,
        (tasks.mapM Rewrite.task progress).2) := by
  induction members generalizing progress with
  | nil => rfl
  | cons f rest inductionHypothesis =>
      have resolves := resolve f List.mem_cons_self
      have shown := grows.display_eq (Function.resolves_parts resolves).1
      have first := function_apply set
        ⟨.method package owner (table.display f.name), ownerExposed, f⟩ resolves grows
      have others := inductionHypothesis
        (fun other member => resolve other (List.mem_cons_of_mem f member))
        (grows.trans (grows_task
          ((Member.mk (.method package owner (table.display f.name)) ownerExposed f).task set table)
          progress))
      have unfolded : methods set package owner ownerExposed (f :: rest) progress =
          ((function set (.method package owner (progress.table.display f.name)) ownerExposed f
                progress).1 ::
              (methods set package owner ownerExposed rest
                (function set (.method package owner (progress.table.display f.name)) ownerExposed f
                  progress).2).1,
            (methods set package owner ownerExposed rest
              (function set (.method package owner (progress.table.display f.name)) ownerExposed f
                progress).2).2) := rfl
      rw [unfolded, shown, first, others]
      dsimp only
      rw [List.map_cons, List.mapM_cons]
      rfl

theorem decl_apply
    (package : Path)
    {decl : Decl}
    (resolves : decl.resolves table)
    {progress : Progress}
    (grows : table.Grows progress.table) :
    Rewrite.decl set package decl progress =
      (decl.withBodies ((decl.tasks set table package).mapM Rewrite.task progress).1,
        ((decl.tasks set table package).mapM Rewrite.task progress).2) := by
  simp only [Decl.resolves, Bool.and_eq_true, List.all_eq_true] at resolves
  obtain ⟨⟨named, functions⟩, -⟩ := resolves
  cases decl with
  | function f =>
      have shown : progress.table.display f.name = table.display f.name := grows.display_eq named
      have first := function_apply set ⟨.item package (table.display f.name), true, f⟩
        (functions f List.mem_cons_self) grows
      have tasks : (Decl.function f).tasks set table package =
          [(Member.mk (.item package (table.display f.name)) true f).task set table] := rfl
      have unfolded : Rewrite.decl set package (.function f) progress =
          (.function (function set (.item package (progress.table.display f.name)) true f
              progress).1,
            (function set (.item package (progress.table.display f.name)) true f progress).2) := rfl
      rw [unfolded, shown, first, tasks, List.mapM_cons, List.mapM_nil]
      rfl
  | record name fields members visibility span =>
      have shown : progress.table.display name = table.display name := grows.display_eq named
      have each := methods_apply set package (table.display name) (visibility = .exposed) members
        functions grows
      have tasks : (Decl.record name fields members visibility span).tasks set table package =
          members.map fun f => (Member.mk (.method package (table.display name)
            (table.display f.name)) (visibility = .exposed) f).task set table := List.map_map
      have unfolded : Rewrite.decl set package (.record name fields members visibility span)
            progress =
          (.record name fields (methods set package (progress.table.display name)
              (visibility = .exposed) members progress).1 visibility span,
            (methods set package (progress.table.display name)
              (visibility = .exposed) members progress).2) := rfl
      rw [unfolded, shown, each, tasks]
      rfl
  | extension name members span =>
      have shown : progress.table.display name = table.display name := grows.display_eq named
      have each := methods_apply set package (table.display name) true members functions grows
      have tasks : (Decl.extension name members span).tasks set table package =
          members.map fun f => (Member.mk (.method package (table.display name)
            (table.display f.name)) true f).task set table := List.map_map
      have unfolded : Rewrite.decl set package (.extension name members span) progress =
          (.extension name (methods set package (progress.table.display name) true members
              progress).1 span,
            (methods set package (progress.table.display name) true members progress).2) := rfl
      rw [unfolded, shown, each, tasks]
      rfl
  | constant name note value visibility span =>
      have shown : progress.table.display name = table.display name := grows.display_eq named
      have tasks : (Decl.constant name note value visibility span).tasks set table package =
          [(Placement.item package (table.display name)).valueTask set value] := rfl
      have unfolded : Rewrite.decl set package (.constant name note value visibility span)
            progress =
          (.constant name note
              (Rewrite.task ((Placement.item package (progress.table.display name)).valueTask set
                value) progress).1 visibility span,
            (Rewrite.task ((Placement.item package (progress.table.display name)).valueTask set
              value) progress).2) := rfl
      rw [unfolded, shown, tasks, List.mapM_cons, List.mapM_nil]
      rfl

/-- Rewriting declarations performs their tasks in order. -/
theorem decls_apply
    (package : Path)
    {decls : List Decl}
    (resolve : ∀ decl ∈ decls, decl.resolves table)
    {progress : Progress}
    (grows : table.Grows progress.table) :
    Rewrite.decls set package decls progress =
      (refillEach Decl.bodies Decl.withBodies decls
          ((decls.flatMap (Decl.tasks set table package)).mapM Rewrite.task progress).1,
        ((decls.flatMap (Decl.tasks set table package)).mapM Rewrite.task progress).2) := by
  induction decls generalizing progress with
  | nil => rfl
  | cons decl rest inductionHypothesis =>
      have first := decl_apply set package (resolve decl List.mem_cons_self) grows
      have others := inductionHypothesis
        (fun other member => resolve other (List.mem_cons_of_mem decl member))
        (grows.trans (grows_tasks (decl.tasks set table package) progress))
      have room : ((decl.tasks set table package).mapM Rewrite.task progress).1.length =
          decl.bodies.length := by
        rw [length_mapM, ← Decl.map_body_tasks set table package, List.length_map]
      have unfolded : Rewrite.decls set package (decl :: rest) progress =
          ((Rewrite.decl set package decl progress).1 ::
              (Rewrite.decls set package rest (Rewrite.decl set package decl progress).2).1,
            (Rewrite.decls set package rest (Rewrite.decl set package decl progress).2).2) := rfl
      rw [unfolded, first, others, List.flatMap_cons, mapM_append, refillEach, ← room,
        List.take_left, List.drop_left]

end

end Rewrite

namespace SourceUnit

variable (set : ActivationSet) (table : SymbolTable) (unit : SourceUnit)

/-- What performing the tasks of a unit comes to. -/
def performed : List Expr × Progress :=
  (unit.tasks set table).mapM Rewrite.task (.start table)

theorem map_body_tasks : (unit.tasks set table).map Task.body = unit.bodies := by
  unfold tasks bodies
  rw [List.map_flatMap, funext (Decl.map_body_tasks set table unit.package)]

theorem length_performed : (unit.performed set table).1.length = unit.bodies.length := by
  rw [performed, length_mapM, ← unit.map_body_tasks set table, List.length_map]

variable {table unit}

/-- Rewriting a unit performs its tasks, puts the expressions in their places, and
reports the problems or else the counts. -/
theorem rewrite_apply (resolves : unit.resolves table) :
    (unit.rewrite set table).unit = unit.withBodies (unit.performed set table).1 ∧
      (unit.rewrite set table).table = (unit.performed set table).2.table ∧
      (unit.rewrite set table).result =
        if (unit.performed set table).2.problems = [] then
          .ok (unit.performed set table).2.counts
        else .error (unit.performed set table).2.problems := by
  have ran : (Rewrite.decls set unit.package unit.decls).run (.start table) =
      ((unit.withBodies (unit.performed set table).1).decls, (unit.performed set table).2) :=
    Rewrite.decls_apply set unit.package (List.all_eq_true.mp resolves) (.refl table)
  unfold rewrite
  rw [ran]
  dsimp only
  split
  next none => exact ⟨rfl, rfl, by rw [if_pos none]⟩
  next some => exact ⟨rfl, rfl, by rw [if_neg some]⟩

theorem length_bodies_rewrite (resolves : unit.resolves table) :
    (unit.rewrite set table).unit.bodies.length = unit.bodies.length := by
  have room := unit.length_performed set table
  rw [(rewrite_apply set resolves).1, bodies_withBodies unit room, room]

theorem grows_rewrite (resolves : unit.resolves table) :
    table.Grows (unit.rewrite set table).table := by
  rw [(rewrite_apply set resolves).2.1]
  exact Rewrite.grows_tasks (unit.tasks set table) (.start table)

end SourceUnit

/-! ### What tasks mention -/

/-- The table knows the symbols of a task, and the text of its path if that could be
mistaken for a generated name. -/
structure Task.Fits (table : SymbolTable) (task : Task) : Prop where
  guarded : ∀ param ∈ task.guarded, ∀ symbol ∈ param.symbols, table.knows symbol
  body : ∀ symbol ∈ task.body.symbols, table.knows symbol
  path : ∀ number, FreshNames.candidate number = task.path.text →
    table.find? task.path.text ≠ none

/-- The path of a declaration reads like a generated name only if the declaration is
so named. -/
theorem Placement.find?_text
    {table : SymbolTable}
    {symbol : Symbol}
    {place : Placement}
    (named : table.knows symbol)
    (isName : place.name = table.display symbol)
    {number : Nat}
    (same : FreshNames.candidate number = place.path.text) :
    table.find? place.path.text ≠ none := by
  have isWord := FreshNames.dot_notMem_candidate number
  rw [same] at isWord
  rw [find?_text_of_word named isName isWord]
  exact Option.some_ne_none symbol

theorem Member.task_fits
    (set : ActivationSet)
    {table : SymbolTable}
    {member : Member}
    (resolves : member.function.resolves table)
    (isName : member.place.name = table.display member.function.name) :
    (member.task set table).Fits table where
  guarded := by
    unfold Member.task
    dsimp only
    split
    · intro param isGuarded symbol inParam
      have isParam := List.mem_of_mem_filter isGuarded
      exact (Function.resolves_iff _).mp resolves symbol (List.mem_append_left _
        (List.mem_append_left _ (List.mem_cons_of_mem _ (List.mem_flatMap_of_mem isParam inParam))))
    · intro param isGuarded
      cases isGuarded
  body := fun symbol inBody =>
    (Function.resolves_iff _).mp resolves symbol (List.mem_append_right _ inBody)
  path := fun _ => Placement.find?_text (Function.resolves_parts resolves).1 isName

theorem Decl.tasks_fit
    (set : ActivationSet)
    {table : SymbolTable}
    (package : Path)
    {decl : Decl}
    (resolves : decl.resolves table) :
    ∀ task ∈ decl.tasks set table package, task.Fits table := by
  have known := (Decl.resolves_iff decl).mp resolves
  simp only [Decl.resolves, Bool.and_eq_true, List.all_eq_true] at resolves
  obtain ⟨⟨named, functions⟩, -⟩ := resolves
  cases decl with
  | function f =>
      intro task isTask
      rw [List.mem_singleton.mp isTask]
      exact Member.task_fits set (functions f List.mem_cons_self) rfl
  | record name fields methods visibility span | extension name methods span =>
      intro task isTask
      obtain ⟨member, isMember, rfl⟩ := List.mem_map.mp isTask
      obtain ⟨f, isMethod, rfl⟩ := List.mem_map.mp isMember
      exact Member.task_fits set (functions f isMethod) rfl
  | constant name note value visibility span =>
      intro task isTask
      rw [List.mem_singleton.mp isTask]
      refine ⟨fun param isGuarded => absurd isGuarded List.not_mem_nil,
        fun symbol inValue => known symbol ?_, fun _ => Placement.find?_text named rfl⟩
      exact List.mem_append_right _ (List.mem_flatMap_of_mem List.mem_cons_self inValue)

theorem SourceUnit.tasks_fit
    (set : ActivationSet)
    {table : SymbolTable}
    {unit : SourceUnit}
    (resolves : unit.resolves table) :
    ∀ task ∈ unit.tasks set table, task.Fits table := by
  intro task isTask
  obtain ⟨decl, isDecl, inDecl⟩ := List.mem_flatMap.mp isTask
  exact Decl.tasks_fit set unit.package (List.all_eq_true.mp resolves decl isDecl) task inDecl

/-! ### Tasks of other tables and bodies -/

theorem Decl.tasks_eq
    {set : ActivationSet}
    {table later : SymbolTable}
    (grows : table.Grows later)
    (package : Path)
    {decl : Decl}
    (resolves : decl.resolves table) :
    decl.tasks set later package = decl.tasks set table package := by
  simp only [Decl.resolves, Bool.and_eq_true, List.all_eq_true] at resolves
  obtain ⟨⟨named, functions⟩, -⟩ := resolves
  have shown := grows.display_eq named
  have each : ∀ f ∈ decl.functions, later.display f.name = table.display f.name ∧
      f.guardedParams later = f.guardedParams table := by
    intro f isFunction
    obtain ⟨knownName, params, -⟩ := Function.resolves_parts (functions f isFunction)
    exact ⟨grows.display_eq knownName, Function.guardedParams_eq grows params⟩
  cases decl with
  | function f =>
      obtain ⟨sameName, sameParams⟩ := each f List.mem_cons_self
      simp only [Decl.tasks, Decl.members, Member.task, List.map_cons, List.map_nil, sameName,
        sameParams]
  | record name fields methods visibility span | extension name methods span =>
      have sameOwner : later.display name = table.display name := shown
      simp only [Decl.tasks, Decl.members, List.map_map]
      refine List.map_congr_left fun f isMethod => ?_
      obtain ⟨sameName, sameParams⟩ := each f isMethod
      simp only [Function.comp_apply, Member.task, sameOwner, sameName, sameParams]
  | constant name note value visibility span =>
      have sameName : later.display name = table.display name := shown
      simp only [Decl.tasks, sameName]

/-- What rewriting has to do with a unit in which the table knows all symbols does not
depend on what the table learns later. -/
theorem SourceUnit.tasks_eq
    {set : ActivationSet}
    {table later : SymbolTable}
    (grows : table.Grows later)
    {unit : SourceUnit}
    (resolves : unit.resolves table) :
    unit.tasks set later = unit.tasks set table := by
  unfold tasks
  rw [List.flatMap_def, List.flatMap_def, List.map_congr_left fun decl isDecl =>
    Decl.tasks_eq grows unit.package (List.all_eq_true.mp resolves decl isDecl)]

theorem Decl.tasks_withBodies
    (set : ActivationSet)
    (table : SymbolTable)
    (package : Path)
    (decl : Decl)
    {exprs : List Expr}
    (fits : exprs.length = decl.bodies.length) :
    (decl.withBodies exprs).tasks set table package =
      (decl.tasks set table package).zipWith Task.withBody exprs := by
  cases decl with
  | function | constant =>
      obtain ⟨body, rfl⟩ := List.length_eq_one_iff.mp fits
      rfl
  | record name fields methods visibility span | extension name methods span =>
      simp only [withBodies, Decl.tasks, Decl.members, List.map_map, List.map_zipWith,
        List.zipWith_map_left]
      rfl

/-- A unit over other bodies is to be rewritten in the same way. -/
theorem SourceUnit.tasks_withBodies
    (set : ActivationSet)
    (table : SymbolTable)
    (unit : SourceUnit)
    {exprs : List Expr}
    (fits : exprs.length = unit.bodies.length) :
    (unit.withBodies exprs).tasks set table =
      (unit.tasks set table).zipWith Task.withBody exprs := by
  obtain ⟨package, decls⟩ := unit
  unfold withBodies tasks
  unfold bodies at fits
  dsimp only at fits ⊢
  induction decls generalizing exprs with
  | nil => rfl
  | cons decl rest inductionHypothesis =>
      rw [List.flatMap_cons, List.length_append] at fits
      have first := length_take_of_eq_add fits
      have room : (decl.tasks set table package).length =
          (exprs.take decl.bodies.length).length := by
        rw [first, ← Decl.map_body_tasks set table package, List.length_map]
      rw [refillEach, List.flatMap_cons, List.flatMap_cons,
        Decl.tasks_withBodies set table package decl first,
        inductionHypothesis (length_drop_of_eq_add fits), ← List.zipWith_append room,
        List.take_append_drop]

end NilSafety
