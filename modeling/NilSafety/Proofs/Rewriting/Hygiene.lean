import NilSafety.Proofs.Rewriting.Builds
import NilSafety.Proofs.Rewriting.Expansions

/-!
Contract: temporaries over a whole build.

Owns:
- that the symbols of temporaries are new, and named as rewriting chooses;
- the expansions of a unit and of a build, and how often their temporaries occur;
- that no two expansions of a build share a temporary.

Does not own: what an expansion means.

Every unit counts its temporaries from zero. What keeps them apart is the table: those
of earlier units are in it, and a name that is in it is not free.
-/

namespace NilSafety

/-! ### Symbols of temporaries -/

/-- A symbol that `start` does not know, with a name in `grown` of the form that rewriting
chooses. -/
structure IsTemporary (start grown : SymbolTable) (symbol : Symbol) : Prop where
  isNew : start.knows symbol = false
  named : ∃ number, grown.name? symbol = some (FreshNames.candidate number)

namespace IsTemporary

variable {base start grown : SymbolTable} {symbol : Symbol}

theorem known (temporary : IsTemporary start grown symbol) : grown.knows symbol := by
  obtain ⟨number, named⟩ := temporary.named
  exact SymbolTable.knows_of_name? named

theorem of_grows (grows : base.Grows start) (temporary : IsTemporary start grown symbol) :
    IsTemporary base grown symbol where
  isNew := by
    by_contra known
    rw [Bool.not_eq_false] at known
    have := temporary.isNew
    rw [grows.knows known] at this
    cases this
  named := temporary.named

/-- Nothing but expansions puts a temporary into a tree. -/
theorem spared
    (grows : base.Grows grown)
    (temporary : IsTemporary base grown symbol)
    {task : Task}
    (fits : task.Fits base) :
    (Rewrite.planFrom start grown.symbolOf).Spares symbol task := by
  obtain ⟨number, named⟩ := temporary.named
  have absent := grows.find?_eq_none temporary.isNew named
  have notEntry : ∀ text : String, FreshNames.candidate number ≠ text →
      grown.symbolOf text ≠ symbol := by
    intro text other same
    rw [SymbolTable.symbolOf_eq_iff temporary.known, named, Option.some_inj] at same
    exact other same
  have notReserved : ∀ text : String, text.toList.head? ≠ some '_' →
      grown.symbolOf text ≠ symbol :=
    fun text other => notEntry text (FreshNames.candidate_ne number other)
  refine ⟨fun text isSegment => notReserved text ?_, notReserved _ (by decide),
    notReserved _ (by decide), notEntry _ fun same => fits.path number same (same ▸ absent),
    fun param isGuarded same => ?_⟩
  · revert text
    decide
  · have known := fits.guarded param isGuarded param.name List.mem_cons_self
    rw [same, temporary.isNew] at known
    cases known

end IsTemporary

/-- A formed block mentions its temporary where it binds it, where it compares it, and
where it accesses its member. -/
theorem Expansion.IsFormed.le_count {expansion : Expansion} (formed : expansion.IsFormed) :
    3 ≤ expansion.block.symbols.count expansion.temp := by
  obtain ⟨access, access', receiver, receiver', span, front, -, -, -, isBlock⟩ := formed
  have mentioned : 1 ≤ (access'.on (.ident expansion.temp span) false span).symbols.count
      expansion.temp := by
    have isChild : .ident expansion.temp span ∈
        (access'.on (.ident expansion.temp span) false span).children := by
      cases access' with
      | field | method => exact List.mem_cons_self
    have inside := Expr.symbols_sublist (Expr.postOrder_subset isChild (Expr.self_mem_postOrder _))
    exact List.one_le_count_iff.mpr (inside.subset List.mem_cons_self)
  rw [isBlock, (Expr.symbols_precededBy _ _).count_eq, List.count_append, Expr.symbols_nilChecked,
    List.count_cons_self, List.count_append, List.count_cons_self]
  omega

/-! ### One unit -/

/-- The marked accesses of a unit that rewriting expands. -/
def SourceUnit.expanded (set : ActivationSet) (table : SymbolTable) (unit : SourceUnit) :
    List Expr :=
  (unit.tasks set table).flatMap fun task =>
    if task.features.navigation then task.body.markers else []

namespace SourceUnit

variable
  {set : ActivationSet}
  {base start grown : SymbolTable}
  {unit : SourceUnit}

/-- A unit mentions what its nodes mention, at least as often. -/
theorem symbols_sublist_of_mem_postOrder
    {node : Expr}
    (inside : node ∈ unit.bodies.flatMap Expr.postOrder) :
    node.symbols.Sublist unit.symbols := by
  obtain ⟨body, isBody, inBody⟩ := List.mem_flatMap.mp inside
  unfold symbols
  rw [List.flatMap_def]
  exact ((Expr.symbols_sublist inBody).trans
    (List.sublist_flatten_of_mem (List.mem_map_of_mem isBody))).trans
    (List.sublist_append_right _ _)

theorem length_expanded (set : ActivationSet) (table : SymbolTable) (unit : SourceUnit) :
    (unit.expanded set table).length = ((unit.tasks set table).map Task.expansions).sum := by
  unfold expanded
  rw [List.length_flatMap]
  congr 2
  funext task
  unfold Task.expansions
  split <;> rfl

variable (set) in
/-- The temporary at a position that a unit uses has the name at this position, and is known
from then on. -/
theorem temporary_named
    (resolves : unit.resolves start)
    (later : (unit.rewrite set start).table.Grows grown)
    {position : Nat}
    (used : position < (unit.expanded set start).length) :
    let symbol := grown.symbolOf (FreshNames.supply start position)
    grown.name? symbol = some (FreshNames.supply start position) ∧
      IsTemporary start grown symbol ∧
      (unit.rewrite set start).table.knows symbol := by
  have reached : Rewrite.Reached start (unit.performed set start).2 _ :=
    (performed_becomes resolves (Names.own start)).1
  unfold SourceUnit.planned at reached
  rw [Plan.issued_tasks, Nat.zero_add, funext Task.mapSymbols_id, List.map_id',
    ← length_expanded] at reached
  have found := reached.taken position used
  rw [← (rewrite_apply set resolves).2.1] at found
  obtain ⟨symbol, isFound⟩ := Option.ne_none_iff_exists'.mp found
  have name := SymbolTable.name?_of_find? isFound
  have known : (unit.rewrite set start).table.knows symbol := SymbolTable.knows_of_name? name
  rw [← later.name?_eq known] at name
  rw [(SymbolTable.symbolOf_eq_iff (later.knows known)).mpr name]
  refine ⟨name, ⟨?_, _, name⟩, known⟩
  by_contra knownBefore
  rw [Bool.not_eq_false] at knownBefore
  have growing := (grows_rewrite set resolves).trans later
  rw [growing.name?_eq knownBefore, ← SymbolTable.find?_eq_some_iff,
    FreshNames.find?_supply] at name
  cases name

/-- Every symbol that may be a temporary occurs three times in a rewritten unit for each
time it is used. -/
theorem count_temporary
    (grows : base.Grows start)
    (resolves : unit.resolves base)
    (later : (unit.rewrite set start).table.Grows grown)
    {symbol : Symbol}
    (temporary : IsTemporary base grown symbol) :
    (unit.rewrite set start).unit.symbols.count symbol =
      3 * ((Rewrite.planFrom start grown.symbolOf).temporaries 0
        (unit.expanded set base).length).count symbol := by
  have resolvesStart := resolves_of_grows grows resolves
  have growing : base.Grows grown := (grows.trans (grows_rewrite set resolvesStart)).trans later
  have ofTasks := (Rewrite.planFrom start grown.symbolOf).count_tasks
    (fun task isTask => temporary.spared growing (tasks_fit set resolves task isTask)) 0
  have unknown : ∀ symbols : List Symbol, symbols ⊆ unit.symbols → symbols.count symbol = 0 := by
    intro symbols within
    rw [List.count_eq_zero]
    intro inside
    have known := (resolves_iff unit).mp resolves symbol (within inside)
    rw [temporary.isNew] at known
    cases known
  have inHead := unknown unit.headSymbols (List.subset_append_left _ _)
  have inBodies := unknown (unit.bodies.flatMap Expr.symbols) (List.subset_append_right _ _)
  rw [← unit.map_body_tasks set base, List.flatMap_map] at inBodies
  have room : ((unit.tasks set base).mapM (Rewrite.planFrom start grown.symbolOf).task 0).1.length =
      unit.bodies.length := by
    rw [length_mapM, ← unit.map_body_tasks set base, List.length_map]
  have noneYet : (Rewrite.planFrom start grown.symbolOf).uses symbol 0 = 0 := rfl
  rw [inBodies, noneYet, Plan.issued_tasks, Nat.zero_add, ← length_expanded, Nat.mul_zero,
    Nat.zero_add] at ofTasks
  rw [(rewrite_own resolvesStart later).2, tasks_eq grows resolves, symbols_withBodies unit room,
    List.count_append, inHead, Nat.zero_add]
  exact ofTasks

/-- A unit that is rewritten under `start` holds an expansion for each marked access that
is expanded, each under a temporary of its own. Every symbol that may be a temporary
occurs three times for each expansion under it. -/
theorem exists_expansions
    (grows : base.Grows start)
    (resolves : unit.resolves base)
    (later : (unit.rewrite set start).table.Grows grown) :
    ∃ expansions : List Expansion,
      expansions.map Expansion.marker = unit.expanded set base ∧
        (expansions.map Expansion.temp).Nodup ∧
        (∀ expansion ∈ expansions, expansion.IsFormed ∧
          IsTemporary start grown expansion.temp ∧
          (unit.rewrite set start).table.knows expansion.temp ∧
          expansion.block ∈ (unit.rewrite set start).unit.bodies.flatMap Expr.postOrder ∧
          expansion.block.symbols.count expansion.temp = 3) ∧
        ∀ symbol, IsTemporary base grown symbol →
          (unit.rewrite set start).unit.symbols.count symbol =
            3 * (expansions.map Expansion.temp).count symbol := by
  have resolvesStart := resolves_of_grows grows resolves
  have sameTasks : unit.tasks set start = unit.tasks set base := tasks_eq grows resolves
  have sameExpanded : unit.expanded set start = unit.expanded set base := by
    unfold expanded
    rw [sameTasks]
  obtain ⟨expansions, markers, temps, formed⟩ :=
    (Rewrite.planFrom start grown.symbolOf).exists_expansions_of_tasks (unit.tasks set base) 0
  rw [← length_expanded] at temps
  have named := fun position (inside : position ∈ List.range' 0 (unit.expanded set base).length) =>
    temporary_named set resolvesStart later
      (show position < (unit.expanded set start).length by
        rw [sameExpanded]
        simpa using inside)
  have nodup : (expansions.map Expansion.temp).Nodup := by
    rw [temps]
    refine List.Nodup.map_on ?_ (List.nodup_range' 1)
    intro position inside other insideOther same
    have same : grown.symbolOf (FreshNames.supply start position) =
        grown.symbolOf (FreshNames.supply start other) := same
    have name := (named position inside).1
    rw [same, (named other insideOther).1, Option.some_inj] at name
    exact (FreshNames.supply_injective start name).symm
  have counted : ∀ symbol, IsTemporary base grown symbol →
      (unit.rewrite set start).unit.symbols.count symbol =
        3 * (expansions.map Expansion.temp).count symbol := by
    intro symbol temporary
    rw [temps]
    exact count_temporary grows resolves later temporary
  refine ⟨expansions, markers, nodup, fun expansion isExpansion => ?_, counted⟩
  obtain ⟨isFormed, isNode⟩ := formed expansion isExpansion
  have isTemp := List.mem_map_of_mem isExpansion (f := Expansion.temp)
  have inUnit : expansion.block ∈
      (unit.rewrite set start).unit.bodies.flatMap Expr.postOrder := by
    rw [(rewrite_own resolvesStart later).2, sameTasks, bodies_withBodies]
    · exact isNode
    · rw [length_mapM, ← unit.map_body_tasks set base, List.length_map]
  obtain ⟨temporary, known⟩ : IsTemporary start grown expansion.temp ∧
      (unit.rewrite set start).table.knows expansion.temp := by
    rw [temps] at isTemp
    obtain ⟨position, inside, isTemp⟩ := List.mem_map.mp isTemp
    exact isTemp ▸ (named position inside).2
  refine ⟨isFormed, temporary, known, inUnit, Nat.le_antisymm ?_ isFormed.le_count⟩
  have inAll := counted expansion.temp (temporary.of_grows grows)
  rw [List.count_eq_one_of_mem nodup isTemp, Nat.mul_one] at inAll
  rw [← inAll]
  exact (symbols_sublist_of_mem_postOrder inUnit).count_le _

end SourceUnit

/-! ### A whole build -/

namespace ActivationSet

variable
  {set : ActivationSet}
  {base start grown : SymbolTable}
  {units : List SourceUnit}

theorem exists_expansions
    (grows : base.Grows start)
    (resolve : ∀ unit ∈ units, unit.resolves base)
    (later : (set.tableAfter units start).Grows grown) :
    ∃ expansions : List (List Expansion),
      expansions.map (List.map Expansion.marker) = units.map (SourceUnit.expanded set base) ∧
        List.Forall₂ (fun ofUnit done => ∀ expansion ∈ ofUnit,
            expansion.block ∈ done.unit.bodies.flatMap Expr.postOrder)
          expansions (set.steps units start) ∧
        (expansions.flatten.map Expansion.temp).Nodup ∧
        (∀ expansion ∈ expansions.flatten, expansion.IsFormed ∧
          IsTemporary start grown expansion.temp ∧
          expansion.block.symbols.count expansion.temp = 3) ∧
        ∀ symbol, IsTemporary base grown symbol →
          ((set.steps units start).flatMap fun done => done.unit.symbols).count symbol =
            3 * (expansions.flatten.map Expansion.temp).count symbol := by
  induction units generalizing start with
  | nil => exact ⟨[], rfl, .nil, .nil, nofun, fun _ _ => rfl⟩
  | cons unit rest inductionHypothesis =>
      have resolves := resolve unit List.mem_cons_self
      have resolveRest : ∀ other ∈ rest, other.resolves base :=
        fun other member => resolve other (List.mem_cons_of_mem unit member)
      have growsFirst := SourceUnit.grows_rewrite set (SourceUnit.resolves_of_grows grows resolves)
      have growsRest : (unit.rewrite set start).table.Grows
          (set.tableAfter rest (unit.rewrite set start).table) :=
        grows_tableAfter set fun other member =>
          SourceUnit.resolves_of_grows (grows.trans growsFirst) (resolveRest other member)
      obtain ⟨ofUnit, unitMarkers, unitNodup, unitFormed, unitCount⟩ :=
        SourceUnit.exists_expansions grows resolves (growsRest.trans later)
      obtain ⟨ofRest, markers, blocks, nodup, formed, counts⟩ :=
        inductionHypothesis (grows.trans growsFirst) resolveRest later
      refine ⟨ofUnit :: ofRest, ?_, ?_, ?_, ?_, ?_⟩
      · rw [List.map_cons, unitMarkers, markers, List.map_cons]
      · exact .cons (fun expansion isExpansion =>
          (unitFormed expansion isExpansion).2.2.2.1) blocks
      · rw [List.flatten_cons, List.map_append]
        refine unitNodup.append nodup ?_
        intro symbol inUnit inRest
        obtain ⟨expansion, isExpansion, rfl⟩ := List.mem_map.mp inUnit
        obtain ⟨other, isOther, same⟩ := List.mem_map.mp inRest
        have known := (unitFormed expansion isExpansion).2.2.1
        rw [← same, (formed other isOther).2.1.isNew] at known
        cases known
      · intro expansion isExpansion
        rw [List.flatten_cons, List.mem_append] at isExpansion
        rcases isExpansion with inUnit | inRest
        · obtain ⟨isFormed, temporary, -, -, counted⟩ := unitFormed expansion inUnit
          exact ⟨isFormed, temporary, counted⟩
        · obtain ⟨isFormed, temporary, counted⟩ := formed expansion inRest
          exact ⟨isFormed, temporary.of_grows growsFirst, counted⟩
      · intro symbol temporary
        rw [steps, List.flatMap_cons, List.count_append, unitCount symbol temporary,
          counts symbol temporary, List.flatten_cons, List.map_append, List.count_append,
          Nat.mul_add]

end ActivationSet

/-- **Temporaries are hygienic over a whole build.** Where the table knows all symbols of
all units, a build leaves one block for each marked access that it expands, in a unit in
the same place, under a temporary that no other access shares. The table knew neither the
temporary nor its name before. The rewritten units mention it three times, all of them in
its block: where the block binds it, and it binds nothing else; where it compares it with
nil; and where it accesses the member. All symbols that the table knew keep their names. -/
theorem temporaries_hygienic
    (set : ActivationSet)
    (units : List SourceUnit)
    (table : SymbolTable)
    (resolve : ∀ unit ∈ units, unit.resolves table) :
    let outcome := set.rewriteAll units table
    (∃ expansions : List (List Expansion),
      expansions.map (List.map Expansion.marker) = units.map (SourceUnit.expanded set table) ∧
        List.Forall₂ (fun ofUnit unit => ∀ expansion ∈ ofUnit,
            expansion.block ∈ unit.bodies.flatMap Expr.postOrder)
          expansions outcome.units ∧
        (expansions.flatten.map Expansion.temp).Nodup ∧
        ∀ expansion ∈ expansions.flatten,
          expansion.IsFormed ∧
          expansion.block.statements.filterMap Stmt.boundName? = [expansion.temp] ∧
          (outcome.units.flatMap SourceUnit.symbols).count expansion.temp = 3 ∧
          expansion.block.symbols.count expansion.temp = 3 ∧
          table.knows expansion.temp = false ∧
          ∃ name, outcome.table.name? expansion.temp = some name ∧ table.find? name = none) ∧
      ∀ symbol, table.knows symbol → outcome.table.name? symbol = table.name? symbol := by
  dsimp only
  obtain ⟨outcomeUnits, outcomeTable, -⟩ := set.rewriteAll_eq units table
  have grows := set.grows_tableAfter resolve
  rw [outcomeUnits, outcomeTable]
  refine ⟨?_, fun symbol known => grows.name?_eq known⟩
  obtain ⟨expansions, markers, blocks, nodup, formed, counts⟩ :=
    ActivationSet.exists_expansions (.refl table) resolve (.refl (set.tableAfter units table))
  refine ⟨expansions, markers, List.forall₂_map_right_iff.mpr blocks, nodup, ?_⟩
  intro expansion isExpansion
  obtain ⟨isFormed, temporary, inBlock⟩ := formed expansion isExpansion
  obtain ⟨number, named⟩ := temporary.named
  have inUnits := counts expansion.temp temporary
  rw [List.count_eq_one_of_mem nodup (List.mem_map_of_mem isExpansion)] at inUnits
  refine ⟨isFormed, isFormed.boundNames, ?_, inBlock, temporary.isNew, _, named, ?_⟩
  · rw [List.flatMap_map]
    exact inUnits
  · exact grows.find?_eq_none temporary.isNew named

theorem temporaries_hygienic_of_two_units :
    let set : ActivationSet := .allInPackage "app"
    ∃ expansions : List (List Expansion),
      expansions.map List.length = [2, 2] ∧
        (expansions.flatten.map Expansion.temp).Nodup ∧
        ∀ expansion ∈ expansions.flatten,
          Outcome.sampleTable.knows expansion.temp = false ∧
          ((set.rewriteAll [Outcome.sampleUnit, Outcome.sampleUnit]
            Outcome.sampleTable).units.flatMap SourceUnit.symbols).count expansion.temp = 3 := by
  intro set
  obtain ⟨⟨expansions, markers, -, nodup, each⟩, -⟩ :=
    temporaries_hygienic set [Outcome.sampleUnit, Outcome.sampleUnit]
      Outcome.sampleTable (by decide)
  refine ⟨expansions, ?_, nodup, fun expansion isExpansion => ?_⟩
  · have lengths := congrArg (List.map List.length) markers
    rw [List.map_map] at lengths
    simpa [Function.comp_def] using lengths.trans (rfl : _ = [2, 2])
  · obtain ⟨-, -, three, -, isNew, -⟩ := each expansion isExpansion
    exact ⟨isNew, three⟩

end NilSafety
