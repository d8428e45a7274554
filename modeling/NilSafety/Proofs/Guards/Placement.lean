import NilSafety.Proofs.Guards.Insertion
import NilSafety.Proofs.Rewriting.Tasks

/-!
Contract: which functions of a rewritten unit begin with checks.

Owns:
- tables that grow by names that no type note turns on, under which notes say the same
  about nil, whether their names are known or not;
- that rewriting lets the table grow only so;
- functions whose bodies are some expression behind the checks of their own parameters;
- that rewriting a unit, with whatever mix of features, leaves of every function what the
  walk made of its body, behind checks if the function is guarded.

Does not own: what checks and bodies do.
-/

namespace NilSafety

/-! ### Notes under later tables -/

/-- `later` holds the names of `table` and further ones, none of them a generic name that
admits nil. -/
abbrev SymbolTable.AddsNoWrapper : SymbolTable → SymbolTable → Prop :=
  ExtendsBy (· ∉ TypeNote.nullableWrappers)

theorem TypeNote.nullability_eq_of_addsNoWrapper
    {table later : SymbolTable}
    (grows : table.AddsNoWrapper later)
    (note : TypeNote) :
    note.nullability later = note.nullability table := by
  cases note with
  | named | array | function | optional | inferred => rfl
  | generic name args span =>
      unfold nullability
      dsimp only
      cases known : table.knows name with
      | true => rw [grows.name?_eq known]
      | false =>
          have unnamed : table.name? name = none := by
            unfold SymbolTable.knows at known
            rwa [Option.isSome_eq_false_iff, Option.isNone_iff_eq_none] at known
          rw [unnamed]
          cases named : later.name? name with
          | none => rfl
          | some text =>
              have isNew := grows.find?_eq_none known named
              have isAdded : text ∉ nullableWrappers := by
                intro isWrapper
                have same := grows.find?_eq (not_not.mpr isWrapper)
                rw [isNew, SymbolTable.find?_of_name? named] at same
                cases same
              exact if_neg isAdded

theorem Function.guardedParams_eq_of_addsNoWrapper
    {table later : SymbolTable}
    (grows : table.AddsNoWrapper later)
    (f : Function) :
    f.guardedParams later = f.guardedParams table := by
  unfold guardedParams
  refine List.filter_congr fun param _ => ?_
  rw [param.note.nullability_eq_of_addsNoWrapper grows]

/-- A declaration's path reads like a generic name that admits nil only if the
declaration is so named. -/
theorem Placement.find?_text_of_wrapper
    {table : SymbolTable}
    {symbol : Symbol}
    {place : Placement}
    (isName : place.name = table.display symbol)
    (isWrapper : place.path.text ∈ TypeNote.nullableWrappers) :
    table.find? place.path.text ≠ none := by
  have oneWord : ∀ text ∈ TypeNote.nullableWrappers, '.' ∉ text.toList ∧ text ≠ "<unknown>" := by
    decide
  obtain ⟨isWord, isShown⟩ := oneWord _ isWrapper
  have ends : place.name = place.path.text := Path.last_of_text_eq isWord place.last?_path rfl
  have known : table.knows symbol := by
    by_contra unknown
    unfold SymbolTable.knows at unknown
    rw [Option.not_isSome_iff_eq_none] at unknown
    apply isShown
    rw [← ends, isName, SymbolTable.display, unknown]
    rfl
  rw [find?_text_of_word known isName isWord]
  exact Option.some_ne_none symbol

/-! ### Expressions behind checks -/

/-- The expression is `walked` behind checks of parameters, which report the function at
`path`; without parameters to check it is `walked` itself. -/
def Expr.BehindChecks
    (table : SymbolTable)
    (path : Path)
    (guarded : List Param)
    (expr walked : Expr) :
    Prop :=
  (guarded = [] ∧ expr = walked) ∨
    ∃ symbols : GuardSymbols, symbols.Reports table path ∧
      expr = walked.precededBy (guarded.map symbols.check)

/-- The body of the function is `walked` behind checks of the parameters whose notes
exclude nil. -/
def Function.Checks (table : SymbolTable) (path : Path) (walked : Expr) (f : Function) : Prop :=
  f.body.BehindChecks table path (f.guardedParams table) walked

/-- The function begins with checks of its parameters, at least one, in front of `walked`. -/
def Function.IsGuarded (table : SymbolTable) (path : Path) (walked : Expr) (f : Function) : Prop :=
  f.guardedParams table ≠ [] ∧
    ∃ symbols : GuardSymbols, symbols.Reports table path ∧
      f.body = walked.precededBy ((f.guardedParams table).map symbols.check)

/-- The table knows the names of the declaration and of its functions. -/
def Decl.IsNamed (table : SymbolTable) (decl : Decl) : Prop :=
  table.knows decl.name ∧ ∀ f ∈ decl.functions, table.knows f.name

/-- `f'` is what rewriting makes of a function: its body is what the walk makes of the
original one at some point, behind checks if the function is to be guarded. -/
def Member.Becomes
    (set : ActivationSet)
    (last : SymbolTable)
    (member : Member)
    (f' : Function) :
    Prop :=
  ∃ (walked : Expr) (before : Progress),
    (Rewrite.body member.place.path (set.featuresAt member.place) member.function.body
        before).1 = walked ∧
      f' = member.function.withBody f'.body ∧
      if set.guards member then f'.Checks last member.place.path walked else f'.body = walked

/-- `f'` is what rewriting makes of a function, to the letter: its body is what the walk
makes of the original one at some point, behind checks exactly if guards are due and there
is a parameter to check. -/
def Member.EndsAs
    (set : ActivationSet)
    (last : SymbolTable)
    (member : Member)
    (f' : Function) :
    Prop :=
  ∃ (walked : Expr) (before : Progress),
    (Rewrite.body member.place.path (set.featuresAt member.place) member.function.body
        before).1 = walked ∧
      f' = member.function.withBody f'.body ∧
      if set.guards member ∧ member.function.guardedParams last ≠ [] then
        f'.IsGuarded last member.place.path walked
      else f'.body = walked

theorem Member.EndsAs.becomes
    {set : ActivationSet}
    {last : SymbolTable}
    {member : Member}
    {f' : Function}
    (ends : member.EndsAs set last f') :
    member.Becomes set last f' := by
  obtain ⟨walked, before, isWalked, sameButBody, ending⟩ := ends
  refine ⟨walked, before, isWalked, sameButBody, ?_⟩
  have sameParams : f'.guardedParams last = member.function.guardedParams last := by
    rw [sameButBody]
    rfl
  by_cases due : set.guards member
  · rw [if_pos due]
    by_cases none : member.function.guardedParams last = []
    · rw [if_neg fun both => both.2 none] at ending
      exact .inl ⟨sameParams.trans none, ending⟩
    · rw [if_pos ⟨due, none⟩] at ending
      exact .inr ending.2
  · rw [if_neg due]
    rwa [if_neg fun both => due both.1] at ending

namespace Rewrite

/-- A step that lets a table grow by no name that a note turns on, and whose result
stands in a relation to every table that grew further in this way. -/
def Leaves {α : Type} (table : SymbolTable) (step : Rewrite α)
    (relation : SymbolTable → α → Prop) : Prop :=
  ∀ progress : Progress, table.AddsNoWrapper progress.table →
    progress.table.AddsNoWrapper (step progress).2.table ∧
      ∀ last, (step progress).2.table.AddsNoWrapper last → relation last (step progress).1

namespace Leaves

variable {α β : Type} {table : SymbolTable}

theorem pure
    {relation : SymbolTable → α → Prop}
    {value : α}
    (holds : ∀ last, relation last value) :
    Leaves table (Pure.pure value) relation :=
  fun progress _ => ⟨.refl progress.table, fun last _ => holds last⟩

theorem bind
    {step : Rewrite α}
    {rest : α → Rewrite β}
    {relation : SymbolTable → α → Prop}
    {relation' : SymbolTable → β → Prop}
    (first : Leaves table step relation)
    (second : ∀ value, Leaves table (rest value)
      fun last result => relation last value → relation' last result) :
    Leaves table (step >>= rest) relation' := by
  intro progress base
  obtain ⟨middle, leaves⟩ := first progress base
  obtain ⟨further, implied⟩ :=
    second (step progress).1 (step progress).2 (base.trans middle)
  exact ⟨middle.trans further, fun last grows =>
    implied last grows (leaves last (further.trans grows))⟩

/-- A step that looks at the state first goes on from there. -/
theorem ofGet
    {rest : Progress → Rewrite β}
    {relation : SymbolTable → β → Prop}
    (each : ∀ progress : Progress, table.AddsNoWrapper progress.table →
      Leaves progress.table (rest progress) relation) :
    Leaves table (get >>= rest) relation :=
  fun progress base => each progress base progress (.refl progress.table)

end Leaves

/-! ### Functions -/

theorem addsNoWrapper_body
    (declaration : Path)
    (features : FeatureSet)
    (expr : Expr)
    (progress : Progress) :
    progress.table.AddsNoWrapper (body declaration features expr progress).2.table := by
  have generated : ∀ number, FreshNames.candidate number ∉ TypeNote.nullableWrappers := by
    intro number isWrapper
    have begins : ∀ text ∈ TypeNote.nullableWrappers, text.toList.head? ≠ some '_' := by decide
    exact FreshNames.candidate_ne number (begins _ isWrapper) rfl
  refine Expr.mapUp_keeps (fun later => progress.table.AddsNoWrapper later.table) ?_ expr
    progress (.refl _)
  intro inner later grows
  exact grows.trans (extendsBy_node generated (by decide) declaration features inner later)

theorem addsNoWrapper_guardBody
    {path : Path}
    {progress : Progress}
    (isKnown : path.text ∈ TypeNote.nullableWrappers → progress.table.find? path.text ≠ none)
    (guarded : List Param)
    (walked : Expr) :
    progress.table.AddsNoWrapper (guardBody path guarded walked progress).2.table := by
  cases guarded with
  | nil => exact .refl progress.table
  | cons first rest =>
      have module : progress.table.AddsNoWrapper (progress.table.intern EntryPoint.module).2 :=
        SymbolTable.extendsBy_intern _ _ fun _ => by decide
      have entry := module.trans
        (SymbolTable.extendsBy_intern _ EntryPoint.guardFailure fun _ => by decide)
      refine entry.trans (SymbolTable.extendsBy_intern _ path.text ?_)
      intro absent isWrapper
      obtain ⟨symbol, found⟩ := Option.ne_none_iff_exists'.mp (isKnown isWrapper)
      rw [entry.find?_eq_some found] at absent
      cases absent

theorem isGuarded_guards
    {last : SymbolTable}
    (path : Path)
    {f : Function}
    {progress : Progress}
    (some : f.guardedParams last ≠ [])
    (sameParams : f.guardedParams progress.table = f.guardedParams last)
    (grows : (guards path f progress).2.table.AddsNoWrapper last) :
    (guards path f progress).1.IsGuarded last path f.body := by
  refine ⟨?_, ?_⟩
  · rw [guards_apply sameParams]
    exact some
  · rw [guards_apply sameParams] at grows ⊢
    show ∃ symbols : GuardSymbols, _ ∧ (guardBody path (f.guardedParams last) f.body progress).1 =
      f.body.precededBy ((f.guardedParams last).map symbols.check)
    obtain ⟨first, rest, isCons⟩ := List.exists_cons_of_ne_nil some
    rw [isCons] at grows ⊢
    exact ⟨_, GuardSymbols.reports_intern grows, rfl⟩

theorem guards_of_none
    {path : Path}
    {f : Function}
    {progress : Progress}
    (none : f.guardedParams progress.table = []) :
    (guards path f progress).1.body = f.body := by
  rw [guards_apply none]
  rfl

section

variable (set : ActivationSet)

theorem leaves_function
    (member : Member)
    {table : SymbolTable}
    (isName : member.place.name = table.display member.function.name) :
    Leaves table (function set member.place member.ownerExposed member.function)
      fun last f' => member.EndsAs set last f' := by
  intro progress base
  rw [function_eq]
  dsimp only
  have sameTable : (if (set.featuresAt member.place).isEmpty then
      progress.log (.idle member.place.path) else progress).table = progress.table := by
    split <;> rfl
  generalize (if (set.featuresAt member.place).isEmpty then
      progress.log (.idle member.place.path) else progress) = start at sameTable ⊢
  have walk := addsNoWrapper_body member.place.path (set.featuresAt member.place)
    member.function.body start
  rw [sameTable] at walk
  cases isGuarded : set.guards member with
  | false =>
      refine ⟨walk, fun last _ => ⟨_, start, rfl, rfl, ?_⟩⟩
      rw [isGuarded, if_neg fun both => Bool.false_ne_true both.1]
      rfl
  | true =>
      have isKnown : member.place.path.text ∈ TypeNote.nullableWrappers →
          (body member.place.path (set.featuresAt member.place) member.function.body
            start).2.table.find? member.place.path.text ≠ none := by
        intro isWrapper
        obtain ⟨symbol, found⟩ := Option.ne_none_iff_exists'.mp
          (Placement.find?_text_of_wrapper isName isWrapper)
        rw [(base.trans walk).find?_eq_some found]
        exact Option.some_ne_none symbol
      rw [if_pos rfl]
      generalize isWalked : body member.place.path (set.featuresAt member.place)
        member.function.body start = walked at walk isKnown ⊢
      have guard : walked.2.table.AddsNoWrapper
          (guards member.place.path (member.function.withBody walked.1) walked.2).2.table := by
        rw [guards_apply rfl]
        exact addsNoWrapper_guardBody isKnown _ _
      refine ⟨walk.trans guard, fun last grows =>
        ⟨walked.1, start, congrArg Prod.fst isWalked, ?_, ?_⟩⟩
      · rw [guards_apply rfl]
        rfl
      · have sameParams := Function.guardedParams_eq_of_addsNoWrapper (guard.trans grows)
          member.function
        rw [isGuarded]
        by_cases none : member.function.guardedParams last = []
        · rw [if_neg fun both => both.2 none]
          exact guards_of_none (f := member.function.withBody walked.1) (sameParams.symm.trans none)
        · rw [if_pos ⟨rfl, none⟩]
          exact isGuarded_guards (f := member.function.withBody walked.1) _ none sameParams.symm grows

/-- A walk over an expression, of which nothing is said. -/
theorem leaves_body {table : SymbolTable} (path : Path) (features : FeatureSet) (expr : Expr) :
    Leaves table (body path features expr) fun _ _ => True :=
  fun progress _ => ⟨addsNoWrapper_body path features expr progress, fun _ _ => trivial⟩

/-- What functions become in the places where rewriting finds them. Where the table knows
their names, these are the places that the table shows. -/
def MembersBecome
    (last : SymbolTable)
    (functions : List Function)
    (known : Prop)
    (shown : List Member)
    (functions' : List Function) :
    Prop :=
  ∃ members : List Member, members.map Member.function = functions ∧
    (known → members = shown) ∧
    List.Forall₂ (Member.Becomes set last) members functions'

theorem leaves_methods
    (package : Path)
    (owner : String)
    (ownerExposed : Bool)
    (methods : List Function)
    {table seen : SymbolTable}
    (base : table.AddsNoWrapper seen) :
    Leaves seen (Rewrite.methods set package owner ownerExposed methods)
      fun last methods' => MembersBecome set last methods (∀ f ∈ methods, table.knows f.name)
        (methods.map fun f => ⟨.method package owner (table.display f.name), ownerExposed, f⟩)
        methods' := by
  induction methods generalizing seen with
  | nil => exact .pure fun _ => ⟨[], rfl, fun _ => rfl, .nil⟩
  | cons f rest inductionHypothesis =>
      unfold Rewrite.methods
      apply Leaves.ofGet
      intro progress grows
      have further := base.trans grows
      let member : Member :=
        ⟨.method package owner (progress.table.display f.name), ownerExposed, f⟩
      apply (leaves_function set member rfl).bind
      intro f'
      apply (inductionHypothesis further).bind
      intro rest'
      refine .pure fun last ofRest ofFirst => ?_
      obtain ⟨members, areRest, places, becomeRest⟩ := ofRest
      refine ⟨member :: members, congrArg (f :: ·) areRest, fun known => ?_,
        .cons ofFirst.becomes becomeRest⟩
      rw [places fun other isOther => known other (List.mem_cons_of_mem f isOther), List.map_cons,
        ← further.display_eq (known f List.mem_cons_self)]

theorem leaves_decl (package : Path) (decl : Decl) (table : SymbolTable) :
    Leaves table (Rewrite.decl set package decl)
      fun last decl' => MembersBecome set last decl.functions (decl.IsNamed table)
        (decl.members table package) decl'.functions := by
  cases decl with
  | function f =>
      apply Leaves.ofGet
      intro progress base
      let member : Member := ⟨.item package (progress.table.display f.name), true, f⟩
      apply (leaves_function set member rfl).bind
      intro f'
      refine .pure fun last becomes => ⟨[member], rfl, fun known => ?_, .cons becomes.becomes .nil⟩
      have shown : progress.table.display f.name = table.display f.name := base.display_eq known.1
      rw [Decl.members, ← shown]
  | record name fields methods visibility span | extension name methods span =>
      apply Leaves.ofGet
      intro progress base
      apply (leaves_methods set package _ _ methods base).bind
      intro methods'
      refine .pure fun last becomes => ?_
      obtain ⟨members, areMethods, places, become⟩ := becomes
      refine ⟨members, areMethods, fun known => ?_, become⟩
      have shown : progress.table.display name = table.display name := base.display_eq known.1
      rw [places known.2, shown]
      rfl
  | constant name note value visibility span =>
      apply Leaves.ofGet
      intro progress base
      apply (leaves_body _ _ value).bind
      intro value'
      exact .pure fun _ _ => ⟨[], rfl, fun _ => rfl, .nil⟩

theorem leaves_decls (package : Path) (decls : List Decl) (table : SymbolTable) :
    Leaves table (Rewrite.decls set package decls)
      fun last decls' => MembersBecome set last (decls.flatMap Decl.functions)
        (∀ decl ∈ decls, decl.IsNamed table)
        (decls.flatMap (Decl.members table package)) (decls'.flatMap Decl.functions) := by
  induction decls with
  | nil => exact .pure fun _ => ⟨[], rfl, fun _ => rfl, .nil⟩
  | cons decl rest inductionHypothesis =>
      apply (leaves_decl set package decl table).bind
      intro decl'
      apply inductionHypothesis.bind
      intro rest'
      refine .pure fun last ofRest ofFirst => ?_
      obtain ⟨members, areFunctions, places, become⟩ := ofFirst
      obtain ⟨membersRest, areRest, placesRest, becomeRest⟩ := ofRest
      refine ⟨members ++ membersRest, ?_, fun known => ?_, List.rel_append become becomeRest⟩
      · rw [List.map_append, areFunctions, areRest, List.flatMap_cons]
      · rw [places (known decl List.mem_cons_self),
          placesRest fun other isOther => known other (List.mem_cons_of_mem decl isOther),
          List.flatMap_cons]

end

end Rewrite

/-- The functions of a rewritten unit are what rewriting makes of the original ones, in
the places where it finds them. If the table knows all symbols, these are the places that
the table shows. The table grows by no name that a note turns on. -/
theorem SourceUnit.rewrite_becomes
    (set : ActivationSet)
    (unit : SourceUnit)
    (table : SymbolTable) :
    table.AddsNoWrapper (unit.rewrite set table).table ∧
      ∀ last, (unit.rewrite set table).table.AddsNoWrapper last →
        Rewrite.MembersBecome set last unit.functions (unit.resolves table) (unit.members table)
          (unit.rewrite set table).unit.functions := by
  obtain ⟨sameTable, sameDecls, -⟩ := unit.rewrite_parts set table
  obtain ⟨grows, leaves⟩ :=
    Rewrite.leaves_decls set unit.package unit.decls table (.start table) (.refl table)
  unfold functions
  rw [sameTable, sameDecls]
  refine ⟨grows, fun last further => ?_⟩
  obtain ⟨members, areFunctions, places, become⟩ := leaves last further
  refine ⟨members, areFunctions, fun resolves => places fun decl inUnit => ?_, become⟩
  have named := resolves_parts resolves
  refine ⟨named.2.2 decl inUnit, fun f inDecl => ?_⟩
  exact (Function.resolves_parts
    (named.2.1 f (List.mem_flatMap.mpr ⟨decl, inUnit, inDecl⟩))).1

end NilSafety
