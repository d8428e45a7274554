import NilSafety.Proofs.Rewriting.Realization
import NilSafety.Rewrite.Unit

/-!
Contract: what a rewritten unit looks like.

Owns:
- the functions of a unit with the places where they sit, and which of them are
  guarded;
- the relation between a function and what it becomes, and between declarations;
- that rewriting a unit without problems relates all its declarations so.

Does not own: the rewriting of bodies, or evaluation.
-/

namespace NilSafety

/-! ### Paths and guards -/

/-- A path whose dotted notation is one word ends in this word. -/
theorem Path.last_of_text_eq
    {path : Path}
    {word last : String}
    (isWord : '.' ∉ word.toList)
    (ends : path.last? = some last)
    (same : path.text = word) :
    last = word := by
  obtain ⟨segments⟩ := path
  unfold Path.text at same
  unfold Path.last? at ends
  match segments with
  | [] => simp at ends
  | [segment] =>
      rw [String.intercalate_singleton] at same
      simp only [List.getLast?_singleton, Option.some.injEq] at ends
      rw [← ends, same]
  | first :: second :: rest =>
      rw [String.intercalate_cons_cons] at same
      refine absurd ?_ isWord
      rw [← same]
      simp

theorem Placement.last?_path (place : Placement) : place.path.last? = some place.name := by
  simp [Placement.path, Path.child, Path.last?]

/-- A declaration whose path is one word is known by that word. -/
theorem Placement.find?_text_of_word
    {table : SymbolTable}
    {symbol : Symbol}
    {place : Placement}
    (named : table.knows symbol)
    (isName : place.name = table.display symbol)
    (isWord : '.' ∉ place.path.text.toList) :
    table.find? place.path.text = some symbol := by
  have ends : place.name = place.path.text := Path.last_of_text_eq isWord place.last?_path rfl
  rw [← ends, isName]
  exact SymbolTable.find?_display named

/-- A note whose names a table knows says the same about nil under later tables. -/
theorem TypeNote.nullability_eq
    {added : String → Prop}
    {table later : SymbolTable}
    (grows : SymbolTable.ExtendsBy added table later)
    {note : TypeNote}
    (known : note.symbols.all table.knows) :
    note.nullability later = note.nullability table := by
  cases note with
  | generic name args span =>
      simp only [symbols, List.all_cons, Bool.and_eq_true] at known
      unfold nullability
      dsimp only
      rw [grows.name?_eq known.1]
  | named | array | function | optional | inferred => rfl

namespace Function

theorem guardedParams_eq
    {added : String → Prop}
    {table later : SymbolTable}
    (grows : SymbolTable.ExtendsBy added table later)
    {f : Function}
    (known : ∀ param ∈ f.params, table.knows param.name ∧ param.note.symbols.all table.knows) :
    f.guardedParams later = f.guardedParams table := by
  unfold guardedParams
  apply List.filter_congr
  intro param member
  rw [TypeNote.nullability_eq grows (known param member).2]

theorem later_withGuards
    (table : SymbolTable)
    (path : Path)
    (f : Function)
    (notReceiver : path.text = "self" → table.find? "self" ≠ none) :
    table.Later (f.withGuards table path).2 := by
  unfold withGuards
  split
  · exact .refl table
  · unfold GuardSymbols.intern
    have module : table.Later (table.intern EntryPoint.module).2 :=
      SymbolTable.extendsBy_intern table _ fun _ => by decide
    have entry : (table.intern EntryPoint.module).2.Later
        ((table.intern EntryPoint.module).2.intern EntryPoint.guardFailure).2 :=
      SymbolTable.extendsBy_intern _ _ fun _ => by decide
    have before := module.trans entry
    refine before.trans (SymbolTable.extendsBy_intern _ _ ?_)
    intro absent isReceiver
    rw [isReceiver] at absent
    cases found : table.find? "self" with
    | none => exact notReceiver isReceiver found
    | some symbol =>
        rw [before.find?_eq_some found] at absent
        cases absent

/-- `f'` is `f` with a body that realizes its own, behind guards that report it as
`path` where it is guarded. -/
def Becomes
    (rules : Rules)
    (table grown : SymbolTable)
    (path : Path)
    (guarded : Bool)
    (f f' : Function) :
    Prop :=
  ∃ body, f.body.Realizes rules table grown body ∧
    if guarded then
      ∃ middle : SymbolTable, table.Later middle ∧
        ({ f with body }.withGuards middle path).2.Later grown ∧
        f' = ({ f with body }.withGuards middle path).1
    else
      f' = { f with body }

end Function

/-! ### Functions in their places -/

/-- A function of a unit: where it sits, and whether what it is declared in admits
guards. -/
structure Member where
  place : Placement
  ownerExposed : Bool
  function : Function
deriving DecidableEq

namespace Decl

variable (table : SymbolTable) (package : Path)

/-- The functions of a declaration in their places. -/
def members : Decl → List Member
  | function f => [⟨.item package (table.display f.name), true, f⟩]
  | record name _ methods visibility _ => methods.map fun method =>
      ⟨.method package (table.display name) (table.display method.name),
        visibility = .exposed, method⟩
  | extension name methods _ => methods.map fun method =>
      ⟨.method package (table.display name) (table.display method.name), true, method⟩
  | constant .. => []

/-- The places of the expressions of a declaration. -/
def places : Decl → List Placement
  | constant name _ _ _ _ => [.item package (table.display name)]
  | other => (other.members table package).map Member.place

end Decl

namespace SourceUnit

/-- The functions of a unit in their places. -/
def members (table : SymbolTable) (unit : SourceUnit) : List Member :=
  unit.decls.flatMap (Decl.members table unit.package)

/-- The places of the expressions of a unit. -/
def places (table : SymbolTable) (unit : SourceUnit) : List Placement :=
  unit.decls.flatMap (Decl.places table unit.package)

end SourceUnit

/-- Whether a set of activations puts guards on a function, should it have
parameters to guard. -/
def ActivationSet.guards (set : ActivationSet) (member : Member) : Bool :=
  (set.featuresAt member.place).guards && member.ownerExposed &&
    decide (member.function.visibility = .exposed)

/-! ### Declarations -/

/-- Two declarations that agree but for their functions and their value. -/
def Decl.Related
    (functions : Function → Function → Prop)
    (values : Expr → Expr → Prop) :
    Decl → Decl → Prop
  | function f, related => ∃ f', functions f f' ∧ related = function f'
  | record name fields methods visibility span, related =>
      ∃ methods', List.Forall₂ functions methods methods' ∧
        related = record name fields methods' visibility span
  | extension name methods span, related =>
      ∃ methods', List.Forall₂ functions methods methods' ∧
        related = extension name methods' span
  | constant name note value visibility span, related =>
      ∃ value', values value value' ∧ related = constant name note value' visibility span

/-- Declarations are related by all that is implied for their functions and values. -/
theorem Decl.Related.weaken
    {functions functions' : Function → Function → Prop}
    {values values' : Expr → Expr → Prop}
    (ofFunctions : ∀ f f', functions f f' → functions' f f')
    (ofValues : ∀ value value', values value value' → values' value value')
    {decl decl' : Decl}
    (related : decl.Related functions values decl') :
    decl.Related functions' values' decl' := by
  cases decl with
  | function f => exact related.imp fun f' holds => ⟨ofFunctions f f' holds.1, holds.2⟩
  | record | extension => exact related.imp fun _ holds => ⟨holds.1.imp ofFunctions, holds.2⟩
  | constant => exact related.imp fun value' holds => ⟨ofValues _ value' holds.1, holds.2⟩

theorem Decl.Related.mono
    {functions functions' : Function → Function → Prop}
    {values : Expr → Expr → Prop}
    (implied : ∀ f f', functions f f' → functions' f f')
    {decl decl' : Decl}
    (related : decl.Related functions values decl') :
    decl.Related functions' values decl' :=
  related.weaken implied fun _ _ => id

/-- What the functions among `members` become when a unit is rewritten. -/
def Member.Become
    (rules : Rules)
    (set : ActivationSet)
    (table grown : SymbolTable)
    (members : List Member)
    (f f' : Function) :
    Prop :=
  ∃ member ∈ members, member.function = f ∧
    f.Becomes rules table grown member.place.path (set.guards member) f'

namespace Rewrite

section

variable
  {rules : Rules}
  {set : ActivationSet}
  {table : SymbolTable}
  {check : Expr → Bool}
  {statement : Stmt → Bool}

theorem yields_guards
    {place : Placement}
    {f : Function}
    {body : Expr}
    (named : table.knows f.name)
    (isName : place.name = table.display f.name) :
    Yields rules table (guards place.path { f with body })
      fun grown f' => f.body.Realizes rules table grown body →
        f.Becomes rules table grown place.path true f' := by
  have notReceiver : ∀ progress : Progress, table.Later progress.table →
      place.path.text = "self" → progress.table.find? "self" ≠ none := by
    intro progress base isReceiver absent
    have isWord : '.' ∉ place.path.text.toList := by
      rw [isReceiver]
      decide
    have found := base.find?_eq_some (Placement.find?_text_of_word named isName isWord)
    rw [isReceiver, absent] at found
    cases found
  constructor
  · intro progress base
    unfold guards
    dsimp only
    split
    · exact .refl progress
    · exact ⟨Function.later_withGuards _ _ _ (notReceiver progress base), List.prefix_refl _⟩
  · intro _ progress _
    unfold guards
    dsimp only
    split <;> rfl
  · intro progress base clean grown grows realizes
    refine ⟨body, realizes, progress.table, base, ?_⟩
    unfold guards at grows ⊢
    dsimp only at grows ⊢
    split at grows
    next none =>
      have noParams := List.length_eq_zero_iff.mp none
      rw [if_pos none]
      unfold Function.withGuards
      rw [noParams]
      exact ⟨grows, rfl⟩
    next some =>
      rw [if_neg some]
      exact ⟨grows, rfl⟩

theorem yields_function
    (set : ActivationSet)
    (fits : Fits rules table check statement)
    (member : Member)
    (suits : Suits rules (set.featuresAt member.place))
    (named : table.knows member.function.name)
    (isName : member.place.name = table.display member.function.name)
    (everywhere : member.function.body.everywhere check statement) :
    Yields rules table (function set member.place member.ownerExposed member.function)
      fun grown f' => member.function.Becomes rules table grown member.place.path
        (set.guards member) f' := by
  obtain ⟨place, ownerExposed, f⟩ := member
  have logged : Yields rules table (modify (·.log (.idle place.path)) : Rewrite Unit)
      fun _ _ => True :=
    ⟨fun _ _ => ⟨.refl _, List.prefix_refl _⟩, fun _ _ _ => rfl, fun _ _ _ _ _ => trivial⟩
  have rest : Yields rules table
      (do
        let body ← body place.path (set.featuresAt place) f.body
        if (set.featuresAt place).guards && ownerExposed && decide (f.visibility = .exposed) then
          guards place.path { f with body }
        else
          return { f with body })
      fun grown f' => f.Becomes rules table grown place.path
        (set.guards ⟨place, ownerExposed, f⟩) f' := by
    apply (yields_body _ suits fits everywhere).bind
    intro body
    unfold ActivationSet.guards
    dsimp only
    split
    next guarded =>
      rw [guarded]
      exact yields_guards named isName
    next unguarded =>
      rw [Bool.not_eq_true] at unguarded
      rw [unguarded]
      exact .pure fun _ realizes => ⟨body, realizes, rfl⟩
  unfold function
  dsimp only
  split
  · exact logged.bind fun _ => rest.imp fun _ _ holds _ => holds
  · exact rest

theorem yields_methods
    (set : ActivationSet)
    (fits : Fits rules table check statement)
    (package : Path)
    (owner : String)
    (ownerExposed : Bool)
    (methods : List Function)
    (suits : ∀ f ∈ methods,
      Suits rules (set.featuresAt (.method package owner (table.display f.name))))
    (named : ∀ f ∈ methods, table.knows f.name)
    (everywhere : ∀ f ∈ methods, f.body.everywhere check statement) :
    Yields rules table (Rewrite.methods set package owner ownerExposed methods)
      fun grown methods' => List.Forall₂
        (Member.Become rules set table grown
          (methods.map fun f => ⟨.method package owner (table.display f.name), ownerExposed, f⟩))
        methods methods' := by
  induction methods with
  | nil => exact .pure fun _ => .nil
  | cons f rest inductionHypothesis =>
      unfold Rewrite.methods
      apply Yields.ofGet
      intro progress base
      rw [base.display_eq (named f List.mem_cons_self)]
      have first := yields_function set fits
        ⟨.method package owner (table.display f.name), ownerExposed, f⟩
        (suits f List.mem_cons_self) (named f List.mem_cons_self) rfl
        (everywhere f List.mem_cons_self)
      apply first.bind
      intro f'
      have others := inductionHypothesis
        (fun other member => suits other (List.mem_cons_of_mem f member))
        (fun other member => named other (List.mem_cons_of_mem f member))
        (fun other member => everywhere other (List.mem_cons_of_mem f member))
      apply others.bind
      intro rest'
      refine .pure fun grown related becomes => .cons ?_ (related.imp ?_)
      · exact ⟨_, List.mem_cons_self, rfl, becomes⟩
      · intro other other' holds
        obtain ⟨member, inRest, isFunction, becomes⟩ := holds
        exact ⟨member, List.mem_cons_of_mem _ inRest, isFunction, becomes⟩

theorem yields_decl
    (set : ActivationSet)
    (fits : Fits rules table check statement)
    (package : Path)
    (decl : Decl)
    (suits : ∀ place ∈ decl.places table package, Suits rules (set.featuresAt place))
    (resolves : decl.resolves table)
    (everywhere : ∀ body ∈ decl.bodies, body.everywhere check statement) :
    Yields rules table (Rewrite.decl set package decl)
      fun grown decl' => decl.Related
        (Member.Become rules set table grown (decl.members table package))
        (fun value value' => value.Realizes rules table grown value') decl' := by
  simp only [Decl.resolves, Bool.and_eq_true, List.all_eq_true] at resolves
  obtain ⟨⟨named, functions⟩, -⟩ := resolves
  have methodNamed : ∀ f ∈ decl.functions, table.knows f.name := by
    intro f member
    exact (Function.resolves_parts (functions f member)).1
  cases decl with
  | function f =>
      apply Yields.ofGet
      intro progress base
      rw [base.display_eq (methodNamed f List.mem_cons_self)]
      refine (yields_function set fits ⟨.item package (table.display f.name), true, f⟩
        (suits _ List.mem_cons_self) named rfl (everywhere _ List.mem_cons_self)).bind fun f' => ?_
      exact .pure fun grown becomes => ⟨f', ⟨_, List.mem_cons_self, rfl, becomes⟩, rfl⟩
  | record name fields methods visibility span =>
      have knownName : table.knows name := named
      apply Yields.ofGet
      intro progress base
      rw [base.display_eq knownName]
      have members := yields_methods set fits package (table.display name)
        (visibility = .exposed) methods
        (fun f member => suits _ (by simpa [Decl.places, Decl.members] using ⟨f, member, rfl⟩))
        methodNamed
        (fun f member => everywhere _ (List.mem_map_of_mem member))
      apply members.bind
      intro methods'
      exact .pure fun grown related => ⟨methods', related, rfl⟩
  | extension name methods span =>
      have knownName : table.knows name := named
      apply Yields.ofGet
      intro progress base
      rw [base.display_eq knownName]
      have members := yields_methods set fits package (table.display name) true methods
        (fun f member => suits _ (by simpa [Decl.places, Decl.members] using ⟨f, member, rfl⟩))
        methodNamed
        (fun f member => everywhere _ (List.mem_map_of_mem member))
      apply members.bind
      intro methods'
      exact .pure fun grown related => ⟨methods', related, rfl⟩
  | constant name note value visibility span =>
      have knownName : table.knows name := named
      apply Yields.ofGet
      intro progress base
      rw [base.display_eq knownName]
      refine (yields_body _ (suits _ List.mem_cons_self) fits
        (everywhere _ List.mem_cons_self)).bind fun value' => ?_
      exact .pure fun grown realizes => ⟨value', realizes, rfl⟩

theorem yields_decls
    (set : ActivationSet)
    (fits : Fits rules table check statement)
    (package : Path)
    (decls : List Decl)
    (suits : ∀ decl ∈ decls, ∀ place ∈ decl.places table package,
      Suits rules (set.featuresAt place))
    (resolves : ∀ decl ∈ decls, decl.resolves table)
    (everywhere : ∀ decl ∈ decls, ∀ body ∈ decl.bodies, body.everywhere check statement) :
    Yields rules table (Rewrite.decls set package decls)
      fun grown decls' => List.Forall₂
        (Decl.Related
          (Member.Become rules set table grown (decls.flatMap (Decl.members table package)))
          (fun value value' => value.Realizes rules table grown value'))
        decls decls' := by
  induction decls with
  | nil => exact .pure fun _ => .nil
  | cons decl rest inductionHypothesis =>
      have first := yields_decl set fits package decl
        (suits decl List.mem_cons_self) (resolves decl List.mem_cons_self)
        (everywhere decl List.mem_cons_self)
      apply first.bind
      intro decl'
      have others := inductionHypothesis
        (fun other member => suits other (List.mem_cons_of_mem decl member))
        (fun other member => resolves other (List.mem_cons_of_mem decl member))
        (fun other member => everywhere other (List.mem_cons_of_mem decl member))
      apply others.bind
      intro rest'
      refine .pure fun grown relatedRest related => .cons (related.mono ?_)
        (relatedRest.imp fun _ _ holds => holds.mono ?_)
      · intro f f' becomes
        obtain ⟨member, inDecl, holds⟩ := becomes
        exact ⟨member, List.mem_append_left _ inDecl, holds⟩
      · intro f f' becomes
        obtain ⟨member, inRest, holds⟩ := becomes
        exact ⟨member, List.mem_append_right _ inRest, holds⟩

end

end Rewrite

/-- What rewriting leaves behind is what the walk over the declarations does, and
succeeds if that finds no problems. -/
theorem SourceUnit.rewrite_parts (set : ActivationSet) (unit : SourceUnit) (table : SymbolTable) :
    (unit.rewrite set table).table =
        (Rewrite.decls set unit.package unit.decls (.start table)).2.table ∧
      (unit.rewrite set table).unit.decls =
        (Rewrite.decls set unit.package unit.decls (.start table)).1 ∧
      ((∃ counts, (unit.rewrite set table).result = .ok counts) ↔
        (Rewrite.decls set unit.package unit.decls (.start table)).2.problems = []) := by
  unfold SourceUnit.rewrite
  split
  next decls progress ran =>
    have ran : Rewrite.decls set unit.package unit.decls (.start table) = (decls, progress) := ran
    rw [ran]
    dsimp only
    split
    next none => exact ⟨rfl, rfl, iff_of_true ⟨_, rfl⟩ none⟩
    next some => exact ⟨rfl, rfl, iff_of_false nofun some⟩

section

variable
  {rules : Rules}
  {set : ActivationSet}
  {table : SymbolTable}
  {check : Expr → Bool}
  {statement : Stmt → Bool}
  {unit : SourceUnit}

theorem SourceUnit.yields_decls
    (set : ActivationSet)
    (fits : Rewrite.Fits rules table check statement)
    (suits : ∀ place ∈ unit.places table, Rewrite.Suits rules (set.featuresAt place))
    (resolves : unit.resolves table)
    (everywhere : ∀ body ∈ unit.bodies, body.everywhere check statement) :
    Rewrite.Yields rules table (Rewrite.decls set unit.package unit.decls)
      fun grown decls' => List.Forall₂
        (Decl.Related (Member.Become rules set table grown (unit.members table))
          (fun value value' => value.Realizes rules table grown value'))
        unit.decls decls' := by
  have each : ∀ decl ∈ unit.decls, decl.resolves table := List.all_eq_true.mp resolves
  exact Rewrite.yields_decls set fits unit.package unit.decls
    (fun decl member place inDecl => suits place (List.mem_flatMap_of_mem member inDecl))
    each
    (fun decl member body inDecl => everywhere body (List.mem_flatMap_of_mem member inDecl))

/-- Rewriting a unit without problems makes of every declaration one that agrees
with it but for what its functions become and what its value realizes. -/
theorem SourceUnit.rewrite_related
    {counts : Counts}
    (fits : Rewrite.Fits rules table check statement)
    (suits : ∀ place ∈ unit.places table, Rewrite.Suits rules (set.featuresAt place))
    (resolves : unit.resolves table)
    (everywhere : ∀ body ∈ unit.bodies, body.everywhere check statement)
    (succeeds : (unit.rewrite set table).result = .ok counts) :
    table.Later (unit.rewrite set table).table ∧
      ∀ grown, (unit.rewrite set table).table.Later grown →
        List.Forall₂
          (Decl.Related (Member.Become rules set table grown (unit.members table))
            (fun value value' => value.Realizes rules table grown value'))
          unit.decls (unit.rewrite set table).unit.decls := by
  have yields := SourceUnit.yields_decls set fits suits resolves everywhere
  obtain ⟨sameTable, sameDecls, clean⟩ := unit.rewrite_parts set table
  rw [sameTable, sameDecls]
  exact ⟨(yields.advances (.start table) (.refl table)).table,
    yields.yields (.start table) (.refl table) (clean.mp ⟨counts, succeeds⟩)⟩

/-- Nothing stops the rewriting of a unit without marked accesses. -/
theorem SourceUnit.rewrite_succeeds
    (noMarks : rules.skipsNil = false)
    (fits : Rewrite.Fits rules table check statement)
    (suits : ∀ place ∈ unit.places table, Rewrite.Suits rules (set.featuresAt place))
    (resolves : unit.resolves table)
    (everywhere : ∀ body ∈ unit.bodies, body.everywhere check statement) :
    ∃ counts, (unit.rewrite set table).result = .ok counts := by
  have yields := SourceUnit.yields_decls set fits suits resolves everywhere
  exact (unit.rewrite_parts set table).2.2.mpr
    (yields.keeps noMarks (.start table) (.refl table))

end

/-! ### Units without guards -/

/-- `f'` is `f`, whose name the table knows, with a body that realizes its own. -/
def Function.Realizes (rules : Rules) (table grown : SymbolTable) (f f' : Function) : Prop :=
  table.knows f.name ∧ ∃ body, f.body.Realizes rules table grown body ∧ f' = { f with body }

/-- The members of a unit are its functions. -/
theorem SourceUnit.function_of_member
    {table : SymbolTable}
    {unit : SourceUnit}
    {member : Member}
    (inUnit : member ∈ unit.members table) :
    member.function ∈ unit.functions := by
  obtain ⟨decl, isDecl, inDecl⟩ := List.mem_flatMap.mp inUnit
  refine List.mem_flatMap.mpr ⟨decl, isDecl, ?_⟩
  cases decl with
  | function f =>
      rw [List.mem_singleton.mp inDecl]
      exact List.mem_cons_self
  | record | extension =>
      obtain ⟨f, isMethod, rfl⟩ := List.mem_map.mp inDecl
      exact isMethod
  | constant => cases inDecl

/-- Where no function is guarded, the functions of a rewritten unit are those of
the original one with bodies that realize theirs. -/
theorem SourceUnit.rewrite_realizes
    {rules : Rules}
    {set : ActivationSet}
    {table : SymbolTable}
    {check : Expr → Bool}
    {statement : Stmt → Bool}
    {unit : SourceUnit}
    {counts : Counts}
    (fits : Rewrite.Fits rules table check statement)
    (suits : ∀ place ∈ unit.places table, Rewrite.Suits rules (set.featuresAt place))
    (unguarded : ∀ member ∈ unit.members table, set.guards member = false)
    (resolves : unit.resolves table)
    (everywhere : ∀ body ∈ unit.bodies, body.everywhere check statement)
    (succeeds : (unit.rewrite set table).result = .ok counts) :
    table.Later (unit.rewrite set table).table ∧
      ∀ grown, (unit.rewrite set table).table.Later grown →
        List.Forall₂
          (Decl.Related (Function.Realizes rules table grown)
            (fun value value' => value.Realizes rules table grown value'))
          unit.decls (unit.rewrite set table).unit.decls := by
  obtain ⟨base, related⟩ := unit.rewrite_related fits suits resolves everywhere succeeds
  refine ⟨base, fun grown grows => (related grown grows).imp fun decl decl' holds => holds.mono ?_⟩
  intro f f' becomes
  obtain ⟨member, inUnit, isFunction, body, realizes, isResult⟩ := becomes
  rw [unguarded member inUnit, if_neg Bool.false_ne_true] at isResult
  have known := (SourceUnit.resolves_parts resolves).2.1 f
    (isFunction ▸ SourceUnit.function_of_member inUnit)
  exact ⟨(Function.resolves_parts known).1, body, realizes, isResult⟩

end NilSafety
