import NilSafety.Proofs.Guards.Placement
import NilSafety.Proofs.Rewriting.Untouched

/-!
Contract: guards of methods, by the visibility of the types that the methods belong to.

Owns:
- the methods of a unit with their types, and what the unit says of a type's visibility;
- that a method is guarded exactly if guards are in effect where it sits, it is exposed,
  no hidden type holds it and it has parameters to guard;
- that extensions get guards whatever the type they extend is declared as, and nothing
  else does.

Does not own: what guards do.
-/

namespace NilSafety

/-! ### Methods and their types -/

/-- A method, with the type that it belongs to. -/
structure OwnedMethod where
  owner : Symbol
  /-- The visibility of the type, as declared around the method. An extension declares
  none. -/
  declared : Option Visibility
  function : Function

/-- The methods of a declaration with their types. -/
def Decl.ownedMethods : Decl → List OwnedMethod
  | record name _ methods visibility _ => methods.map (OwnedMethod.mk name (some visibility))
  | extension name methods _ => methods.map (OwnedMethod.mk name none)
  | function .. | constant .. => []

namespace SourceUnit

/-- The methods of a unit with their types. -/
def ownedMethods (unit : SourceUnit) : List OwnedMethod :=
  unit.decls.flatMap Decl.ownedMethods

/-- The unit declares the type with this visibility. -/
def DeclaresType (unit : SourceUnit) (type : Symbol) (visibility : Visibility) : Prop :=
  ∃ fields methods span, Decl.record type fields methods visibility span ∈ unit.decls

end SourceUnit

/-- The type of the method is exposed, as far as the unit tells: by the declaration around
the method, or by those of the type that the method extends. -/
def OwnedMethod.OwnerExposed (unit : SourceUnit) (method : OwnedMethod) : Prop :=
  match method.declared with
  | some visibility => visibility = .exposed
  | none => ¬ unit.DeclaresType method.owner .hidden

/-! ### Guarded bodies -/

/-- A body with a check in front is another one. -/
theorem Expr.precededBy_checks_ne
    (symbols : GuardSymbols)
    {params : List Param}
    (some : params ≠ [])
    (walked : Expr) :
    walked.precededBy (params.map symbols.check) ≠ walked := by
  obtain ⟨first, rest, rfl⟩ := List.exists_cons_of_ne_nil some
  intro same
  have grows := Expr.size_precededBy ((first :: rest).map symbols.check) walked
  have ofCheck : ((symbols.check first).children.map Expr.size).sum = 9 := rfl
  rw [same, List.map_cons, List.flatMap_cons, List.map_append, List.sum_append, ofCheck] at grows
  omega

/-- The body of a rewritten function is what the walk made of it or begins with checks, and
this exactly if guards are due and there is a parameter to check. -/
theorem Member.EndsAs.isGuarded_iff
    {set : ActivationSet}
    {last : SymbolTable}
    {member : Member}
    {f' : Function}
    (ends : member.EndsAs set last f') :
    f' = member.function.withBody f'.body ∧
    ∃ (walked : Expr) (before : Progress),
      (Rewrite.body member.place.path (set.featuresAt member.place) member.function.body
        before).1 = walked ∧
      (f'.IsGuarded last member.place.path walked ∨ f'.body = walked) ∧
      (f'.IsGuarded last member.place.path walked ↔
        set.guards member ∧ member.function.guardedParams last ≠ []) := by
  obtain ⟨walked, before, isWalked, sameButBody, ending⟩ := ends
  refine ⟨sameButBody, walked, before, isWalked, ?_⟩
  split at ending
  next due => exact ⟨.inl ending, iff_of_true ending due⟩
  next notDue =>
    refine ⟨.inr ending, iff_of_false ?_ notDue⟩
    rintro ⟨some, symbols, -, isGuarded⟩
    exact Expr.precededBy_checks_ne symbols some walked (isGuarded.symm.trans ending)

namespace Rewrite

/-- What rewriting makes of a method, where it finds it. If the table knows the names of
the method and of its type, this is the place that the table shows. -/
def MethodEndsAs
    (set : ActivationSet)
    (package : Path)
    (table last : SymbolTable)
    (method method' : OwnedMethod) :
    Prop :=
  method'.owner = method.owner ∧ method'.declared = method.declared ∧
  ∃ place : Placement,
    (table.knows method.owner → table.knows method.function.name →
      place = .method package (table.display method.owner)
        (table.display method.function.name)) ∧
    Member.EndsAs set last ⟨place, method.declared ≠ some .hidden, method.function⟩
      method'.function

section

variable (set : ActivationSet) (package : Path)

theorem leaves_ownedMethods
    (owner : Symbol)
    (declared : Option Visibility)
    {table seen : SymbolTable}
    {shown : String}
    (isShown : table.knows owner → shown = table.display owner)
    (methods : List Function)
    (base : table.AddsNoWrapper seen) :
    Leaves seen (Rewrite.methods set package shown (declared ≠ some .hidden) methods)
      fun last methods' => List.Forall₂ (MethodEndsAs set package table last)
        (methods.map (OwnedMethod.mk owner declared))
        (methods'.map (OwnedMethod.mk owner declared)) := by
  induction methods generalizing seen with
  | nil => exact .pure fun _ => .nil
  | cons f rest inductionHypothesis =>
      unfold Rewrite.methods
      apply Leaves.ofGet
      intro progress grows
      have further := base.trans grows
      let place : Placement := .method package shown (progress.table.display f.name)
      apply (leaves_function set ⟨place, declared ≠ some .hidden, f⟩ rfl).bind
      intro f'
      apply (inductionHypothesis further).bind
      intro rest'
      refine .pure fun last ofRest ofFirst => .cons ⟨rfl, rfl, place, ?_, ofFirst⟩ ofRest
      intro ownerKnown nameKnown
      rw [← isShown ownerKnown, ← further.display_eq nameKnown]

theorem leaves_ownedMethods_decl (decl : Decl) {table seen : SymbolTable}
    (base : table.AddsNoWrapper seen) :
    Leaves seen (Rewrite.decl set package decl)
      fun last decl' => List.Forall₂ (MethodEndsAs set package table last)
        decl.ownedMethods decl'.ownedMethods := by
  cases decl with
  | function f =>
      apply Leaves.ofGet
      intro progress grows
      apply (leaves_function set ⟨.item package (progress.table.display f.name), true, f⟩ rfl).bind
      intro f'
      exact .pure fun _ _ => .nil
  | record name fields methods visibility span =>
      apply Leaves.ofGet
      intro progress grows
      have ofMethods := leaves_ownedMethods set package name (some visibility)
        (base.trans grows).display_eq methods (base.trans grows)
      have admits : decide (some visibility ≠ some Visibility.hidden) =
          decide (visibility = .exposed) := by
        cases visibility <;> rfl
      rw [admits] at ofMethods
      exact ofMethods.bind fun methods' => .pure fun _ related => related
  | extension name methods span =>
      apply Leaves.ofGet
      intro progress grows
      exact (leaves_ownedMethods set package name none (base.trans grows).display_eq methods
        (base.trans grows)).bind fun methods' => .pure fun _ related => related
  | constant name note value visibility span =>
      apply Leaves.ofGet
      intro progress grows
      apply (leaves_body _ _ value).bind
      intro value'
      exact .pure fun _ _ => .nil

theorem leaves_ownedMethods_decls (decls : List Decl) {table seen : SymbolTable}
    (base : table.AddsNoWrapper seen) :
    Leaves seen (Rewrite.decls set package decls)
      fun last decls' => List.Forall₂ (MethodEndsAs set package table last)
        (decls.flatMap Decl.ownedMethods) (decls'.flatMap Decl.ownedMethods) := by
  induction decls generalizing seen with
  | nil => exact .pure fun _ => .nil
  | cons decl rest inductionHypothesis =>
      apply (leaves_ownedMethods_decl set package decl base).bind
      intro decl'
      apply (inductionHypothesis base).bind
      intro rest'
      exact .pure fun last ofRest ofFirst => List.rel_append ofFirst ofRest

end

end Rewrite

theorem SourceUnit.rewrite_ownedMethods
    (set : ActivationSet)
    (unit : SourceUnit)
    (table : SymbolTable) :
    List.Forall₂
      (Rewrite.MethodEndsAs set unit.package table (unit.rewrite set table).table)
      unit.ownedMethods (unit.rewrite set table).unit.ownedMethods := by
  obtain ⟨sameTable, sameDecls, -⟩ := unit.rewrite_parts set table
  have leaves := Rewrite.leaves_ownedMethods_decls set unit.package unit.decls
    (.refl table) (.start table) (.refl table)
  unfold ownedMethods
  rw [sameTable, sameDecls]
  exact leaves.2 _ (.refl _)

/-! ### The type's visibility -/

/-- Guards are due for a method at `place`, whatever its type: they are in effect there, the
method is exposed, and it has a parameter to check. -/
def OwnedMethod.IsDue
    (set : ActivationSet)
    (table : SymbolTable)
    (place : Placement)
    (method : OwnedMethod) : Prop :=
  (set.featuresAt place).guards ∧ method.function.visibility = .exposed ∧
    method.function.guardedParams table ≠ []

/-- The type of a method is hidden if it is so declared around the method, or if the method
extends it and it is so declared in the unit. -/
theorem OwnedMethod.not_ownerExposed_iff {unit : SourceUnit} {method : OwnedMethod} :
    ¬ method.OwnerExposed unit ↔
      method.declared = some .hidden ∨
        (method.declared = none ∧ unit.DeclaresType method.owner .hidden) := by
  obtain ⟨owner, declared, f⟩ := method
  cases declared with
  | none => simp [OwnerExposed]
  | some visibility => cases visibility <;> simp [OwnerExposed]

/-- **Guards and the types of methods.** For every unit, every set and every table, whether
the rewriting succeeds or not: the body of each method is what the walk made of it, or this
behind checks, and the latter exactly if guards are due and the declaration around the
method does not hide its type. A method that is guarded although it is hidden, or its type
is, extends a type that the unit hides; and of the methods that do, all are guarded for
which guards are due. -/
theorem method_guards_exact
    (set : ActivationSet)
    (unit : SourceUnit)
    (table : SymbolTable) :
    List.Forall₂
      (fun method method' : OwnedMethod =>
        method'.owner = method.owner ∧ method'.declared = method.declared ∧
        method'.function = method.function.withBody method'.function.body ∧
        ∃ (place : Placement) (walked : Expr) (before : Progress),
          (table.knows method.owner → table.knows method.function.name →
            place = .method unit.package (table.display method.owner)
              (table.display method.function.name)) ∧
          (Rewrite.body place.path (set.featuresAt place) method.function.body before).1 =
            walked ∧
          let isGuarded :=
            method'.function.IsGuarded (unit.rewrite set table).table place.path walked
          (isGuarded ∨ method'.function.body = walked) ∧
          (isGuarded ↔ method.IsDue set table place ∧ method.declared ≠ some .hidden) ∧
          (isGuarded ∧ ¬ (method.function.visibility = .exposed ∧ method.OwnerExposed unit) ↔
            method.IsDue set table place ∧ method.declared = none ∧
              unit.DeclaresType method.owner .hidden))
      unit.ownedMethods (unit.rewrite set table).unit.ownedMethods := by
  have grows := (unit.rewrite_becomes set table).1
  refine (unit.rewrite_ownedMethods set table).imp fun method method' becomes => ?_
  obtain ⟨sameOwner, sameDeclared, place, isShown, ends⟩ := becomes
  obtain ⟨sameButBody, walked, before, isWalked, oneOf, isGuarded⟩ := ends.isGuarded_iff
  have exact : method'.function.IsGuarded (unit.rewrite set table).table place.path walked ↔
      method.IsDue set table place ∧ method.declared ≠ some .hidden := by
    rw [isGuarded, ActivationSet.guards, Function.guardedParams_eq_of_addsNoWrapper grows,
      OwnedMethod.IsDue]
    simp only [Bool.and_eq_true, decide_eq_true_eq]
    tauto
  refine ⟨sameOwner, sameDeclared, sameButBody, place, walked, before, isShown, isWalked, oneOf,
    exact, ?_⟩
  rw [exact]
  constructor
  · rintro ⟨⟨due, notHidden⟩, broken⟩
    have ownerHidden : ¬ method.OwnerExposed unit := fun ownerExposed =>
      broken ⟨due.2.1, ownerExposed⟩
    exact ⟨due, (OwnedMethod.not_ownerExposed_iff.mp ownerHidden).resolve_left notHidden⟩
  · rintro ⟨due, isExtension, isHidden⟩
    have ownerHidden := OwnedMethod.not_ownerExposed_iff.mpr (.inr ⟨isExtension, isHidden⟩)
    have notHidden : method.declared ≠ some .hidden := by simp [isExtension]
    exact ⟨⟨due, notHidden⟩, fun both => ownerHidden both.2⟩

/-! ### An extension of a hidden type -/

namespace Owners

/-- The names of a unit with one method. -/
def sampleTable : SymbolTable :=
  (SymbolTable.empty.internAll ["Job", "run", "s", "String"]).2

/-- The method `fn run(s: String) { s }`. -/
def sampleMethod : Function where
  name := ⟨1⟩
  isStatic := false
  params := [⟨⟨2⟩, .named ⟨3⟩ default, default⟩]
  result := none
  body := .block [] (some (.ident ⟨2⟩ default)) default
  visibility := .exposed
  span := default

/-- A unit that declares the hidden type `Job`, and the method in an extension of it. -/
def sampleUnit : SourceUnit where
  package := ⟨["app"]⟩
  decls := [.record ⟨0⟩ [] [] .hidden default, .extension ⟨0⟩ [sampleMethod] default]

/-- Guards everywhere in the type `Job`. -/
def sampleSet : ActivationSet where
  activations := [⟨⟨["app", "Job"]⟩, true, .guards⟩]
  nodup := List.nodup_singleton _
  not_root := List.forall_mem_singleton.mpr rfl

end Owners

/-- The method of a hidden type is guarded, because an extension holds it. -/
theorem extension_of_hidden_type_is_guarded :
    let rewritten := Owners.sampleUnit.rewrite Owners.sampleSet Owners.sampleTable
    Owners.sampleUnit.DeclaresType ⟨0⟩ .hidden ∧
      rewritten.result = .ok ⟨0, 1, 1, 0⟩ ∧
      ∃ method, rewritten.unit.ownedMethods = [⟨⟨0⟩, none, method⟩] ∧
        method.IsGuarded rewritten.table ⟨["app", "Job", "run"]⟩ Owners.sampleMethod.body := by
  refine ⟨⟨_, _, _, List.mem_cons_self⟩, ?_, _, rfl, by decide +kernel, ⟨⟨4⟩, ⟨5⟩, ⟨6⟩⟩, ?_, ?_⟩
  · with_unfolding_all rfl
  · constructor <;> decide +kernel
  · with_unfolding_all rfl

end NilSafety
