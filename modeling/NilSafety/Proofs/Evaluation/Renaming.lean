import Mathlib.Logic.Function.Basic
import NilSafety.Proofs.Evaluation.Sessions
import NilSafety.Proofs.Evaluation.Texts

/-!
Contract: heaps that are the same up to a renaming of identities.

Owns:
- pairings that pair every container of a first heap with one of a second heap, of
  which at most plain arrays are left over, and those among them that extend a given
  one;
- their growth when both sides allocate, and when the second side allocates a plain
  array of its own;
- that allocation keeps heaps in agreement, and that texts are the same.

Does not own: what evaluations do.
-/

namespace NilSafety

namespace Pairing

/-- The pairing is of the containers of two heaps with so many of each sort. It
leaves out none of the first heap, and only plain arrays of the second one. -/
structure Renames (pairing : Pairing) (first second : ContainerSort → Nat) : Prop where
  extent : pairing.extent = some (first, second)
  total : ∀ sort address, address < first sort → ∃ other, pairing.pairs sort address other
  onto : ∀ sort other, sort ≠ .array → other < second sort →
    ∃ address, pairing.pairs sort address other

/-- The pairing renames the containers of some heap to ones of another. -/
def IsRenaming (pairing : Pairing) : Prop :=
  ∃ first second, pairing.Renames first second

/-- The pairing renames, and it pairs whatever `base` pairs. -/
structure IsRenamingOver (base pairing : Pairing) : Prop where
  keeps : base ≤ pairing
  isRenaming : pairing.IsRenaming

variable {base pairing : Pairing} {first second : ContainerSort → Nat}

theorem Renames.count_le
    (renames : pairing.Renames first second)
    (sort : ContainerSort) :
    first sort ≤ second sort := by
  have partners : ∀ address : Fin (first sort), ∃ other : Fin (second sort),
      pairing.pairs sort address other := by
    intro address
    obtain ⟨other, paired⟩ := renames.total sort address address.isLt
    exact ⟨⟨other, (pairing.within renames.extent paired).2⟩, paired⟩
  choose partner isPartner using partners
  have injective : Function.Injective partner := by
    intro address address' same
    apply Fin.ext
    exact pairing.injective (isPartner address) (same ▸ isPartner address')
  have cards := Fintype.card_le_of_injective partner injective
  rwa [Fintype.card_fin, Fintype.card_fin] at cards

/-- The counts with one more container of a sort. -/
def oneMore (counts : ContainerSort → Nat) (sort : ContainerSort) : ContainerSort → Nat :=
  Function.update counts sort (counts sort + 1)

theorem lt_oneMore
    {counts : ContainerSort → Nat}
    {sort other : ContainerSort}
    {address : Nat} :
    address < oneMore counts sort other ↔
      address < counts other ∨ (other = sort ∧ address = counts sort) := by
  unfold oneMore
  by_cases same : other = sort
  · subst same
    rw [Function.update_self, Nat.lt_succ_iff_lt_or_eq]
    exact or_congr_right ⟨fun isNext => ⟨rfl, isNext⟩, And.right⟩
  · rw [Function.update_of_ne same]
    simp [same]

/-- The pairing after both sides allocated a container of a sort. -/
def withBoth (pairing : Pairing) (renames : pairing.Renames first second) (sort : ContainerSort) :
    Pairing where
  pairs other address address' :=
    pairing.pairs other address address' ∨
      (other = sort ∧ address = first sort ∧ address' = second sort)
  functional := by
    rintro other address address' address'' (old | ⟨rfl, isNext, rfl⟩) (old' | ⟨same, isNext', rfl⟩)
    · exact pairing.functional old old'
    · have below := (pairing.within renames.extent old).1
      subst same
      omega
    · have below := (pairing.within renames.extent old').1
      omega
    · rfl
  injective := by
    rintro other address address' address'' (old | ⟨rfl, rfl, isNext⟩) (old' | ⟨same, rfl, isNext'⟩)
    · exact pairing.injective old old'
    · have below := (pairing.within renames.extent old).2
      subst same
      omega
    · have below := (pairing.within renames.extent old').2
      omega
    · rfl
  extent := some (oneMore first sort, oneMore second sort)
  within := by
    intro counts counts' isExtent other address address' paired
    cases isExtent
    rw [lt_oneMore, lt_oneMore]
    rcases paired with old | ⟨same, isNext, isNext'⟩
    · have below := pairing.within renames.extent old
      exact ⟨.inl below.1, .inl below.2⟩
    · exact ⟨.inr ⟨same, isNext⟩, .inr ⟨same, isNext'⟩⟩

/-- The pairing after the second side allocated a plain array. -/
def withSecond (pairing : Pairing) (renames : pairing.Renames first second) : Pairing where
  pairs := pairing.pairs
  functional := pairing.functional
  injective := pairing.injective
  extent := some (first, oneMore second .array)
  within := by
    intro counts counts' isExtent sort address other paired
    cases isExtent
    have below := pairing.within renames.extent paired
    rw [lt_oneMore]
    exact ⟨below.1, .inl below.2⟩

theorem le_withBoth (renames : pairing.Renames first second) (sort : ContainerSort) :
    pairing ≤ pairing.withBoth renames sort :=
  fun _ _ _ => .inl

/-- Containers of other sorts are paired as before. -/
theorem pairs_of_withBoth
    (renames : pairing.Renames first second)
    {sort other : ContainerSort}
    (different : other ≠ sort)
    {address address' : Nat}
    (paired : (pairing.withBoth renames sort).pairs other address address') :
    pairing.pairs other address address' := by
  rcases paired with old | ⟨same, -⟩
  · exact old
  · exact absurd same different

theorem le_withSecond (renames : pairing.Renames first second) :
    pairing ≤ pairing.withSecond renames :=
  fun _ _ _ => id

theorem renames_withBoth (renames : pairing.Renames first second) (sort : ContainerSort) :
    (pairing.withBoth renames sort).Renames (oneMore first sort) (oneMore second sort) where
  extent := rfl
  total := by
    intro other address below
    rcases lt_oneMore.mp below with old | ⟨same, isNext⟩
    · obtain ⟨partner, paired⟩ := renames.total other address old
      exact ⟨partner, .inl paired⟩
    · exact ⟨second sort, .inr ⟨same, isNext, rfl⟩⟩
  onto := by
    intro other address' notArray below
    rcases lt_oneMore.mp below with old | ⟨same, isNext⟩
    · obtain ⟨partner, paired⟩ := renames.onto other address' notArray old
      exact ⟨partner, .inl paired⟩
    · exact ⟨first sort, .inr ⟨same, rfl, isNext⟩⟩

theorem IsRenamingOver.withBoth
    (admitted : base.IsRenamingOver pairing)
    (renames : pairing.Renames first second)
    (sort : ContainerSort) :
    base.IsRenamingOver (pairing.withBoth renames sort) :=
  ⟨admitted.keeps.trans (le_withBoth renames sort), _, _, renames_withBoth renames sort⟩

theorem renames_withSecond (renames : pairing.Renames first second) :
    (pairing.withSecond renames).Renames first (oneMore second .array) where
  extent := rfl
  total := renames.total
  onto := by
    intro sort other notArray below
    rcases lt_oneMore.mp below with old | ⟨same, -⟩
    · exact renames.onto sort other notArray old
    · exact absurd same notArray

theorem IsRenamingOver.withSecond
    (admitted : base.IsRenamingOver pairing)
    (renames : pairing.Renames first second) :
    base.IsRenamingOver (pairing.withSecond renames) :=
  ⟨admitted.keeps.trans (le_withSecond renames), _, _, renames_withSecond renames⟩

end Pairing

/-! ### Allocation -/

namespace Store

variable
  {α : Type}
  {pairs : Nat → Nat → Prop}
  {contents : α → α → Prop}
  {store store' : Store α}

theorem Matches.imp
    {pairs' : Nat → Nat → Prop}
    {contents' : α → α → Prop}
    (agree : Matches pairs contents store store')
    (fewer : ∀ address address', pairs' address address' → pairs address address')
    (implied : ∀ value value', contents value value' → contents' value value') :
    Matches pairs' contents' store store' := by
  intro address address' paired
  have cells := agree address address' (fewer address address' paired)
  generalize store.cells[address]? = cell at cells ⊢
  generalize store'.cells[address']? = cell' at cells ⊢
  cases cells with
  | none => exact .none
  | some holds => exact .some (implied _ _ holds)

theorem getElem?_alloc_of_lt
    (store : Store α)
    {address : Nat}
    (below : address < store.next)
    (value : α) :
    (store.alloc value).cells[address]? = store.cells[address]? := by
  unfold alloc
  rw [Array.getElem?_push_lt below, Array.getElem?_eq_getElem below]

theorem Matches.alloc
    (agree : Matches pairs contents store store')
    (inside : ∀ address address', pairs address address' →
      address < store.next ∧ address' < store'.next)
    {value value' : α}
    (holds : contents value value') :
    Matches (fun address address' => pairs address address' ∨
        (address = store.next ∧ address' = store'.next))
      contents (store.alloc value) (store'.alloc value') := by
  rintro address address' (old | ⟨rfl, rfl⟩)
  · obtain ⟨below, below'⟩ := inside address address' old
    rw [store.getElem?_alloc_of_lt below, store'.getElem?_alloc_of_lt below']
    exact agree address address' old
  · unfold Store.alloc next
    rw [Array.getElem?_push_size, Array.getElem?_push_size]
    exact .some holds

theorem Matches.allocSecond
    (agree : Matches pairs contents store store')
    (inside : ∀ address address', pairs address address' → address' < store'.next)
    (value' : α) :
    Matches pairs contents store (store'.alloc value') := by
  intro address address' paired
  rw [store'.getElem?_alloc_of_lt (inside address address' paired)]
  exact agree address address' paired

end Store

namespace Heap

open Pairing (oneMore)

theorem counts_newObject (heap : Heap) (cls : Symbol) (fields : SymbolMap Value) :
    (heap.newObject cls fields).2.counts = oneMore heap.counts .object := by
  funext sort
  cases sort with
  | object => exact Array.size_push _
  | array | checkedArray => rfl

theorem counts_newArray (heap : Heap) (elements : Array Value) :
    (heap.newArray elements).2.counts = oneMore heap.counts .array := by
  funext sort
  cases sort with
  | array => exact Array.size_push _
  | object | checkedArray => rfl

theorem counts_newChecked (heap : Heap) (elements : Array Value) :
    (heap.newChecked elements).2.counts = oneMore heap.counts .checkedArray := by
  funext sort
  cases sort with
  | checkedArray => exact Array.size_push _
  | object | array => rfl

variable {pairing : Pairing} {heap heap' : Heap}

/-- What a pairing renames are the heaps that agree under it. -/
theorem Matches.renames
    (agree : heap.Matches pairing heap')
    (isRenaming : pairing.IsRenaming) :
    pairing.Renames heap.counts heap'.counts := by
  obtain ⟨first, second, renames⟩ := isRenaming
  have same := agree.counts (first, second) renames.extent
  rw [Prod.mk.injEq] at same
  rwa [← same.1, ← same.2]

section

variable
  (agree : heap.Matches pairing heap')
  (renames : pairing.Renames heap.counts heap'.counts)

include agree

theorem Matches.objects_withBoth (sort : ContainerSort) :
    heap.objects.Matches (pairing.pairs .object)
      (SymbolMap.Related (Value.Matches (pairing.withBoth renames sort))) heap'.objects :=
  agree.objects.imp (fun _ _ => id) fun _ _ related =>
    related.mono fun _ _ holds => holds.mono (Pairing.le_withBoth renames sort)

theorem Matches.arrays_withBoth (sort : ContainerSort) :
    heap.arrays.Matches (pairing.pairs .array)
      (ArraysRelated (Value.Matches (pairing.withBoth renames sort))) heap'.arrays :=
  agree.arrays.imp (fun _ _ => id) fun _ _ related =>
    related.mono fun _ _ holds => holds.mono (Pairing.le_withBoth renames sort)

theorem Matches.checkedArrays_withBoth (sort : ContainerSort) :
    heap.checkedArrays.Matches (pairing.pairs .checkedArray)
      (CheckedArray.Related (Value.Matches (pairing.withBoth renames sort)))
      heap'.checkedArrays :=
  agree.checkedArrays.imp (fun _ _ => id) fun _ _ related =>
    ArraysRelated.mono related fun _ _ holds => holds.mono (Pairing.le_withBoth renames sort)

theorem matches_newObject
    (cls : Symbol)
    {fields fields' : SymbolMap Value}
    (related : SymbolMap.Related (Value.Matches pairing) fields fields') :
    (heap.newObject cls fields).2.Matches (pairing.withBoth renames .object)
      (heap'.newObject cls fields').2 where
  objects := by
    have fieldsLater := related.mono fun _ _ holds =>
      holds.mono (Pairing.le_withBoth renames .object)
    apply ((agree.objects_withBoth renames .object).alloc
      (fun _ _ => pairing.within renames.extent) fieldsLater).imp ?_ (fun _ _ => id)
    exact fun _ _ paired => paired.imp_right And.right
  arrays := (agree.arrays_withBoth renames .object).imp
    (fun _ _ => Pairing.pairs_of_withBoth renames (by decide)) (fun _ _ => id)
  checkedArrays := (agree.checkedArrays_withBoth renames .object).imp
    (fun _ _ => Pairing.pairs_of_withBoth renames (by decide)) (fun _ _ => id)
  counts := by
    intro extent isExtent
    cases isExtent
    rw [counts_newObject, counts_newObject]

theorem matches_newArray
    {elements elements' : Array Value}
    (related : ArraysRelated (Value.Matches pairing) elements elements') :
    (heap.newArray elements).2.Matches (pairing.withBoth renames .array)
      (heap'.newArray elements').2 where
  arrays := by
    have elementsLater := related.mono fun _ _ holds =>
      holds.mono (Pairing.le_withBoth renames .array)
    apply ((agree.arrays_withBoth renames .array).alloc
      (fun _ _ => pairing.within renames.extent) elementsLater).imp ?_ (fun _ _ => id)
    exact fun _ _ paired => paired.imp_right And.right
  objects := (agree.objects_withBoth renames .array).imp
    (fun _ _ => Pairing.pairs_of_withBoth renames (by decide)) (fun _ _ => id)
  checkedArrays := (agree.checkedArrays_withBoth renames .array).imp
    (fun _ _ => Pairing.pairs_of_withBoth renames (by decide)) (fun _ _ => id)
  counts := by
    intro extent isExtent
    cases isExtent
    rw [counts_newArray, counts_newArray]

theorem matches_newChecked
    {elements elements' : Array Value}
    (related : ArraysRelated (Value.Matches pairing) elements elements') :
    (heap.newChecked elements).2.Matches (pairing.withBoth renames .checkedArray)
      (heap'.newChecked elements').2 where
  checkedArrays := by
    have elementsLater : CheckedArray.Related
        (Value.Matches (pairing.withBoth renames .checkedArray)) ⟨elements⟩ ⟨elements'⟩ :=
      related.mono fun _ _ holds => holds.mono (Pairing.le_withBoth renames .checkedArray)
    apply ((agree.checkedArrays_withBoth renames .checkedArray).alloc
      (fun _ _ => pairing.within renames.extent) elementsLater).imp ?_ (fun _ _ => id)
    exact fun _ _ paired => paired.imp_right And.right
  objects := (agree.objects_withBoth renames .checkedArray).imp
    (fun _ _ => Pairing.pairs_of_withBoth renames (by decide)) (fun _ _ => id)
  arrays := (agree.arrays_withBoth renames .checkedArray).imp
    (fun _ _ => Pairing.pairs_of_withBoth renames (by decide)) (fun _ _ => id)
  counts := by
    intro extent isExtent
    cases isExtent
    rw [counts_newChecked, counts_newChecked]

theorem matches_newArraySecond (elements' : Array Value) :
    heap.Matches (pairing.withSecond renames) (heap'.newArray elements').2 where
  objects := agree.objects.imp (fun _ _ => id) fun _ _ related =>
    related.mono fun _ _ holds => holds.mono (Pairing.le_withSecond renames)
  arrays := by
    have second := agree.arrays.allocSecond
      (fun _ _ paired => (pairing.within renames.extent paired).2) elements'
    exact second.imp (fun _ _ => id) fun _ _ related =>
      related.mono fun _ _ holds => holds.mono (Pairing.le_withSecond renames)
  checkedArrays := agree.checkedArrays.imp (fun _ _ => id) fun _ _ related =>
    ArraysRelated.mono related fun _ _ holds => holds.mono (Pairing.le_withSecond renames)
  counts := by
    intro extent isExtent
    cases isExtent
    rw [counts_newArray]

end

section

variable
  {base : Pairing}
  (admitted : base.IsRenamingOver pairing)
  (agree : heap.Matches pairing heap')

include admitted agree

theorem extendsTo_newObject
    (cls : Symbol)
    {fields fields' : SymbolMap Value}
    (related : SymbolMap.Related (Value.Matches pairing) fields fields') :
    ExtendsTo base.IsRenamingOver pairing
      (YieldMatches (heap.newObject cls fields) (heap'.newObject cls fields')) := by
  have renames := agree.renames admitted.isRenaming
  exact ⟨_, Pairing.le_withBoth renames .object, admitted.withBoth renames .object,
    .object cls (.inr ⟨rfl, rfl, rfl⟩), matches_newObject agree renames cls related⟩

theorem extendsTo_newArray
    {elements elements' : Array Value}
    (related : ArraysRelated (Value.Matches pairing) elements elements') :
    ExtendsTo base.IsRenamingOver pairing
      (YieldMatches (heap.newArray elements) (heap'.newArray elements')) := by
  have renames := agree.renames admitted.isRenaming
  exact ⟨_, Pairing.le_withBoth renames .array, admitted.withBoth renames .array,
    .array (.inr ⟨rfl, rfl, rfl⟩), matches_newArray agree renames related⟩

theorem extendsTo_newChecked
    {elements elements' : Array Value}
    (related : ArraysRelated (Value.Matches pairing) elements elements') :
    ExtendsTo base.IsRenamingOver pairing
      (YieldMatches (heap.newChecked elements) (heap'.newChecked elements')) := by
  have renames := agree.renames admitted.isRenaming
  exact ⟨_, Pairing.le_withBoth renames .checkedArray, admitted.withBoth renames .checkedArray,
    .checkedArray (.inr ⟨rfl, rfl, rfl⟩), matches_newChecked agree renames related⟩

/-- The second side builds a plain array first, which nothing refers to. -/
theorem extendsTo_newLiteral
    {elements elements' : Array Value}
    (related : ArraysRelated (Value.Matches pairing) elements elements') :
    ExtendsTo base.IsRenamingOver pairing
      (YieldMatches (heap.newChecked elements)
        ((heap'.newArray elements').2.newChecked elements')) := by
  have renames := agree.renames admitted.isRenaming
  have further := Pairing.le_withSecond renames
  have relatedBetween := related.mono fun _ _ holds => holds.mono further
  have admittedBetween := admitted.withSecond renames
  obtain ⟨later, beyond, admittedLater, yields⟩ := extendsTo_newChecked admittedBetween
    (matches_newArraySecond agree renames elements') relatedBetween
  exact ⟨later, further.trans beyond, admittedLater, yields⟩

end

/-! ### Texts -/

theorem isIn_of_matches
    (renames : pairing.Renames heap.counts heap'.counts)
    {value value' : Value}
    (values : value.Matches pairing value') :
    value.isIn heap := by
  induction values with
  | object cls paired => exact decide_eq_true (pairing.within renames.extent paired).1
  | array paired => exact decide_eq_true (pairing.within renames.extent paired).1
  | checkedArray paired => exact decide_eq_true (pairing.within renames.extent paired).1
  | present _ inductionHypothesis => exact inductionHypothesis
  | _ => rfl

/-- A heap that is renamed is closed, as far as arrays go. -/
theorem Matches.itemsIn
    (agree : heap.Matches pairing heap')
    (renames : pairing.Renames heap.counts heap'.counts) :
    heap.ItemsIn := by
  have areIn : ∀ {items items' : List Value}, List.Forall₂ (Value.Matches pairing) items items' →
      ∀ item ∈ items, item.isIn heap := by
    intro items items' related
    exact ((List.forall₂_and_left items items').mp
      (related.imp fun _ _ values => ⟨isIn_of_matches renames values, values⟩)).1
  intro array member
  unfold allArrays at member
  rw [Finset.mem_union, Finset.mem_image, Finset.mem_image] at member
  rcases member with ⟨address, below, rfl⟩ | ⟨address, below, rfl⟩
  · obtain ⟨other, paired⟩ := renames.total .array address (Finset.mem_range.mp below)
    exact areIn (agree.elements paired)
  · obtain ⟨other, paired⟩ := renames.total .checkedArray address (Finset.mem_range.mp below)
    exact areIn (agree.checked paired)

/-- Values that agree have the same text. -/
theorem Matches.text?_eq
    (agree : heap.Matches pairing heap')
    (renames : pairing.Renames heap.counts heap'.counts)
    {value value' : Value}
    (values : value.Matches pairing value') :
    heap.text? value = heap'.text? value' := by
  have arrays : heap.arrays.next ≤ heap'.arrays.next := renames.count_le .array
  have checkedArrays : heap.checkedArrays.next ≤ heap'.checkedArrays.next :=
    renames.count_le .checkedArray
  have isIn := isIn_of_matches renames values
  calc
    heap.text? value
      = heap.textWithin (heap'.arrays.next + heap'.checkedArrays.next) value :=
        text?_eq_textWithin (agree.itemsIn renames) isIn (Nat.add_le_add arrays checkedArrays)
    _ = heap'.text? value' := textWithin_eq agree _ values

end Heap

/-! ### Comparisons -/

/-- The comparison of evaluations whose containers are the same up to a renaming
of identities, which keeps those that are paired at the beginning. -/
def Comparison.renaming
    (base : Pairing)
    (memory : Native.Memory)
    (rules : Rules)
    (table grown : SymbolTable)
    (grows : table.Later grown)
    (functions : Function → Function → Prop)
    (named : ∀ {f f'}, functions f f' → f'.name = f.name ∧ table.knows f.name) :
    Comparison where
  rules := rules
  table := table
  grown := grown
  grows := grows
  admits := base.IsRenamingOver
  memory := memory
  functions := functions
  named := named
  passes := fun _ _ _ => True
  refused := fun _ _ _ => False
  newObject := fun admitted heaps cls _ _ related =>
    Heap.extendsTo_newObject admitted heaps cls related
  newArray := fun admitted heaps _ _ related => Heap.extendsTo_newArray admitted heaps related
  newChecked := fun admitted heaps _ _ related => Heap.extendsTo_newChecked admitted heaps related
  newLiteral := fun _ _ _ _ admitted heaps _ _ related =>
    Heap.extendsTo_newLiteral admitted heaps related
  text := fun admitted heaps _ _ values => heaps.text?_eq (heaps.renames admitted.isRenaming) values

end NilSafety
