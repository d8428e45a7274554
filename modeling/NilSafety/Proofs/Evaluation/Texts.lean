import Mathlib.Data.Finset.Card
import Mathlib.Data.Fintype.Card
import NilSafety.Proofs.Evaluation.Heaps

/-!
Contract: the texts of values.

Owns:
- that values which agree have the same text at every depth;
- that looking deeper never changes a text that was found;
- that no value of a closed heap has a text only at a depth beyond the number of
  arrays in the heap.

Does not own: heaps of which the second one has more arrays than the first.

The arrays that have a text at some depth are among those that have one a step
deeper. Once a step adds none, no later one does, so there are at most as many steps
as arrays.
-/

namespace NilSafety

/-! ### Values inside a heap -/

/-- The value refers to containers of the heap only. -/
def Value.isIn (heap : Heap) : Value → Bool
  | .object _ address => address < heap.objects.next
  | .array address => address < heap.arrays.next
  | .checkedArray address => address < heap.checkedArrays.next
  | .present inner => isIn heap inner
  | .nil | .unit | .int _ | .bool _ | .str _ | .absent => true

namespace Heap

/-- The elements of an array. -/
def itemsOf (heap : Heap) : Value → List Value
  | .array address => (heap.elements address).toList
  | .checkedArray address => (heap.checked address).toList
  | _ => []

/-- The arrays of a heap. -/
def allArrays (heap : Heap) : Finset Value :=
  (Finset.range heap.arrays.next).image .array ∪
    (Finset.range heap.checkedArrays.next).image .checkedArray

theorem card_allArrays_le (heap : Heap) :
    heap.allArrays.card ≤ heap.arrays.next + heap.checkedArrays.next := by
  have plain : ((Finset.range heap.arrays.next).image Value.array).card ≤ heap.arrays.next := by
    have atMost := (Finset.card_image_le : ((Finset.range heap.arrays.next).image
      Value.array).card ≤ _)
    rwa [Finset.card_range] at atMost
  have checked : ((Finset.range heap.checkedArrays.next).image Value.checkedArray).card ≤
      heap.checkedArrays.next := by
    have atMost := (Finset.card_image_le : ((Finset.range heap.checkedArrays.next).image
      Value.checkedArray).card ≤ _)
    rwa [Finset.card_range] at atMost
  have union : heap.allArrays.card ≤ _ := Finset.card_union_le _ _
  omega

/-! ### One step deeper -/

section

variable {heap : Heap}

theorem textWith_mono
    {itemsText itemsText' : List Value → Option String}
    (further : ∀ items text, itemsText items = some text → itemsText' items = some text)
    (value : Value)
    {text : String}
    (found : heap.textWith itemsText value = some text) :
    heap.textWith itemsText' value = some text := by
  induction value generalizing text with
  | array | checkedArray => exact further _ _ found
  | present inner inductionHypothesis =>
      unfold textWith at found ⊢
      rw [Option.map_eq_some_iff] at found ⊢
      obtain ⟨innerText, isText, shown⟩ := found
      exact ⟨innerText, inductionHypothesis isText, shown⟩
  | bool value => cases value <;> exact found
  | _ => exact found

theorem mapM_eq_some_iff
    {α β : Type}
    {f : α → Option β}
    {list : List α}
    {results : List β} :
    list.mapM f = some results ↔
      List.Forall₂ (fun item result => f item = some result) list results := by
  induction list generalizing results with
  | nil =>
      rw [List.mapM_nil, List.forall₂_nil_left_iff]
      exact ⟨fun same => (Option.some.inj same).symm, fun same => same ▸ rfl⟩
  | cons first rest inductionHypothesis =>
      rw [List.mapM_cons, List.forall₂_cons_left_iff]
      simp only [Option.bind_eq_bind, Option.bind_eq_some_iff, inductionHypothesis,
        Option.pure_def, Option.some.injEq]
      constructor
      · rintro ⟨result, isResult, others, areOthers, rfl⟩
        exact ⟨result, others, isResult, areOthers, rfl⟩
      · rintro ⟨result, others, isResult, areOthers, rfl⟩
        exact ⟨result, isResult, others, areOthers, rfl⟩

theorem isSome_mapM {α β : Type} {f : α → Option β} {list : List α} :
    (list.mapM f).isSome ↔ ∀ item ∈ list, (f item).isSome := by
  induction list with
  | nil => simp
  | cons first rest inductionHypothesis =>
      rw [List.mapM_cons, List.forall_mem_cons, ← inductionHypothesis]
      cases f first with
      | none => simp
      | some text => cases rest.mapM f <;> simp

theorem textWithin_succ
    (depth : Nat)
    (value : Value)
    {text : String}
    (found : heap.textWithin depth value = some text) :
    heap.textWithin (depth + 1) value = some text := by
  induction depth generalizing value text with
  | zero => exact textWith_mono (fun _ _ absurd => by cases absurd) value found
  | succ depth inductionHypothesis =>
      apply textWith_mono ?_ value found
      intro items text found
      rw [Option.map_eq_some_iff] at found ⊢
      obtain ⟨texts, areTexts, shown⟩ := found
      rw [mapM_eq_some_iff] at areTexts
      exact ⟨texts, mapM_eq_some_iff.mpr
        (areTexts.imp fun item _ isText => inductionHypothesis item isText), shown⟩

theorem textWithin_mono
    {depth further : Nat}
    (deeper : depth ≤ further)
    (value : Value)
    {text : String}
    (found : heap.textWithin depth value = some text) :
    heap.textWithin further value = some text := by
  induction deeper with
  | refl => exact found
  | step _ inductionHypothesis => exact textWithin_succ _ value inductionHypothesis

/-! ### Which values have a text -/

theorem isSome_textWith_core (itemsText : List Value → Option String) (value : Value) :
    (heap.textWith itemsText value.core).isSome = (heap.textWith itemsText value).isSome := by
  induction value with
  | present inner inductionHypothesis =>
      show (heap.textWith itemsText inner.core).isSome =
        ((heap.textWith itemsText inner).map _).isSome
      rw [Option.isSome_map]
      exact inductionHypothesis
  | _ => rfl

theorem isSome_textWithin_core (depth : Nat) (value : Value) :
    (heap.textWithin depth value.core).isSome = (heap.textWithin depth value).isSome := by
  cases depth with
  | zero => exact isSome_textWith_core _ value
  | succ depth => exact isSome_textWith_core _ value

/-- The arrays of the heap that have a text at a depth. -/
def textual (heap : Heap) (depth : Nat) : Finset Value :=
  heap.allArrays.filter fun array => (heap.textWithin depth array).isSome

theorem mem_textual {depth : Nat} {value : Value} :
    value ∈ heap.textual depth ↔
      value ∈ heap.allArrays ∧ (heap.textWithin depth value).isSome :=
  Finset.mem_filter

theorem mem_allArrays_or_isSome
    (depth : Nat)
    {value : Value}
    (isIn : value.isIn heap) :
    value.core ∈ heap.allArrays ∨ (heap.textWithin depth value.core).isSome := by
  induction value with
  | array address =>
      have below : address < heap.arrays.next := of_decide_eq_true isIn
      apply Or.inl
      exact Finset.mem_union_left _ (Finset.mem_image_of_mem _ (Finset.mem_range.mpr below))
  | checkedArray address =>
      have below : address < heap.checkedArrays.next := of_decide_eq_true isIn
      apply Or.inl
      exact Finset.mem_union_right _ (Finset.mem_image_of_mem _ (Finset.mem_range.mpr below))
  | present inner inductionHypothesis => exact inductionHypothesis isIn
  | bool value => cases value <;> cases depth <;> exact .inr rfl
  | _ => cases depth <;> exact .inr rfl

/-- A value in the heap has a text unless it holds an array without one. -/
theorem isSome_textWithin_iff
    (depth : Nat)
    {value : Value}
    (isIn : value.isIn heap) :
    (heap.textWithin depth value).isSome ↔
      (value.core ∈ heap.allArrays → value.core ∈ heap.textual depth) := by
  rw [← isSome_textWithin_core]
  constructor
  · intro hasText member
    exact mem_textual.mpr ⟨member, hasText⟩
  · intro textual
    rcases mem_allArrays_or_isSome depth isIn with member | hasText
    · exact (mem_textual.mp (textual member)).2
    · exact hasText

theorem isSome_textWithin_array
    (depth : Nat)
    {array : Value}
    (member : array ∈ heap.allArrays) :
    (heap.textWithin (depth + 1) array).isSome ↔
      ∀ item ∈ heap.itemsOf array, (heap.textWithin depth item).isSome := by
  rw [← isSome_mapM]
  unfold allArrays at member
  rw [Finset.mem_union, Finset.mem_image, Finset.mem_image] at member
  rcases member with ⟨address, -, rfl⟩ | ⟨address, -, rfl⟩
  · exact Eq.to_iff (congrArg (· = true) Option.isSome_map)
  · exact Eq.to_iff (congrArg (· = true) Option.isSome_map)

/-! ### Depth enough -/

/-- The elements of all arrays refer to containers of the heap only. -/
def ItemsIn (heap : Heap) : Prop :=
  ∀ array ∈ heap.allArrays, ∀ item ∈ heap.itemsOf array, item.isIn heap

theorem textual_subset (depth : Nat) : heap.textual depth ⊆ heap.textual (depth + 1) := by
  intro array textual
  obtain ⟨member, hasText⟩ := mem_textual.mp textual
  obtain ⟨text, found⟩ := Option.isSome_iff_exists.mp hasText
  exact mem_textual.mpr ⟨member, by rw [textWithin_succ depth array found]; rfl⟩

/-- A step that adds no array is followed by steps that add none. -/
theorem textual_succ_eq
    (items : heap.ItemsIn)
    {depth : Nat}
    (same : heap.textual depth = heap.textual (depth + 1)) :
    heap.textual (depth + 1) = heap.textual (depth + 2) := by
  ext array
  rw [mem_textual, mem_textual]
  apply and_congr_right
  intro member
  rw [isSome_textWithin_array depth member, isSome_textWithin_array (depth + 1) member]
  apply forall₂_congr
  intro item isItem
  have isIn := items array member item isItem
  rw [isSome_textWithin_iff depth isIn, isSome_textWithin_iff (depth + 1) isIn, same]

theorem textual_eq_or_card
    (items : heap.ItemsIn)
    (depth : Nat) :
    heap.textual depth = heap.textual (depth + 1) ∨ depth < (heap.textual (depth + 1)).card := by
  induction depth with
  | zero =>
      by_cases same : heap.textual 0 = heap.textual 1
      · exact .inl same
      · have more := Finset.card_lt_card ((textual_subset 0).ssubset_of_ne same)
        exact .inr (Nat.zero_lt_of_lt more)
  | succ depth inductionHypothesis =>
      by_cases same : heap.textual (depth + 1) = heap.textual (depth + 2)
      · exact .inl same
      · rcases inductionHypothesis with stopped | many
        · exact .inl (textual_succ_eq items stopped)
        · have more := Finset.card_lt_card ((textual_subset (depth + 1)).ssubset_of_ne same)
          exact .inr (by omega)

/-- From the number of arrays on, looking deeper finds no further texts. -/
theorem textual_eq
    (items : heap.ItemsIn)
    {depth : Nat}
    (deep : heap.arrays.next + heap.checkedArrays.next ≤ depth) :
    heap.textual (heap.arrays.next + heap.checkedArrays.next) = heap.textual depth := by
  have stops : heap.textual (heap.arrays.next + heap.checkedArrays.next) =
      heap.textual (heap.arrays.next + heap.checkedArrays.next + 1) := by
    rcases textual_eq_or_card items (heap.arrays.next + heap.checkedArrays.next) with same | many
    · exact same
    · have atMost : (heap.textual (heap.arrays.next + heap.checkedArrays.next + 1)).card ≤
          heap.allArrays.card := Finset.card_le_card (Finset.filter_subset _ _)
      have bound := heap.card_allArrays_le
      omega
  have next : ∀ further, heap.arrays.next + heap.checkedArrays.next ≤ further →
      heap.textual (heap.arrays.next + heap.checkedArrays.next) = heap.textual further ∧
        heap.textual further = heap.textual (further + 1) := by
    intro further deeper
    induction deeper with
    | refl => exact ⟨rfl, stops⟩
    | step _ inductionHypothesis =>
        obtain ⟨same, still⟩ := inductionHypothesis
        exact ⟨same.trans still, textual_succ_eq items still⟩
  exact (next depth deep).1

/-- The text of a value does not change with further depth. -/
theorem text?_eq_textWithin
    (items : heap.ItemsIn)
    {value : Value}
    (isIn : value.isIn heap)
    {depth : Nat}
    (deep : heap.arrays.next + heap.checkedArrays.next ≤ depth) :
    heap.text? value = heap.textWithin depth value := by
  have sameSome : (heap.text? value).isSome ↔ (heap.textWithin depth value).isSome := by
    unfold text?
    rw [isSome_textWithin_iff _ isIn, isSome_textWithin_iff _ isIn, textual_eq items deep]
  cases found : heap.text? value with
  | some text => exact (textWithin_mono deep value found).symm
  | none =>
      rw [found] at sameSome
      cases deeper : heap.textWithin depth value with
      | none => rfl
      | some text =>
          rw [deeper] at sameSome
          exact absurd (sameSome.mpr rfl) Bool.false_ne_true

end

/-! ### Texts of values that agree -/

section

variable {pairing : Pairing} {heap heap' : Heap}

theorem textWith_eq
    (agree : heap.Matches pairing heap')
    {itemsText itemsText' : List Value → Option String}
    (sameItems : ∀ items items', List.Forall₂ (Value.Matches pairing) items items' →
      itemsText items = itemsText' items')
    {value value' : Value}
    (values : value.Matches pairing value') :
    heap.textWith itemsText value = heap'.textWith itemsText' value' := by
  induction values with
  | array paired => exact sameItems _ _ (agree.elements paired)
  | checkedArray paired => exact sameItems _ _ (agree.checked paired)
  | present _ inductionHypothesis =>
      unfold textWith
      rw [inductionHypothesis]
  | bool value => cases value <;> rfl
  | _ => rfl

theorem textWithin_eq
    (agree : heap.Matches pairing heap')
    (depth : Nat)
    {value value' : Value}
    (values : value.Matches pairing value') :
    heap.textWithin depth value = heap'.textWithin depth value' := by
  induction depth generalizing value value' with
  | zero => exact textWith_eq agree (fun _ _ _ => rfl) values
  | succ depth inductionHypothesis =>
      apply textWith_eq agree ?_ values
      intro items items' related
      apply congrArg (Option.map listText)
      induction related with
      | nil => rfl
      | cons first _ sameRest =>
          rw [List.mapM_cons, List.mapM_cons, inductionHypothesis first, sameRest]

end

end Heap

end NilSafety
