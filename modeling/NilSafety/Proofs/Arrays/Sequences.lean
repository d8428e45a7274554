import NilSafety.Proofs.Evaluation.Members
import NilSafety.Proofs.Evaluation.Places
import NilSafety.Proofs.Runs

/-!
Contract: checked arrays are sequences with a check of the position.

Owns:
- the operations on an array and their answers, and the same operations on a plain list;
- that a run of operations gets the same answers from both and leaves the same elements;
- that programs read, ask for and assign the elements of a checked array by one rule.

Does not own: plain arrays, and values under present layers.

A position is valid if it lies from 0 up to but excluding the length. What stands at a
valid position is found, a stored nil like every other element.
-/

namespace NilSafety

namespace CheckedArray

variable {α : Type}

/-! ### Operations -/

/-- What can be done to an array. -/
inductive Op (α : Type) where
  /-- Reads the element at a position. -/
  | read (index : Int)
  /-- Puts another element in the place at a position and answers the one it held. -/
  | exchange (index : Int) (value : α)
  /-- Replaces the element at a position. -/
  | replace (index : Int) (value : α)
  /-- Adds an element at the end. -/
  | append (value : α)
  /-- Takes out all elements and collects them again. -/
  | rebuild

/-- What an operation answers. -/
inductive Answer (α : Type) where
  /-- The element at the position, if the position is valid. -/
  | element (found : Option α)
  /-- Whether the element was replaced. -/
  | done (changed : Bool)
  /-- Nothing. -/
  | nothing

namespace Op

/-- The operation on a checked array. -/
def perform : Op α → CheckedArray α → Answer α × CheckedArray α
  | read index, array => (.element (array.get? index), array)
  | exchange index value, array =>
      match array.slot? index with
      | some slot => (.element (some slot.element), slot.fill value)
      | none => (.element none, array)
  | replace index value, array =>
      match array.set? index value with
      | some changed => (.done true, changed)
      | none => (.done false, array)
  | append value, array => (.nothing, array.push value)
  | rebuild, array => (.nothing, ofList array.toList)

end Op

/-- Whether a signed position lies in a sequence. -/
def IsPosition (items : List α) (index : Int) : Prop :=
  0 ≤ index ∧ index < items.length

instance (items : List α) (index : Int) : Decidable (IsPosition items index) :=
  inferInstanceAs (Decidable (_ ∧ _))

/-- The element of a sequence at a signed position. -/
def elementOf? (items : List α) (index : Int) : Option α :=
  if IsPosition items index then items[index.toNat]? else none

/-- The sequence with another element at a signed position, if the position is valid. -/
def replacedAt (items : List α) (index : Int) (value : α) : List α :=
  if IsPosition items index then items.set index.toNat value else items

/-- The operation on a plain list. -/
def Op.performOnList : Op α → List α → Answer α × List α
  | read index, items => (.element (elementOf? items index), items)
  | exchange index value, items =>
      (.element (elementOf? items index), replacedAt items index value)
  | replace index value, items =>
      (.done (decide (IsPosition items index)), replacedAt items index value)
  | append value, items => (.nothing, items ++ [value])
  | rebuild, items => (.nothing, items)

/-! ### Single operations -/

@[simp] theorem toList_ofList (items : List α) : (ofList items).toList = items :=
  List.toList_toArray

@[simp] theorem toList_push (array : CheckedArray α) (value : α) :
    (array.push value).toList = array.toList ++ [value] :=
  Array.toList_push

theorem isPosition_iff {array : CheckedArray α} {index : Int} :
    IsPosition array.toList index ↔ 0 ≤ index ∧ index.toNat < array.items.size := by
  have length : array.toList.length = array.items.size := Array.length_toList
  unfold IsPosition
  omega

/-- What the place at a position gives access to. -/
theorem slot?_of_isPosition
    {array : CheckedArray α}
    {index : Int}
    (valid : IsPosition array.toList index) :
    ∃ slot, array.slot? index = some slot ∧
      elementOf? array.toList index = some slot.element ∧
      ∀ value, (slot.fill value).toList = replacedAt array.toList index value := by
  have inside := isPosition_iff.mp valid
  have place : array.position? index = some ⟨index.toNat, inside.2⟩ := dif_pos inside
  refine ⟨_, by rw [slot?, place], ?_, fun value => ?_⟩
  · rw [elementOf?, if_pos valid]
    exact List.getElem?_eq_getElem inside.2
  · rw [replacedAt, if_pos valid]
    exact Array.toList_set (h := inside.2) ..

theorem slot?_of_not_isPosition
    {array : CheckedArray α}
    {index : Int}
    (invalid : ¬ IsPosition array.toList index) :
    array.slot? index = none := by
  have noPlace : array.position? index = none := dif_neg (isPosition_iff.not.mp invalid)
  rw [slot?, noPlace]

theorem get?_eq_slot? (array : CheckedArray α) (index : Int) :
    array.get? index = (array.slot? index).map Slot.element := by
  unfold get? slot?
  cases array.position? index <;> rfl

theorem get?_eq_elementOf? (array : CheckedArray α) (index : Int) :
    array.get? index = elementOf? array.toList index := by
  rw [get?_eq_slot?]
  by_cases valid : IsPosition array.toList index
  · obtain ⟨slot, found, isElement, -⟩ := slot?_of_isPosition valid
    rw [found, isElement, Option.map_some]
  · rw [slot?_of_not_isPosition valid, elementOf?, if_neg valid, Option.map_none]

theorem isSome_elementOf? {items : List α} {index : Int} :
    (elementOf? items index).isSome ↔ IsPosition items index := by
  unfold elementOf?
  split
  next valid =>
    have inside : index.toNat < items.length := by
      unfold IsPosition at valid
      omega
    simp [inside, valid]
  next invalid => simp [invalid]

theorem set?_of_isPosition
    {array : CheckedArray α}
    {index : Int}
    (valid : IsPosition array.toList index)
    (value : α) :
    ∃ changed, array.set? index value = some changed ∧
      changed.toList = replacedAt array.toList index value := by
  obtain ⟨slot, found, -, fills⟩ := slot?_of_isPosition valid
  exact ⟨slot.fill value, by rw [set?, found], fills value⟩

theorem set?_of_not_isPosition
    {array : CheckedArray α}
    {index : Int}
    (invalid : ¬ IsPosition array.toList index)
    (value : α) :
    array.set? index value = none := by
  rw [set?, slot?_of_not_isPosition invalid]

/-! ### Runs -/

/-- An operation answers on an array what it answers on the list of its elements, and
changes the elements in the same way. -/
theorem perform_toList (op : Op α) (array : CheckedArray α) :
    ((op.perform array).1, (op.perform array).2.toList) = op.performOnList array.toList := by
  cases op with
  | read index => simp only [Op.perform, Op.performOnList, get?_eq_elementOf?]
  | exchange index value =>
      by_cases valid : IsPosition array.toList index
      · obtain ⟨slot, found, isElement, fills⟩ := slot?_of_isPosition valid
        simp only [Op.perform, Op.performOnList, found, isElement, fills]
      · simp only [Op.perform, Op.performOnList, slot?_of_not_isPosition valid, elementOf?,
          replacedAt, if_neg valid]
  | replace index value =>
      by_cases valid : IsPosition array.toList index
      · obtain ⟨changed, isSet, elements⟩ := set?_of_isPosition valid value
        simp only [Op.perform, Op.performOnList, isSet, elements, valid, decide_true]
      · simp only [Op.perform, Op.performOnList, set?_of_not_isPosition valid, replacedAt,
          if_neg valid, decide_eq_false valid]
  | append value => simp only [Op.perform, Op.performOnList, toList_push]
  | rebuild => simp only [Op.perform, Op.performOnList, toList_ofList]

theorem performAll_toList (ops : List (Op α)) (array : CheckedArray α) :
    ((performAll Op.perform ops array).1, (performAll Op.perform ops array).2.toList) =
      performAll Op.performOnList ops array.toList := by
  induction ops generalizing array with
  | nil => rfl
  | cons op rest inductionHypothesis =>
      have step := perform_toList op array
      simp only [performAll]
      rw [← step, ← inductionHypothesis]

end CheckedArray

/-! ### Elements as programs get at them -/

namespace Eval

open CheckedArray

section

variable
  {program : Program}
  {bound : Nat}
  {collection position : Expr}
  {machine between after : Machine}
  {address : Nat}
  {place : Int64}
  (isArray : expr (program.context .plain bound) collection machine =
    (.next (.checkedArray address), between))
  (isPlace : expr (program.context .plain bound) position between = (.next (.int place), after))

include isArray isPlace

theorem expr_index_checkedArray (span : Span) :
    expr (program.context .plain bound) (.index collection position span) machine =
      (.next (.ofOption (elementOf? (after.heap.checked address).toList place.toInt)), after) := by
  rw [expr_index_of_next isArray isPlace, ← get?_eq_elementOf?]
  rfl

/-- A call of the method that reads an element. -/
theorem expr_get_checkedArray
    {get : Symbol}
    (isGet : program.table.display get = "get")
    (marked : Bool)
    (span : Span) :
    expr (program.context .plain bound) (.method collection get [.plain position] marked span)
        machine =
      (.next (.ofOption (elementOf? (after.heap.checked address).toList place.toInt)), after) := by
  have values : args (program.context .plain bound) [.plain position] between =
      (.next [.int place], after) := by
    simp only [Arg.plain, args]
    rw [bind_of_next isPlace]
    rfl
  have notSkipped : (program.context .plain bound).skips marked (.checkedArray address) = false := by
    cases marked <;> rfl
  have isName : (program.context .plain bound).name get = "get" := isGet
  have notObject : ∀ cls object, (Value.checkedArray address).core ≠ .object cls object := by
    intro cls object same
    cases same
  simp only [expr]
  rw [bind_of_next isArray, notSkipped, if_neg Bool.false_ne_true, bind_of_next values,
    Context.callMethod_eq_callBuiltin _ rfl notObject, Context.callBuiltin, isName,
    ← get?_eq_elementOf?]
  rfl

/-- An assignment to a valid position replaces the element there. -/
theorem assign_checkedArray_of_isPosition
    (valid : IsPosition (after.heap.checked address).toList place.toInt)
    (span : Span)
    (new : Value)
    (site : Span) :
    ∃ heap, assign (program.context .plain bound) new site (.index collection position span)
        machine = (.next (), { after with heap }) ∧
      (heap.checked address).toList =
        replacedAt (after.heap.checked address).toList place.toInt new := by
  obtain ⟨changed, isSet, elements⟩ := set?_of_isPosition valid new
  have notEmpty : (after.heap.checked address).length ≠ 0 := by
    have inside := isPosition_iff.mp valid
    unfold length
    omega
  have written : ((after.heap.setContents (.checkedArray address) changed).contents?
      (.checkedArray address)) = some changed :=
    Heap.contents?_setContents_self rfl notEmpty
  refine ⟨after.heap.setContents (.checkedArray address) changed, ?_, ?_⟩
  · rw [assign_index_of_next isArray isPlace]
    refine setHeapFrom_of_ok ?_
    rw [Member.writeElement_eq]
    simp only [Heap.contents?, isSet]
  · rw [← elements]
    exact congrArg toList (Option.some.inj written)

/-- An assignment to any other position fails and changes nothing. -/
theorem assign_checkedArray_of_not_isPosition
    (invalid : ¬ IsPosition (after.heap.checked address).toList place.toInt)
    (span : Span)
    (new : Value)
    (site : Span) :
    assign (program.context .plain bound) new site (.index collection position span) machine =
      (.error (.type (.outOfBounds place) site), after) := by
  rw [assign_index_of_next isArray isPlace]
  refine setHeapFrom_of_error ?_
  rw [Member.writeElement_eq]
  simp only [Heap.contents?, set?_of_not_isPosition invalid]

end

end Eval

/-- Whatever is done to a checked array, its answers and its elements are those of a plain
list to which the same is done. In a program, the element at a position of a checked array
is read and asked for alike, as an optional value, and it is present exactly if it can be
replaced. -/
theorem CheckedArray.refines_lists :
    (∀ (α : Type) (items : List α) (ops : List (Op α)),
      ((performAll Op.perform ops (ofList items)).1,
          (performAll Op.perform ops (ofList items)).2.toList) =
          performAll Op.performOnList ops items ∧
        ((performAll Op.perform ops empty).1, (performAll Op.perform ops empty).2.toList) =
          performAll Op.performOnList ops []) ∧
    (∀ (program : Program) (bound : Nat) (collection position : Expr)
        (machine between after : Machine) (address : Nat) (place : Int64) (get : Symbol),
      Eval.expr (program.context .plain bound) collection machine =
        (.next (.checkedArray address), between) →
      Eval.expr (program.context .plain bound) position between =
        (.next (.int place), after) →
      program.table.display get = "get" →
      ∃ found : Value, found.kind = .optional ∧
        found = .ofOption (elementOf? (after.heap.checked address).toList place.toInt) ∧
        (∀ span, Eval.expr (program.context .plain bound) (.index collection position span)
          machine = (.next found, after)) ∧
        (∀ marked span, Eval.expr (program.context .plain bound)
          (.method collection get [.plain position] marked span) machine =
            (.next found, after)) ∧
        ∀ new site span,
          let outcome := Eval.assign (program.context .plain bound) new site
            (.index collection position span) machine
          ((∃ inner, found = .present inner) ↔ outcome.1 = .next ()) ∧
            (outcome.2.heap.checked address).toList =
              replacedAt (after.heap.checked address).toList place.toInt new) := by
  constructor
  · intro α items ops
    refine ⟨?_, performAll_toList ops empty⟩
    rw [performAll_toList, toList_ofList]
  · intro program bound collection position machine between after address place get isArray
      isPlace isGet
    refine ⟨_, ?_, rfl, Eval.expr_index_checkedArray isArray isPlace,
      Eval.expr_get_checkedArray isArray isPlace isGet, fun new site span => ?_⟩
    · cases elementOf? (after.heap.checked address).toList place.toInt <;> rfl
    · by_cases valid : IsPosition (after.heap.checked address).toList place.toInt
      · obtain ⟨heap, replaces, elements⟩ :=
          Eval.assign_checkedArray_of_isPosition isArray isPlace valid span new site
        obtain ⟨inner, found⟩ := Option.isSome_iff_exists.mp (isSome_elementOf?.mpr valid)
        rw [replaces, found]
        exact ⟨iff_of_true ⟨inner, rfl⟩ rfl, elements⟩
      · have fails := Eval.assign_checkedArray_of_not_isPosition isArray isPlace valid span new site
        have absent : elementOf? (after.heap.checked address).toList place.toInt = none :=
          if_neg valid
        rw [fails, absent, replacedAt, if_neg valid]
        exact ⟨iff_of_false nofun nofun, rfl⟩

/-- Reads and an assignment of `xs[0]`, with a stored nil in `xs`. -/
theorem CheckedArray.refines_lists_of_stored_nil :
    let context := (Program.start (SymbolTable.empty.internAll ["get", "xs"]).2).context .plain 1
    let machine : Machine :=
      { Machine.start (Heap.empty.newChecked #[.nil]).2 with
        env := Env.start.define ⟨1⟩ (.checkedArray 0) }
    let array : Expr := .ident ⟨1⟩ default
    let place : Expr := .int 0 default
    Eval.expr context array machine = (.next (.checkedArray 0), machine) ∧
      Eval.expr context place machine = (.next (.int 0), machine) ∧
      context.program.table.display ⟨0⟩ = "get" ∧
      Eval.expr context (.index array place default) machine = (.next (.present .nil), machine) ∧
      Eval.expr context (.method array ⟨0⟩ [.plain place] false default) machine =
        (.next (.present .nil), machine) ∧
      (Eval.assign context (.int 2) default (.index array place default) machine).1 =
        .next () := by
  intro context machine array place
  have isArray : Eval.expr context array machine = (.next (.checkedArray 0), machine) := rfl
  have isPlace : Eval.expr context place machine = (.next (.int 0), machine) := rfl
  have isGet : context.program.table.display ⟨0⟩ = "get" := by decide
  obtain ⟨found, -, isFound, reads, asks, assigns⟩ :=
    refines_lists.2 _ 1 array place machine machine machine 0 0 ⟨0⟩ isArray isPlace isGet
  have isNil : found = .present .nil := isFound
  subst isNil
  exact ⟨isArray, isPlace, isGet, reads default, asks false default,
    (assigns (.int 2) default default).1.mp ⟨.nil, rfl⟩⟩

end NilSafety
