import NilSafety.Eval.StockNative
import NilSafety.Proofs.Evaluation.Renaming

/-!
Contract: what does not depend on the identities of containers.

Owns:
- closed heaps, in which every reference leads to a container, and the pairing of
  such a heap with itself;
- native functions that cannot tell identities, but for those of containers they
  know from the beginning, and that those for general use are such;
- a native function that holds on to a container of its own.

Does not own: evaluations.
-/

namespace NilSafety

/-! ### Closed heaps -/

/-- Every reference in the heap leads to a container of it. -/
def Heap.isClosed (heap : Heap) : Bool :=
  heap.objects.cells.toList.all (fun fields => fields.entries.all (·.2.isIn heap)) &&
    heap.arrays.cells.toList.all (fun elements => elements.toList.all (·.isIn heap)) &&
    heap.checkedArrays.cells.toList.all (fun contents => contents.toList.all (·.isIn heap))

/-- Every container of a heap stands for itself. -/
def Pairing.self (heap : Heap) : Pairing where
  pairs sort address other := address = other ∧ address < heap.counts sort
  functional := fun first second => first.1.symm.trans second.1
  injective := fun first second => first.1.trans second.1.symm
  extent := some (heap.counts, heap.counts)
  within := by
    intro first second isExtent sort address other paired
    cases isExtent
    exact ⟨paired.2, paired.1 ▸ paired.2⟩

theorem Pairing.renames_self (heap : Heap) :
    (Pairing.self heap).Renames heap.counts heap.counts where
  extent := rfl
  total := fun _ address below => ⟨address, rfl, below⟩
  onto := fun _ address _ below => ⟨address, rfl, below⟩

theorem Value.matches_self {heap : Heap} {value : Value} (isIn : value.isIn heap) :
    value.Matches (.self heap) value := by
  induction value with
  | nil => exact .nil
  | unit => exact .unit
  | int value => exact .int value
  | bool value => exact .bool value
  | str value => exact .str value
  | object cls address => exact .object cls ⟨rfl, of_decide_eq_true isIn⟩
  | array address => exact .array ⟨rfl, of_decide_eq_true isIn⟩
  | checkedArray address => exact .checkedArray ⟨rfl, of_decide_eq_true isIn⟩
  | absent => exact .absent
  | present inner inductionHypothesis => exact .present (inductionHypothesis isIn)

theorem Store.matches_self
    {α : Type}
    {pairs : Nat → Nat → Prop}
    {contents : α → α → Prop}
    (store : Store α)
    (same : ∀ address other, pairs address other → address = other)
    (related : ∀ cell ∈ store.cells.toList, contents cell cell) :
    store.Matches pairs contents store := by
  intro address other paired
  rw [← same address other paired]
  cases found : store.cells[address]? with
  | none => exact .none
  | some cell => exact .some (related cell (Array.mem_toList_iff.mpr (Array.mem_of_getElem? found)))

/-- A closed heap agrees with itself. -/
theorem Heap.matches_self {heap : Heap} (closed : heap.isClosed) :
    heap.Matches (.self heap) heap := by
  simp only [isClosed, Bool.and_eq_true, List.all_eq_true] at closed
  obtain ⟨⟨objects, arrays⟩, checkedArrays⟩ := closed
  refine ⟨?_, ?_, ?_, ?_⟩
  · apply heap.objects.matches_self fun _ _ => And.left
    intro fields member
    exact List.forall₂_same.mpr fun entry isEntry =>
      ⟨rfl, Value.matches_self (objects fields member entry isEntry)⟩
  · apply heap.arrays.matches_self fun _ _ => And.left
    intro elements member
    exact List.forall₂_same.mpr fun value isElement =>
      Value.matches_self (arrays elements member value isElement)
  · apply heap.checkedArrays.matches_self fun _ _ => And.left
    intro contents member
    exact List.forall₂_same.mpr fun value isElement =>
      Value.matches_self (checkedArrays contents member value isElement)
  · intro extent isExtent
    cases isExtent
    rfl

/-! ### Native functions -/

namespace Native

/-- Native functions cannot tell the identities of containers, but for those that a heap
has: asked the same up to a renaming that keeps these, they answer the same up to a
renaming. They may keep whatever they like from their calls, as long as it goes on to
agree as well. -/
def AreOblivious (heap : Heap) (natives : List (String × Native)) : Prop :=
  ∃ memory : Memory, memory.agrees (.self heap) [] [] ∧
    ∀ entry ∈ natives, entry.2.Carries (Pairing.self heap).IsRenamingOver memory entry.1

/-- A native function cannot tell the identities of containers, but for those that a heap
has, and it keeps nothing but its calls. -/
def IsOblivious (heap : Heap) (native : Native) : Prop :=
  ∀ name, native.Carries (Pairing.self heap).IsRenamingOver .none name

variable {base : Heap}

theorem areOblivious_of_forall
    {natives : List (String × Native)}
    (each : ∀ entry ∈ natives, entry.2.IsOblivious base) :
    AreOblivious base natives :=
  ⟨.none, trivial, fun entry member => each entry member entry.1⟩

/-- What other native functions keep does not matter to one that keeps nothing, if its
calls do not matter to them. -/
theorem IsOblivious.carries
    {native : Native}
    (oblivious : native.IsOblivious base)
    {memory : Memory}
    {name : String}
    (unaffected : ∀ {pairing : Pairing} {history history' : List NativeCall}
      {call call' : NativeCall}, call.name = name → call'.name = name →
      memory.agrees pairing history history' →
      memory.agrees pairing (call :: history) (call' :: history')) :
    native.Carries (Pairing.self base).IsRenamingOver memory name := by
  intro pairing history history' args args' heap heap' admitted calls arguments heaps
  obtain ⟨later, further, admittedLater, answers, heapsLater, -⟩ :=
    oblivious name admitted ⟨calls.each, trivial⟩ arguments heaps
  have kept := memory.mono further calls.kept
  exact ⟨later, further, admittedLater, answers, heapsLater, unaffected rfl rfl kept⟩

/-- A native function that leaves containers alone only needs answers that agree. -/
theorem isOblivious_of_answers
    {answer : List NativeCall → List Value → Except EvalError Value}
    (agree : ∀ {pairing : Pairing} {history history' : List NativeCall}
      {args args' : List Value},
      Pairing.self base ≤ pairing →
      List.Forall₂ (NativeCall.Matches (Pairing.self base).IsRenamingOver pairing) history
        history' →
      ListsMatch pairing args args' →
      ExceptAgrees (Value.Matches pairing) (answer history args) (answer history' args')) :
    IsOblivious base ⟨fun history args heap => (answer history args, heap)⟩ := by
  intro name pairing history history' args args' heap heap' admitted calls arguments heaps
  have answers := agree admitted.keeps calls.each arguments
  exact ⟨pairing, le_refl pairing, admitted, answers, heaps, trivial⟩

theorem isOblivious_constant {value : Value} (isIn : value.isIn base) :
    (constant value).IsOblivious base := by
  apply isOblivious_of_answers
  intro pairing history history' args args' keeps _ _
  exact .ok ((Value.matches_self isIn).mono keeps)

theorem isOblivious_failing (error : EvalError) : (failing error).IsOblivious base := by
  apply isOblivious_of_answers
  intro pairing history history' args args' _ _ _
  exact .error (.refl error)

theorem isOblivious_echo : echo.IsOblivious base := by
  apply isOblivious_of_answers
  intro pairing history history' args args' _ _ arguments
  refine .ok ?_
  cases arguments with
  | nil => exact .nil
  | cons first _ => exact first

theorem isOblivious_gather : gather.IsOblivious base := by
  intro name pairing history history' args args' heap heap' admitted _ arguments heaps
  have elements : ArraysRelated (Value.Matches pairing) args.toArray args'.toArray := arguments
  obtain ⟨later, further, admittedLater, array, heapsLater⟩ :=
    Heap.extendsTo_newArray admitted heaps elements
  exact ⟨later, further, admittedLater, .ok array, heapsLater, trivial⟩

theorem isOblivious_gatherChecked : gatherChecked.IsOblivious base := by
  intro name pairing history history' args args' heap heap' admitted _ arguments heaps
  have elements : ArraysRelated (Value.Matches pairing) args.toArray args'.toArray := arguments
  obtain ⟨later, further, admittedLater, array, heapsLater⟩ :=
    Heap.extendsTo_newChecked admitted heaps elements
  exact ⟨later, further, admittedLater, .ok array, heapsLater, trivial⟩

/-- Histories that agree hold equally many calls under a name. -/
theorem ownCalls_congr
    {admits : Pairing → Prop}
    {pairing : Pairing}
    {history history' : List NativeCall}
    (calls : List.Forall₂ (NativeCall.Matches admits pairing) history history')
    (name : String)
    (earlier : Nat) :
    ownCalls name earlier history = ownCalls name earlier history' := by
  have byNames : ∀ calls : List NativeCall, ownCalls name earlier calls =
      ((calls.map NativeCall.name).take (calls.length - earlier)).countP (· == name) := by
    intro calls
    unfold ownCalls
    rw [← List.map_take, List.countP_map]
    rfl
  have sameNames : history.map NativeCall.name = history'.map NativeCall.name := by
    induction calls with
    | nil => rfl
    | cons call _ sameRest => rw [List.map_cons, List.map_cons, call.name, sameRest]
  rw [byNames, byNames, sameNames, calls.length_eq]

theorem isOblivious_counter (own : String) (earlier : Nat) :
    (counter own earlier).IsOblivious base := by
  apply isOblivious_of_answers
  intro pairing history history' args args' _ calls _
  rw [ownCalls_congr calls]
  exact .ok (.int _)

theorem isOblivious_sequence
    (own : String)
    (earlier : Nat)
    {values : List Value}
    (areIn : ∀ value ∈ values, value.isIn base) :
    (sequence own earlier values).IsOblivious base := by
  apply isOblivious_of_answers
  intro pairing history history' args args' keeps calls _
  rw [ownCalls_congr calls, List.getD_eq_getElem?_getD]
  cases found : values[ownCalls own earlier history']? with
  | none => exact .ok .nil
  | some value =>
      have isIn := areIn value (List.mem_of_getElem? found)
      exact .ok ((Value.matches_self isIn).mono keeps)

/-! ### A native function that holds on to an array -/

/-- The first call under a name in a history. -/
def firstCall? (name : String) (history : List NativeCall) : Option NativeCall :=
  history.reverse.find? (·.name == name)

/-- Makes an array when it is called for the first time, and answers it from then on. -/
def keeper (name : String) : Native :=
  ⟨fun history _ heap =>
    match firstCall? name history with
    | some call => (.ok (.array call.heap.arrays.next), heap)
    | none =>
        let (array, heap) := heap.newArray #[]
        (.ok array, heap)⟩

theorem firstCall?_cons (name : String) (call : NativeCall) (history : List NativeCall) :
    firstCall? name (call :: history) =
      (firstCall? name history).or (if call.name = name then some call else none) := by
  unfold firstCall?
  rw [List.reverse_cons, List.find?_append, List.find?_singleton]
  simp only [beq_iff_eq]

/-- What it keeps is the array, whose address is the next one at its first call. -/
def keeperMemory (name : String) : Memory where
  agrees := fun pairing calls calls' =>
    Option.Rel (fun first first' =>
        pairing.pairs .array first.heap.arrays.next first'.heap.arrays.next)
      (firstCall? name calls) (firstCall? name calls')
  mono := by
    intro pairing later calls calls' further agree
    generalize firstCall? name calls = first at agree ⊢
    generalize firstCall? name calls' = first' at agree ⊢
    cases agree with
    | none => exact .none
    | some paired => exact .some (further _ _ _ paired)

theorem carries_keeper (name : String) :
    (keeper name).Carries (Pairing.self base).IsRenamingOver (keeperMemory name) name := by
  intro pairing history history' args args' heap heap' admitted calls _ heaps
  have kept : Option.Rel _ (firstCall? name history) (firstCall? name history') := calls.kept
  unfold keeper keeperMemory
  simp only [firstCall?_cons, if_true]
  generalize firstCall? name history = first at kept ⊢
  generalize firstCall? name history' = first' at kept ⊢
  cases kept with
  | some paired =>
      exact ⟨pairing, le_refl pairing, admitted, .ok (.array paired), heaps, .some paired⟩
  | none =>
      have noElements : ArraysRelated (Value.Matches pairing) #[] #[] := .nil
      obtain ⟨later, further, admittedLater, array, heapsLater⟩ :=
        Heap.extendsTo_newArray admitted heaps noElements
      refine ⟨later, further, admittedLater, .ok array, heapsLater, ?_⟩
      cases array with
      | array paired => exact .some paired

/-- It goes together with native functions that keep nothing. -/
theorem areOblivious_keeper
    (name : String)
    {others : List (String × Native)}
    (each : ∀ entry ∈ others, entry.1 ≠ name ∧ entry.2.IsOblivious base) :
    AreOblivious base ((name, keeper name) :: others) := by
  refine ⟨keeperMemory name, .none, ?_⟩
  intro entry member
  rcases List.mem_cons.mp member with rfl | isOther
  · exact carries_keeper name
  · obtain ⟨differs, oblivious⟩ := each entry isOther
    refine oblivious.carries ?_
    intro pairing history history' call call' isName isName' agree
    unfold keeperMemory at agree ⊢
    simp only [firstCall?_cons, isName, isName', if_neg differs, Option.or_none]
    exact agree

end Native

end NilSafety
