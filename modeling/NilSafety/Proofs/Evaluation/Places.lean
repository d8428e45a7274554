import Mathlib.Data.List.Nodup
import NilSafety.Eval.Session
import NilSafety.Proofs.Evaluation.HostEquality
import NilSafety.Proofs.Evaluation.Stores
import NilSafety.Proofs.Evaluation.Templates
import NilSafety.Proofs.Scope.Sets
import NilSafety.Rewrite.Unit

/-!
Contract: reading a place and assigning to it.

Owns:
- which values have a field to read, and which have an element;
- that a field or an element that can be read can be replaced, if the object or the array
  is under no present layer, and cannot otherwise;
- that nothing else changes, and what is read from then on.

Does not own: variables, and places that cannot be read.

Reads look through present layers, and assignments do not. What a checked array holds is
read under such a layer. So the elements of a checked array can be replaced, but neither
the fields of an object nor the elements of an array that was read out of one.
-/

namespace NilSafety

/-- An element as it is read out of an array: one of a checked array is present. -/
def Value.shown (collection stored : Value) : Value :=
  match collection with
  | .checkedArray _ => .present stored
  | _ => stored

namespace Member

variable {heap : Heap} {holder : Value}

/-! ### Values -/

theorem readField_eq_ok_iff {table : SymbolTable} {name : Symbol} {span : Span} {value : Value} :
    readField table heap holder name span = .ok value ↔
      ∃ cls address, holder.core = .object cls address ∧
        (heap.fields address).get? name = some value := by
  unfold readField
  cases holder.core with
  | object cls address =>
      cases found : (heap.fields address).get? name with
      | none => simp [found]
      | some value => simp [found, and_assoc]
  | _ => simp

theorem readElement_eq_ok
    {position value : Value}
    {span : Span}
    (reads : readElement heap holder position span = .ok value) :
    ∃ place, position = .int place := by
  cases position with
  | int place => exact ⟨place, rfl⟩
  | _ => cases reads

theorem readElement_of_stored
    {place : Int64}
    {old : Value}
    (isThere : heap.stored? holder.core place.toInt = some old)
    (span : Span) :
    readElement heap holder (.int place) span = .ok (holder.core.shown old) := by
  unfold readElement
  cases isCore : holder.core with
  | array address =>
      rw [isCore] at isThere
      have found : elementAt? (heap.elements address) place = some old := isThere
      dsimp only
      rw [found]
      rfl
  | checkedArray address =>
      rw [isCore] at isThere
      have found : (heap.checked address).get? place.toInt = some old := isThere
      dsimp only
      rw [found]
      rfl
  | _ =>
      rw [isCore] at isThere
      cases isThere

/-- Both kinds of arrays are written to in the same way. -/
theorem writeElement_eq (heap : Heap) (collection : Value) (place : Int64) (new : Value)
    (span : Span) :
    writeElement heap collection (.int place) new span =
      match heap.contents? collection with
      | some contents =>
          match contents.set? place.toInt new with
          | some changed => .ok (heap.setContents collection changed)
          | none => .error (.type (.outOfBounds place) span)
      | none => .error (.type (.notIndexable collection.kind) span) := by
  cases collection <;> rfl

end Member

theorem Value.core_of_isPlain {value : Value} (isPlain : value.IsPlain) : value.core = value := by
  cases value with
  | present inner => exact absurd rfl (isPlain inner)
  | _ => rfl

theorem Value.exists_of_not_isPlain {value : Value} (notPlain : ¬ value.IsPlain) :
    ∃ inner, value = .present inner := by
  unfold IsPlain at notPlain
  simpa using notPlain

/-! ### Expressions and assignments -/

namespace Eval

variable
  {program : Program}
  {bound : Nat}
  {machine between after : Machine}
  {object collection position : Expr}
  {holder : Value}

theorem setHeapFrom_of_ok
    {outcome : Machine → Except EvalError Heap}
    {heap : Heap}
    (writes : outcome machine = .ok heap) :
    setHeapFrom outcome machine = (.next (), { machine with heap }) := by
  have read : Eval.machine machine = (.next machine, machine) := rfl
  unfold setHeapFrom
  rw [bind_of_next read, writes]
  rfl

theorem setHeapFrom_of_error
    {outcome : Machine → Except EvalError Heap}
    {error : EvalError}
    (fails : outcome machine = .error error) :
    setHeapFrom outcome machine = (.error error, machine) := by
  have read : Eval.machine machine = (.next machine, machine) := rfl
  unfold setHeapFrom
  rw [bind_of_next read, fails]
  rfl

section

variable (evaluates : expr (program.context .plain bound) object machine = (.next holder, after))

include evaluates

theorem expr_field_of_next (name : Symbol) (marked : Bool) (span : Span) :
    expr (program.context .plain bound) (.field object name marked span) machine =
      ofExcept (Member.readField program.table after.heap holder name span) after := by
  simp only [expr]
  rw [bind_of_next evaluates]
  rfl

theorem assign_field_of_next
    (name : Symbol)
    (marked : Bool)
    (span : Span)
    (new : Value)
    (site : Span) :
    assign (program.context .plain bound) new site (.field object name marked span) machine =
      setHeapFrom (fun machine =>
        Member.writeField program.table machine.heap holder name new site) after := by
  simp only [assign]
  rw [bind_of_next evaluates]
  rfl

end

section

variable
  {index : Value}
  (evaluates : expr (program.context .plain bound) collection machine = (.next holder, between))
  (isIndex : expr (program.context .plain bound) position between = (.next index, after))

include evaluates isIndex

theorem expr_index_of_next (span : Span) :
    expr (program.context .plain bound) (.index collection position span) machine =
      ofExcept (Member.readElement after.heap holder index span) after := by
  simp only [expr]
  rw [bind_of_next evaluates, bind_of_next isIndex]
  rfl

theorem assign_index_of_next (span : Span) (new : Value) (site : Span) :
    assign (program.context .plain bound) new site (.index collection position span) machine =
      setHeapFrom (fun machine =>
        Member.writeElement machine.heap holder index new site) after := by
  simp only [assign]
  rw [bind_of_next evaluates, bind_of_next isIndex]

end

/-- A field that was read, with what it was read from. -/
theorem exists_of_expr_field
    {name : Symbol}
    {marked : Bool}
    {span : Span}
    {old : Value}
    (reads : expr (program.context .plain bound) (.field object name marked span) machine =
      (.next old, after)) :
    ∃ holder, expr (program.context .plain bound) object machine = (.next holder, after) ∧
      Member.readField program.table after.heap holder name span = .ok old := by
  have parts := reads
  simp only [expr] at parts
  obtain ⟨holder, middle, evaluates, -⟩ := exists_of_bind_eq_next parts
  rw [expr_field_of_next evaluates] at reads
  cases found : Member.readField program.table middle.heap holder name span with
  | error error => rw [found] at reads; cases reads
  | ok value =>
      rw [found] at reads
      cases reads
      exact ⟨holder, evaluates, found⟩

/-- An element that was read, with what it was read from. -/
theorem exists_of_expr_index
    {span : Span}
    {value : Value}
    (reads : expr (program.context .plain bound) (.index collection position span) machine =
      (.next value, after)) :
    ∃ between holder place,
      expr (program.context .plain bound) collection machine = (.next holder, between) ∧
      expr (program.context .plain bound) position between = (.next (.int place), after) ∧
      Member.readElement after.heap holder (.int place) span = .ok value := by
  have parts := reads
  simp only [expr] at parts
  obtain ⟨holder, between, evaluates, rest⟩ := exists_of_bind_eq_next parts
  obtain ⟨index, last, isIndex, -⟩ := exists_of_bind_eq_next rest
  rw [expr_index_of_next evaluates isIndex] at reads
  cases found : Member.readElement last.heap holder index span with
  | error error => rw [found] at reads; cases reads
  | ok element =>
      rw [found] at reads
      cases reads
      obtain ⟨place, rfl⟩ := Member.readElement_eq_ok found
      exact ⟨between, holder, place, evaluates, isIndex, found⟩

end Eval

/-! ### Places -/

/-- Over these containers a field of `holder` is read as `value`, whatever expression has
`holder` as its value. -/
def Heap.ReadsField (heap : Heap) (context : Context) (holder : Value) (name : Symbol)
    (value : Value) : Prop :=
  ∀ (object : Expr) (marked : Bool) (span : Span) (machine after : Machine),
    Eval.expr context object machine = (.next holder, after) → after.heap = heap →
    Eval.expr context (.field object name marked span) machine = (.next value, after)

/-- Over these containers an element of `holder` is read as `value`, whatever expressions
have `holder` and the position as their values. -/
def Heap.ReadsElement (heap : Heap) (context : Context) (holder : Value) (place : Int64)
    (value : Value) : Prop :=
  ∀ (collection position : Expr) (span : Span) (machine between after : Machine),
    Eval.expr context collection machine = (.next holder, between) →
    Eval.expr context position between = (.next (.int place), after) → after.heap = heap →
    Eval.expr context (.index collection position span) machine = (.next value, after)

theorem Heap.FieldSet.reads
    {heap heap' : Heap}
    {cls : Symbol}
    {address : Nat}
    {name : Symbol}
    {new : Value}
    (isSet : heap.FieldSet heap' address name new)
    (program : Program)
    (bound : Nat) :
    heap'.ReadsField (program.context .plain bound) (.object cls address) name new := by
  intro object marked span machine after evaluates sameHeap
  have found : Member.readField program.table after.heap (.object cls address) name span =
      .ok new :=
    Member.readField_eq_ok_iff.mpr ⟨cls, address, rfl, sameHeap ▸ isSet.field⟩
  rw [Eval.expr_field_of_next evaluates, found]
  rfl

theorem Heap.ElementSet.reads
    {heap heap' : Heap}
    {collection : Value}
    {place : Int64}
    {new : Value}
    (isSet : heap.ElementSet heap' collection.core place.toInt new)
    (program : Program)
    (bound : Nat) :
    heap'.ReadsElement (program.context .plain bound) collection place
      (collection.core.shown new) := by
  intro object position span machine between after evaluates isIndex sameHeap
  have found : Member.readElement after.heap collection (.int place) span =
      .ok (collection.core.shown new) :=
    Member.readElement_of_stored (sameHeap ▸ isSet.element) span
  rw [Eval.expr_index_of_next evaluates isIndex, found]
  rfl

namespace Eval

variable
  {program : Program}
  {bound : Nat}
  {machine between after : Machine}
  {holder old : Value}

/-- An assignment to a field that was read replaces it, unless its object is under a
present layer. -/
theorem assign_field_of_read
    {object : Expr}
    {name : Symbol}
    {cls : Symbol}
    {address : Nat}
    (evaluates : expr (program.context .plain bound) object machine = (.next holder, after))
    (isObject : holder.core = .object cls address)
    (isThere : (after.heap.fields address).get? name = some old)
    (marked : Bool)
    (span : Span)
    (new : Value)
    (site : Span) :
    let context := program.context .plain bound
    let outcome := assign context new site (.field object name marked span) machine
    (holder.IsPlain → ∃ heap, outcome = (.next (), { after with heap }) ∧
      after.heap.FieldSet heap address name new ∧
      heap.ReadsField context holder name new) ∧
    (¬ holder.IsPlain → outcome = (.error (.type (.notAssignable .optional) site), after)) := by
  intro context outcome
  have writes : outcome = _ := assign_field_of_next evaluates name marked span new site
  rw [writes]
  constructor
  · intro isPlain
    rw [Value.core_of_isPlain isPlain] at isObject
    subst isObject
    have isSet := Heap.fieldSet_of_get? isThere new
    exact ⟨_, setHeapFrom_of_ok rfl, isSet, isSet.reads program bound⟩
  · intro notPlain
    obtain ⟨inner, rfl⟩ := Value.exists_of_not_isPlain notPlain
    exact setHeapFrom_of_error rfl

/-- So does an assignment to an element that was read, unless its array is. -/
theorem assign_index_of_read
    {collection position : Expr}
    {place : Int64}
    (evaluates : expr (program.context .plain bound) collection machine = (.next holder, between))
    (isIndex : expr (program.context .plain bound) position between = (.next (.int place), after))
    (isThere : after.heap.stored? holder.core place.toInt = some old)
    (span : Span)
    (new : Value)
    (site : Span) :
    let context := program.context .plain bound
    let outcome := assign context new site (.index collection position span) machine
    (holder.IsPlain → ∃ heap, outcome = (.next (), { after with heap }) ∧
      after.heap.ElementSet heap holder.core place.toInt new ∧
      heap.ReadsElement context holder place (holder.core.shown new)) ∧
    (¬ holder.IsPlain → outcome = (.error (.type (.notIndexable .optional) site), after)) := by
  intro context outcome
  have writes : outcome = _ := assign_index_of_next evaluates isIndex span new site
  rw [writes]
  constructor
  · intro isPlain
    obtain ⟨contents, changed, isArray, isChanged, isSet⟩ :=
      Heap.exists_elementSet_of_stored? isThere new
    refine ⟨after.heap.setContents holder.core changed, setHeapFrom_of_ok ?_, isSet,
      isSet.reads program bound⟩
    rw [Value.core_of_isPlain isPlain] at isArray ⊢
    rw [Member.writeElement_eq, isArray]
    dsimp only
    rw [isChanged]
  · intro notPlain
    obtain ⟨inner, rfl⟩ := Value.exists_of_not_isPlain notPlain
    exact setHeapFrom_of_error rfl

end Eval

/-- **Places.** Wherever a field is read, its object is known, and so are the array and the
position wherever an element is. An assignment of whatever value to a field that was read,
or to an element that an array holds, succeeds exactly if the object or the array is under
no present layer. Then this value is what the place is read as from then on, and no other
field and no other element changes, nor the length of an array. Under a present layer the
assignment is refused, with nothing changed. -/
theorem assignment_follows_reading (program : Program) (bound : Nat) :
    let context := program.context .plain bound
    (∀ (object : Expr) (name : Symbol) (marked : Bool) (span : Span) (machine after : Machine)
      (old : Value),
      Eval.expr context (.field object name marked span) machine = (.next old, after) →
      ∃ holder cls address,
        Eval.expr context object machine = (.next holder, after) ∧
        holder.core = .object cls address ∧
        (after.heap.fields address).get? name = some old ∧
        ∀ (new : Value) (site : Span),
          let outcome := Eval.assign context new site (.field object name marked span) machine
          (holder.IsPlain → ∃ heap, outcome = (.next (), { after with heap }) ∧
            after.heap.FieldSet heap address name new ∧
            heap.ReadsField context holder name new) ∧
          (¬ holder.IsPlain →
            outcome = (.error (.type (.notAssignable .optional) site), after))) ∧
    (∀ (collection position : Expr) (span : Span) (machine after : Machine) (value : Value),
      Eval.expr context (.index collection position span) machine = (.next value, after) →
      ∃ between holder place,
        Eval.expr context collection machine = (.next holder, between) ∧
        Eval.expr context position between = (.next (.int place), after) ∧
        ∀ old, after.heap.stored? holder.core place.toInt = some old →
          value = holder.core.shown old ∧
          ∀ (new : Value) (site : Span),
            let outcome := Eval.assign context new site (.index collection position span) machine
            (holder.IsPlain → ∃ heap, outcome = (.next (), { after with heap }) ∧
              after.heap.ElementSet heap holder.core place.toInt new ∧
              heap.ReadsElement context holder place (holder.core.shown new)) ∧
            (¬ holder.IsPlain →
              outcome = (.error (.type (.notIndexable .optional) site), after))) := by
  intro context
  constructor
  · intro object name marked span machine after old reads
    obtain ⟨holder, evaluates, found⟩ := Eval.exists_of_expr_field reads
    obtain ⟨cls, address, isObject, isThere⟩ := Member.readField_eq_ok_iff.mp found
    exact ⟨holder, cls, address, evaluates, isObject, isThere,
      Eval.assign_field_of_read evaluates isObject isThere marked span⟩
  · intro collection position span machine after value reads
    obtain ⟨between, holder, place, evaluates, isIndex, found⟩ := Eval.exists_of_expr_index reads
    refine ⟨between, holder, place, evaluates, isIndex, fun old isThere => ⟨?_, ?_⟩⟩
    · rw [Member.readElement_of_stored isThere span] at found
      exact (Except.ok.inj found).symm
    · exact Eval.assign_index_of_read evaluates isIndex isThere span

/-- A field of an object and an element of an array, both just built. -/
theorem assignment_follows_reading_of_literals :
    let context := (Program.start .empty).context .plain 1
    let field : Expr :=
      .field (.construct ⟨0⟩ [.mk ⟨1⟩ (.int 1 default)] default) ⟨1⟩ false default
    let element : Expr := .index (.array [.int 1 default] default) (.int 0 default) default
    (∃ after heap,
      Eval.expr context field (.start .empty) = (.next (.int 1), after) ∧
      Eval.assign context (.int 2) default field (.start .empty) =
        (.next (), { after with heap }) ∧
      after.heap.FieldSet heap 0 ⟨1⟩ (.int 2)) ∧
    (∃ after heap,
      Eval.expr context element (.start .empty) = (.next (.int 1), after) ∧
      Eval.assign context (.int 2) default element (.start .empty) =
        (.next (), { after with heap }) ∧
      after.heap.ElementSet heap (.array 0) 0 (.int 2)) := by
  intro context field element
  obtain ⟨fields, elements⟩ := assignment_follows_reading (.start .empty) 1
  constructor
  · have reads : Eval.expr context field (.start .empty) =
        (.next (.int 1), (Eval.expr context field (.start .empty)).2) := rfl
    obtain ⟨holder, cls, address, evaluates, isObject, -, assigns⟩ := fields _ _ _ _ _ _ _ reads
    cases evaluates
    cases isObject
    obtain ⟨heap, assigned, isSet, -⟩ := (assigns (.int 2) default).1 nofun
    exact ⟨_, heap, reads, assigned, isSet⟩
  · have reads : Eval.expr context element (.start .empty) =
        (.next (.int 1), (Eval.expr context element (.start .empty)).2) := rfl
    obtain ⟨between, holder, place, evaluates, isIndex, stored⟩ := elements _ _ _ _ _ _ reads
    cases evaluates
    cases isIndex
    obtain ⟨-, assigns⟩ := stored (.int 1) rfl
    obtain ⟨heap, assigned, isSet, -⟩ := (assigns (.int 2) default).1 nofun
    exact ⟨_, heap, reads, assigned, isSet⟩

/-! ### An array inside a checked array -/

namespace Places

/-- The names of a unit with two functions. -/
def sampleTable : SymbolTable :=
  (SymbolTable.empty.internAll ["peek", "run", "xs"]).2

/-- The variable of both functions, and what it starts with. -/
def nested : Stmt :=
  .bind ⟨2⟩ false none
    (some (.array [.array [.int 1 default] default] default)) default

/-- The place that both functions read. -/
def inner : Expr :=
  .index (.index (.ident ⟨2⟩ default) (.int 0 default) default) (.int 0 default) default

/-- A function without parameters. -/
def function (name : Nat) (body : Expr) : Decl :=
  .function {
    name := ⟨name⟩
    isStatic := false
    params := []
    result := none
    body
    visibility := .exposed
    span := default }

/-- A unit that declares `fn peek() { let xs = [[1]]; xs[0][0] }` and
`fn run() { let xs = [[1]]; xs[0][0] = 2; xs[0][0] }`. -/
def sampleUnit : SourceUnit where
  package := ⟨["app"]⟩
  decls := [
    function 0 (.block [nested] (some inner) default),
    function 1 (.block [nested, .assign inner (.int 2 default) default] (some inner) default)]

/-- What a call of one of the functions ends with. -/
def outcome (unit : SourceUnit) (table : SymbolTable) (name : String) : Flow Value :=
  (((Session.start table .empty).load 1 unit).2.call 2 name []).1

end Places

/-- An element that can be read, and could be replaced before the arrays were checked, cannot
be replaced. -/
theorem assignment_fails_inside_checked_array :
    let rewritten := Places.sampleUnit.rewrite (.inPackage "app" .arrays) Places.sampleTable
    rewritten.result = .ok ⟨0, 0, 0, 4⟩ ∧
      Places.outcome Places.sampleUnit Places.sampleTable "run" = .next (.int 2) ∧
      Places.outcome rewritten.unit rewritten.table "peek" = .next (.present (.int 1)) ∧
      Places.outcome rewritten.unit rewritten.table "run" =
        .error (.type (.notIndexable .optional) default) := by
  refine ⟨?_, ?_, ?_, ?_⟩
  · with_unfolding_all rfl
  · decide +kernel
  · decide +kernel
  · decide +kernel

end NilSafety
