import NilSafety.Proofs.Evaluation.KeptScopes
import NilSafety.Proofs.Runs

/-!
Contract: nested scopes as blocks.

Owns:
- the operations on the variables of an activation, and runs of them;
- which scope a name is read from, and that assignment replaces its binding there and
  nothing else;
- sequences of operations that open and close scopes in balance, and the assignments in
  them that find no binding in the scopes opened by the sequence;
- that a block leaves only these assignments behind.

Does not own: which operations the evaluation of a tree performs.

The proof about blocks keeps two environments side by side: the one that the block works
on, and one that only the escaping assignments work on. The scopes of the second are those
of the first without the ones that the block has opened.
-/

namespace NilSafety

theorem SymbolMap.get?_set {α : Type} (map : SymbolMap α) (symbol : Symbol) (value : α)
    (other : Symbol) :
    (map.set symbol value).get? other = if other = symbol then some value else map.get? other := by
  split
  next same => rw [same, get?_set_self]
  next different => exact get?_set_of_ne map different value

namespace Env

/-! ### Operations -/

/-- What can be done to the variables of an activation. -/
inductive Op where
  /-- Opens a scope. -/
  | push
  /-- Closes a scope. -/
  | pop
  /-- Binds a name in the innermost scope. -/
  | define (name : Symbol) (value : Value)
  /-- Overwrites a variable. -/
  | assign (name : Symbol) (value : Value)
  /-- Reads a variable. -/
  | get (name : Symbol)
deriving DecidableEq

/-- What an operation answers. -/
inductive Answer where
  /-- Nothing. -/
  | nothing
  /-- Whether a variable was overwritten. -/
  | done (changed : Bool)
  /-- The value of a variable, if it is bound. -/
  | found (value : Option Value)
deriving DecidableEq

/-- Performs an operation. An assignment to an unbound name leaves all as it is. -/
def Op.perform : Op → Env → Answer × Env
  | push, env => (.nothing, env.push)
  | pop, env => (.nothing, env.pop)
  | define name value, env => (.nothing, env.define name value)
  | assign name value, env =>
      match env.assign? name value with
      | some changed => (.done true, changed)
      | none => (.done false, env)
  | get name, env => (.found (env.get? name), env)

/-- The variables after several operations. -/
def after (env : Env) (ops : List Op) : Env :=
  (performAll Op.perform ops env).2

@[simp] theorem after_nil (env : Env) : env.after [] = env := rfl

@[simp] theorem after_cons (env : Env) (op : Op) (rest : List Op) :
    env.after (op :: rest) = (op.perform env).2.after rest := rfl

theorem after_append (env : Env) (first second : List Op) :
    env.after (first ++ second) = (env.after first).after second := by
  rw [after, performAll_append, after, after]

/-! ### Scopes -/

theorem scopes_injective : Function.Injective scopes := by
  rintro ⟨inner, outer⟩ ⟨inner', outer'⟩ same
  cases same
  rfl

theorem scopes_ne_nil (env : Env) : env.scopes ≠ [] :=
  List.cons_ne_nil _ _

theorem scopes_push (env : Env) : env.push.scopes = .empty :: env.scopes := rfl

/-- Closing a scope removes the innermost one of several. -/
theorem scopes_pop (env : Env) :
    env.pop.scopes = env.scopes.drop (min 1 (env.scopes.length - 1)) := by
  obtain ⟨inner, outer⟩ := env
  cases outer with
  | nil => rfl
  | cons scope rest => simp [pop, scopes]

theorem scopes_pop_of_cons
    {env : Env}
    {scope : SymbolMap Value}
    {rest : List (SymbolMap Value)}
    (isScopes : env.scopes = scope :: rest)
    (more : rest ≠ []) :
    env.pop.scopes = rest := by
  obtain ⟨next, others, rfl⟩ := List.exists_cons_of_ne_nil more
  rw [scopes_pop, isScopes]
  rfl

theorem scopes_define
    {env : Env}
    {scope : SymbolMap Value}
    {rest : List (SymbolMap Value)}
    (isScopes : env.scopes = scope :: rest)
    (name : Symbol)
    (value : Value) :
    (env.define name value).scopes = scope.set name value :: rest := by
  cases isScopes
  rfl

/-- Surplus closings leave the outermost scope. -/
theorem scopes_after_pops (env : Env) (surplus : Nat) :
    (env.after (List.replicate surplus .pop)).scopes =
      env.scopes.drop (min surplus (env.scopes.length - 1)) := by
  induction surplus generalizing env with
  | zero => simp
  | succ surplus inductionHypothesis =>
      rw [List.replicate_succ, after_cons]
      change (env.pop.after _).scopes = _
      rw [inductionHypothesis, scopes_pop, List.drop_drop, List.length_drop]
      congr 1
      omega

/-! ### Reading and assignment -/

theorem lookup_append (name : Symbol) (inside outside : List (SymbolMap Value)) :
    lookup name (inside ++ outside) = (lookup name inside).or (lookup name outside) := by
  induction inside with
  | nil => rfl
  | cons scope rest inductionHypothesis =>
      rw [List.cons_append, lookup, lookup, inductionHypothesis]
      cases scope.get? name <;> rfl

theorem lookup_eq_none_iff {name : Symbol} {scopes : List (SymbolMap Value)} :
    lookup name scopes = none ↔ ∀ scope ∈ scopes, scope.get? name = none := by
  induction scopes with
  | nil => simp [lookup]
  | cons scope rest inductionHypothesis =>
      rw [List.forall_mem_cons, ← inductionHypothesis, lookup]
      cases scope.get? name <;> simp

/-- Assignment looks through the scopes from the innermost one, as reading does. -/
theorem assignIn_append
    (name : Symbol)
    (value : Value)
    (inside outside : List (SymbolMap Value)) :
    assignIn name value (inside ++ outside) =
      ((assignIn name value inside).map (· ++ outside)).or
        ((assignIn name value outside).map (inside ++ ·)) := by
  induction inside with
  | nil => simp [assignIn]
  | cons scope rest inductionHypothesis =>
      rw [List.cons_append, assignIn, assignIn]
      split
      · rfl
      · rw [inductionHypothesis]
        cases assignIn name value rest <;> cases assignIn name value outside <;> rfl

theorem assignIn_eq_none_iff {name : Symbol} {value : Value} {scopes : List (SymbolMap Value)} :
    assignIn name value scopes = none ↔ lookup name scopes = none := by
  induction scopes with
  | nil => exact iff_of_true rfl rfl
  | cons scope rest inductionHypothesis =>
      rw [assignIn, lookup, SymbolMap.contains]
      cases scope.get? name with
      | some bound => simp
      | none => simpa using inductionHypothesis

/-- The scope from which a name is read, with the scopes inside it and those around it. -/
structure ReadsFrom
    (env : Env)
    (name : Symbol)
    (inside : List (SymbolMap Value))
    (scope : SymbolMap Value)
    (outside : List (SymbolMap Value)) :
    Prop where
  scopes_eq : env.scopes = inside ++ scope :: outside
  hidden : ∀ nearer ∈ inside, nearer.get? name = none
  bound : scope.contains name

theorem lookup_eq_some_iff {name : Symbol} {value : Value} {scopes : List (SymbolMap Value)} :
    lookup name scopes = some value ↔
      ∃ inside scope outside, scopes = inside ++ scope :: outside ∧
        (∀ nearer ∈ inside, nearer.get? name = none) ∧ scope.get? name = some value := by
  constructor
  · intro found
    induction scopes with
    | nil => cases found
    | cons scope rest inductionHypothesis =>
        rw [lookup] at found
        cases here : scope.get? name with
        | some bound =>
            rw [here] at found
            cases found
            exact ⟨[], scope, rest, rfl, List.forall_mem_nil _, here⟩
        | none =>
            rw [here] at found
            obtain ⟨inside, other, outside, rfl, hidden, isValue⟩ := inductionHypothesis found
            exact ⟨scope :: inside, other, outside, rfl,
              List.forall_mem_cons.mpr ⟨here, hidden⟩, isValue⟩
  · rintro ⟨inside, scope, outside, rfl, hidden, isValue⟩
    rw [lookup_append, lookup_eq_none_iff.mpr hidden, Option.none_or, lookup, isValue]

/-- The value of a variable is the one in the innermost scope that binds it. -/
theorem get?_eq_some_iff {env : Env} {name : Symbol} {value : Value} :
    env.get? name = some value ↔
      ∃ inside scope outside,
        env.ReadsFrom name inside scope outside ∧ scope.get? name = some value := by
  change lookup name env.scopes = some value ↔ _
  rw [lookup_eq_some_iff]
  constructor
  · rintro ⟨inside, scope, outside, isScopes, hidden, isValue⟩
    exact ⟨inside, scope, outside, ⟨isScopes, hidden, by rw [SymbolMap.contains, isValue]; rfl⟩,
      isValue⟩
  · rintro ⟨inside, scope, outside, reads, isValue⟩
    exact ⟨inside, scope, outside, reads.scopes_eq, reads.hidden, isValue⟩

/-- What an assignment answers and leaves, in terms of the scopes. -/
theorem perform_assign (env : Env) (name : Symbol) (value : Value) :
    ((Op.assign name value).perform env).1 =
        .done (assignIn name value env.scopes).isSome ∧
      ((Op.assign name value).perform env).2.scopes =
        (assignIn name value env.scopes).getD env.scopes := by
  rw [← map_scopes_assign?, Op.perform]
  cases env.assign? name value <;> exact ⟨rfl, rfl⟩

theorem perform_assign_of_unbound
    {env : Env}
    {name : Symbol}
    (unbound : env.get? name = none)
    (value : Value) :
    (Op.assign name value).perform env = (.done false, env) := by
  have passes : assignIn name value env.scopes = none := assignIn_eq_none_iff.mpr unbound
  obtain ⟨answers, leaves⟩ := perform_assign env name value
  rw [passes] at answers leaves
  exact Prod.ext answers (scopes_injective leaves)

/-- An assignment replaces the binding from which the name is read, and nothing else. -/
theorem perform_assign_of_readsFrom
    {env : Env}
    {name : Symbol}
    {inside outside : List (SymbolMap Value)}
    {scope : SymbolMap Value}
    (reads : env.ReadsFrom name inside scope outside)
    (value : Value) :
    ((Op.assign name value).perform env).1 = .done true ∧
      ((Op.assign name value).perform env).2.scopes =
        inside ++ scope.set name value :: outside := by
  have passes : assignIn name value inside = none :=
    assignIn_eq_none_iff.mpr (lookup_eq_none_iff.mpr reads.hidden)
  have assigned : assignIn name value env.scopes =
      some (inside ++ scope.set name value :: outside) := by
    rw [reads.scopes_eq, assignIn_append, passes, assignIn, if_pos reads.bound]
    rfl
  have performed := perform_assign env name value
  rwa [assigned] at performed

/-! ### Blocks -/

/-- How many scopes are open after an operation when `depth` are, none of those around
them being closed. -/
def Op.nesting? : Op → (depth : Nat) → Option Nat
  | push, depth => some (depth + 1)
  | pop, 0 => none
  | pop, depth + 1 => some depth
  | _, depth => some depth

/-- How many scopes are open after several operations when `depth` are, none of those
around them being closed. -/
def nesting? : (ops : List Op) → (depth : Nat) → Option Nat
  | [], depth => some depth
  | op :: rest, depth => (op.nesting? depth).bind (nesting? rest)

/-- Every scope that the operations open they close again, and they close no other. -/
def IsBalanced (ops : List Op) : Prop :=
  nesting? ops 0 = some 0

instance (ops : List Op) : Decidable (IsBalanced ops) :=
  inferInstanceAs (Decidable (_ = _))

/-- A sequence of operations in a scope of its own. -/
def block (body : List Op) : List Op :=
  .push :: body ++ [.pop]

/-- The operation is an assignment, and none of the scopes opened since there were
`outer` of them binds its name. -/
def Op.Escapes (outer : Nat) (env : Env) : Op → Prop
  | assign name _ => ∀ scope ∈ env.scopes.take (env.scopes.length - outer), scope.get? name = none
  | _ => False

instance (outer : Nat) (env : Env) : (op : Op) → Decidable (op.Escapes outer env)
  | .assign name _ =>
      inferInstanceAs (Decidable (∀ scope ∈ env.scopes.take (env.scopes.length - outer),
        scope.get? name = none))
  | .push | .pop | .define .. | .get _ => inferInstanceAs (Decidable False)

/-- The assignments of a run that find no binding in the scopes opened since there were
`outer` of them. -/
def escaping (outer : Nat) : List Op → Env → List Op
  | [], _ => []
  | op :: rest, env =>
      (if op.Escapes outer env then [op] else []) ++ escaping outer rest (op.perform env).2

theorem escaping_append (outer : Nat) (first second : List Op) (env : Env) :
    escaping outer (first ++ second) env =
      escaping outer first env ++ escaping outer second (env.after first) := by
  induction first generalizing env with
  | nil => rfl
  | cons op rest inductionHypothesis =>
      rw [List.cons_append, escaping, escaping, inductionHypothesis, List.append_assoc, after_cons]

theorem mem_escaping {outer : Nat} {ops : List Op} {env : Env} {op : Op} :
    op ∈ escaping outer ops env ↔
      ∃ earlier later, ops = earlier ++ op :: later ∧ op.Escapes outer (env.after earlier) := by
  constructor
  · intro member
    induction ops generalizing env with
    | nil => cases member
    | cons first rest inductionHypothesis =>
        rcases List.mem_append.mp member with isFirst | inRest
        · split at isFirst
          next escapes =>
            cases List.mem_singleton.mp isFirst
            exact ⟨[], rest, rfl, escapes⟩
          next => cases isFirst
        · obtain ⟨earlier, later, rfl, escapes⟩ := inductionHypothesis inRest
          exact ⟨first :: earlier, later, rfl, escapes⟩
  · rintro ⟨earlier, later, rfl, escapes⟩
    rw [escaping_append, escaping, if_pos escapes]
    exact List.mem_append_right _ List.mem_cons_self

/-- What escapes is an assignment. -/
theorem exists_assign_of_escapes {outer : Nat} {env : Env} {op : Op} (escapes : op.Escapes outer env) :
    ∃ name value, op = .assign name value := by
  cases op with
  | assign name value => exact ⟨name, value, rfl⟩
  | push | pop | define | get => exact escapes.elim

/-! ### A block beside its escaping assignments -/

theorem length_assignIn
    {name : Symbol}
    {value : Value}
    {scopes scopes' : List (SymbolMap Value)}
    (assigned : assignIn name value scopes = some scopes') :
    scopes'.length = scopes.length := by
  have kept : ScopesKept (fun _ => True) scopes scopes' := .assignIn trivial assigned
  exact kept.sameNames.length_eq.symm

/-- Assignments open and close no scope. -/
theorem length_scopes_assign (env : Env) (name : Symbol) (value : Value) :
    ((Op.assign name value).perform env).2.scopes.length = env.scopes.length := by
  rw [(perform_assign env name value).2]
  cases assigned : assignIn name value env.scopes with
  | none => rfl
  | some scopes => exact length_assignIn assigned

section

variable
  {env base : Env}
  {inner : List (SymbolMap Value)}
  (within : env.scopes = inner ++ base.scopes)

include within

theorem escapes_assign_iff (name : Symbol) (value : Value) :
    (Op.assign name value).Escapes base.scopes.length env ↔ lookup name inner = none := by
  rw [Op.Escapes, within, List.length_append, Nat.add_sub_cancel, List.take_left,
    lookup_eq_none_iff]

/-- An operation within a block works on the scopes that the block has opened, unless it
is an escaping assignment; that works on the other ones. -/
theorem perform_within
    {op : Op}
    {depth depth' : Nat}
    (deep : inner.length = depth + 1)
    (nests : op.nesting? depth = some depth') :
    ∃ inner', inner'.length = depth' + 1 ∧
      (op.perform env).2.scopes = inner' ++
        (base.after (if op.Escapes base.scopes.length env then [op] else [])).scopes := by
  obtain ⟨scope, rest, rfl⟩ := List.exists_cons_of_length_eq_add_one deep
  cases op with
  | push =>
      cases nests
      refine ⟨.empty :: scope :: rest, by rw [List.length_cons, deep], ?_⟩
      change env.push.scopes = _ ++ base.scopes
      rw [scopes_push, within]
      rfl
  | pop =>
      cases depth with
      | zero => cases nests
      | succ depth =>
          cases nests
          refine ⟨rest, Nat.succ.inj deep, ?_⟩
          exact scopes_pop_of_cons within (by simp [scopes_ne_nil])
  | define name value =>
      cases nests
      exact ⟨scope.set name value :: rest, deep, scopes_define within name value⟩
  | get name =>
      cases nests
      exact ⟨scope :: rest, deep, within⟩
  | assign name value =>
      cases nests
      have escapes := escapes_assign_iff within name value
      rw [(perform_assign env name value).2, within, assignIn_append]
      cases assigned : assignIn name value (scope :: rest) with
      | none =>
          rw [assignIn_eq_none_iff] at assigned
          refine ⟨scope :: rest, deep, ?_⟩
          rw [if_pos (escapes.mpr assigned), after_cons, after_nil,
            (perform_assign base name value).2]
          cases assignIn name value base.scopes <;> rfl
      | some changed =>
          have found : lookup name (scope :: rest) ≠ none := by
            intro unbound
            rw [assignIn_eq_none_iff.mpr unbound] at assigned
            cases assigned
          refine ⟨changed, (length_assignIn assigned).trans deep, ?_⟩
          rw [if_neg (escapes.not.mpr found)]
          rfl

theorem after_within
    {ops : List Op}
    {depth depth' : Nat}
    (deep : inner.length = depth + 1)
    (nests : nesting? ops depth = some depth') :
    ∃ inner', inner'.length = depth' + 1 ∧
      (env.after ops).scopes =
        inner' ++ (base.after (escaping base.scopes.length ops env)).scopes := by
  induction ops generalizing env base inner depth with
  | nil =>
      cases nests
      exact ⟨inner, deep, within⟩
  | cons op rest inductionHypothesis =>
      obtain ⟨between, nestsFirst, nestsRest⟩ := Option.bind_eq_some_iff.mp nests
      obtain ⟨inner', deep', within'⟩ := perform_within within deep nestsFirst
      have sameLength : (base.after (if op.Escapes base.scopes.length env then [op] else
          [])).scopes.length = base.scopes.length := by
        split
        next escapes =>
          obtain ⟨name, value, rfl⟩ := exists_assign_of_escapes escapes
          exact length_scopes_assign base name value
        next => rfl
      obtain ⟨last, deepLast, withinLast⟩ := inductionHypothesis within' deep' nestsRest
      refine ⟨last, deepLast, ?_⟩
      rw [after_cons, withinLast, sameLength, escaping, after_append]

end

/-- A block leaves what its escaping assignments alone would leave. -/
theorem after_block {body : List Op} (balanced : IsBalanced body) (env : Env) :
    env.after (block body) = env.after (escaping env.scopes.length (block body) env) := by
  have escapingBody : escaping env.scopes.length (block body) env =
      escaping env.scopes.length body env.push := by
    change escaping _ (body ++ [.pop]) env.push = _
    rw [escaping_append]
    exact List.append_nil _
  have within : env.push.scopes = [.empty] ++ env.scopes := rfl
  obtain ⟨inner, deep, atEnd⟩ := after_within within rfl balanced
  obtain ⟨scope, rfl⟩ := List.length_eq_one_iff.mp deep
  rw [escapingBody]
  apply scopes_injective
  rw [block, List.cons_append, after_cons, after_append]
  exact scopes_pop_of_cons atEnd (scopes_ne_nil _)

/-- Scopes after assignments have the bindings of all other names that they had. -/
theorem after_assignments
    {ops : List Op}
    {written : Symbol → Prop}
    (assign : ∀ op ∈ ops, ∃ name value, op = .assign name value ∧ written name)
    (env : Env) :
    Kept written env (env.after ops) := by
  induction ops generalizing env with
  | nil => exact refl_of (Kept written) env
  | cons op rest inductionHypothesis =>
      obtain ⟨⟨name, value, rfl, isWritten⟩, restAssign⟩ := List.forall_mem_cons.mp assign
      refine trans_of (Kept written) ?_ (inductionHypothesis restAssign _)
      cases assigned : env.assign? name value with
      | none => exact refl_of (Kept written) env
      | some changed => exact Kept.assign? isWritten assigned

theorem Kept.forall₂_get?
    {written : Symbol → Prop}
    {env env' : Env}
    (kept : Kept written env env')
    {name : Symbol}
    (isKept : ¬written name) :
    List.Forall₂ (fun scope scope' => scope'.get? name = scope.get? name)
      env.scopes env'.scopes := by
  unfold Kept at kept
  generalize env.scopes = scopes at kept ⊢
  generalize env'.scopes = scopes' at kept ⊢
  induction kept with
  | nil => exact .nil
  | cons _ values _ inductionHypothesis =>
      exact .cons (values name isKept) (inductionHypothesis fun isHere => isKept isHere.1)

/-- A block changes no binding outside of a name that none of its assignments writes past
the scopes of the block. -/
theorem after_block_get?
    {body : List Op}
    (balanced : IsBalanced body)
    {env : Env}
    {name : Symbol}
    (stays : ∀ earlier value later, block body = earlier ++ .assign name value :: later →
      ¬ (Op.assign name value).Escapes env.scopes.length (env.after earlier)) :
    List.Forall₂ (fun scope scope' => scope'.get? name = scope.get? name)
      env.scopes (env.after (block body)).scopes := by
  rw [after_block balanced]
  suffices othersWritten : Kept (· ≠ name) env
      (env.after (escaping env.scopes.length (block body) env)) from
    othersWritten.forall₂_get? (not_not_intro rfl)
  refine after_assignments (fun op isEscaping => ?_) env
  obtain ⟨earlier, later, whole, escapes⟩ := mem_escaping.mp isEscaping
  obtain ⟨other, value, rfl⟩ := exists_assign_of_escapes escapes
  refine ⟨other, value, rfl, ?_⟩
  rintro rfl
  exact stays earlier value later whole escapes

/-! ### The laws together -/

/-- However often scopes are closed, the outermost one is left with its bindings. A name is
read from the innermost scope that binds it. An assignment to an unbound name is refused
and changes nothing; any other one replaces the binding that is read, and no other. A block
leaves what those of its assignments alone would leave that find no binding in the scopes
of the block. So its own bindings are gone, and around it all bindings are as before of
each name without such an assignment. -/
theorem block_structure_exact :
    (∀ (ops : List Op) (surplus : Nat),
      let env := start.after ops
      let left := (env.after (List.replicate surplus .pop)).scopes
      left ≠ [] ∧ left = env.scopes.drop (min surplus (env.scopes.length - 1))) ∧
    (∀ (env : Env) (name : Symbol) (value : Value),
      env.get? name = some value ↔
        ∃ inside scope outside,
          env.ReadsFrom name inside scope outside ∧ scope.get? name = some value) ∧
    (∀ (env : Env) (name : Symbol) (value : Value),
      let outcome := (Op.assign name value).perform env
      (outcome.1 = .done false ↔ env.get? name = none) ∧
      (env.get? name = none → outcome.2 = env) ∧
      ∀ inside scope outside, env.ReadsFrom name inside scope outside →
        outcome.1 = .done true ∧
        outcome.2.scopes = inside ++ scope.set name value :: outside ∧
        ∀ other, (scope.set name value).get? other =
          if other = name then some value else scope.get? other) ∧
    (∀ (env : Env) (body : List Op), IsBalanced body →
      env.after (block body) = env.after (escaping env.scopes.length (block body) env) ∧
      ∀ name : Symbol,
        (∀ earlier value later, block body = earlier ++ .assign name value :: later →
          ¬ (Op.assign name value).Escapes env.scopes.length (env.after earlier)) →
        List.Forall₂ (fun scope scope' => scope'.get? name = scope.get? name)
          env.scopes (env.after (block body)).scopes) := by
  refine ⟨?closes, ?reads, ?assigns, ?blocks⟩
  case closes =>
    intro ops surplus
    exact ⟨scopes_ne_nil _, scopes_after_pops _ surplus⟩
  case reads =>
    intro env name value
    exact get?_eq_some_iff
  case assigns =>
    intro env name value
    refine ⟨⟨fun refused => ?_, fun unbound => ?_⟩, fun unbound => ?_,
      fun inside scope outside reads => ?_⟩
    · rw [(perform_assign env name value).1, Answer.done.injEq, Option.isSome_eq_false_iff,
        Option.isNone_iff_eq_none] at refused
      exact assignIn_eq_none_iff.mp refused
    · rw [perform_assign_of_unbound unbound]
    · rw [perform_assign_of_unbound unbound]
    · obtain ⟨accepted, leaves⟩ := perform_assign_of_readsFrom reads value
      exact ⟨accepted, leaves, scope.get?_set name value⟩
  case blocks =>
    intro env body balanced
    exact ⟨after_block balanced env, fun name => after_block_get? balanced⟩

theorem block_structure_exact_of_shadowing :
    let x : Symbol := ⟨0⟩
    let y : Symbol := ⟨1⟩
    let unbound : Symbol := ⟨2⟩
    let env := start.after [.define x (.bool true), .push, .define y .nil]
    let body : List Op := [.define x .nil, .assign y .unit, .push, .define y (.bool false),
      .assign y .nil, .pop, .assign x .unit]
    (IsBalanced body ∧ env.after (block body) = env.after [.assign y .unit]) ∧
    ((∀ earlier value later, block body = earlier ++ .assign x value :: later →
        ¬ (Op.assign x value).Escapes env.scopes.length (env.after earlier)) ∧
      List.Forall₂ (fun scope scope' => scope'.get? x = scope.get? x)
        env.scopes (env.after (block body)).scopes) ∧
    (env.get? unbound = none ∧ ((Op.assign unbound .nil).perform env).2 = env) ∧
    (env.ReadsFrom x [⟨[(y, .nil)]⟩] ⟨[(x, .bool true)]⟩ [] ∧
      ((Op.assign x .nil).perform env).2.scopes = [⟨[(y, .nil)]⟩, ⟨[(x, .nil)]⟩]) := by
  intro x y unbound env body
  obtain ⟨-, -, assigns, blocks⟩ := block_structure_exact
  have balanced : IsBalanced body := by decide
  have escapes : escaping env.scopes.length (block body) env = [.assign y .unit] := by decide
  have stays : ∀ earlier value later, block body = earlier ++ .assign x value :: later →
      ¬ (Op.assign x value).Escapes env.scopes.length (env.after earlier) := by
    intro earlier value later whole escapesHere
    have member := mem_escaping.mpr ⟨earlier, later, whole, escapesHere⟩
    rw [escapes, List.mem_singleton, Op.assign.injEq] at member
    exact absurd member.1 (by decide)
  have isUnbound : env.get? unbound = none := by decide
  have reads : env.ReadsFrom x [⟨[(y, .nil)]⟩] ⟨[(x, .bool true)]⟩ [] :=
    ⟨by decide, by decide, by decide⟩
  obtain ⟨leaves, keeps⟩ := blocks env body balanced
  rw [escapes] at leaves
  exact ⟨⟨balanced, leaves⟩, ⟨stays, keeps x stays⟩,
    ⟨isUnbound, (assigns env unbound .nil).2.1 isUnbound⟩,
    ⟨reads, ((assigns env x .nil).2.2 _ _ _ reads).2.1⟩⟩

end Env

end NilSafety
