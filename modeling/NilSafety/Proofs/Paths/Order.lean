import Mathlib.Data.List.Chain
import Mathlib.Data.List.Infix
import Mathlib.Data.List.Nodup
import Mathlib.Logic.Relation
import NilSafety.Path

/-!
Contract: how paths lie in one another.

Owns:
- children and parents of paths, and induction from the root over children;
- the prefix relation, on its own and in terms of parents and of children;
- the ancestors of a path: its prefixes, the path itself first and the root last;
- the place of prefixes in the order of paths.

Does not own: the notation of paths, or what they refer to.

Every path is the root or a child in exactly one way. Prefixes, ancestors and parents are
each determined by how they go from a path to its child, so their agreement is shown by
induction over children. Segments are never looked into.
-/

namespace NilSafety

namespace Path

/-! ### Children, parents and prefixes -/

theorem isRoot_iff {path : Path} : path.isRoot ↔ path = root := by
  rw [isRoot, List.isEmpty_iff, root, Path.mk.injEq]

theorem length_child (path : Path) (segment : String) :
    (path.child segment).length = path.length + 1 :=
  List.length_append

theorem parent?_child (path : Path) (segment : String) :
    (path.child segment).parent? = some path := by
  simp [parent?, isRoot, child]

theorem last?_child (path : Path) (segment : String) :
    (path.child segment).last? = some segment := by
  simp [last?, child]

theorem root_or_child (path : Path) :
    path = root ∨ ∃ parent segment, path = child parent segment := by
  obtain ⟨segments⟩ := path
  rcases List.eq_nil_or_concat segments with rfl | ⟨initial, last, rfl⟩
  · exact .inl rfl
  · exact .inr ⟨⟨initial⟩, last, congrArg Path.mk (List.concat_eq_append ..)⟩

/-- The parent of a path is the one that it is a child of. -/
theorem parent?_eq_some_iff {path parent : Path} :
    path.parent? = some parent ↔ ∃ segment, path = parent.child segment := by
  constructor
  · intro isParent
    rcases path.root_or_child with rfl | ⟨other, segment, rfl⟩
    · cases isParent
    · rw [parent?_child, Option.some_inj] at isParent
      exact ⟨segment, by rw [isParent]⟩
  · rintro ⟨segment, rfl⟩
    exact parent?_child parent segment

/-- What holds of the root and passes from paths to their children holds of all paths. -/
@[elab_as_elim]
theorem child_induction
    {motive : Path → Prop}
    (atRoot : motive root)
    (atChild : ∀ path segment, motive path → motive (path.child segment))
    (path : Path) :
    motive path := by
  obtain ⟨segments⟩ := path
  induction segments using List.reverseRecOn with
  | nil => exact atRoot
  | append_singleton initial last inductionHypothesis =>
      exact atChild ⟨initial⟩ last inductionHypothesis

theorem segments_foldl_child (path : Path) (added : List String) :
    (added.foldl child path).segments = path.segments ++ added := by
  induction added generalizing path with
  | nil => exact (List.append_nil _).symm
  | cons segment rest inductionHypothesis =>
      rw [List.foldl_cons, inductionHypothesis, child, List.append_assoc, List.singleton_append]

theorem isPrefixOf_iff {path other : Path} :
    path.isPrefixOf other ↔ path.segments <+: other.segments :=
  List.isPrefixOf_iff_prefix

theorem isPrefixOf_refl (path : Path) : path.isPrefixOf path :=
  isPrefixOf_iff.mpr (List.prefix_refl _)

theorem isPrefixOf_trans {path middle other : Path}
    (first : path.isPrefixOf middle)
    (second : middle.isPrefixOf other) :
    path.isPrefixOf other :=
  isPrefixOf_iff.mpr ((isPrefixOf_iff.mp first).trans (isPrefixOf_iff.mp second))

theorem root_isPrefixOf (path : Path) : root.isPrefixOf path :=
  isPrefixOf_iff.mpr (List.nil_prefix)

theorem isPrefixOf_root_iff {path : Path} : path.isPrefixOf root ↔ path = root := by
  rw [isPrefixOf_iff, root, List.prefix_nil, Path.mk.injEq]

/-- What begins a child is the child or begins its parent. -/
theorem isPrefixOf_child {path other : Path} {segment : String} :
    path.isPrefixOf (other.child segment) ↔
      path = other.child segment ∨ path.isPrefixOf other := by
  rw [isPrefixOf_iff, isPrefixOf_iff, child, List.prefix_concat_iff, Path.mk.injEq]

/-- A path that begins another and is no shorter is the other. -/
theorem eq_of_isPrefixOf
    {path other : Path}
    (begins : path.isPrefixOf other)
    (longer : other.length ≤ path.length) :
    path = other :=
  Path.mk.injEq .. ▸ (isPrefixOf_iff.mp begins).eq_of_length_le longer

theorem length_le_of_isPrefixOf {path other : Path} (begins : path.isPrefixOf other) :
    path.length ≤ other.length :=
  (isPrefixOf_iff.mp begins).length_le

theorem isPrefixOf_antisymm {path other : Path}
    (first : path.isPrefixOf other)
    (second : other.isPrefixOf path) :
    path = other :=
  eq_of_isPrefixOf first (length_le_of_isPrefixOf second)

theorem isPrefixOf_or_isPrefixOf {path other whole : Path}
    (begins : path.isPrefixOf whole)
    (begins' : other.isPrefixOf whole) :
    path.isPrefixOf other ∨ other.isPrefixOf path :=
  (List.prefix_or_prefix_of_prefix (isPrefixOf_iff.mp begins) (isPrefixOf_iff.mp begins')).imp
    isPrefixOf_iff.mpr isPrefixOf_iff.mpr

/-- A prefix is where the way from a path through its parents leads. -/
theorem isPrefixOf_iff_parents {path other : Path} :
    path.isPrefixOf other ↔
      Relation.ReflTransGen (fun inner outer => inner.parent? = some outer) other path := by
  constructor
  · intro begins
    induction other using child_induction with
    | atRoot => rw [isPrefixOf_root_iff.mp begins]
    | atChild other segment inductionHypothesis =>
        rcases isPrefixOf_child.mp begins with rfl | begins
        · exact .refl
        · exact .head (parent?_child other segment) (inductionHypothesis begins)
  · intro leads
    induction leads with
    | refl => exact isPrefixOf_refl other
    | tail _ isParent inductionHypothesis =>
        obtain ⟨segment, rfl⟩ := parent?_eq_some_iff.mp isParent
        exact isPrefixOf_trans (isPrefixOf_child.mpr (.inr (isPrefixOf_refl _))) inductionHypothesis

/-- A path is its prefix with segments added one by one. -/
theorem isPrefixOf_iff_children {path other : Path} :
    path.isPrefixOf other ↔ ∃ added : List String, other = added.foldl child path := by
  rw [isPrefixOf_iff]
  constructor
  · rintro ⟨added, whole⟩
    refine ⟨added, Path.mk.injEq .. ▸ ?_⟩
    rw [segments_foldl_child, whole]
  · rintro ⟨added, rfl⟩
    exact ⟨added, (segments_foldl_child path added).symm⟩

/-! ### Ancestors -/

theorem ancestors_root : root.ancestors = [root] := rfl

theorem initialParts_concat (segments : List String) (last : String) :
    initialParts (segments ++ [last]) = (segments ++ [last]) :: initialParts segments := by
  induction segments with
  | nil => rfl
  | cons segment rest inductionHypothesis =>
      rw [List.cons_append, initialParts, inductionHypothesis, initialParts, List.map_cons,
        List.cons_append]

/-- The ancestors of a child are itself and those of its parent. -/
theorem ancestors_child (path : Path) (segment : String) :
    (path.child segment).ancestors = path.child segment :: path.ancestors := by
  rw [ancestors, child, initialParts_concat, List.map_cons, ancestors]

theorem mem_ancestors {path other : Path} : other ∈ path.ancestors ↔ other.isPrefixOf path := by
  induction path using child_induction with
  | atRoot => rw [ancestors_root, List.mem_singleton, isPrefixOf_root_iff]
  | atChild path segment inductionHypothesis =>
      rw [ancestors_child, List.mem_cons, inductionHypothesis, isPrefixOf_child]

theorem head?_ancestors (path : Path) : path.ancestors.head? = some path := by
  rcases path.root_or_child with rfl | ⟨parent, segment, rfl⟩
  · rfl
  · rw [ancestors_child, List.head?_cons]

theorem getLast?_ancestors (path : Path) : path.ancestors.getLast? = some root := by
  induction path using child_induction with
  | atRoot => rfl
  | atChild path segment inductionHypothesis =>
      rw [ancestors_child, List.getLast?_cons, inductionHypothesis, Option.getD_some]

theorem length_ancestors (path : Path) : path.ancestors.length = path.length + 1 := by
  induction path using child_induction with
  | atRoot => rfl
  | atChild path segment inductionHypothesis =>
      rw [ancestors_child, List.length_cons, inductionHypothesis, length_child]

/-- Each ancestor is longer than all behind it. -/
theorem nodup_ancestors (path : Path) : path.ancestors.Nodup := by
  induction path using child_induction with
  | atRoot => exact List.nodup_singleton root
  | atChild path segment inductionHypothesis =>
      rw [ancestors_child, List.nodup_cons]
      refine ⟨fun isAncestor => ?_, inductionHypothesis⟩
      have shorter := length_le_of_isPrefixOf (mem_ancestors.mp isAncestor)
      rw [length_child] at shorter
      omega

/-- Each ancestor is the parent of the one before. -/
theorem isChain_ancestors (path : Path) :
    path.ancestors.IsChain fun inner outer => inner.parent? = some outer := by
  induction path using child_induction with
  | atRoot => exact .singleton root
  | atChild path segment inductionHypothesis =>
      rw [ancestors_child, List.isChain_cons]
      refine ⟨fun outer isFirst => ?_, inductionHypothesis⟩
      rw [head?_ancestors, Option.mem_some_iff] at isFirst
      rw [parent?_child, isFirst]

/-! ### The order of paths -/

theorem compareSegments_of_prefix {segments others : List String} (begins : segments <+: others) :
    compareSegments segments others = if segments = others then .eq else .lt := by
  induction segments generalizing others with
  | nil => cases others <;> rfl
  | cons segment rest inductionHypothesis =>
      obtain ⟨rest', rfl, beginsRest⟩ := List.cons_prefix_iff.mp begins
      rw [compareSegments, Std.compare_self, Ordering.eq_then, inductionHypothesis beginsRest]
      simp only [List.cons.injEq, true_and]

/-- A proper prefix comes before what it begins. -/
theorem compare_of_isPrefixOf {path other : Path} (begins : path.isPrefixOf other) :
    path.compare other = if path = other then .eq else .lt := by
  obtain ⟨segments⟩ := path
  obtain ⟨others⟩ := other
  rw [compare, compareSegments_of_prefix (isPrefixOf_iff.mp begins)]
  simp only [Path.mk.injEq]

/-! ### Agreement -/

/-- One path begins another exactly if it is one of its ancestors, if the way through
parents leads to it, and if the other is made from it by adding segments. This is an order
with the root below everything, in which the prefixes of a path form a chain and which the
order of paths respects. The ancestors of a path lead from it to the root, parent by
parent, and none is met twice. -/
theorem ancestry_exact :
    (∀ path other : Path,
      (path.isPrefixOf other ↔ path ∈ other.ancestors) ∧
      (path.isPrefixOf other ↔
        Relation.ReflTransGen (fun inner outer => inner.parent? = some outer) other path) ∧
      (path.isPrefixOf other ↔ ∃ added : List String, other = added.foldl child path)) ∧
    (∀ path : Path, path.isPrefixOf path) ∧
    (∀ path other : Path, path.isPrefixOf other → other.isPrefixOf path → path = other) ∧
    (∀ path middle other : Path,
      path.isPrefixOf middle → middle.isPrefixOf other → path.isPrefixOf other) ∧
    (∀ path : Path, root.isPrefixOf path) ∧
    (∀ path other : Path, path.isPrefixOf other →
      path.compare other = if path = other then .eq else .lt) ∧
    (∀ path : Path,
      path.ancestors.length = path.length + 1 ∧
      path.ancestors.Nodup ∧
      path.ancestors.head? = some path ∧
      path.ancestors.getLast? = some root ∧
      path.ancestors.IsChain fun inner outer => inner.parent? = some outer) ∧
    (∀ path other whole : Path, path.isPrefixOf whole → other.isPrefixOf whole →
      path.isPrefixOf other ∨ other.isPrefixOf path) := by
  refine ⟨fun path other => ⟨mem_ancestors.symm, ?parents, ?children⟩, isPrefixOf_refl, ?antisymm,
    ?trans, root_isPrefixOf, ?order, fun path => ⟨length_ancestors path, nodup_ancestors path,
      head?_ancestors path, getLast?_ancestors path, isChain_ancestors path⟩, ?chain⟩
  case parents => exact isPrefixOf_iff_parents
  case children => exact isPrefixOf_iff_children
  case antisymm => exact fun path other => isPrefixOf_antisymm
  case trans => exact fun path middle other => isPrefixOf_trans
  case order => exact fun path other => compare_of_isPrefixOf
  case chain => exact fun path other whole => isPrefixOf_or_isPrefixOf

theorem ancestry_exact_of_lookalikes :
    let app := root.child "app"
    let util := app.child "util"
    let job := util.child "job"
    ((app.isPrefixOf job ∧ util.isPrefixOf job) ∧
      (app.isPrefixOf util ∨ util.isPrefixOf app)) ∧
    (app.isPrefixOf util ∧ util.isPrefixOf job ∧ app.isPrefixOf job) ∧
    (app.isPrefixOf app ∧ app = app) ∧
    (app.isPrefixOf job ∧ app.compare job = .lt) ∧
    ((root.child "application").isPrefixOf (root.child "app") = false ∧
      app.isPrefixOf (root.child "application") = false) := by
  obtain ⟨-, -, antisymm, trans, -, order, -, chain⟩ := ancestry_exact
  have inUtil : (root.child "app").isPrefixOf ((root.child "app").child "util") := by decide
  have inJob : ((root.child "app").child "util").isPrefixOf
      (((root.child "app").child "util").child "job") := by decide
  have appInJob := trans _ _ _ inUtil inJob
  exact ⟨⟨⟨appInJob, inJob⟩, chain _ _ _ appInJob inJob⟩, ⟨inUtil, inJob, appInJob⟩,
    ⟨by decide, antisymm _ _ (by decide) (by decide)⟩, ⟨appInJob, order _ _ appInJob⟩, by decide⟩

end Path

end NilSafety
