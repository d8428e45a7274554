import NilSafety.Proofs.Symbols.FreshNames
import NilSafety.Rewrite.Body

/-!
Contract: rewriting a node only ever adds to what is carried along.

Owns:
- which names the rewriting of a node adds to the symbol table;
- steps after which the symbol table holds further names and the problems found
  before are still there, and that the rewriting of a node is such a step.

Does not own: what becomes of the node, and the walk over a body.
-/

namespace NilSafety

/-- `later` is what rewriting may make of `progress`: the table grew, and the
problems found before are still there. -/
structure Progress.Advances (progress later : Progress) : Prop where
  table : progress.table.Later later.table
  problems : progress.problems <+: later.problems

namespace Progress.Advances

theorem refl (progress : Progress) : progress.Advances progress :=
  ⟨.refl _, List.prefix_refl _⟩

theorem trans
    {progress middle later : Progress}
    (first : progress.Advances middle)
    (second : middle.Advances later) :
    progress.Advances later :=
  ⟨first.table.trans second.table, first.problems.trans second.problems⟩

/-- What ends without problems has had none before. -/
theorem clean
    {progress later : Progress}
    (advances : progress.Advances later)
    (none : later.problems = []) :
    progress.problems = [] := by
  have isPrefix := advances.problems
  rw [none] at isPrefix
  exact List.prefix_nil.mp isPrefix

end Progress.Advances

namespace Rewrite

variable {α β : Type}

/-- A step that only adds to what is carried along. -/
def Advancing (step : Rewrite α) : Prop :=
  ∀ progress : Progress, progress.Advances (step progress).2

/-! ### One node -/

/-- Rewriting a node adds generated names to the table, and those by which checked arrays
are made. -/
theorem extendsBy_node
    {added : String → Prop}
    (generated : ∀ number, added (FreshNames.candidate number))
    (arrays : ∀ name ∈ Expr.checkedArrayPath, added name)
    (declaration : Path)
    (features : FeatureSet)
    (expr : Expr)
    (progress : Progress) :
    SymbolTable.ExtendsBy added progress.table
      (node declaration features expr progress).2.table := by
  unfold node
  split
  · split
    · exact FreshNames.extendsBy_fresh progress.names progress.table generated
    · exact .refl progress.table
  · split
    · unfold wrap Expr.wrapArray
      cases expr with
      | array => exact SymbolTable.extendsBy_internAll progress.table Expr.checkedArrayPath arrays
      | _ => exact .refl progress.table
    · exact .refl progress.table

theorem problems_node
    (declaration : Path)
    (features : FeatureSet)
    (expr : Expr)
    (progress : Progress) :
    progress.problems <+: (node declaration features expr progress).2.problems := by
  unfold node
  split
  · split
    · exact List.prefix_refl _
    · exact List.prefix_append _ _
  · split
    · exact List.prefix_refl _
    · exact List.prefix_refl _

theorem node_advancing (declaration : Path) (features : FeatureSet) (expr : Expr) :
    Advancing (node declaration features expr) :=
  fun progress =>
    ⟨extendsBy_node (fun number => FreshNames.candidate_ne number (by decide)) (by decide)
      declaration features expr progress, problems_node declaration features expr progress⟩

end Rewrite

end NilSafety
