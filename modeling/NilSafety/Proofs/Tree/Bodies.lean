import NilSafety.Proofs.Tree.Children
import NilSafety.Proofs.Tree.Everywhere

/-!
Contract: declarations and units over other bodies.

Owns: the same functions, declarations and units with other expressions in place of
their bodies and constant values, in the order in which these are listed.

Does not own: what a declaration carries beside its expressions.
-/

namespace NilSafety

/-- The same function with another body. -/
def Function.withBody (f : Function) (body : Expr) : Function :=
  { f with body }

theorem Function.withBody_withBody (f : Function) (body other : Expr) :
    (f.withBody body).withBody other = f.withBody other := rfl

namespace Decl

/-- The declaration over other expressions, as many as it has. -/
def withBodies (exprs : List Expr) : Decl → Decl
  | function f => function (f.withBody (exprs.getD 0 f.body))
  | record name fields methods visibility span =>
      record name fields (methods.zipWith Function.withBody exprs) visibility span
  | extension name methods span => extension name (methods.zipWith Function.withBody exprs) span
  | constant name note value visibility span =>
      constant name note (exprs.getD 0 value) visibility span

theorem bodies_withBodies
    (decl : Decl)
    (exprs : List Expr)
    (fits : exprs.length = decl.bodies.length) :
    (decl.withBodies exprs).bodies = exprs := by
  cases decl with
  | function | constant =>
      obtain ⟨body, rfl⟩ := List.length_eq_one_iff.mp fits
      rfl
  | record name fields methods visibility span | extension name methods span =>
      have fitsMethods : exprs.length = methods.length := fits.trans (List.length_map Function.body)
      exact Expr.map_value_zipWith (fun _ _ => rfl) fitsMethods

theorem withBodies_withBodies
    (decl : Decl)
    (exprs others : List Expr)
    (fits : exprs.length = decl.bodies.length)
    (fitsOthers : others.length = decl.bodies.length) :
    (decl.withBodies exprs).withBodies others = decl.withBodies others := by
  cases decl with
  | function | constant =>
      obtain ⟨body, rfl⟩ := List.length_eq_one_iff.mp fits
      obtain ⟨other, rfl⟩ := List.length_eq_one_iff.mp fitsOthers
      rfl
  | record name fields methods visibility span | extension name methods span =>
      have fitsMethods : exprs.length = methods.length := fits.trans (List.length_map Function.body)
      simp only [withBodies, Expr.zipWith_zipWith_withValue Function.withBody_withBody fitsMethods]

end Decl

namespace SourceUnit

/-- The unit over other expressions, as many as it has. -/
def withBodies (unit : SourceUnit) (exprs : List Expr) : SourceUnit :=
  { unit with decls := refillEach Decl.bodies Decl.withBodies unit.decls exprs }

theorem bodies_withBodies
    (unit : SourceUnit)
    {exprs : List Expr}
    (fits : exprs.length = unit.bodies.length) :
    (unit.withBodies exprs).bodies = exprs :=
  flatMap_refillEach Decl.bodies_withBodies unit.decls fits

theorem withBodies_withBodies
    (unit : SourceUnit)
    {exprs others : List Expr}
    (fits : exprs.length = unit.bodies.length)
    (fitsOthers : others.length = unit.bodies.length) :
    (unit.withBodies exprs).withBodies others = unit.withBodies others :=
  congrArg (SourceUnit.mk unit.package) (refillEach_refillEach Decl.bodies_withBodies
    Decl.withBodies_withBodies unit.decls fits fitsOthers)

end SourceUnit

end NilSafety
