import NilSafety.Proofs.Guards.Checks
import NilSafety.Proofs.Rewriting.Units

/-!
Contract: what guards a function gets.

Owns:
- the form of a guarded function: checks of the parameters whose notes exclude nil
  stand before its body, and their symbols name what they call;
- that putting guards in place yields that form.

Does not own: which functions are guarded, or what the checks do.
-/

namespace NilSafety

namespace Function

/-- `f'` is `f` behind guards that report it as `path`. A function without
parameters to guard is as it was. -/
def GuardedAs (table grown : SymbolTable) (path : Path) (f f' : Function) : Prop :=
  (f.guardedParams table = [] ∧ f' = f) ∨
    ∃ symbols : GuardSymbols, symbols.Reports grown path ∧
      f' = { f with body := f.body.precededBy ((f.guardedParams table).map symbols.check) }

end Function

theorem GuardSymbols.reports_intern
    {added : String → Prop}
    {table grown : SymbolTable}
    {path : Path}
    (grows : SymbolTable.ExtendsBy added (GuardSymbols.intern table path).2 grown) :
    (GuardSymbols.intern table path).1.Reports grown path := by
  have interned : ∀ (earlier : SymbolTable) (name : String),
      earlier.ExtendsBy (fun _ => True) (earlier.intern name).2 :=
    fun earlier name => earlier.extendsBy_intern name fun _ => trivial
  have last : (GuardSymbols.intern table path).2.ExtendsBy (fun _ => True) grown :=
    grows.imp fun _ _ => trivial
  have fromEntry := (interned _ path.text).trans last
  have fromModule := (interned _ EntryPoint.guardFailure).trans fromEntry
  exact ⟨SymbolTable.display_intern fromModule, SymbolTable.display_intern fromEntry,
    SymbolTable.display_intern last⟩

/-- Putting guards in place makes a guarded function, whatever names came to the
table before. -/
theorem Function.guardedAs_withGuards
    {table middle grown : SymbolTable}
    {path : Path}
    {f : Function}
    (resolves : f.resolves table)
    (base : table.Later middle)
    (grows : (f.withGuards middle path).2.Later grown) :
    f.GuardedAs table grown path (f.withGuards middle path).1 := by
  have sameParams := guardedParams_eq base (resolves_parts resolves).2.1
  unfold withGuards at grows ⊢
  rw [sameParams] at grows ⊢
  cases params : f.guardedParams table with
  | nil => exact .inl ⟨params, rfl⟩
  | cons first rest =>
      rw [params] at grows
      refine .inr ⟨_, GuardSymbols.reports_intern grows, ?_⟩
      rw [params]

end NilSafety
