import NilSafety.Path
import NilSafety.Tree.Equality

/-!
Contract: declarations and source units of the host language.

Owns:
- functions with their parameters, classes, extensions and constants;
- source units, which hold declarations under one package;
- the dotted paths a unit declares, in the order in which they are listed.

Does not own: which declarations a rewrite applies to.
-/

namespace NilSafety

/-- Who may use a declaration. -/
inductive Visibility where
  /-- Every package. -/
  | exposed
  /-- Its own package only. -/
  | hidden
deriving DecidableEq

/-- A parameter of a function. -/
structure Param where
  name : Symbol
  note : TypeNote
  span : Span
deriving DecidableEq

namespace Param

/-- The same parameter at another region. -/
def withSpan (span : Span) (param : Param) : Param := { param with span }

/-- The same parameter under another name. -/
def withName (name : Symbol) (param : Param) : Param := { param with name }

end Param

/-- A function or a method. Its body is usually a block. -/
structure Function where
  name : Symbol
  isStatic : Bool
  params : List Param
  result : Option TypeNote
  body : Expr
  visibility : Visibility
  span : Span
deriving DecidableEq

namespace Function

/-- The same function at another region. -/
def withSpan (span : Span) (f : Function) : Function := { f with span }

/-- The same function under another name. -/
def withName (name : Symbol) (f : Function) : Function := { f with name }

end Function

/-- A field that a class declares. -/
structure FieldDecl where
  name : Symbol
  note : TypeNote
  span : Span
deriving DecidableEq

/-- A declaration at the top level of a unit. -/
inductive Decl where
  /-- A function. -/
  | function (function : Function)
  /-- A class with its fields and methods. -/
  | record (name : Symbol) (fields : List FieldDecl) (methods : List Function)
      (visibility : Visibility) (span : Span)
  /-- Further methods for a type. -/
  | extension (name : Symbol) (methods : List Function) (span : Span)
  /-- A constant. -/
  | constant (name : Symbol) (note : TypeNote) (value : Expr) (visibility : Visibility)
      (span : Span)
deriving DecidableEq

namespace Decl

/-- The declared name; for an extension, the extended type. -/
def name : Decl → Symbol
  | function f => f.name
  | record name .. | extension name .. | constant name .. => name

/-- The source region of the declaration. -/
def span : Decl → Span
  | function f => f.span
  | record _ _ _ _ span | extension _ _ span | constant _ _ _ _ span => span

/-- The methods declared inside, in order. -/
def methods : Decl → List Function
  | record _ _ methods _ _ | extension _ methods _ => methods
  | function .. | constant .. => []

/-- The same declaration at another region. -/
def withSpan (span : Span) : Decl → Decl
  | function f => function (f.withSpan span)
  | record name fields methods visibility _ => record name fields methods visibility span
  | extension name methods _ => extension name methods span
  | constant name note value visibility _ => constant name note value visibility span

/-- The same declaration under another name. -/
def withName (name : Symbol) : Decl → Decl
  | function f => function (f.withName name)
  | record _ fields methods visibility span => record name fields methods visibility span
  | extension _ methods span => extension name methods span
  | constant _ note value visibility span => constant name note value visibility span

/-- The paths of the declaration's methods, in order, then its own. -/
def declaredPaths (table : SymbolTable) (package : Path) (decl : Decl) : List Path :=
  let path := package.child (table.display decl.name)
  decl.methods.map (fun method => path.child (table.display method.name)) ++ [path]

end Decl

/-- The declarations of one source file, all in one package. -/
structure SourceUnit where
  package : Path
  decls : List Decl
deriving DecidableEq

/-- Every path the unit declares: its package and the packages around it, the
innermost first, then what each declaration adds. -/
def SourceUnit.declaredPaths (table : SymbolTable) (unit : SourceUnit) : List Path :=
  unit.package.ancestors ++ unit.decls.flatMap (Decl.declaredPaths table unit.package)

end NilSafety
