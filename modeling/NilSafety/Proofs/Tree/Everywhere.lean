import NilSafety.Symbol
import NilSafety.Tree.Decl
import NilSafety.Proofs.Symbols.Growth
import NilSafety.Proofs.Tree.Children

/-!
Contract: what holds at every node of a tree.

Owns:
- the check of all expressions and statements of a tree, the inner ones included, which
  passes if it passes at the node, at its statements and in all children;
- the symbols that a node carries itself;
- trees and units whose symbols a table resolves, trees without marked accesses,
  trees that assign to no marked access, and functions whose parameters have
  distinct names.

Does not own: what the checks are good for.
-/

namespace NilSafety

namespace TypeNote

mutual

/-- The symbols of a type note. -/
def symbols : TypeNote → List Symbol
  | .named name _ => [name]
  | .generic name args _ => name :: symbolsOfList args
  | .array element _ => symbols element
  | .function params result _ => symbolsOfList params ++ symbols result
  | .optional inner _ => symbols inner
  | .inferred _ => []

/-- The symbols of several type notes. -/
def symbolsOfList : List TypeNote → List Symbol
  | [] => []
  | note :: rest => symbols note ++ symbolsOfList rest

end

end TypeNote

namespace Expr

/-- The symbols that a node carries itself, outside the expressions and
statements in it. -/
def ownSymbols : Expr → List Symbol
  | str value _ => [value]
  | ident name _ => [name]
  | path segments _ => segments
  | call _ args _ => args.filterMap Arg.label
  | method _ name args _ _ => name :: args.filterMap Arg.label
  | field _ name _ _ => [name]
  | construct name inits _ => name :: inits.map Init.name
  | _ => []

end Expr

namespace Stmt

/-- The symbols that a statement carries itself, those of its type note
included. -/
def ownSymbols : Stmt → List Symbol
  | bind name _ note _ _ => name :: (note.map TypeNote.symbols).getD []
  | _ => []

/-- Whether the statement assigns to a marked access. -/
def assignsMarked : Stmt → Bool
  | assign target _ _ => target.isMarkedAccess
  | _ => false

end Stmt

namespace Expr

mutual

/-- Whether all expressions of a tree pass one check and all its statements
another. -/
def everywhere (node : Expr → Bool) (statement : Stmt → Bool) : Expr → Bool
  | int value span => node (int value span)
  | str value span => node (str value span)
  | bool value span => node (bool value span)
  | nil span => node (nil span)
  | ident name span => node (ident name span)
  | path segments span => node (path segments span)
  | unary op operand span =>
      node (unary op operand span) && everywhere node statement operand
  | binary left op right span =>
      node (binary left op right span) && everywhere node statement left &&
        everywhere node statement right
  | cond condition thenBranch elseBranch span =>
      node (cond condition thenBranch elseBranch span) && everywhere node statement condition &&
        everywhere node statement thenBranch && everywhereOption node statement elseBranch
  | block stmts tail span =>
      node (block stmts tail span) && everywhereStmts node statement stmts &&
        everywhereOption node statement tail
  | call callee args span =>
      node (call callee args span) && everywhere node statement callee &&
        everywhereArgs node statement args
  | method receiver name args marked span =>
      node (method receiver name args marked span) && everywhere node statement receiver &&
        everywhereArgs node statement args
  | field object name marked span =>
      node (field object name marked span) && everywhere node statement object
  | index collection position span =>
      node (index collection position span) && everywhere node statement collection &&
        everywhere node statement position
  | construct name inits span =>
      node (construct name inits span) && everywhereInits node statement inits
  | array elements span =>
      node (array elements span) && everywhereList node statement elements
  | paren inner span =>
      node (paren inner span) && everywhere node statement inner

/-- The check of an expression that may be missing. -/
def everywhereOption (node : Expr → Bool) (statement : Stmt → Bool) : Option Expr → Bool
  | none => true
  | some expr => everywhere node statement expr

/-- The check of several expressions. -/
def everywhereList (node : Expr → Bool) (statement : Stmt → Bool) : List Expr → Bool
  | [] => true
  | expr :: rest => everywhere node statement expr && everywhereList node statement rest

/-- The check of the arguments of a call. -/
def everywhereArgs (node : Expr → Bool) (statement : Stmt → Bool) : List Arg → Bool
  | [] => true
  | .mk _ value :: rest => everywhere node statement value && everywhereArgs node statement rest

/-- The check of the initializers of a new object. -/
def everywhereInits (node : Expr → Bool) (statement : Stmt → Bool) : List Init → Bool
  | [] => true
  | .mk _ value :: rest => everywhere node statement value && everywhereInits node statement rest

/-- The check of a statement. -/
def everywhereStmt (node : Expr → Bool) (statement : Stmt → Bool) : Stmt → Bool
  | .bind name isMutable note init span =>
      statement (.bind name isMutable note init span) && everywhereOption node statement init
  | .ret value span => statement (.ret value span) && everywhereOption node statement value
  | .assign target value span =>
      statement (.assign target value span) && everywhere node statement target &&
        everywhere node statement value
  | .loop condition body span =>
      statement (.loop condition body span) && everywhere node statement condition &&
        everywhere node statement body
  | .eval expr span => statement (.eval expr span) && everywhere node statement expr

/-- The check of several statements. -/
def everywhereStmts (node : Expr → Bool) (statement : Stmt → Bool) : List Stmt → Bool
  | [] => true
  | stmt :: rest => everywhereStmt node statement stmt && everywhereStmts node statement rest

end

/-- Whether the table knows every symbol of a tree. -/
def resolves (table : SymbolTable) : Expr → Bool :=
  everywhere (fun node => node.ownSymbols.all table.knows)
    (fun statement => statement.ownSymbols.all table.knows)

/-- Whether no access of a tree is marked. -/
def isUnmarked : Expr → Bool :=
  everywhere (fun node => !node.isMarkedAccess) (fun _ => true)

/-- Whether no statement of a tree assigns to a marked access. -/
def assignsPlainly : Expr → Bool :=
  everywhere (fun _ => true) (fun statement => !statement.assignsMarked)

section

variable (node : Expr → Bool) (statement : Stmt → Bool)

theorem everywhereOption_eq (expr : Option Expr) :
    everywhereOption node statement expr = expr.toList.all (everywhere node statement) := by
  cases expr <;> simp [everywhereOption]

theorem everywhereList_eq (exprs : List Expr) :
    everywhereList node statement exprs = exprs.all (everywhere node statement) := by
  induction exprs with
  | nil => rfl
  | cons expr rest inductionHypothesis => rw [everywhereList, inductionHypothesis, List.all_cons]

theorem everywhereArgs_eq (args : List Arg) :
    everywhereArgs node statement args =
      (args.map Arg.value).all (everywhere node statement) := by
  induction args with
  | nil => rfl
  | cons arg rest inductionHypothesis =>
      obtain ⟨label, value⟩ := arg
      rw [everywhereArgs, inductionHypothesis]
      rfl

theorem everywhereInits_eq (inits : List Init) :
    everywhereInits node statement inits =
      (inits.map Init.value).all (everywhere node statement) := by
  induction inits with
  | nil => rfl
  | cons init rest inductionHypothesis =>
      obtain ⟨name, value⟩ := init
      rw [everywhereInits, inductionHypothesis]
      rfl

theorem everywhereStmts_eq (stmts : List Stmt) :
    everywhereStmts node statement stmts =
      (stmts.all statement && (stmts.flatMap Stmt.children).all (everywhere node statement)) := by
  induction stmts with
  | nil => rfl
  | cons stmt rest inductionHypothesis =>
      have one : everywhereStmt node statement stmt =
          (statement stmt && stmt.children.all (everywhere node statement)) := by
        cases stmt with
        | bind | ret => simp only [everywhereStmt, everywhereOption_eq, Stmt.children]
        | assign | loop | eval =>
            simp only [everywhereStmt, Stmt.children, List.all_cons, List.all_nil, Bool.and_true,
              Bool.and_assoc]
      rw [everywhereStmts, inductionHypothesis, one, List.flatMap_cons, List.all_append,
        List.all_cons]
      ac_rfl

/-- A check passes everywhere if it passes at the node, at its statements, and
everywhere in its children. -/
theorem everywhere_eq (expr : Expr) :
    expr.everywhere node statement =
      (node expr && expr.statements.all statement &&
        expr.children.all (everywhere node statement)) := by
  cases expr <;>
    simp only [everywhere, statements, children, everywhereOption_eq, everywhereList_eq,
      everywhereArgs_eq, everywhereInits_eq, everywhereStmts_eq, List.all_cons, List.all_nil,
      List.all_append, Bool.and_true, Bool.and_assoc]

end

section

variable {node other : Expr → Bool} {statement other' : Stmt → Bool}

/-- What passes a check everywhere passes it at its root. -/
theorem everywhere_self {expr : Expr} (holds : expr.everywhere node statement) : node expr := by
  rw [everywhere_eq, Bool.and_eq_true, Bool.and_eq_true] at holds
  exact holds.1.1

/-- Two checks that both pass everywhere pass everywhere together. -/
theorem everywhere_and (expr : Expr)
    (first : expr.everywhere node statement)
    (second : expr.everywhere other other') :
    expr.everywhere (fun x => node x && other x) (fun x => statement x && other' x) := by
  induction expr using childInduction with
  | node expr inductionHypothesis =>
      simp only [everywhere_eq _ _ expr, Bool.and_eq_true, List.all_eq_true] at first second ⊢
      obtain ⟨⟨atNode, atStmts⟩, inside⟩ := first
      obtain ⟨⟨atNode', atStmts'⟩, inside'⟩ := second
      exact ⟨⟨⟨atNode, atNode'⟩, fun stmt isStmt => ⟨atStmts stmt isStmt, atStmts' stmt isStmt⟩⟩,
        fun child isChild =>
          inductionHypothesis child isChild (inside child isChild) (inside' child isChild)⟩

end

end Expr

namespace Function

/-- Whether the table knows every symbol of a function. -/
def resolves (table : SymbolTable) (f : Function) : Bool :=
  table.knows f.name &&
    f.params.all (fun param => table.knows param.name && param.note.symbols.all table.knows) &&
    ((f.result.map TypeNote.symbols).getD []).all table.knows &&
    f.body.resolves table

/-- A function resolves only if its name, its parameters and its body do. -/
theorem resolves_parts
    {table : SymbolTable}
    {f : Function}
    (resolves : f.resolves table) :
    table.knows f.name ∧
      (∀ param ∈ f.params, table.knows param.name ∧ param.note.symbols.all table.knows) ∧
      f.body.resolves table := by
  simp only [Function.resolves, Bool.and_eq_true, List.all_eq_true] at resolves
  obtain ⟨⟨⟨named, params⟩, -⟩, body⟩ := resolves
  refine ⟨named, ?_, body⟩
  intro param member
  exact ⟨(params param member).1, List.all_eq_true.mpr (params param member).2⟩

/-- Whether no two parameters of a function have the same name. -/
def hasDistinctParams (f : Function) : Bool :=
  decide (f.params.map Param.name).Nodup

end Function

namespace Decl

/-- The functions of a declaration: itself, or its methods. -/
def functions : Decl → List Function
  | function f => [f]
  | record _ _ methods _ _ | extension _ methods _ => methods
  | constant .. => []

/-- The expressions of a declaration: the bodies of its functions, or its
value. -/
def bodies : Decl → List Expr
  | constant _ _ value _ _ => [value]
  | other => other.functions.map Function.body

/-- Whether the table knows every symbol of a declaration. -/
def resolves (table : SymbolTable) (decl : Decl) : Bool :=
  table.knows decl.name && decl.functions.all (Function.resolves table) &&
    match decl with
    | record _ fields _ _ _ =>
        fields.all fun field => table.knows field.name && field.note.symbols.all table.knows
    | constant _ note value _ _ => note.symbols.all table.knows && value.resolves table
    | function .. | extension .. => true

end Decl

namespace SourceUnit

/-- The functions and methods of a unit. -/
def functions (unit : SourceUnit) : List Function :=
  unit.decls.flatMap Decl.functions

/-- The expressions of a unit: the bodies of its functions and the values of its
constants. -/
def bodies (unit : SourceUnit) : List Expr :=
  unit.decls.flatMap Decl.bodies

theorem body_of_function {unit : SourceUnit} {f : Function} (isListed : f ∈ unit.functions) :
    f.body ∈ unit.bodies := by
  obtain ⟨decl, inUnit, inDecl⟩ := List.mem_flatMap.mp isListed
  refine List.mem_flatMap.mpr ⟨decl, inUnit, ?_⟩
  cases decl with
  | constant => cases inDecl
  | function | record | extension => exact List.mem_map_of_mem inDecl

/-- Whether the table knows every symbol of a unit. -/
def resolves (table : SymbolTable) (unit : SourceUnit) : Bool :=
  unit.decls.all (Decl.resolves table)

/-- A unit resolves only if all its expressions and functions do. -/
theorem resolves_parts
    {table : SymbolTable}
    {unit : SourceUnit}
    (resolves : unit.resolves table) :
    (∀ body ∈ unit.bodies, body.resolves table) ∧
      (∀ f ∈ unit.functions, f.resolves table) ∧
      ∀ decl ∈ unit.decls, table.knows decl.name := by
  have ofDecl : ∀ decl ∈ unit.decls, decl.resolves table := List.all_eq_true.mp resolves
  have ofFunction : ∀ decl ∈ unit.decls, ∀ f ∈ decl.functions, f.resolves table := by
    intro decl member f inDecl
    have holds := ofDecl decl member
    simp only [Decl.resolves, Bool.and_eq_true, List.all_eq_true] at holds
    exact holds.1.2 f inDecl
  refine ⟨?_, ?_, ?_⟩
  · intro body member
    obtain ⟨decl, inUnit, inDecl⟩ := List.mem_flatMap.mp member
    have viaFunction : body ∈ decl.functions.map Function.body → body.resolves table := by
      intro isBody
      obtain ⟨f, inFunctions, rfl⟩ := List.mem_map.mp isBody
      exact (Function.resolves_parts (ofFunction decl inUnit f inFunctions)).2.2
    cases decl with
    | function | record | extension => exact viaFunction inDecl
    | constant name note value visibility span =>
        have isValue := List.mem_singleton.mp inDecl
        subst isValue
        have holds := ofDecl _ inUnit
        simp only [Decl.resolves, Bool.and_eq_true] at holds
        exact holds.2.2
  · intro f member
    obtain ⟨decl, inUnit, inDecl⟩ := List.mem_flatMap.mp member
    exact ofFunction decl inUnit f inDecl
  · intro decl member
    have holds := ofDecl decl member
    simp only [Decl.resolves, Bool.and_eq_true] at holds
    exact holds.1.1

/-- What else holds at every node of a unit that resolves holds there together with
that the node's symbols are known. -/
theorem everywhere_of_resolves
    {table : SymbolTable}
    {unit : SourceUnit}
    (resolves : unit.resolves table)
    {node : Expr → Bool}
    {statement : Stmt → Bool}
    (holds : ∀ body ∈ unit.bodies, body.everywhere node statement) :
    ∀ body ∈ unit.bodies, body.everywhere
      (fun expr => expr.ownSymbols.all table.knows && node expr)
      (fun stmt => stmt.ownSymbols.all table.knows && statement stmt) := by
  intro body member
  exact body.everywhere_and ((resolves_parts resolves).1 body member) (holds body member)

end SourceUnit

end NilSafety
