import NilSafety.Eval.Machine
import NilSafety.Tree.Decl

/-!
Contract: what an evaluation knows of a program.

Owns:
- functions and constants by their names, declared methods by class and name,
  and native functions by their names;
- the addition of each, by which an earlier one of the same name is replaced.

Does not own: the values of constants, and calls.

Functions are known by their own names, whatever package declares them.
-/

namespace NilSafety

/-- The declarations that are loaded, and the names they use. -/
structure Program where
  table : SymbolTable
  functions : SymbolMap Function
  /-- The methods of each class. -/
  methods : SymbolMap (SymbolMap Function)
  /-- The native functions, the latest first. -/
  natives : List (String × Native)
  constants : SymbolMap Value

namespace Program

/-- Nothing loaded. -/
def start (table : SymbolTable) : Program :=
  ⟨table, .empty, .empty, [], .empty⟩

/-- The function of a name. -/
def function? (program : Program) (name : String) : Option Function :=
  (program.table.find? name).bind program.functions.get?

/-- The method of a class. -/
def method? (program : Program) (cls name : Symbol) : Option Function :=
  (program.methods.get? cls).bind (·.get? name)

/-- The method that a qualified name of two parts, a class and a method, stands
for. -/
def staticMethod? (program : Program) : List String → Option Function
  | [cls, name] => do
      let cls ← program.table.find? cls
      let name ← program.table.find? name
      program.method? cls name
  | _ => none

/-- The native function of a name. -/
def native? (program : Program) (name : String) : Option Native :=
  program.natives.lookup name

/-- The variable under which a method knows its receiver. -/
def receiverName? (program : Program) : Option Symbol :=
  program.table.find? "self"

/-- Adds a function. -/
def addFunction (program : Program) (f : Function) : Program :=
  { program with functions := program.functions.set f.name f }

/-- Adds a method to a class. -/
def addMethod (program : Program) (cls : Symbol) (f : Function) : Program :=
  let known := (program.methods.get? cls).getD .empty
  { program with methods := program.methods.set cls (known.set f.name f) }

/-- Adds a native function. -/
def addNative (program : Program) (name : String) (native : Native) : Program :=
  { program with natives := (name, native) :: program.natives }

/-- Adds a constant. -/
def addConstant (program : Program) (name : Symbol) (value : Value) : Program :=
  { program with constants := program.constants.set name value }

/-- A qualified name as text. -/
def qualifiedName (program : Program) (segments : List Symbol) : String :=
  "::".intercalate (segments.map program.table.display)

end Program

end NilSafety
