import NilSafety.Symbol

/-!
Contract: the values of the host language.

Owns:
- scalars, references to containers, and optional values, which checked reads
  yield;
- the kinds of values and their names;
- nil and absence, the view of a value as optional, what a value holds under
  its present layers, and host equality.

Does not own: the contents of containers. A reference says which container it
is; an object's reference says its class too, which never changes.
-/

namespace NilSafety

/-- A value. -/
inductive Value where
  /-- The null value. -/
  | nil
  /-- The value of statements and of blocks without a tail. -/
  | unit
  /-- A number of 64 bits. -/
  | int (value : Int64)
  /-- A truth value. -/
  | bool (value : Bool)
  /-- A text. -/
  | str (value : String)
  /-- A reference to an object. -/
  | object (cls : Symbol) (address : Nat)
  /-- A reference to a plain array. -/
  | array (address : Nat)
  /-- A reference to a checked array. -/
  | checkedArray (address : Nat)
  /-- What a checked read yields where nothing is. -/
  | absent
  /-- What a checked read yields where something is, a stored nil included. -/
  | present (inner : Value)
deriving DecidableEq, Inhabited

/-- What sort of value a value is. -/
inductive ValueKind where
  | nil
  | unit
  | int
  | bool
  | str
  | object
  | array
  | checkedArray
  | optional
deriving DecidableEq

/-- The kind as diagnostics name it. -/
def ValueKind.name : ValueKind → String
  | nil => "Nil"
  | unit => "Unit"
  | int => "Int"
  | bool => "Bool"
  | str => "String"
  | object => "Object"
  | array => "Array"
  | checkedArray => "SafeArray"
  | optional => "Optional"

namespace Value

/-- The kind of a value. -/
def kind : Value → ValueKind
  | nil => .nil
  | unit => .unit
  | int _ => .int
  | bool _ => .bool
  | str _ => .str
  | object .. => .object
  | array _ => .array
  | checkedArray _ => .checkedArray
  | absent | present _ => .optional

/-- Whether the value is nil or absent. A present nil is neither. -/
def isNil : Value → Bool
  | nil | absent => true
  | _ => false

/-- The value as an optional one: nil and absence are none, a present value is
what it holds, and every other value is itself. -/
def toOption : Value → Option Value
  | nil | absent => none
  | present inner => some inner
  | other => some other

/-- What a value holds under any number of present layers. Accesses to members
act on it. -/
def core : Value → Value
  | present inner => core inner
  | other => other

/-- The optional value of a checked read. -/
def ofOption : Option Value → Value
  | none => absent
  | some inner => present inner

/-- Host equality of `plain`, which is no present value, with another value. -/
def equalsPlain (plain : Value) : Value → Bool
  | present inner => !plain.isNil && equalsPlain plain inner
  | other => if plain.isNil || other.isNil then plain.isNil && other.isNil else plain = other

/-- Host equality. Scalars are equal by value and containers by identity. Nil
and absence are equal to each other. Two present values are equal if what they
hold is; a present value is equal to another value that is neither nil nor
absent if what it holds is. -/
def hostEq : Value → Value → Bool
  | present inner, present other => hostEq inner other
  | present inner, other => !other.isNil && hostEq inner other
  | plain, other => equalsPlain plain other

end Value

end NilSafety
