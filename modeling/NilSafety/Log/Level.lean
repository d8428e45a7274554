import NilSafety.Text.CharClass

/-!
Contract: the severities of log messages.

Owns:
- the five levels, from the most to the least severe, and their order;
- the label of a level, and the terminal colour that goes with it;
- reading of a level's name.

Does not own: the level in force.
-/

namespace NilSafety

/-- The severity of a log message. -/
inductive Level where
  /-- A unit or the build fails. -/
  | error
  /-- A problem that fails nothing. -/
  | warn
  /-- A summary of a build. -/
  | info
  /-- A summary of a unit. -/
  | debug
  /-- A single rewrite. -/
  | trace
deriving DecidableEq

namespace Level

/-- The rank of a level; 0 is the most severe. -/
def rank : Level → Nat
  | error => 0
  | warn => 1
  | info => 2
  | debug => 3
  | trace => 4

/-- The order of levels, the most severe first. -/
def compare (level other : Level) : Ordering :=
  Ord.compare level.rank other.rank

/-- The label that messages show. -/
def label : Level → String
  | error => "ERROR"
  | warn => "WARN"
  | info => "INFO"
  | debug => "DEBUG"
  | trace => "TRACE"

/-- The number of the terminal colour. -/
def colour : Level → Nat
  | error => 31
  | warn => 33
  | info => 32
  | debug => 36
  | trace => 35

/-- A text that names no level. -/
structure Unknown where
  input : String
deriving DecidableEq

/-- What is wrong, quoting the text as it was given. -/
def Unknown.message (problem : Unknown) : String :=
  s!"invalid log level `{problem.input}`"

/-- Reads a level's name. Blanks around it and the case of ASCII letters do not
matter. -/
def parse (input : String) : Except Unknown Level :=
  match (Text.trim input).toUpper with
  | "ERROR" => .ok error
  | "WARN" | "WARNING" => .ok warn
  | "INFO" => .ok info
  | "DEBUG" => .ok debug
  | "TRACE" => .ok trace
  | _ => .error ⟨input⟩

end Level

end NilSafety
