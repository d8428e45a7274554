import NilSafety.Log.Level

/-!
Contract: the logger that the build reports through.

Owns:
- the level in force and the choice of colours;
- which messages are let through, and the text of one that is;
- configuration by a level's name and by the environment.

Does not own: where the text goes, or what is logged.

Of the two environment settings, the one that turns colours off takes effect
even if the other one then turns out to name no level.
-/

namespace NilSafety

/-- The state of the logger: messages up to `level` are let through. -/
structure Logger where
  level : Level
  colored : Bool
deriving DecidableEq

/-- The environment settings the logger looks at: whether colours are declined,
and the text of the level, if it is set. -/
structure LogEnvironment where
  declinesColour : Bool
  level : Option String

namespace Logger

/-- The logger before any configuration. -/
def initial : Logger := ⟨.warn, true⟩

/-- Whether a message of the given level is let through. -/
def enabled (logger : Logger) (level : Level) : Bool :=
  level.rank ≤ logger.level.rank

/-- The logger with a level given by name. -/
def setLevelByName (logger : Logger) (name : String) : Except Level.Unknown Logger :=
  (Level.parse name).map fun level => { logger with level }

/-- Applies the environment settings: the logger afterwards, and the problem if
the level's text names none. -/
def configure (logger : Logger) (environment : LogEnvironment) : Logger × Option Level.Unknown :=
  let logger := if environment.declinesColour then { logger with colored := false } else logger
  match environment.level with
  | none => (logger, none)
  | some name =>
      match logger.setLevelByName name with
      | .ok logger => (logger, none)
      | .error problem => (logger, some problem)

/-- The label of a message, in brackets and in its colour if colours are on. -/
def tag (logger : Logger) (level : Level) : String :=
  if logger.colored then s!"\x1b[{level.colour}m[{level.label}]\x1b[0m" else s!"[{level.label}]"

/-- The text of a message about `target`, if it is let through. -/
def line? (logger : Logger) (level : Level) (target message : String) : Option String :=
  if logger.enabled level then some s!"{logger.tag level} {target}: {message}" else none

end Logger

end NilSafety
