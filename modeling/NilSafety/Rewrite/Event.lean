import NilSafety.Log.Logger
import NilSafety.Rewrite.Counts
import NilSafety.Scope.Problem

/-!
Contract: what a rewrite reports while it runs.

Owns: the events, the level of each, the message that the log shows, and what a
logger writes for a list of them.

Does not own: when an event happens.
-/

namespace NilSafety

/-- Something worth a log message. -/
inductive Event where
  /-- A function in which no feature is in effect is visited. -/
  | idle (declaration : Path)
  /-- A marked access is expanded. -/
  | expanded (declaration : Path) (span : Span)
  /-- An array literal is wrapped. -/
  | wrapped (declaration : Path) (span : Span)
  /-- A function receives guards. -/
  | guarded (declaration : Path) (count : Nat)
  /-- A unit is done. -/
  | rewritten (package : Path) (counts : Counts)
  /-- A unit fails, among others for this reason. -/
  | failed (problem : Problem)
  /-- The configuration is at fault. -/
  | misconfigured (problem : Problem)
  /-- A build is done. -/
  | built (units failures : Nat) (counts : Counts)
deriving DecidableEq

namespace Event

/-- The part of the program that events are logged for. -/
def target : String := "nullsafe_rewrite::driver"

/-- How severe the event is. -/
def level : Event → Level
  | idle .. | expanded .. | wrapped .. | guarded .. => .trace
  | rewritten .. => .debug
  | failed _ => .error
  | misconfigured _ => .warn
  | built .. => .info

/-- The event as the log shows it. -/
def message : Event → String
  | idle declaration => s!"`{declaration.text}`: no features active"
  | expanded declaration span => s!"`{declaration.text}`: expanded safe access at {span.text}"
  | wrapped declaration span => s!"`{declaration.text}`: wrapped array literal at {span.text}"
  | guarded declaration count => s!"`{declaration.text}`: {count} parameter guards"
  | rewritten package counts => s!"rewrote unit `{package.text}`: {counts.text}"
  | failed problem => problem.message
  | misconfigured problem => problem.message
  | built units failures counts => s!"rewrote {units} units ({failures} failed): {counts.text}"

/-- What a logger writes for several events. -/
def lines (logger : Logger) (events : List Event) : List String :=
  events.filterMap fun event => logger.line? event.level target event.message

end Event

end NilSafety
