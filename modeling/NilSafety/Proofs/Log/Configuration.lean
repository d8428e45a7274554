import NilSafety.Log.Logger
import NilSafety.Proofs.Runs

/-!
Contract: configuration of the logger that fails.

Owns:
- the operations on the logger, runs of them, and what a run prints;
- when an operation fails, and what it leaves of the logger then;
- that a failed operation shows in later output just if it has turned colours off.

Does not own: which messages a build logs.

Of the operations that may fail, only the one that reads the environment changes anything
before it does: it has turned colours off by the time it looks for a level.
-/

namespace NilSafety.Logger

/-! ### Operations -/

/-- What can be done with the logger. -/
inductive Op where
  /-- Sets the level. -/
  | setLevel (level : Level)
  /-- Sets the level that a text names. -/
  | setLevelByName (name : String)
  /-- Applies environment settings. -/
  | configure (environment : LogEnvironment)
  /-- Turns colours on or off. -/
  | setColored (colored : Bool)
  /-- Logs a message. -/
  | emit (level : Level) (target message : String)

/-- What an operation answers. -/
inductive Answer where
  /-- Nothing. -/
  | nothing
  /-- That a text names no level. -/
  | failed (problem : Level.Unknown)
  /-- A line of output. -/
  | line (text : String)
deriving DecidableEq

namespace Op

/-- Performs an operation. -/
def perform : Op → Logger → Answer × Logger
  | setLevel level, logger => (.nothing, { logger with level })
  | setLevelByName name, logger =>
      match logger.setLevelByName name with
      | .ok changed => (.nothing, changed)
      | .error problem => (.failed problem, logger)
  | configure environment, logger =>
      match logger.configure environment with
      | (changed, none) => (.nothing, changed)
      | (changed, some problem) => (.failed problem, changed)
  | setColored colored, logger => (.nothing, { logger with colored })
  | emit level target message, logger =>
      match logger.line? level target message with
      | some text => (.line text, logger)
      | none => (.nothing, logger)

/-- The text in which an operation looks for a level. -/
def levelText? : Op → Option String
  | setLevelByName name => some name
  | configure environment => environment.level
  | setLevel _ | setColored _ | emit .. => none

/-- Whether an operation finds that the environment declines colours. -/
def declinesColour : Op → Bool
  | configure environment => environment.declinesColour
  | setLevel _ | setLevelByName _ | setColored _ | emit .. => false

end Op

/-- The line of an answer. -/
def Answer.line? : Answer → Option String
  | line text => some text
  | nothing | failed _ => none

/-- What a run of operations prints. -/
def printed (ops : List Op) (logger : Logger) : List String :=
  (performAll Op.perform ops logger).1.filterMap Answer.line?

/-- The logger after a run of operations. -/
def after (logger : Logger) (ops : List Op) : Logger :=
  (performAll Op.perform ops logger).2

theorem printed_append (first second : List Op) (logger : Logger) :
    printed (first ++ second) logger =
      printed first logger ++ printed second (logger.after first) := by
  rw [printed, performAll_append, List.filterMap_append, printed, printed, after]

theorem printed_cons (op : Op) (rest : List Op) (logger : Logger) :
    printed (op :: rest) logger =
      (op.perform logger).1.line?.toList ++ printed rest (op.perform logger).2 := by
  rw [printed, performAll, List.filterMap_cons, printed]
  cases (op.perform logger).1.line? <;> rfl

/-! ### Failures -/

/-- The logger with colours off if the environment declines them. -/
def quieted (logger : Logger) (declined : Bool) : Logger :=
  { logger with colored := logger.colored && !declined }

theorem quieted_eq_self_iff {logger : Logger} {declined : Bool} :
    logger.quieted declined = logger ↔ ¬ (declined ∧ logger.colored) := by
  obtain ⟨level, colored⟩ := logger
  rw [quieted, mk.injEq]
  cases colored <;> cases declined <;> simp

/-- A text that names no level is reported as it was given. -/
theorem input_of_parse_eq_error
    {name : String}
    {problem : Level.Unknown}
    (fails : Level.parse name = .error problem) :
    problem.input = name := by
  unfold Level.parse at fails
  split at fails <;> cases fails
  rfl

theorem parse_loud : Level.parse "loud" = .error ⟨"loud"⟩ := by
  have trimmed : Text.trim "loud" = "loud" := by decide
  have upper : "loud".toUpper = "LOUD" := by
    change "loud".map Char.toUpper = "LOUD"
    rw [← String.toList_inj, String.toList_map]
    decide
  rw [Level.parse, trimmed, upper]
  rfl

/-- An operation that is given a text for the level first turns colours off if the
environment declines them. -/
theorem perform_of_levelText
    {op : Op}
    {name : String}
    (given : op.levelText? = some name)
    (logger : Logger) :
    op.perform logger =
      match Level.parse name with
      | .ok level => (.nothing, { logger.quieted op.declinesColour with level })
      | .error problem => (.failed problem, logger.quieted op.declinesColour) := by
  obtain ⟨level, colored⟩ := logger
  cases op with
  | setLevelByName other =>
      cases given
      have quiet : quieted ⟨level, colored⟩ false = ⟨level, colored⟩ :=
        quieted_eq_self_iff.mpr nofun
      simp only [Op.perform, setLevelByName, Op.declinesColour, quiet]
      cases Level.parse name <;> rfl
  | configure environment =>
      obtain ⟨declines, text⟩ := environment
      cases given
      simp only [Op.perform, configure, setLevelByName, Op.declinesColour]
      cases declines <;> cases colored <;> cases Level.parse name <;> rfl
  | setLevel | setColored | emit => cases given

/-- An operation fails exactly on a text that names no level, and reports this text. -/
theorem perform_failed_iff {op : Op} {logger : Logger} {problem : Level.Unknown} :
    (op.perform logger).1 = .failed problem ↔
      op.levelText? = some problem.input ∧ Level.parse problem.input = .error problem := by
  constructor
  · intro fails
    cases given : op.levelText? with
    | some name =>
        rw [perform_of_levelText given] at fails
        cases parsed : Level.parse name with
        | ok level =>
            rw [parsed] at fails
            cases fails
        | error other =>
            rw [parsed] at fails
            cases fails
            rw [input_of_parse_eq_error parsed]
            exact ⟨rfl, parsed⟩
    | none =>
        cases op with
        | setLevelByName => cases given
        | configure environment =>
            obtain ⟨declines, text⟩ := environment
            cases given
            cases fails
        | setLevel | setColored => cases fails
        | emit level target message =>
            dsimp only [Op.perform] at fails
            split at fails <;> cases fails
  · rintro ⟨given, refused⟩
    rw [perform_of_levelText given, refused]

/-- What a failed operation leaves is the logger with colours off where the environment
declines them. -/
theorem perform_of_failed {op : Op} {logger : Logger} {problem : Level.Unknown}
    (fails : (op.perform logger).1 = .failed problem) :
    (op.perform logger).2 = logger.quieted op.declinesColour := by
  obtain ⟨given, refused⟩ := perform_failed_iff.mp fails
  rw [perform_of_levelText given, refused]

/-! ### Output after a failure -/

/-- A message of the severest level is always let through. -/
theorem printed_error (logger : Logger) :
    printed [.emit .error "" ""] logger = [logger.tag .error ++ " : "] := by
  have letThrough : logger.enabled .error := decide_eq_true (Nat.zero_le _)
  have line : logger.line? .error "" "" = some (logger.tag .error ++ " : ") := by
    rw [line?, if_pos letThrough]
    simp [toString, String.append_assoc]
  rw [printed_cons]
  dsimp only [Op.perform]
  rw [line]
  rfl

/-- The label of a message shows whether colours are on. -/
theorem colored_eq_of_tag_eq {logger other : Logger} (same : logger.tag .error = other.tag .error) :
    logger.colored = other.colored := by
  unfold tag at same
  cases on : logger.colored <;> cases on' : other.colored <;> rw [on, on'] at same
  case false.true => exact absurd same (by decide)
  case true.false => exact absurd same (by decide)

/-- A failed operation shows in what is printed later just if it has changed the logger. -/
theorem printed_failed_iff {op : Op} {problem : Level.Unknown} {start : Logger} {earlier : List Op}
    (fails : (op.perform (start.after earlier)).1 = .failed problem) :
    (∀ later, printed (earlier ++ op :: later) start = printed (earlier ++ later) start) ↔
      (op.perform (start.after earlier)).2 = start.after earlier := by
  have printedLater (later : List Op) :
      printed (op :: later) (start.after earlier) =
        printed later (op.perform (start.after earlier)).2 := by
    rw [printed_cons, fails]
    rfl
  simp only [printed_append, List.append_cancel_left_eq, printedLater]
  constructor
  · intro same
    have sameLine := same [.emit .error "" ""]
    rw [printed_error, printed_error, List.singleton_inj, String.append_left_inj] at sameLine
    have sameColour := colored_eq_of_tag_eq sameLine
    rw [perform_of_failed fails] at sameColour ⊢
    exact congrArg (Logger.mk _) sameColour
  · intro same later
    rw [same]

/-- An operation of a run fails exactly on a text that names no level. It leaves the level
as it was then, and colours as they were unless the environment declines them. So the
logger, and with it all that is printed later, is the same as without the operation just if
colours were off already or are not declined; in any case it is as if colours had been set
to what they are then. -/
theorem failed_configuration_exact
    (start : Logger)
    (earlier : List Op)
    (op : Op)
    (problem : Level.Unknown) :
    let before := start.after earlier
    let outcome := op.perform before
    (outcome.1 = .failed problem ↔
      op.levelText? = some problem.input ∧ Level.parse problem.input = .error problem) ∧
    (outcome.1 = .failed problem →
      outcome.2.level = before.level ∧
      outcome.2.colored = (before.colored && !op.declinesColour) ∧
      (outcome.2 = before ↔ ¬ (op.declinesColour ∧ before.colored)) ∧
      ((∀ later, printed (earlier ++ op :: later) start = printed (earlier ++ later) start) ↔
        ¬ (op.declinesColour ∧ before.colored)) ∧
      ∀ later, printed (earlier ++ op :: later) start =
        printed (earlier ++ .setColored outcome.2.colored :: later) start) := by
  intro before outcome
  refine ⟨perform_failed_iff, fun fails => ?_⟩
  have leaves : outcome.2 = before.quieted op.declinesColour := perform_of_failed fails
  have unchanged : outcome.2 = before ↔ ¬ (op.declinesColour ∧ before.colored) := by
    rw [leaves, quieted_eq_self_iff]
  refine ⟨by rw [leaves, quieted], by rw [leaves, quieted], unchanged,
    (printed_failed_iff fails).trans unchanged, fun later => ?_⟩
  rw [printed_append, printed_append, printed_cons, printed_cons, fails]
  change _ ++ ([] ++ printed later outcome.2) =
    _ ++ ([] ++ printed later { before with colored := outcome.2.colored })
  rw [leaves]
  rfl

theorem failed_configuration_exact_of_loud :
    let op := Op.configure ⟨false, some "loud"⟩
    let before := initial.after [.setLevel .info]
    (op.perform before).1 = .failed ⟨"loud"⟩ ∧ (op.perform before).2 = before ∧
      ∀ later, printed (.setLevel .info :: op :: later) initial =
        printed (.setLevel .info :: later) initial := by
  intro op before
  obtain ⟨refuses, keeps⟩ :=
    failed_configuration_exact initial [.setLevel .info] op ⟨"loud"⟩
  have fails : (op.perform before).1 = .failed ⟨"loud"⟩ := refuses.mpr ⟨rfl, parse_loud⟩
  obtain ⟨-, -, unchanged, shows, -⟩ := keeps fails
  exact ⟨fails, unchanged.mpr (by decide), shows.mpr (by decide)⟩

/-- Settings are refused that also decline colours, and later lines are without them. -/
theorem failed_configuration_drops_colours :
    (Op.configure ⟨true, some "loud"⟩).perform initial = (.failed ⟨"loud"⟩, ⟨.warn, false⟩) ∧
    printed [.configure ⟨true, some "loud"⟩, .emit .error "app" "stop"] initial =
      ["[ERROR] app: stop"] ∧
    printed [.emit .error "app" "stop"] initial = ["\x1b[31m[ERROR]\x1b[0m app: stop"] := by
  have failed : (Op.configure ⟨true, some "loud"⟩).perform initial =
      (.failed ⟨"loud"⟩, ⟨.warn, false⟩) := by
    rw [perform_of_levelText rfl, parse_loud]
    rfl
  refine ⟨failed, ?_, by decide⟩
  rw [printed_cons, failed]
  decide

end NilSafety.Logger
