import NilSafety.Presence.Failure

/-!
Contract: explicit handling of values that may be absent.

Owns:
- replacement of an absent value, by a value or by a computation that runs only
  then;
- insistence on a value, with and without a check;
- callbacks that run only on a value that is present;
- the check of an argument, as a guard does it.

Does not own: the evaluation of the host language, which offers two of these to
programs.
-/

namespace NilSafety.Presence

variable {α β : Type} {m : Type → Type} [Monad m]

/-- The value, or `default` in its absence. -/
def orElse (value : Option α) (default : α) : α :=
  value.getD default

/-- The value, or the result of `default`, which runs only in its absence. -/
def orCompute (value : Option α) (default : m α) : m α :=
  match value with
  | some payload => pure payload
  | none => default

/-- The value, or the failure of an insistence at `site`. -/
def insist (value : Option α) (site : CallSite) : Except AbsenceFailure α :=
  match value with
  | some payload => .ok payload
  | none => .error ⟨site⟩

/-- The value, without a check, on evidence that it is present. -/
def assumed (value : Option α) (present : value.isSome) : α :=
  value.get present

/-- The result of a callback on the value; absence stays absence. -/
def mapPresent (value : Option α) (callback : α → m β) : m (Option β) :=
  match value with
  | some payload => some <$> callback payload
  | none => pure none

/-- Runs a callback on the value for its effects. -/
def forPresent (value : Option α) (callback : α → m Unit) : m Unit :=
  match value with
  | some payload => callback payload
  | none => pure ()

/-- Runs a callback on the value for its effects and yields the value as it
was. -/
def tapPresent (value : Option α) (callback : α → m Unit) : m (Option α) := do
  forPresent value callback
  return value

/-- The argument, or the failure of the guard that `function` would put on its
`parameter`, called at `site`. -/
def ensure (value : Option α) (parameter function : String) (site : CallSite) :
    Except GuardFailure α :=
  match value with
  | some payload => .ok payload
  | none => .error ⟨parameter, function, some site⟩

end NilSafety.Presence
