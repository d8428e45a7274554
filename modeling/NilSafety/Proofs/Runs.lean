/-!
Contract: operations performed one after another.

Owns: the run of a sequence of operations, with all their answers, over any kind of state.

Does not own: what operations there are.
-/

namespace NilSafety

section

variable {Op Answer State : Type} (perform : Op → State → Answer × State)

/-- Performs operations one after another, with all their answers. -/
def performAll : List Op → State → List Answer × State
  | [], state => ([], state)
  | op :: rest, state =>
      let (answer, state) := perform op state
      let (answers, state) := performAll rest state
      (answer :: answers, state)

theorem performAll_append (first second : List Op) (state : State) :
    performAll perform (first ++ second) state =
      ((performAll perform first state).1 ++
          (performAll perform second (performAll perform first state).2).1,
        (performAll perform second (performAll perform first state).2).2) := by
  induction first generalizing state with
  | nil => rfl
  | cons op rest inductionHypothesis =>
      simp only [List.cons_append, performAll, inductionHypothesis]

end

end NilSafety
