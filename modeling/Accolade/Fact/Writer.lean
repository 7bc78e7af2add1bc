import Accolade.Fact.Collaborators

/-!
# Award writers that fail, and award writers that are watched

Any collaborators can be given an award writer that fails by a pattern: the pattern says
of each call, by its number, whether it fails and how. A call that fails has no other
effect.

Any collaborators can be watched as well: each call of the award writer is then kept, in
order, with whether it went through.
-/

namespace Accolade

/-- A call of the award writer, and whether it went through. -/
inductive Write
  | award (rule : String) (done : Bool)
  | retraction (rule : String) (done : Bool)
  deriving DecidableEq, Repr

namespace Collaborators

variable {σ : Type}

/-- The same collaborators, with the writes that a pattern names failing. The calls are
counted from zero, beside the state. -/
def failing (pattern : Nat → Option Failure) (collaborators : Collaborators σ) :
    Collaborators (σ × Nat) where
  lookup kind query state :=
    let (reply, inner) := collaborators.lookup kind query state.1
    (reply, inner, state.2)
  recordAward subject rule scope state :=
    match pattern state.2 with
    | some failure => (.error failure, state.1, state.2 + 1)
    | none =>
      let (outcome, inner) := collaborators.recordAward subject rule scope state.1
      (outcome, inner, state.2 + 1)
  retractAward subject rule scope state :=
    match pattern state.2 with
    | some failure => (.error failure, state.1, state.2 + 1)
    | none =>
      let (outcome, inner) := collaborators.retractAward subject rule scope state.1
      (outcome, inner, state.2 + 1)
  invoke := collaborators.invoke.map fun run actions context state =>
    let (outcome, inner) := run actions context state.1
    (outcome, inner, state.2)

/-- The same collaborators, keeping the calls of the award writer beside the state. -/
def watched (collaborators : Collaborators σ) : Collaborators (σ × List Write) where
  lookup kind query state :=
    let (reply, inner) := collaborators.lookup kind query state.1
    (reply, inner, state.2)
  recordAward subject rule scope state :=
    let (outcome, inner) := collaborators.recordAward subject rule scope state.1
    (outcome, inner, state.2 ++ [.award rule outcome.isOk])
  retractAward subject rule scope state :=
    let (outcome, inner) := collaborators.retractAward subject rule scope state.1
    (outcome, inner, state.2 ++ [.retraction rule outcome.isOk])
  invoke := collaborators.invoke.map fun run actions context state =>
    let (outcome, inner) := run actions context state.1
    (outcome, inner, state.2)

end Collaborators

end Accolade
