import Accolade.Failure
import Accolade.Rule.Requirement

/-!
# Outcomes and happenings

A cycle leaves two kinds of trace. An outcome is what checking one rule in one pass came
to. A happening is a single thing that the cycle did or noticed; metrics and log lines
are both read off the happenings, in the order in which they came about.
-/

namespace Accolade

/-- What checking one rule for one subject came to. -/
structure Outcome where
  rule : String
  fulfilled : Bool
  awardable : Bool
  timedOut : Bool
  error : Option Diagnosis
  deriving Repr

namespace Outcome

/-- A rule that was checked. -/
def checked (rule : String) (fulfilled awardable : Bool) : Outcome :=
  ⟨rule, fulfilled, awardable, false, none⟩

/-- A rule whose check failed. -/
def failed (rule : String) (error : Diagnosis) : Outcome :=
  ⟨rule, false, false, false, some error⟩

/-- A rule whose check did not return in time. -/
def late (rule : String) : Outcome := ⟨rule, false, false, true, none⟩

/-- Whether the rule is to be awarded: fulfilled, below its cap and without error. -/
def shouldAward (outcome : Outcome) : Bool :=
  outcome.fulfilled && outcome.awardable && outcome.error.isNone

end Outcome

/-- A thing that a cycle did or noticed. -/
inductive Happening
  | evaluated (outcome : Outcome)
  | evaluationFailed (rule : String) (error : Diagnosis)
  | timedOut (rule : String)
  | awarded (rule : String) (amount : Value) (maxAwarded : Int)
  | replaced (rule : String) (replacedBy : String)
  | actionsFailed (rule : String) (failure : Failure)
  | awardFailed (rule : String) (error : Diagnosis)
  | deadlineReached
  | passLimitReached (maxPasses : Nat)
  | timed
  | completed (awarded retracted : List String) (passes : Nat) (errors : List String)
  deriving Repr

end Accolade
