import Accolade.Cycle.Outcome
import Accolade.Evaluation
import Accolade.Retry

/-!
# Checking rules

To check a rule is to evaluate its requirement within its scope and, only if it is
fulfilled, to compare the amount awarded so far with its cap. A diagnosis is captured on
the outcome, so siblings are not affected. Failed queries are retried first, under the
policy of the engine; every attempt checks the rule anew.

A failure that is no diagnosis escapes the check.
-/

namespace Accolade

namespace Rule

variable {σ : Type}

/-- Whether the requirement holds for the subject within the scope of the rule. -/
def isFulfilled (lookup : Lookup σ) (context : Context) (rule : Rule) (state : σ) :
    Reply Bool × σ :=
  rule.requirement.evaluate lookup (context.forScope rule.scope) state

/-- Whether the amount awarded within the scope of the rule is below its cap. -/
def canBeAwarded (lookup : Lookup σ) (context : Context) (rule : Rule) (state : σ) :
    Reply Bool × σ :=
  match awardedAmount lookup (context.forScope rule.scope) rule.name state with
  | (.answer total, state) =>
    match (AmountTest.mk .less rule.maxAwarded).holds total with
    | .ok below => (.answer below, state)
    | .error failure => (.failed failure, state)
  | (.failed failure, state) => (.failed failure, state)
  | (.pending, state) => (.pending, state)

/-- Whether the rule is fulfilled and whether it can be awarded. -/
def check (lookup : Lookup σ) (context : Context) (rule : Rule) (state : σ) :
    Reply (Bool × Bool) × σ :=
  match rule.isFulfilled lookup context state with
  | (.answer true, state) =>
    match rule.canBeAwarded lookup context state with
    | (.answer below, state) => (.answer (true, below), state)
    | (.failed failure, state) => (.failed failure, state)
    | (.pending, state) => (.pending, state)
  | (.answer false, state) => (.answer (false, false), state)
  | (.failed failure, state) => (.failed failure, state)
  | (.pending, state) => (.pending, state)

end Rule

/-- Whether a failure is a failed query. -/
def Failure.isTransient : Failure → Bool
  | .diagnosed diagnosis => diagnosis.isTransient
  | _ => false

/-- What a check comes to for the cycle. -/
inductive Verdict
  | judged (outcome : Outcome)
  /-- the check never returns -/
  | hung
  /-- the check stops with a failure that is no diagnosis -/
  | escaped (failure : Failure)
  deriving Repr

namespace Verdict

/-- The verdict on a rule whose check failed. -/
def ofFailure (rule : String) (failure : Failure) : Verdict :=
  match failure with
  | .diagnosed diagnosis => .judged (.failed rule diagnosis)
  | failure => .escaped failure

/-- The verdict that an ending of the check amounts to. -/
def ofEnding (rule : String) : Ending (Bool × Bool) → Verdict
  | .value (fulfilled, awardable) => .judged (.checked rule fulfilled awardable)
  | .failed failure => ofFailure rule failure
  | .exhausted _ last => ofFailure rule last
  | .pending => .hung

/-- The ending of a check that is not retried. -/
def endingOf {α : Type} : Reply α → Ending α
  | .answer value => .value value
  | .failed failure => .failed failure
  | .pending => .pending

/-- What is noted of a verdict. -/
def happenings : Verdict → List Happening
  | .judged outcome =>
    match outcome.error with
    | some error => [.evaluationFailed outcome.rule error]
    | none => [.evaluated outcome]
  | _ => []

end Verdict

/-- Check a rule, retrying failed queries under a policy if there is one. -/
def Rule.judge {σ : Type} (lookup : Lookup σ) (policy : Option RetryPolicy) (context : Context)
    (rule : Rule) (state : σ) : Verdict × σ :=
  match policy with
  | none =>
    let (reply, state) := rule.check lookup context state
    (.ofEnding rule.name (Verdict.endingOf reply), state)
  | some policy =>
    let (retried, state) :=
      retry policy Draw.none Failure.isTransient (rule.check lookup context) state
    (.ofEnding rule.name retried.ending, state)

end Accolade
