import Accolade.Catalogue.Basic
import Accolade.Cycle.Check
import Accolade.Fact.Collaborators

/-!
# Processing cycles

A cycle runs candidate rules for one subject in passes. A pass first checks every
candidate that is not settled, all on the facts at its start, and then awards in
candidate order. To award a rule is to resolve the scopes of all its writes, to record
the award, to retract the rules it replaces in order, and to run its actions.

A rule is settled once it was replaced or its award failed; it is neither checked nor
awarded again in the cycle. Passes repeat until one awards nothing, the pass limit is
reached, or the deadline has passed. The deadline passes only when a check hangs: the
pass is finished, and no further one is made.

A failed award is captured on the outcome of its rule. Failed actions are noted and change
nothing else. Only a check can let a failure out of the cycle.

What a cycle tells its journal is kept in order. How these lines are rendered is up to the
journal, which is taken to accept them all.
-/

namespace Accolade

/-- An engine: the rules in force and the limits of a cycle. -/
structure Engine where
  catalogue : Catalogue
  maxPasses : Nat
  /-- the seconds a cycle may take; zero is no limit -/
  timeLimit : Option Double
  retry : Option RetryPolicy
  deriving Repr

/-- An engine with a pass limit, which must be at least one. -/
def Engine.of (catalogue : Catalogue) (maxPasses : Int) (timeLimit : Option Double)
    (retry : Option RetryPolicy) : Except Failure Engine :=
  if maxPasses < 1 then .error (.belowOne "max_passes")
  else .ok ⟨catalogue, maxPasses.toNat, timeLimit, retry⟩

/-- How far a cycle has come. -/
structure Progress (σ : Type) where
  state : σ
  /-- whether the deadline has passed -/
  expired : Bool
  /-- the rules that were replaced or whose award failed -/
  settled : List String
  awarded : List String
  retracted : List String
  outcomes : List Outcome
  /-- the failures of actions, by rule -/
  actionErrors : List (String × Failure)
  passes : Nat
  happenings : List Happening

namespace Progress

variable {σ : Type}

/-- A cycle that has not begun. -/
def start (state : σ) (expired : Bool) : Progress σ :=
  ⟨state, expired, [], [], [], [], [], 0, []⟩

/-- Note happenings. -/
def note (progress : Progress σ) (happenings : List Happening) : Progress σ :=
  { progress with happenings := progress.happenings ++ happenings }

/-- The last error of each rule, in the order in which rules first failed. -/
def errors (progress : Progress σ) : List (String × Diagnosis) :=
  progress.outcomes.foldl (fun errors outcome =>
    match outcome.error with
    | some error => putLast errors outcome.rule error
    | none => errors) []
where
  putLast (errors : List (String × Diagnosis)) (rule : String) (error : Diagnosis) :
      List (String × Diagnosis) :=
    match errors with
    | [] => [(rule, error)]
    | (other, existing) :: rest =>
      if other = rule then (other, error) :: rest
      else (other, existing) :: putLast rest rule error

/-- The rules that timed out. -/
def timedOut (progress : Progress σ) : List String :=
  (progress.outcomes.filter (·.timedOut)).map (·.rule)

/-- Note the failure of the actions of a rule; the last one counts. -/
def noteActionError (errors : List (String × Failure)) (rule : String) (failure : Failure) :
    List (String × Failure) :=
  match errors with
  | [] => [(rule, failure)]
  | (other, existing) :: rest =>
    if other = rule then (other, failure) :: rest
    else (other, existing) :: noteActionError rest rule failure

end Progress

namespace Engine

variable {σ : Type}

/-- Check rules one after the other on the collaborators. -/
def judgeAll (engine : Engine) (lookup : Lookup σ) (context : Context) :
    List Rule → σ → List (Rule × Verdict) × σ
  | [], state => ([], state)
  | rule :: rest, state =>
    let (verdict, state) := rule.judge lookup engine.retry context state
    let (verdicts, state) := judgeAll engine lookup context rest state
    ((rule, verdict) :: verdicts, state)

/-- The outcomes that verdicts amount to and the rules that timed out, up to the first
failure that escapes a check. -/
def collect : List (Rule × Verdict) → Option Failure × List (Rule × Outcome) × List Happening
  | [] => (none, [], [])
  | (rule, .judged outcome) :: rest =>
    let (escaped, outcomes, happenings) := collect rest
    (escaped, (rule, outcome) :: outcomes, happenings)
  | (rule, .hung) :: rest =>
    let (escaped, outcomes, happenings) := collect rest
    (escaped, (rule, .late rule.name) :: outcomes, .timedOut rule.name :: happenings)
  | (_, .escaped failure) :: _ => (some failure, [], [])

/-- Whether some check hung. -/
def someHung (verdicts : List (Rule × Verdict)) : Bool :=
  verdicts.any fun (_, verdict) => match verdict with
    | .hung => true
    | _ => false

/-- The scope within which a rule is retracted: that of the rule itself if it is in force,
else that of the rule replacing it. -/
def retractionScope (engine : Engine) (rule : Rule) (target : String) : List String :=
  ((engine.catalogue.find? target).map (·.scope)).getD rule.scope

/-- The scope values of each retraction that awarding a rule brings about. -/
def retractions (engine : Engine) (context : Context) (rule : Rule) :
    List String → Except Failure (List (String × Entries))
  | [] => .ok []
  | target :: rest => do
    let values ← (context.forScope (engine.retractionScope rule target)).scopeValues
    let others ← retractions engine context rule rest
    return (target, values) :: others

/-- The scope values of all writes that awarding a rule brings about. -/
def writes (engine : Engine) (context : Context) (rule : Rule) :
    Except Failure (Entries × List (String × Entries)) := do
  let values ← (context.forScope rule.scope).scopeValues
  let others ← engine.retractions context rule rule.replaces
  return (values, others)

/-- Retract replaced rules one after the other, up to the first failure. -/
def retractEach (collaborators : Collaborators σ) (context : Context) (rule : Rule) :
    List (String × Entries) → Progress σ → Option Failure × Progress σ
  | [], progress => (none, progress)
  | (target, values) :: rest, progress =>
    match collaborators.retractAward context.subject target values progress.state with
    | (.error failure, state) => (some failure, { progress with state := state })
    | (.ok _, state) =>
      retractEach collaborators context rule rest
        { progress with
          state := state
          retracted := progress.retracted ++ [target]
          happenings := progress.happenings ++ [.replaced target rule.name] }

/-- Run the actions of an awarded rule, if it has any and there is somebody to run them. -/
def runActions (collaborators : Collaborators σ) (context : Context) (rule : Rule)
    (progress : Progress σ) : Progress σ :=
  match rule.actions, collaborators.invoke with
  | _ :: _, some invoke =>
    match invoke rule.actions (context.forScope rule.scope) progress.state with
    | (.ok _, state) => { progress with state := state }
    | (.error failure, state) =>
      { progress with
        state := state
        actionErrors := Progress.noteActionError progress.actionErrors rule.name failure
        happenings := progress.happenings ++ [.actionsFailed rule.name failure] }
  | _, _ => progress

/-- Award a rule: all scopes are resolved before the first write. -/
def award (engine : Engine) (collaborators : Collaborators σ) (context : Context) (rule : Rule)
    (progress : Progress σ) : Option Failure × Progress σ :=
  match engine.writes context rule with
  | .error failure => (some failure, progress)
  | .ok (values, retractions) =>
    match collaborators.recordAward context.subject rule.name values progress.state with
    | (.error failure, state) => (some failure, { progress with state := state })
    | (.ok fact, state) =>
      let progress := { progress with
        state := state
        awarded := progress.awarded ++ [rule.name]
        happenings := progress.happenings ++ [.awarded rule.name fact.amount rule.maxAwarded] }
      match retractEach collaborators context rule retractions progress with
      | (some failure, progress) => (some failure, progress)
      | (none, progress) => (none, runActions collaborators context rule progress)

/-- The diagnosis of an award that failed; a foreign failure becomes one of the award store. -/
def awardDiagnosis (rule : String) (failure : Failure) : Diagnosis :=
  failure.diagnosis?.getD
    (.query FactKind.achievement.store failure.message [("rule", .text rule)])

/-- Try to award a rule. An award that fails settles the rule, one that goes through
settles the rules replaced. -/
def attempt (engine : Engine) (collaborators : Collaborators σ) (context : Context)
    (rule : Rule) (progress : Progress σ) : Option Diagnosis × Progress σ :=
  match award engine collaborators context rule progress with
  | (some failure, progress) =>
    let error := awardDiagnosis rule.name failure
    (some error,
      { progress with
        settled := progress.settled ++ [rule.name]
        happenings := progress.happenings ++ [.awardFailed rule.name error] })
  | (none, progress) => (none, { progress with settled := progress.settled ++ rule.replaces })

/-- Award the rules of a pass in order, passing over those not to be awarded and those
settled in the meantime. The outcomes come back with the errors of failed awards, beside
the number of awards that went through. -/
def awardEach (engine : Engine) (collaborators : Collaborators σ) (context : Context) :
    List (Rule × Outcome) → Progress σ → List Outcome × Nat × Progress σ
  | [], progress => ([], 0, progress)
  | (rule, outcome) :: rest, progress =>
    if !outcome.shouldAward || progress.settled.contains rule.name then
      let (outcomes, count, progress) := awardEach engine collaborators context rest progress
      (outcome :: outcomes, count, progress)
    else
      match attempt engine collaborators context rule progress with
      | (some error, progress) =>
        let (outcomes, count, progress) := awardEach engine collaborators context rest progress
        ({ outcome with error := some error } :: outcomes, count, progress)
      | (none, progress) =>
        let (outcomes, count, progress) := awardEach engine collaborators context rest progress
        (outcome :: outcomes, count + 1, progress)

/-- The candidates that are not settled. -/
def eligible (candidates : List Rule) (progress : Progress σ) : List Rule :=
  candidates.filter fun rule => !progress.settled.contains rule.name

/-- Check the candidates that are not settled, all on the same facts. Beside the outcomes
stands the failure that escaped a check, if one did. -/
def checks (engine : Engine) (collaborators : Collaborators σ) (context : Context)
    (candidates : List Rule) (progress : Progress σ) :
    Option Failure × List (Rule × Outcome) × Progress σ :=
  let (verdicts, state) :=
    engine.judgeAll collaborators.lookup context (eligible candidates progress) progress.state
  let (escaped, outcomes, late) := collect verdicts
  (escaped, outcomes,
    { progress with
      state := state
      passes := progress.passes + 1
      expired := progress.expired || someHung verdicts
      happenings := progress.happenings ++
        verdicts.flatMap (fun (_, verdict) => verdict.happenings) ++ late })

/-- One pass: check, then award. It gives the number of awards, or the failure that
escaped a check. -/
def pass (engine : Engine) (collaborators : Collaborators σ) (context : Context)
    (candidates : List Rule) (progress : Progress σ) : Except Failure Nat × Progress σ :=
  match engine.checks collaborators context candidates progress with
  | (some failure, _, progress) => (.error failure, progress)
  | (none, outcomes, progress) =>
    let (outcomes, count, progress) :=
      engine.awardEach collaborators context outcomes progress
    (.ok count, { progress with outcomes := progress.outcomes ++ outcomes })

/-- Passes until one awards nothing or a limit is reached. -/
def passes (engine : Engine) (collaborators : Collaborators σ) (context : Context)
    (candidates : List Rule) : Nat → Progress σ → Option Failure × Progress σ
  | 0, progress => (none, progress.note [.passLimitReached engine.maxPasses])
  | left + 1, progress =>
    if progress.expired then (none, progress.note [.deadlineReached])
    else
      match engine.pass collaborators context candidates progress with
      | (.error failure, progress) => (some failure, progress)
      | (.ok 0, progress) => (none, progress)
      | (.ok _, progress) => passes engine collaborators context candidates left progress

/-- Whether the deadline has passed before the first pass. There is no clock here: time passes
only while a check hangs. So a negative limit has passed from the start, and any other limit
passes only when a check never returns. -/
def startsExpired (engine : Engine) : Bool :=
  match engine.timeLimit with
  | some limit => limit.less .zero
  | none => false

/-- The completion of a cycle that no failure left. -/
def completion (progress : Progress σ) : Happening :=
  .completed progress.awarded progress.retracted progress.passes
    ((progress.errors.map Prod.fst).mergeSort fun a b => decide (a ≤ b))

/-- Run the candidates for the subject of a context. A failure that escapes a check ends
the cycle; what was done until then stays done. -/
def process (engine : Engine) (collaborators : Collaborators σ) (context : Context)
    (candidates : List Rule) (state : σ) : Option Failure × Progress σ :=
  match engine.passes collaborators context candidates engine.maxPasses
      (Progress.start state engine.startsExpired) with
  | (some failure, progress) => (some failure, progress.note [.timed])
  | (none, progress) => (none, progress.note [.timed, completion progress])

end Engine

end Accolade
