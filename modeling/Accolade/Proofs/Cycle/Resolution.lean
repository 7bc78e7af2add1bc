import Accolade.Proofs.Cycle.Passes
import Accolade.Proofs.Cycle.Posted
import Accolade.Proofs.Cycle.Settled
import Accolade.Proofs.Cycle.WriteScopes

/-!
# Resolving scopes before the first write

An award writes for its rule and for each rule that it replaces, each within a scope of its own. If
one of these scopes does not resolve, wherever the rule stands among those replaced, nothing at all
is written: the award is given up, its outcome takes an error of the configuration, and its rule is
neither checked nor tried again in the cycle. If all of them resolve, then over quiet stores the
award writer is asked for the award and then for the retractions, in the order of the replaced
rules.

Here cycles are followed step by step, with the postings kept beside the stores. Whether an action
was run is seen in the stores, which keep all invocations.
-/

namespace Accolade

/-- Whether a run is about to try to award a rule, with these outcomes left for later. -/
structure Run.Tries {σ : Type} (run : Run σ) (rule : Rule) (outcome : Outcome)
    (rest : List (Rule × Outcome)) : Prop where
  listed : run.items = (rule, outcome) :: rest
  chosen : outcome.shouldAward = true
  unsettled : rule.name ∉ run.progress.settled

/-- Whether a posting retracts the awards of a rule in force, with the values of its own scope. -/
inductive Posting.Retracts (catalogue : Catalogue) (context : Context) : String → Posting → Prop
  | own {held : Rule} {values : Entries} (inForce : held ∈ catalogue.rules)
      (resolved : (context.forScope held.scope).scopeValues = .ok values) :
      Retracts catalogue context held.name (.retraction context.subject held.name values)

namespace CycleRequest

/-- A cycle over stores after so many steps, with the postings kept. -/
def postedRun (request : CycleRequest) (runs : Bool) (stores : Stores) (steps : Nat) :
    Run (Stores × List Posting) :=
  request.advance (Stores.collaborators runs).posted steps (request.start (stores, []))

/-- What such a cycle comes to. -/
def postedCycle (request : CycleRequest) (runs : Bool) (stores : Stores) :
    Option Failure × Progress (Stores × List Posting) :=
  request.engine.process (Stores.collaborators runs).posted request.context request.candidates
    (stores, [])

/-- Whether a cycle gives a rule up at a step. The step leaves the stores, asks for no posting and
reports neither an award nor a retraction. In the end there is no award of the rule either, and
nothing was replaced by it; the outcome has an error of the configuration, and later passes have
none of the rule. At no other step is the rule tried, and after this one it is checked no more. -/
structure GivesUp (request : CycleRequest) (runs : Bool) (stores : Stores) (steps : Nat)
    (rule : Rule) (outcome : Outcome) (rest : List (Rule × Outcome)) : Prop where
  state : (request.postedRun runs stores (steps + 1)).progress.state =
    (request.postedRun runs stores steps).progress.state
  awarded : (request.postedRun runs stores (steps + 1)).progress.awarded =
    (request.postedRun runs stores steps).progress.awarded
  retracted : (request.postedRun runs stores (steps + 1)).progress.retracted =
    (request.postedRun runs stores steps).progress.retracted
  unawarded : (request.postedCycle runs stores).2.Unawarded rule.name
  failed : ∃ error : Diagnosis, error.category = .configuration ∧ outcome.rule = rule.name ∧
    ∃ before others later, (request.postedCycle runs stores).2.outcomes =
        before ++ { outcome with error := some error } :: (others ++ later) ∧
      others.length = rest.length ∧ ∀ told ∈ later, told.rule ≠ rule.name
  once : ∀ other outcomeToo restToo,
    (request.postedRun runs stores other).Tries rule outcomeToo restToo → other = steps
  unchecked : ∀ later, steps < later →
    rule ∉ Engine.eligible request.candidates (request.postedRun runs stores later).progress

/-- Whether a cycle writes for a rule at a step. It asks for the award with the scope values of the
rule, then for the retractions of the replaced rules in order, each with its own, and reports
them. -/
structure Writes (request : CycleRequest) (runs : Bool) (stores : Stores) (steps : Nat)
    (rule : Rule) : Prop where
  posted : ∃ values retractions,
    (request.context.forScope rule.scope).scopeValues = .ok values ∧
    List.Forall₂ (Posting.Retracts request.engine.catalogue request.context) rule.replaces
      retractions ∧
    (request.postedRun runs stores (steps + 1)).progress.state.2 =
      (request.postedRun runs stores steps).progress.state.2 ++
        .award request.context.subject rule.name values :: retractions
  awarded : (request.postedRun runs stores (steps + 1)).progress.awarded =
    (request.postedRun runs stores steps).progress.awarded ++ [rule.name]
  retracted : (request.postedRun runs stores (steps + 1)).progress.retracted =
    (request.postedRun runs stores steps).progress.retracted ++ rule.replaces

section Steps

variable {σ : Type} {collaborators : Collaborators σ} {request : CycleRequest} {run : Run σ}
  {rule : Rule} {outcome : Outcome} {rest : List (Rule × Outcome)}

/-- One more step of a cycle is a step after the others. -/
theorem advance_succ (steps : Nat) (run : Run σ) :
    request.advance collaborators (steps + 1) run =
      request.step collaborators (request.advance collaborators steps run) :=
  advance_add steps 1 run

/-- A rule that is about to be tried is, and if that fails its outcome takes the error. -/
theorem step_of_tries (tries : run.Tries rule outcome rest) :
    let attempted :=
      request.engine.attempt collaborators request.context rule run.progress
    ∃ left dealt count,
      request.step collaborators run = ⟨.awarding left rest dealt count, attempted.2⟩ ∧
      ∀ error, attempted.1 = some error →
        ∃ before, dealt = before ++ [{ outcome with error := some error }] := by
  obtain ⟨phase, progress⟩ := run
  obtain ⟨listed, chosen, unsettled⟩ := tries
  cases phase with
  | checking => contradiction
  | ended => contradiction
  | awarding left items dealt count =>
    obtain rfl : items = (rule, outcome) :: rest := listed
    have goes : (!outcome.shouldAward || progress.settled.contains rule.name) = false := by
      simpa [chosen] using unsettled
    simp only [step, goes, Bool.false_eq_true, if_false]
    cases request.engine.attempt collaborators request.context rule progress with
    | mk error later =>
      cases error with
      | none => exact ⟨left, _, _, rfl, by simp⟩
      | some error =>
        refine ⟨left, _, _, rfl, fun other same => ⟨dealt, ?_⟩⟩
        rw [Option.some.inj same]

end Steps

section Runs

variable {request : CycleRequest} (runs : Bool)
  (texts : AreTexts (Entries.keys request.context.attributes))

/-- Whether the stores of a run are quiet, and the outcomes that are still to be dealt with are of
candidates and have a scope that resolves if they are to be awarded. -/
structure IsReady (request : CycleRequest) (run : Run (Stores × List Posting)) : Prop where
  quiet : run.progress.state.1.IsQuiet
  items : ∀ item ∈ run.items, item.1 ∈ request.candidates ∧ item.2.rule = item.1.name ∧
    (item.2.shouldAward = true → (request.context.forScope item.1.scope).Resolves)

include texts in
/-- A run that is ready stays so with every step: its stores stay quiet, and its items are outcomes
of candidates. -/
theorem step_isReady {run : Run (Stores × List Posting)} (ready : request.IsReady run) :
    request.IsReady (request.step (Stores.collaborators runs).posted run) := by
  obtain ⟨⟨notes, _, counted⟩, items⟩ := @Engine.checks_posted request.engine
    request.context runs request.candidates texts run.progress ready.quiet
  cases step_cases (Stores.collaborators runs).posted request run with
  | idle same fewer =>
    exact ⟨same ▸ ready.quiet, fun item inside => ready.items item (fewer.subset inside)⟩
  | escaped none state =>
    rw [counted] at state
    exact ⟨state ▸ ready.quiet, by simp [none]⟩
  | checked _ found state =>
    rw [counted] at state
    exact ⟨state ▸ ready.quiet, fun item inside => items item (found ▸ inside)⟩
  | attempted rule outcome listed _ _ state =>
    obtain ⟨error, later, tried, posts⟩ := Engine.attempt_posts runs ready.quiet texts rule
    rw [tried] at state
    exact ⟨state ▸ posts.isQuiet ready.quiet, fun item inside =>
      ready.items item (listed ▸ List.mem_cons_of_mem _ inside)⟩

include texts in
/-- A cycle that begins on quiet stores is ready at every step. -/
theorem postedRun_isReady {stores : Stores} (quiet : stores.IsQuiet) (steps : Nat) :
    request.IsReady (request.postedRun runs stores steps) := by
  induction steps with
  | zero => exact ⟨quiet, by simp [postedRun, advance, start, Run.items]⟩
  | succ steps inductionHypothesis =>
    rw [postedRun, advance_succ]
    exact step_isReady runs texts inductionHypothesis

include texts in
/-- A rule that is tried and whose writes do not resolve is settled with an error of the
configuration, and nothing else comes of it. -/
theorem step_refused {run : Run (Stores × List Posting)} {rule : Rule} {outcome : Outcome}
    {rest : List (Rule × Outcome)} (ready : request.IsReady run)
    (tries : run.Tries rule outcome rest)
    (unresolved : ¬ request.engine.WritesResolve request.context rule) :
    ∃ (error : Diagnosis) (left count : Nat) (before : List Outcome),
      error.category = .configuration ∧
      request.step (Stores.collaborators runs).posted run =
        ⟨.awarding left rest (before ++ [{ outcome with error := some error }]) count,
          { run.progress with
            settled := run.progress.settled ++ [rule.name]
            happenings := run.progress.happenings ++ [.awardFailed rule.name error] }⟩ := by
  obtain ⟨_, _, tried, posts⟩ := @Engine.attempt_posts request.engine request.context runs
    run.progress ready.quiet texts rule
  obtain ⟨left, dealt, count, next, failing⟩ :=
    @step_of_tries _ (Stores.collaborators runs).posted _ _ _ _ _ tries
  rw [tried] at next failing
  cases posts with
  | posted resolved => exact absurd resolved unresolved
  | refused _ error category =>
    obtain ⟨before, rfl⟩ := failing error rfl
    exact ⟨error, left, count, before, category, next⟩

section GivingUp

variable {stores : Stores} (quiet : stores.IsQuiet) {rule : Rule}
  (unresolved : ¬ request.engine.WritesResolve request.context rule)
include texts quiet unresolved

/-- From the step on that tries a rule whose writes do not resolve, the rule is settled. -/
theorem postedRun_settled {steps : Nat} {outcome : Outcome} {rest : List (Rule × Outcome)}
    (tries : (request.postedRun runs stores steps).Tries rule outcome rest) {later : Nat}
    (behind : steps < later) :
    rule.name ∈ (request.postedRun runs stores later).progress.settled := by
  obtain ⟨more, rfl⟩ := Nat.exists_eq_add_of_le behind
  obtain ⟨error, _, _, _, _, next⟩ := step_refused runs texts
    (postedRun_isReady runs texts quiet steps) tries unresolved
  have fresh : rule.name ∈ (request.postedRun runs stores (steps + 1)).progress.settled := by
    rw [postedRun, advance_succ, ← postedRun, next]
    exact List.mem_append_right _ List.mem_cons_self
  rw [postedRun, advance_add]
  exact advance_settled more fresh

/-- A cycle that tries a rule whose writes do not resolve gives the rule up: no call is made for it,
the configuration error is reported, and the rule is not tried again. -/
theorem tries_givesUp (distinct : request.engine.catalogue.names.Nodup)
    (known : ∀ rule ∈ request.candidates, rule ∈ request.engine.catalogue.rules) {steps : Nat}
    {outcome : Outcome} {rest : List (Rule × Outcome)}
    (tries : (request.postedRun runs stores steps).Tries rule outcome rest) :
    request.GivesUp runs stores steps rule outcome rest := by
  have ready := @postedRun_isReady request runs texts stores quiet steps
  obtain ⟨listed, named, _⟩ := ready.items (rule, outcome) (tries.listed ▸ List.mem_cons_self)
  obtain ⟨error, left, count, before, category, next⟩ :=
    step_refused runs texts ready tries unresolved
  have moved : request.postedRun runs stores (steps + 1) = _ :=
    (advance_succ steps _).trans next
  have settled : ∀ early outcome rest, (request.postedRun runs stores early).Tries rule outcome
      rest → ∀ later, early < later →
      rule.name ∈ (request.postedRun runs stores later).progress.settled :=
    fun _ _ _ tried _ => postedRun_settled runs texts quiet unresolved tried
  refine ⟨by rw [moved], by rw [moved], by rw [moved], ?_, ⟨error, category, named, ?_⟩, ?_, ?_⟩
  · exact Engine.process_unawarded runs distinct known (known rule listed) unresolved texts quiet
  · -- The rest of the cycle goes on from the step with the rule settled.
    have fresh := moved ▸ settled _ _ _ tries _ (Nat.lt_succ_self steps)
    obtain ⟨escaped, last, others, later, ends, told, length, unlike⟩ := awarding_ends fresh rest
    have reached : request.Reaches (Stores.collaborators runs).posted
        (request.start (stores, [])) ⟨.ended escaped, last⟩ := Reaches.trans ⟨_, moved⟩ ends
    obtain ⟨happenings, whole⟩ := process_of_ended reached
    refine ⟨(request.postedRun runs stores steps).progress.outcomes ++ before, others, later, ?_,
      length, unlike⟩
    rw [postedCycle, whole]
    simpa [Progress.note] using told
  · -- An earlier attempt would have settled the rule, and this one has.
    intro other outcome rest triesToo
    rcases Nat.lt_trichotomy other steps with before | same | behind
    · exact absurd (settled _ _ _ triesToo _ before) tries.unsettled
    · exact same
    · exact absurd (settled _ _ _ tries _ behind) triesToo.unsettled
  · intro later behind
    simp [Engine.eligible, settled _ _ _ tries _ behind]

end GivingUp

include texts in
/-- A rule that is tried and whose writes resolve is written for. -/
theorem tries_writes (wellFormed : request.engine.catalogue.IsWellFormed) {stores : Stores}
    (quiet : stores.IsQuiet) {rule : Rule} (member : rule ∈ request.engine.catalogue.rules)
    (resolved : request.engine.WritesResolve request.context rule) {steps : Nat}
    {outcome : Outcome} {rest : List (Rule × Outcome)}
    (tries : (request.postedRun runs stores steps).Tries rule outcome rest) :
    request.Writes runs stores steps rule := by
  obtain ⟨error, later, tried, posts⟩ := @Engine.attempt_posts request.engine request.context runs
    _ (postedRun_isReady runs texts quiet steps).quiet texts rule
  obtain ⟨_, _, _, next, _⟩ :=
    @step_of_tries _ (Stores.collaborators runs).posted _ _ _ _ _ tries
  rw [tried] at next
  have moved : request.postedRun runs stores (steps + 1) = _ :=
    (advance_succ steps _).trans next
  cases posts with
  | refused unresolved => exact absurd resolved unresolved
  | posted _ _ _ amount =>
    refine ⟨⟨_, _, Context.scopeValues_of_resolves resolved.1, ?_, by rw [moved]; rfl⟩,
      by rw [moved], by rw [moved]⟩
    rw [Engine.boundRetractions, List.map_map, List.forall₂_map_right_iff, List.forall₂_same]
    intro target replaced
    obtain ⟨held, inForce, rfl, _, own⟩ :=
      Engine.retractionScope_replaced wellFormed member replaced
    have resolves := resolved.2 held.name replaced
    simp only [Function.comp_apply]
    rw [own] at resolves ⊢
    exact .own inForce (Context.scopeValues_of_resolves resolves)

end Runs

end CycleRequest

/-- A document with a badge for anybody and one for each team, and two rules that replace badges. -/
def badgeDocument : Value :=
  .mapping [(.text "achievements", .mapping [
    (.text "Team", .mapping [(.text "scope", .list [.text "user_id", .text "team_id"]),
      (.text "requirements", .list [.mapping [(.text "event", .text "Never")]])]),
    (.text "Badge", .mapping []),
    (.text "Captain", .mapping [(.text "replaces", .list [.text "Badge", .text "Team"])]),
    (.text "Star", .mapping [(.text "replaces", .list [.text "Badge"])])])]

/-- The rule that replaces both badges. -/
def captainRule : Rule := ⟨"Captain", .allOf [], ["Badge", "Team"], 1, ["user_id"], [], false⟩

/-- The rule that replaces the badge for anybody. -/
def starRule : Rule := ⟨"Star", .allOf [], ["Badge"], 1, ["user_id"], [], false⟩

/-- The catalogue of these rules. -/
def badgeCatalogue : Catalogue :=
  ⟨[⟨"Team", .allOf [.event "Never" (.atLeast 1) none], [], 1, ["user_id", "team_id"], [], false⟩,
    ⟨"Badge", .allOf [], [], 1, ["user_id"], [], false⟩, captainRule, starRule]⟩

/-- A cycle for the second subject, who is in no team. -/
def badgeRequest : CycleRequest :=
  ⟨⟨badgeCatalogue, 10, none, none⟩, .of (.integer 2) [] defaultScope, badgeCatalogue.rules⟩

namespace CycleRequest

end CycleRequest

end Accolade
