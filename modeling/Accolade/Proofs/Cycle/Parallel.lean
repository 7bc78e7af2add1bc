import Accolade.Proofs.Cycle.Related
import Accolade.Proofs.Fact.Parts
import Accolade.Proofs.Fact.Stores

/-!
# Two cycles side by side

Two runs of the same cycle may start from different states. If in related states every step
comes to the same, the whole cycle does: its progress is the same in all but the state, and the
states stay related. The steps are the checks of rules, the award and the retractions of a rule
that is tried, and the run of its actions. Of an award only the amount written is told.

A check comes to the same in two states that lookups leave alone, if each query of the scope of
the rule finds the same facts in both, up to their identifiers. Evaluation never looks at these.
-/

namespace Accolade

variable {σ : Type}

/-- Two states that no lookup changes and in which each query of a context finds the same facts,
up to their identifiers. -/
structure Lookup.FindsAlike (lookup : Lookup σ) (context : Context) (first second : σ) : Prop where
  still : lookup.IsStill first
  stillToo : lookup.IsStill second
  same : ∀ kind name query, context.queryFor name = .ok query →
    ∃ found other, (lookup kind query first).1 = .answer found ∧
      (lookup kind query second).1 = .answer other ∧
      found.map Fact.anonymous = other.map Fact.anonymous

/-- Stores without planned faults find alike what their ledgers do. -/
theorem Stores.findsAlike {context : Context} {first second : Stores}
    (faultless : first.faults = []) (faultlessToo : second.faults = [])
    (same : ∀ kind name,
      ((first.ledger kind).find (Ledger.queryOf (.text name) context.boundValues)).map
          Fact.anonymous =
        ((second.ledger kind).find (Ledger.queryOf (.text name) context.boundValues)).map
          Fact.anonymous) :
    Stores.lookup.FindsAlike context first second where
  still kind query := by rw [Stores.lookup_of_faultless faultless]
  stillToo kind query := by rw [Stores.lookup_of_faultless faultlessToo]
  same kind name query formed := by
    obtain rfl := Context.eq_of_queryFor formed
    exact ⟨_, _, by rw [Stores.lookup_of_faultless faultless],
      by rw [Stores.lookup_of_faultless faultlessToo], same kind name⟩

namespace Requirement

/-- Whether the only record passes a test does not depend on its identifier. -/
theorem holdsOnOnly_anonymous (kind : FactKind) (query : Entries) (test : AmountTest)
    (found : List Fact) :
    holdsOnOnly kind query test (found.map Fact.anonymous) = holdsOnOnly kind query test found := by
  match found with
  | [] => rfl
  | [_] => rfl
  | _ :: _ :: _ => simp [holdsOnOnly]

/-- How many events match does not depend on their identifiers. -/
theorem matchingEvents_anonymous (conditions : Option Condition) (events : List Fact) :
    matchingEvents conditions (events.map Fact.anonymous) = matchingEvents conditions events := by
  cases conditions with
  | none => simp [matchingEvents]
  | some condition => simp [matchingEvents, List.filter_map, Function.comp_def]

section Alike

variable {lookup : Lookup σ} {context : Context} {first second : σ}
  (alike : lookup.FindsAlike context first second)
include alike

/-- The facts of a leaf are found alike in both states, up to their identifiers, and neither state
changes. -/
theorem facts_alike (kind : FactKind) {name : String} {query : Entries}
    (formed : context.queryFor name = .ok query) :
    ∃ found other, facts lookup kind query first = (.answer found, first) ∧
      facts lookup kind query second = (.answer other, second) ∧
      found.map Fact.anonymous = other.map Fact.anonymous := by
  obtain ⟨found, other, told, toldToo, same⟩ := alike.same kind name query formed
  have here : lookup kind query first = (.answer found, first) :=
    Prod.ext told (alike.still kind query)
  have there : lookup kind query second = (.answer other, second) :=
    Prod.ext toldToo (alike.stillToo kind query)
  exact ⟨found, other, by simp only [facts, here], by simp only [facts, there], same⟩

/-- A leaf replies the same if its judge does not look at identifiers. -/
theorem evaluateLeaf_alike (kind : FactKind) (name : String)
    {judge : Entries → List Fact → Reply Bool}
    (blind : ∀ query found, judge query (found.map Fact.anonymous) = judge query found) :
    (evaluateLeaf lookup context kind name judge second).1 =
      (evaluateLeaf lookup context kind name judge first).1 := by
  unfold evaluateLeaf
  cases formed : context.queryFor name with
  | error failure => rfl
  | ok query =>
    obtain ⟨found, other, here, there, same⟩ := facts_alike alike kind formed
    simp only [here, there]
    rw [← blind query other, ← same, blind query found]

/-- A requirement is answered the same in both states, since no leaf reads an identifier. -/
theorem evaluate_alike (requirement : Requirement) :
    (requirement.evaluate lookup context second).1 =
      (requirement.evaluate lookup context first).1 := by
  have replies : requirement.RepliesAlike lookup lookup context context
      fun one two => one = second ∧ two = first := by
    refine repliesAlike_of_leaves requirement fun leaf member one two ⟨here, there⟩ => ?_
    subst here there
    refine ⟨?_, evaluate_still alike.stillToo context leaf, evaluate_still alike.still context leaf⟩
    have known := leaves_isLeaf requirement leaf member
    cases leaf with
    | achievement name test =>
      exact evaluateLeaf_alike alike .achievement name
        fun query found => holdsOnOnly_anonymous .achievement query test found
    | experience name test =>
      exact evaluateLeaf_alike alike .experience name
        fun query found => holdsOnOnly_anonymous .experience query test found
    | event name test conditions =>
      exact evaluateLeaf_alike alike .event name
        fun _ found => by rw [holdsOnEvents, holdsOnEvents, matchingEvents_anonymous]
    | _ => contradiction
  exact (replies second first ⟨rfl, rfl⟩).1

end Alike

end Requirement

/-- The amount awarded to a rule is the same in states that lookups find alike. -/
theorem awardedAmount_alike {lookup : Lookup σ} {context : Context} {first second : σ}
    (alike : lookup.FindsAlike context first second) (name : String) :
    (awardedAmount lookup context name second).1 = (awardedAmount lookup context name first).1 := by
  unfold awardedAmount
  cases formed : context.queryFor name with
  | error failure => rfl
  | ok query =>
    obtain ⟨found, other, here, there, same⟩ := Requirement.facts_alike alike .achievement formed
    have amounts : found.map (·.amount) = other.map (·.amount) := by
      have read := congrArg (List.map (·.amount)) same
      simpa [Function.comp_def] using read
    simp only [here, there, amounts]
    cases totalAmount (other.map (·.amount)) <;> rfl

namespace Rule

/-- A rule is checked the same in states that lookups within its scope find alike. -/
theorem check_alike {lookup : Lookup σ} {context : Context} {rule : Rule} {first second : σ}
    (alike : lookup.FindsAlike (context.forScope rule.scope) first second) :
    (rule.check lookup context second).1 = (rule.check lookup context first).1 := by
  have fulfilled : (rule.isFulfilled lookup context second).1 =
      (rule.isFulfilled lookup context first).1 :=
    Requirement.evaluate_alike alike rule.requirement
  have awardable : (rule.canBeAwarded lookup context second).1 =
      (rule.canBeAwarded lookup context first).1 :=
    canBeAwarded_congr (awardedAmount_alike alike rule.name)
  rw [check_eq alike.still, check_eq alike.stillToo, fulfilled, awardable]

end Rule

/-- On calm lookups a rule is judged the same in both states, which stay as they are. -/
theorem Rule.judge_alike {lookup : Lookup σ} {context : Context} {rule : Rule} {first second : σ}
    {R : σ → σ → Prop} (calm : lookup.IsCalm first) (calmToo : lookup.IsCalm second)
    (texts : AreTexts (Entries.keys context.attributes))
    (alike : lookup.FindsAlike (context.forScope rule.scope) first second)
    (policy : Option RetryPolicy) (related : R first second) :
    SameBeside R (rule.judge lookup policy context first)
      (rule.judge lookup policy context second) := by
  rw [judge_of_calm calm texts, judge_of_calm calmToo texts, check_alike alike]
  exact ⟨rfl, related⟩

/-- Whether two cycles have come equally far, in related states. -/
def Progress.Alike (R : σ → σ → Prop) (first second : Progress σ) : Prop :=
  ∃ state, R first.state state ∧ second = { first with state := state }

namespace Engine

/-- Whether in related states every step of a cycle over some candidates comes to the same and
leaves related states. -/
structure StepsAlike (engine : Engine) (collaborators : Collaborators σ) (context : Context)
    (candidates : List Rule) (R : σ → σ → Prop) : Prop where
  judged : ∀ rule ∈ candidates, ∀ first second, R first second →
    SameBeside R (rule.judge collaborators.lookup engine.retry context first)
      (rule.judge collaborators.lookup engine.retry context second)
  recorded : ∀ rule ∈ candidates, ∀ first second, R first second →
    ∃ outcome other later laterToo,
      collaborators.recordAward context.subject rule.name
        (context.forScope rule.scope).boundValues first = (outcome, later) ∧
      collaborators.recordAward context.subject rule.name
        (context.forScope rule.scope).boundValues second = (other, laterToo) ∧
      outcome.map (·.amount) = other.map (·.amount) ∧ R later laterToo
  retracted : ∀ rule ∈ candidates, ∀ target ∈ rule.replaces, ∀ first second, R first second →
    SameBeside R
      (collaborators.retractAward context.subject target
        (context.forScope (engine.retractionScope rule target)).boundValues first)
      (collaborators.retractAward context.subject target
        (context.forScope (engine.retractionScope rule target)).boundValues second)
  invoked : ∀ run, collaborators.invoke = some run → ∀ actions context first second,
    R first second → SameBeside R (run actions context first) (run actions context second)

namespace StepsAlike

variable {engine : Engine} {collaborators : Collaborators σ} {context : Context}
  {candidates : List Rule} {R : σ → σ → Prop} {rule : Rule} {first second : Progress σ}

/-- Retractions that come to the same one by one do so together, up to the first that fails. -/
theorem retractEach {retractions : List (String × Entries)}
    (each : ∀ entry ∈ retractions, ∀ first second, R first second →
      SameBeside R (collaborators.retractAward context.subject entry.1 entry.2 first)
        (collaborators.retractAward context.subject entry.1 entry.2 second))
    (alike : first.Alike R second) :
    SameBeside (Progress.Alike R) (retractEach collaborators context rule retractions first)
      (retractEach collaborators context rule retractions second) := by
  induction retractions generalizing first second with
  | nil => exact ⟨rfl, alike⟩
  | cons entry rest inductionHypothesis =>
    obtain ⟨target, values⟩ := entry
    obtain ⟨state, related, rfl⟩ := alike
    obtain ⟨here, further⟩ := List.forall_mem_cons.mp each
    obtain ⟨outcome, later, laterToo, called, calledToo, next⟩ :=
      (here first.state state related).spread
    simp only [Engine.retractEach, called, calledToo]
    cases outcome with
    | error failure => exact ⟨rfl, laterToo, next, rfl⟩
    | ok _ => exact inductionHypothesis further ⟨laterToo, next, rfl⟩

variable (steps : StepsAlike engine collaborators context candidates R)
include steps

/-- The actions of a rule come to the same in both cycles, failed or not. -/
theorem runActions (alike : first.Alike R second) :
    Progress.Alike R (runActions collaborators context rule first)
      (runActions collaborators context rule second) := by
  obtain ⟨state, related, rfl⟩ := alike
  unfold Engine.runActions
  split
  · rename_i present
    obtain ⟨outcome, later, laterToo, called, calledToo, next⟩ :=
      (steps.invoked _ present rule.actions (context.forScope rule.scope) first.state state
        related).spread
    simp only [called, calledToo]
    cases outcome with
    | error failure => exact ⟨laterToo, next, rfl⟩
    | ok _ => exact ⟨laterToo, next, rfl⟩
  · exact ⟨state, related, rfl⟩

/-- The award of a candidate comes to the same in both cycles, call by call.

Proof: the scopes of the writes depend on the rule and its context alone. The call that records
answers alike and reports equal amounts, so the retractions begin from progress that is alike, and
the actions as well. -/
theorem award (member : rule ∈ candidates) (alike : first.Alike R second) :
    SameBeside (Progress.Alike R) (award engine collaborators context rule first)
      (award engine collaborators context rule second) := by
  obtain ⟨state, related, rfl⟩ := alike
  unfold Engine.award
  cases resolving : engine.writes context rule with
  | error failure => exact ⟨rfl, state, related, rfl⟩
  | ok both =>
    obtain ⟨values, retractions⟩ := both
    obtain ⟨_, rfl, _, rfl⟩ := (writes_eq_ok_iff engine context rule _ _).mp resolving
    obtain ⟨outcome, other, later, laterToo, called, calledToo, same, next⟩ :=
      steps.recorded rule member first.state state related
    simp only [called, calledToo]
    match outcome, other, same with
    | .error failure, .error _, rfl => exact ⟨rfl, laterToo, next, rfl⟩
    | .ok fact, .ok written, same =>
      have amounts : written.amount = fact.amount := (Except.ok.inj same).symm
      have each : ∀ entry ∈ rule.replaces.map fun target =>
          (target, (context.forScope (engine.retractionScope rule target)).boundValues),
          ∀ first second, R first second →
            SameBeside R (collaborators.retractAward context.subject entry.1 entry.2 first)
              (collaborators.retractAward context.subject entry.1 entry.2 second) := by
        intro entry among
        obtain ⟨target, replaced, rfl⟩ := List.mem_map.mp among
        exact steps.retracted rule member target replaced
      have begun : Progress.Alike R
          { first with
            state := later
            awarded := first.awarded ++ [rule.name]
            happenings := first.happenings ++
              [.awarded rule.name fact.amount rule.maxAwarded] }
          { first with
            state := laterToo
            awarded := first.awarded ++ [rule.name]
            happenings := first.happenings ++
              [.awarded rule.name fact.amount rule.maxAwarded] } := ⟨laterToo, next, rfl⟩
      obtain ⟨broken, reached, reachedToo, made, madeToo, further⟩ :=
        (retractEach each begun : SameBeside _ (Engine.retractEach _ _ rule _ _) _).spread
      simp only [amounts, made, madeToo]
      cases broken with
      | some failure => exact ⟨rfl, further⟩
      | none => exact ⟨rfl, steps.runActions further⟩

/-- An attempt on a candidate comes to the same in both cycles, with the same error if there is one.
-/
theorem attempt (member : rule ∈ candidates) (alike : first.Alike R second) :
    SameBeside (Progress.Alike R) (attempt engine collaborators context rule first)
      (attempt engine collaborators context rule second) := by
  obtain ⟨broken, later, laterToo, made, madeToo, further⟩ := (steps.award member alike).spread
  obtain ⟨state, related, rfl⟩ := further
  simp only [Engine.attempt, made, madeToo]
  cases broken with
  | some failure => exact ⟨rfl, state, related, rfl⟩
  | none => exact ⟨rfl, state, related, rfl⟩

/-- The judgements on some of the candidates come to the same, and leave related states. -/
theorem judgeAll {rules : List Rule} (among : ∀ rule ∈ rules, rule ∈ candidates) {state other : σ}
    (related : R state other) :
    SameBeside R (engine.judgeAll collaborators.lookup context rules state)
      (engine.judgeAll collaborators.lookup context rules other) := by
  induction rules generalizing state other with
  | nil => exact ⟨rfl, related⟩
  | cons rule rest inductionHypothesis =>
    obtain ⟨member, restAmong⟩ := List.forall_mem_cons.mp among
    obtain ⟨verdict, later, laterToo, judged, judgedToo, next⟩ :=
      (steps.judged rule member state other related).spread
    obtain ⟨verdicts, ended⟩ := inductionHypothesis restAmong next
    simp only [Engine.judgeAll, judged, judgedToo]
    exact ⟨congrArg ((rule, verdict) :: ·) verdicts, ended⟩

/-- The checks of a pass come to the same in both cycles, and select the same outcomes. -/
theorem checks (alike : first.Alike R second) :
    SameBeside (SameBeside (Progress.Alike R))
      (engine.checks collaborators context candidates first)
      (engine.checks collaborators context candidates second) := by
  have among : ∀ rule ∈ eligible candidates first, rule ∈ candidates :=
    fun rule inside => (List.mem_filter.mp inside).1
  obtain ⟨state, related, rfl⟩ := alike
  have same : eligible candidates { first with state := state } = eligible candidates first := rfl
  obtain ⟨verdicts, later, laterToo, judged, judgedToo, next⟩ :=
    (steps.judgeAll among related).spread
  simp only [Engine.checks, same, judged, judgedToo]
  exact ⟨rfl, rfl, laterToo, next, rfl⟩

/-- Two cycles whose steps come to the same stay alike. -/
theorem staysRelated :
    engine.StaysRelated collaborators collaborators context candidates (Progress.Alike R) where
  settled := by
    rintro first _ ⟨state, _, rfl⟩
    rfl
  expired := by
    rintro first _ ⟨state, _, rfl⟩
    rfl
  completed := by
    rintro first _ ⟨state, _, rfl⟩
    rfl
  checked _ _ alike := steps.checks alike
  attempted _ member _ _ alike := steps.attempt member alike
  told := by
    rintro outcomes first _ ⟨state, related, rfl⟩
    exact ⟨state, related, rfl⟩
  noted := by
    rintro happenings first _ ⟨state, related, rfl⟩
    exact ⟨state, related, rfl⟩

/-- Each pass comes to the same in both cycles, and makes as many awards. -/
theorem pass (alike : first.Alike R second) :
    SameBeside (Progress.Alike R) (engine.pass collaborators context candidates first)
      (engine.pass collaborators context candidates second) :=
  steps.staysRelated.pass alike

/-- Whole cycles come to the same from related states. -/
theorem process {state other : σ} (related : R state other) :
    SameBeside (Progress.Alike R) (engine.process collaborators context candidates state)
      (engine.process collaborators context candidates other) :=
  steps.staysRelated.process ⟨other, related, rfl⟩

end StepsAlike

end Engine

end Accolade
