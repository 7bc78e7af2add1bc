import Accolade.Fact.Calls
import Accolade.Proofs.Cycle.Related

/-!
# Cycles under a projection of the state

Collaborators may keep more in their state than others that answer alike. If every call commutes
with the projection that forgets the rest, then a whole cycle does: it comes to the same, in the
projected state. Of actions it is enough that they leave the same projected state, since a cycle
reports their failure and does nothing else about it.

So tracing calls changes nothing about a cycle, and neither does the failure of actions, except
that it is reported.
-/

namespace Accolade

variable {σ τ : Type}

/-- Whether a lookup is another one under a projection of the state. -/
def Lookup.IsImage (project : τ → σ) (lookup : Lookup σ) (other : Lookup τ) : Prop :=
  ∀ kind query state,
    lookup kind query (project state) = Prod.map id project (other kind query state)

section Evaluation

variable {project : τ → σ} {lookup : Lookup σ} {other : Lookup τ}
  (image : lookup.IsImage project other)

include image in
/-- Lookups come to the same, in states that are one under the projection. -/
theorem lookup_sameBeside (kind : FactKind) (query : Entries) {first : σ} {second : τ}
    (related : first = project second) :
    SameBeside (fun first second => first = project second) (lookup kind query first)
      (other kind query second) := by
  rw [related, image kind query second]
  exact ⟨rfl, rfl⟩

include image in
/-- A requirement replies in the image of a state as it does in the state itself. -/
theorem Requirement.evaluate_image (context : Context) (requirement : Requirement) (state : τ) :
    requirement.evaluate lookup context (project state) =
      Prod.map id project (requirement.evaluate other context state) := by
  have alike : requirement.RepliesAlike lookup other context context
      fun first second => first = project second :=
    repliesAlike_of_names (fun _ => rfl)
      fun kind _ _ query _ _ _ related => lookup_sameBeside image kind query related
  obtain ⟨replied, kept⟩ := alike _ state rfl
  exact Prod.ext replied kept

include image in
/-- The amount awarded is told in the image of a state as it is in the state itself. -/
theorem awardedAmount_image (context : Context) (name : String) (state : τ) :
    awardedAmount lookup context name (project state) =
      Prod.map id project (awardedAmount other context name state) := by
  obtain ⟨told, kept⟩ := awardedAmount_sameBeside
    (fun query (_ : context.queryFor name = .ok query) =>
      lookup_sameBeside image .achievement query (rfl : project state = project state)) rfl
  exact Prod.ext told kept

include image in
/-- A rule is checked in the image of a state as it is in the state itself. -/
theorem Rule.check_image (context : Context) (rule : Rule) (state : τ) :
    rule.check lookup context (project state) =
      Prod.map id project (rule.check other context state) := by
  have compared : ∀ state : τ, rule.canBeAwarded lookup context (project state) =
      Prod.map id project (rule.canBeAwarded other context state) := by
    intro state
    unfold canBeAwarded
    rw [awardedAmount_image image]
    cases awardedAmount other (context.forScope rule.scope) rule.name state with
    | mk reply later =>
      cases reply with
      | answer total =>
        dsimp only [Prod.map, id]
        cases (AmountTest.mk .less rule.maxAwarded).holds total <;> rfl
      | _ => rfl
  have evaluated : rule.isFulfilled lookup context (project state) =
      Prod.map id project (rule.isFulfilled other context state) :=
    Requirement.evaluate_image image _ rule.requirement state
  unfold check
  rw [evaluated]
  cases rule.isFulfilled other context state with
  | mk reply later =>
    cases reply with
    | answer fulfilled =>
      cases fulfilled with
      | false => rfl
      | true =>
        dsimp only [Prod.map, id]
        rw [compared later]
        cases rule.canBeAwarded other context later with
        | mk reply last => cases reply <;> rfl
    | _ => rfl

/-- A call that comes to the same in the image of a state does so under retries as well. -/
theorem attemptFrom_image {α : Type} {policy : RetryPolicy} {draws : Nat → Draw}
    {isRetried : Failure → Bool} {call : σ → Reply α × σ} {callToo : τ → Reply α × τ}
    (called : ∀ state, call (project state) = Prod.map id project (callToo state))
    (left attempt : Nat) (state : τ) :
    attemptFrom policy draws isRetried call left attempt (project state) =
      Prod.map id project (attemptFrom policy draws isRetried callToo left attempt state) := by
  induction left generalizing attempt state with
  | zero =>
    unfold attemptFrom
    rw [called]
    cases callToo state with
    | mk reply later =>
      cases reply with
      | failed failure =>
        dsimp only [Prod.map, id]
        split <;> rfl
      | _ => rfl
  | succ left inductionHypothesis =>
    unfold attemptFrom
    rw [called]
    cases callToo state with
    | mk reply later =>
      cases reply with
      | failed failure =>
        dsimp only [Prod.map, id]
        split
        · cases policy.delay (draws attempt) attempt with
          | error failure => rfl
          | ok delay => simp only [inductionHypothesis]; rfl
        · rfl
      | _ => rfl

include image in
/-- A rule is judged in the image of a state as it is in the state itself, with the same retries. -/
theorem Rule.judge_image (policy : Option RetryPolicy) (context : Context) (rule : Rule)
    (state : τ) :
    rule.judge lookup policy context (project state) =
      Prod.map id project (rule.judge other policy context state) := by
  cases policy with
  | none =>
    simp only [judge, check_image image]
    rfl
  | some policy =>
    have retried : retry policy Draw.none Failure.isTransient (rule.check lookup context)
        (project state) = Prod.map id project
          (retry policy Draw.none Failure.isTransient (rule.check other context) state) :=
      attemptFrom_image (rule.check_image image context) _ _ state
    simp only [judge, retried]
    rfl

include image in
/-- All rules are judged alike in a state and in its image, and the states that are left are images
too. -/
theorem Engine.judgeAll_image (engine : Engine) (context : Context) (rules : List Rule)
    (state : τ) :
    engine.judgeAll lookup context rules (project state) =
      Prod.map id project (engine.judgeAll other context rules state) := by
  induction rules generalizing state with
  | nil => rfl
  | cons rule rest inductionHypothesis =>
    simp only [judgeAll, rule.judge_image image]
    dsimp only [Prod.map, id]
    simp only [inductionHypothesis]
    rfl

end Evaluation

/-- Whether collaborators are others under a projection of the state. Actions may fail differently,
as long as they do the same. -/
structure Collaborators.IsImage (project : τ → σ) (collaborators : Collaborators σ)
    (others : Collaborators τ) : Prop where
  lookup : collaborators.lookup.IsImage project others.lookup
  recordAward : ∀ subject rule scope state,
    collaborators.recordAward subject rule scope (project state) =
      Prod.map id project (others.recordAward subject rule scope state)
  retractAward : ∀ subject rule scope state,
    collaborators.retractAward subject rule scope (project state) =
      Prod.map id project (others.retractAward subject rule scope state)
  absent : others.invoke = none → collaborators.invoke = none
  invoke : ∀ runToo, others.invoke = some runToo → ∃ run, collaborators.invoke = some run ∧
    ∀ actions context state,
      (run actions context (project state)).2 = project (runToo actions context state).2

/-- Whether a cycle has come as far as another one under a projection of the state. What they report
of actions and what they note may differ. -/
def Progress.IsImage (project : τ → σ) (first : Progress σ) (second : Progress τ) : Prop :=
  ∃ actionErrors happenings, first =
    { second with
      state := project second.state
      actionErrors := actionErrors
      happenings := happenings }

namespace Engine

variable {project : τ → σ} {collaborators : Collaborators σ} {others : Collaborators τ}
  (engine : Engine) (context : Context)

section Steps

variable (image : Collaborators.IsImage project collaborators others) {first : Progress σ}
  {second : Progress τ} (alike : first.IsImage project second)
include image alike

/-- Retractions come to the same in progress and its image, and leave progress and its image. -/
theorem retractEach_image (rule : Rule) (retractions : List (String × Entries)) :
    SameBeside (Progress.IsImage project)
      (retractEach collaborators context rule retractions first)
      (retractEach others context rule retractions second) := by
  induction retractions generalizing first second with
  | nil => exact ⟨rfl, alike⟩
  | cons entry rest inductionHypothesis =>
    obtain ⟨target, values⟩ := entry
    obtain ⟨errors, notes, rfl⟩ := alike
    simp only [retractEach, image.retractAward]
    cases others.retractAward context.subject target values second.state with
    | mk outcome later =>
      cases outcome with
      | error failure => exact ⟨rfl, errors, notes, rfl⟩
      | ok _ => exact inductionHypothesis ⟨errors, _, rfl⟩

/-- Running the actions of a rule leads from progress and its image to progress and its image. -/
theorem runActions_image (rule : Rule) :
    Progress.IsImage project (runActions collaborators context rule first)
      (runActions others context rule second) := by
  obtain ⟨errors, notes, rfl⟩ := alike
  cases actions : rule.actions with
  | nil => exact ⟨errors, notes, by simp only [runActions, actions]⟩
  | cons action more =>
    cases given : others.invoke with
    | none =>
      simp only [runActions, actions, given, image.absent given]
      exact ⟨errors, notes, rfl⟩
    | some runToo =>
      obtain ⟨run, present, same⟩ := image.invoke runToo given
      have left := same (action :: more) (context.forScope rule.scope) second.state
      simp only [runActions, actions, given, present]
      cases ran : run (action :: more) (context.forScope rule.scope) (project second.state) with
      | mk outcome later =>
        cases ranToo : runToo (action :: more) (context.forScope rule.scope) second.state with
        | mk outcomeToo laterToo =>
          rw [ran, ranToo] at left
          obtain rfl : later = project laterToo := left
          cases outcome <;> cases outcomeToo <;> exact ⟨_, _, rfl⟩

/-- An award comes to the same in progress and its image. -/
theorem award_image (rule : Rule) :
    SameBeside (Progress.IsImage project) (engine.award collaborators context rule first)
      (engine.award others context rule second) := by
  obtain ⟨errors, notes, rfl⟩ := alike
  unfold award
  cases engine.writes context rule with
  | error failure => exact ⟨rfl, errors, notes, rfl⟩
  | ok both =>
    obtain ⟨values, retractions⟩ := both
    dsimp only
    rw [image.recordAward]
    cases others.recordAward context.subject rule.name values second.state with
    | mk outcome later =>
      cases outcome with
      | error failure => exact ⟨rfl, errors, notes, rfl⟩
      | ok fact =>
        have begun : Progress.IsImage project
            { second with
              state := project later
              awarded := second.awarded ++ [rule.name]
              actionErrors := errors
              happenings := notes ++ [.awarded rule.name fact.amount rule.maxAwarded] }
            { second with
              state := later
              awarded := second.awarded ++ [rule.name]
              happenings := second.happenings ++
                [.awarded rule.name fact.amount rule.maxAwarded] } := ⟨_, _, rfl⟩
        obtain ⟨broken, here, there, made, madeToo, further⟩ :=
          (retractEach_image context image begun rule retractions).spread
        simp only [Prod.map, id, made, madeToo]
        cases broken with
        | some failure => exact ⟨rfl, further⟩
        | none => exact ⟨rfl, runActions_image context image further rule⟩

/-- An attempt comes to the same in progress and its image. -/
theorem attempt_image (rule : Rule) :
    SameBeside (Progress.IsImage project) (engine.attempt collaborators context rule first)
      (engine.attempt others context rule second) := by
  obtain ⟨broken, here, there, made, madeToo, further⟩ :=
    (award_image engine context image alike rule).spread
  obtain ⟨errors, notes, rfl⟩ := further
  simp only [attempt, made, madeToo]
  cases broken <;> exact ⟨rfl, errors, _, rfl⟩

/-- The checks of a pass come to the same in progress and its image. -/
theorem checks_image (candidates : List Rule) :
    SameBeside (SameBeside (Progress.IsImage project))
      (engine.checks collaborators context candidates first)
      (engine.checks others context candidates second) := by
  obtain ⟨errors, notes, rfl⟩ := alike
  have same : ∀ state errors notes, eligible candidates
      ({ second with
        state := state
        actionErrors := errors
        happenings := notes } : Progress σ) = eligible candidates second := fun _ _ _ => rfl
  simp only [checks, same, engine.judgeAll_image image.lookup]
  exact ⟨rfl, rfl, errors, _, rfl⟩

end Steps

/-- Cycles whose collaborators are images of each other stay images of each other, in every check
and every attempt. -/
theorem staysRelated_image (image : Collaborators.IsImage project collaborators others)
    (candidates : List Rule) :
    engine.StaysRelated collaborators others context candidates (Progress.IsImage project) where
  settled := by
    rintro _ second ⟨errors, notes, rfl⟩
    rfl
  expired := by
    rintro _ second ⟨errors, notes, rfl⟩
    rfl
  completed := by
    rintro _ second ⟨errors, notes, rfl⟩
    rfl
  checked _ _ alike := checks_image engine context image alike candidates
  attempted rule _ _ _ alike := attempt_image engine context image alike rule
  told := by
    rintro outcomes _ second ⟨errors, notes, rfl⟩
    exact ⟨errors, notes, rfl⟩
  noted := by
    rintro happenings _ second ⟨errors, notes, rfl⟩
    exact ⟨errors, notes ++ happenings, rfl⟩

/-- A cycle from the image of a state comes to the same as one from the state, and ends in the image
of what that ends in. -/
theorem process_image (image : Collaborators.IsImage project collaborators others)
    (candidates : List Rule) (state : τ) :
    SameBeside (Progress.IsImage project)
      (engine.process collaborators context candidates (project state))
      (engine.process others context candidates state) :=
  (staysRelated_image engine context image candidates).process ⟨[], [], rfl⟩

end Engine

namespace Collaborators

/-- Collaborators that are traced are the collaborators themselves, beside a trace that no call
reads. -/
theorem traced_isImage (collaborators : Collaborators σ) :
    collaborators.IsImage Prod.fst collaborators.traced where
  lookup _ _ _ := rfl
  recordAward _ _ _ _ := rfl
  retractAward _ _ _ _ := rfl
  absent given := by simpa [traced] using given
  invoke runToo given := by
    simp only [traced, Option.map_eq_some_iff] at given
    obtain ⟨run, present, rfl⟩ := given
    exact ⟨run, present, fun _ _ _ => rfl⟩

/-- Forgiving collaborators do what those do that may complain about actions. -/
theorem forgiving_isImage (collaborators : Collaborators σ) :
    collaborators.forgiving.IsImage id collaborators where
  lookup _ _ _ := rfl
  recordAward _ _ _ _ := rfl
  retractAward _ _ _ _ := rfl
  absent given := by simp [forgiving, given]
  invoke runToo given :=
    ⟨fun actions context state => (.ok (), (runToo actions context state).2),
      by simp only [forgiving, given, Option.map_some], fun _ _ _ => rfl⟩

end Collaborators

end Accolade
