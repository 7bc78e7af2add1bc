import Accolade.Cycle.History
import Accolade.Proofs.Catalogue.Loader
import Accolade.Proofs.Cycle.Check

/-!
# Reasoning about cycles

A cycle is passes, a pass is checks and attempts to award, and an attempt is calls of the
collaborators. What the smaller step preserves, the larger one does; the theorems here say so
once for each of the three. The property of a pass may speak of the outcomes that are still
to be awarded, so it can say of each what its check has found.

The scopes of all writes are resolved before the first of them. They resolve when the scope
of the rule does, and that under which each replaced rule is retracted.
-/

namespace Accolade

/-- Whether a happening tells no more than how passes come to their end. -/
def Happening.closes : Happening → Bool
  | .deadlineReached | .passLimitReached _ | .timed | .completed .. => true
  | _ => false

/-- A cycle that has recorded one more award. -/
def Progress.withAward {σ : Type} (progress : Progress σ) (rule : Rule) (fact : Fact) (state : σ) :
    Progress σ :=
  { progress with
    state := state
    awarded := progress.awarded ++ [rule.name]
    happenings := progress.happenings ++ [.awarded rule.name fact.amount rule.maxAwarded] }

namespace Engine

variable {σ : Type} {engine : Engine} {collaborators : Collaborators σ} {context : Context}

/-- An engine with a pass limit has the parts it was given, and the limit is at least one. -/
theorem of_eq {catalogue : Catalogue} {maxPasses : Int} {timeLimit : Option Double}
    {retry : Option RetryPolicy}
    (engaged : Engine.of catalogue maxPasses timeLimit retry = .ok engine) :
    engine = ⟨catalogue, maxPasses.toNat, timeLimit, retry⟩ ∧ 1 ≤ maxPasses := by
  unfold Engine.of at engaged
  split at engaged
  · contradiction
  · cases engaged
    exact ⟨rfl, by omega⟩

/-- An engine has the catalogue and the time limit that it was given, and makes at least one pass.
-/
theorem of_spec {catalogue : Catalogue} {maxPasses : Int} {timeLimit : Option Double}
    {retry : Option RetryPolicy}
    (engaged : Engine.of catalogue maxPasses timeLimit retry = .ok engine) :
    engine.catalogue = catalogue ∧ engine.timeLimit = timeLimit ∧ 0 < engine.maxPasses := by
  obtain ⟨rfl, least⟩ := of_eq engaged
  exact ⟨rfl, rfl, by dsimp only; omega⟩

section Checks

variable {R : σ → σ → Prop} (moves : collaborators.lookup.Moves R) {candidates : List Rule}
  {progress : Progress σ}

include moves in
/-- The checks of a pass move the state only as lookups do, since they do nothing else with it. -/
theorem checks_moves :
    R progress.state (engine.checks collaborators context candidates progress).2.2.state :=
  judgeAll_moves moves engine context (eligible candidates progress) progress.state

/-- If no failure escapes them, the checks give an outcome for each candidate that is not
settled, in order. -/
theorem checks_rules
    (complete : (engine.checks collaborators context candidates progress).1 = none) :
    (engine.checks collaborators context candidates progress).2.1.map Prod.fst =
      eligible candidates progress :=
  (collect_rules complete).trans
    (judgeAll_rules engine collaborators.lookup context (eligible candidates progress)
      progress.state)

/-- Candidates that each get a verdict, while nothing changes and none hangs, get it from the checks
of a pass, unless they are settled. -/
theorem checks_eq {verdictOf : Rule → Verdict}
    (judged : ∀ rule ∈ eligible candidates progress, rule.judge collaborators.lookup engine.retry
      context progress.state = (verdictOf rule, progress.state))
    (arrived : ∀ rule ∈ eligible candidates progress, verdictOf rule ≠ .hung) :
    let collected :=
      collect ((eligible candidates progress).map fun rule => (rule, verdictOf rule))
    ∃ happenings, engine.checks collaborators context candidates progress =
      (collected.1, collected.2.1,
        { progress with
          passes := progress.passes + 1
          happenings := happenings }) := by
  refine ⟨(engine.checks collaborators context candidates progress).2.2.happenings, ?_⟩
  simp only [checks, judgeAll_eq engine judged, someHung_eq_false arrived, Bool.or_false]

/-- Candidates that each get an outcome, while nothing changes, get it from the checks of a pass,
unless they are settled. -/
theorem checks_judged {outcomeOf : Rule → Outcome}
    (judged : ∀ rule ∈ eligible candidates progress, rule.judge collaborators.lookup engine.retry
      context progress.state = (.judged (outcomeOf rule), progress.state)) :
    ∃ happenings, engine.checks collaborators context candidates progress =
      (none, (eligible candidates progress).map fun rule => (rule, outcomeOf rule),
        { progress with
          passes := progress.passes + 1
          happenings := happenings }) := by
  obtain ⟨happenings, checked⟩ := checks_eq judged fun _ _ => nofun
  rw [collect_judged fun _ _ => rfl] at checked
  exact ⟨happenings, checked⟩

/-- If each of these candidates gets an outcome or is left by a certain failure, and some are left,
this failure leaves the checks. -/
theorem checks_escaped {failure : Failure}
    (each : ∀ rule ∈ eligible candidates progress,
      (∃ outcome, rule.judge collaborators.lookup engine.retry context progress.state =
        (.judged outcome, progress.state)) ∨
      rule.judge collaborators.lookup engine.retry context progress.state =
        (.escaped failure, progress.state))
    (left : ∃ rule ∈ eligible candidates progress,
      rule.judge collaborators.lookup engine.retry context progress.state =
        (.escaped failure, progress.state)) :
    ∃ items happenings, engine.checks collaborators context candidates progress =
      (some failure, items,
        { progress with
          passes := progress.passes + 1
          happenings := happenings }) := by
  let verdictOf : Rule → Verdict := fun rule =>
    (rule.judge collaborators.lookup engine.retry context progress.state).1
  have judged : ∀ rule ∈ eligible candidates progress, rule.judge collaborators.lookup
      engine.retry context progress.state = (verdictOf rule, progress.state) := by
    intro rule member
    rcases each rule member with ⟨outcome, told⟩ | told <;> simp only [verdictOf, told]
  have known : ∀ rule ∈ eligible candidates progress,
      (∃ outcome, verdictOf rule = .judged outcome) ∨ verdictOf rule = .escaped failure := by
    intro rule member
    refine (each rule member).imp (fun ⟨outcome, told⟩ => ⟨outcome, ?_⟩) fun told => ?_ <;>
      simp only [verdictOf, told]
  have arrived : ∀ rule ∈ eligible candidates progress, verdictOf rule ≠ .hung := by
    intro rule member
    rcases known rule member with ⟨outcome, told⟩ | told <;> rw [told] <;> nofun
  obtain ⟨rule, member, escaped⟩ := left
  obtain ⟨items, collected⟩ := @collect_escaped _ _ id _ _ known
    ⟨rule, member, congrArg Prod.fst escaped⟩
  obtain ⟨happenings, checked⟩ := checks_eq judged arrived
  simp only [id] at collected
  rw [collected] at checked
  exact ⟨items, happenings, checked⟩

/-- On a calm lookup the checks of a pass change nothing, and of the candidates that are not settled
exactly those that are due come out for an award. A failure leaves the checks where the evaluation
of one of these candidates is left. -/
theorem checks_of_calm (engine : Engine) (calm : collaborators.lookup.IsCalm progress.state)
    (texts : AreTexts (Entries.keys context.attributes)) :
    (∃ (outcomeOf : Rule → Outcome) (happenings : List Happening),
      (∀ rule, (outcomeOf rule).shouldAward = true ↔
        rule.IsDue collaborators.lookup context progress.state) ∧
      (∀ rule ∈ eligible candidates progress,
        rule.judge collaborators.lookup engine.retry context progress.state =
          (.judged (outcomeOf rule), progress.state)) ∧
      engine.checks collaborators context candidates progress =
        (none, (eligible candidates progress).map fun rule => (rule, outcomeOf rule),
          { progress with
            passes := progress.passes + 1
            happenings := happenings })) ∨
    ∃ (items : List (Rule × Outcome)) (happenings : List Happening),
      (∃ rule ∈ eligible candidates progress,
        rule.Overruns collaborators.lookup context progress.state) ∧
      engine.checks collaborators context candidates progress =
        (some .tooLongToWrite, items,
          { progress with
            passes := progress.passes + 1
            happenings := happenings }) := by
  have known := fun rule => Rule.judge_calm calm texts engine.retry rule
  by_cases left : ∃ rule ∈ eligible candidates progress,
      rule.Overruns collaborators.lookup context progress.state
  · obtain ⟨rule, member, overruns⟩ := left
    obtain ⟨items, happenings, checked⟩ := checks_escaped
      (fun rule _ => (known rule).imp (fun ⟨outcome, told, _⟩ => ⟨outcome, told⟩) And.left)
      ⟨rule, member, overruns.judge calm texts engine.retry⟩
    exact .inr ⟨items, happenings, ⟨rule, member, overruns⟩, checked⟩
  · have each : ∀ rule, ∃ outcome : Outcome,
        (outcome.shouldAward = true ↔ rule.IsDue collaborators.lookup context progress.state) ∧
        (rule ∈ eligible candidates progress →
          rule.judge collaborators.lookup engine.retry context progress.state =
            (.judged outcome, progress.state)) := by
      intro rule
      rcases known rule with ⟨outcome, told, due⟩ | ⟨_, overruns⟩
      · exact ⟨outcome, due, fun _ => told⟩
      · exact ⟨.checked rule.name false false, iff_of_false Bool.false_ne_true overruns.not_isDue,
          fun member => absurd ⟨rule, member, overruns⟩ left⟩
    obtain ⟨outcomeOf, each⟩ := Classical.axiomOfChoice each
    have judged := fun rule member => (each rule).2 member
    obtain ⟨happenings, checked⟩ := checks_judged judged
    exact .inl ⟨outcomeOf, happenings, fun rule => (each rule).1, judged, checked⟩

include moves in
/-- An outcome that the checks of a pass give is of a candidate. The candidate was judged so in a
state that the checks went through, or its check hung. -/
theorem checks_member {rule : Rule} {outcome : Outcome}
    (member : (rule, outcome) ∈
      (engine.checks collaborators context candidates progress).2.1) :
    rule ∈ candidates ∧
      ((∃ later, R progress.state later ∧
        (rule.judge collaborators.lookup engine.retry context later).1 = .judged outcome) ∨
      outcome = .late rule.name) := by
  have listed : ∀ verdict, (rule, verdict) ∈ (engine.judgeAll collaborators.lookup context
      (eligible candidates progress) progress.state).1 → rule ∈ candidates := by
    intro verdict inside
    have among := List.mem_map_of_mem (f := Prod.fst) inside
    rw [judgeAll_rules] at among
    exact (List.mem_filter.mp among).1
  rcases collect_member member with judged | ⟨hung, late⟩
  · exact ⟨listed _ judged, .inl (judgeAll_member moves engine context judged)⟩
  · exact ⟨listed _ hung, .inr late⟩

include moves in
/-- An outcome that is to be awarded was found so in a state that the checks went through. -/
theorem checks_shouldAward {rule : Rule} {outcome : Outcome}
    (member : (rule, outcome) ∈ (engine.checks collaborators context candidates progress).2.1)
    (chosen : outcome.shouldAward = true) :
    ∃ later, R progress.state later ∧
      (rule.check collaborators.lookup context later).1 = .answer (true, true) := by
  obtain ⟨reached, early, judged⟩ :=
    judgeAll_member moves engine context (collect_shouldAward member chosen)
  obtain ⟨later, further, answered⟩ := Rule.judge_shouldAward moves judged chosen
  exact ⟨later, moves.trans early further, answered⟩

/-- On a calm lookup an outcome that is to be awarded is of a rule that is due. -/
theorem checks_due (calm : collaborators.lookup.IsCalm progress.state)
    (texts : AreTexts (Entries.keys context.attributes)) {rule : Rule} {outcome : Outcome}
    (member : (rule, outcome) ∈ (engine.checks collaborators context candidates progress).2.1)
    (chosen : outcome.shouldAward = true) :
    rule.IsDue collaborators.lookup context progress.state := by
  obtain ⟨later, reached, answered⟩ := checks_shouldAward calm.still.moves member chosen
  obtain rfl : later = progress.state := reached rfl
  exact (Rule.check_true_iff calm texts rule).mp answered

end Checks

section Frame

variable (collaborators context) (rule : Rule) (progress : Progress σ)

/-- Retractions move the state, are reported and noted, and change nothing else. -/
theorem retractEach_frame (retractions : List (String × Entries)) :
    ∃ state retracted happenings,
      (retractEach collaborators context rule retractions progress).2 =
        { progress with
          state := state
          retracted := retracted
          happenings := happenings } := by
  induction retractions generalizing progress with
  | nil => exact ⟨progress.state, progress.retracted, progress.happenings, rfl⟩
  | cons first rest inductionHypothesis =>
    unfold retractEach
    split
    · exact ⟨_, progress.retracted, progress.happenings, rfl⟩
    · obtain ⟨state, retracted, happenings, made⟩ := inductionHypothesis _
      exact ⟨state, retracted, happenings, made⟩

/-- Actions move the state, and their failure is reported and noted. -/
theorem runActions_frame :
    ∃ state actionErrors happenings, runActions collaborators context rule progress =
      { progress with
        state := state
        actionErrors := actionErrors
        happenings := happenings } := by
  unfold runActions
  split
  · split
    · exact ⟨_, progress.actionErrors, progress.happenings, rfl⟩
    · exact ⟨_, _, _, rfl⟩
  · exact ⟨progress.state, progress.actionErrors, progress.happenings, rfl⟩

/-- An award breaks off when some scope does not resolve or the award is not recorded. Once it is
recorded it is reported, and the retractions follow. When all of them went through, so do the
actions. -/
theorem award_cases (engine : Engine) :
    (∃ failure, engine.writes context rule = .error failure ∧
      engine.award collaborators context rule progress = (some failure, progress)) ∨
    ∃ values retractions, engine.writes context rule = .ok (values, retractions) ∧
      ((∃ failure state,
        collaborators.recordAward context.subject rule.name values progress.state =
          (.error failure, state) ∧
        engine.award collaborators context rule progress =
          (some failure, { progress with state := state })) ∨
      ∃ fact state broken later,
        collaborators.recordAward context.subject rule.name values progress.state =
          (.ok fact, state) ∧
        retractEach collaborators context rule retractions (progress.withAward rule fact state) =
          (broken, later) ∧
        engine.award collaborators context rule progress =
          (broken, if broken.isSome then later
            else runActions collaborators context rule later)) := by
  unfold award
  cases resolving : engine.writes context rule with
  | error failure => exact .inl ⟨failure, rfl, rfl⟩
  | ok both =>
    obtain ⟨values, retractions⟩ := both
    refine .inr ⟨values, retractions, rfl, ?_⟩
    cases recording : collaborators.recordAward context.subject rule.name values
      progress.state with
    | mk outcome state =>
      cases outcome with
      | error failure => exact .inl ⟨failure, state, rfl, by simp only [recording]⟩
      | ok fact =>
        cases retracting : retractEach collaborators context rule retractions
          (progress.withAward rule fact state) with
        | mk broken later =>
          refine .inr ⟨fact, state, broken, later, rfl, retracting, ?_⟩
          unfold Progress.withAward at retracting
          simp only [recording, retracting]
          cases broken <;> rfl

/-- An award that is not recorded changes at most the state, and that only by the call that refused
to record it. One that is recorded is reported behind the others, whatever its retractions and its
actions come to. -/
theorem award_frame (engine : Engine) :
    (∃ failure state, engine.award collaborators context rule progress =
        (some failure, { progress with state := state }) ∧
      (state = progress.state ∨ ∃ values retractions,
        engine.writes context rule = .ok (values, retractions) ∧
        collaborators.recordAward context.subject rule.name values progress.state =
          (.error failure, state))) ∨
    ∃ state retracted actionErrors happenings,
      (engine.award collaborators context rule progress).2 =
        { progress with
          state := state
          awarded := progress.awarded ++ [rule.name]
          retracted := retracted
          actionErrors := actionErrors
          happenings := happenings } := by
  rcases award_cases collaborators context rule progress engine with
    ⟨failure, _, made⟩ | ⟨values, retractions, resolved, ⟨failure, state, refused, made⟩ |
      ⟨fact, state, broken, later, _, retracting, made⟩⟩
  · exact .inl ⟨failure, progress.state, made, .inl rfl⟩
  · exact .inl ⟨failure, state, made, .inr ⟨values, retractions, resolved, refused⟩⟩
  · right
    rw [made]
    obtain ⟨after, retracted, happenings, same⟩ := retractEach_frame collaborators context rule
      (progress.withAward rule fact state) retractions
    rw [retracting] at same
    obtain rfl : later = _ := same
    cases broken with
    | some failure => exact ⟨after, retracted, progress.actionErrors, happenings, rfl⟩
    | none =>
      obtain ⟨last, actionErrors, notes, ran⟩ := runActions_frame collaborators context rule
        { progress.withAward rule fact state with
          state := after
          retracted := retracted
          happenings := happenings }
      exact ⟨last, retracted, actionErrors, notes, ran⟩

/-- An attempt settles its rule if it fails and the rules replaced if it goes through. It reports
at most one award, that of its rule, and leaves the outcomes, the number of passes and the deadline
alone. -/
theorem attempt_frame (engine : Engine) :
    ∃ state awards retracted actionErrors happenings,
      (awards = [] ∨ awards = [rule.name]) ∧
      (engine.attempt collaborators context rule progress).2 =
        { progress with
          state := state
          settled := progress.settled ++
            if (engine.attempt collaborators context rule progress).1.isSome then [rule.name]
            else rule.replaces
          awarded := progress.awarded ++ awards
          retracted := retracted
          actionErrors := actionErrors
          happenings := happenings } := by
  unfold attempt
  rcases award_frame collaborators context rule progress engine with
    ⟨failure, state, made, _⟩ | ⟨state, retracted, actionErrors, happenings, made⟩
  · rw [made]
    exact ⟨state, [], progress.retracted, progress.actionErrors, _, .inl rfl, by
      simp only [List.append_nil]; rfl⟩
  · split
    · rename_i failure later broken
      rw [broken] at made
      subst made
      exact ⟨state, [rule.name], retracted, actionErrors, _, .inr rfl, rfl⟩
    · rename_i later through
      rw [through] at made
      subst made
      exact ⟨state, [rule.name], retracted, actionErrors, happenings, .inr rfl, rfl⟩

end Frame

/-- Deal with the outcome of one rule: pass over it, or try to award the rule. Beside the outcome
stands the number of awards that went through. -/
def awardItem (engine : Engine) (collaborators : Collaborators σ) (context : Context)
    (item : Rule × Outcome) (progress : Progress σ) : Outcome × Nat × Progress σ :=
  if !item.2.shouldAward || progress.settled.contains item.1.name then (item.2, 0, progress)
  else
    match engine.attempt collaborators context item.1 progress with
    | (some error, progress) => ({ item.2 with error := some error }, 0, progress)
    | (none, progress) => (item.2, 1, progress)

section Items

variable (engine : Engine) (collaborators : Collaborators σ) (context : Context)
  (item : Rule × Outcome)

/-- Outcomes are dealt with one after the other: the rest goes on from where the first one leads. -/
theorem awardEach_cons (rest : List (Rule × Outcome)) (progress : Progress σ) :
    engine.awardEach collaborators context (item :: rest) progress =
      ((engine.awardItem collaborators context item progress).1 ::
        (engine.awardEach collaborators context rest
          (engine.awardItem collaborators context item progress).2.2).1,
      (engine.awardEach collaborators context rest
          (engine.awardItem collaborators context item progress).2.2).2.1 +
        (engine.awardItem collaborators context item progress).2.1,
      (engine.awardEach collaborators context rest
        (engine.awardItem collaborators context item progress).2.2).2.2) := by
  obtain ⟨rule, outcome⟩ := item
  rw [awardEach, awardItem]
  split
  · rfl
  · cases tried : engine.attempt collaborators context rule progress with
    | mk error later => cases error <;> rfl

/-- An outcome is passed over if it is not to be awarded or its rule is settled; otherwise its rule
is tried, and the outcome takes the error if the attempt fails. -/
theorem awardItem_cases (progress : Progress σ) :
    ((item.2.shouldAward = false ∨ item.1.name ∈ progress.settled) ∧
      engine.awardItem collaborators context item progress = (item.2, 0, progress)) ∨
    (item.2.shouldAward = true ∧ item.1.name ∉ progress.settled ∧
      ((∃ error later,
        engine.attempt collaborators context item.1 progress = (some error, later) ∧
        engine.awardItem collaborators context item progress =
          ({ item.2 with error := some error }, 0, later)) ∨
      ∃ later, engine.attempt collaborators context item.1 progress = (none, later) ∧
        engine.awardItem collaborators context item progress = (item.2, 1, later))) := by
  unfold awardItem
  split
  · rename_i passedOver
    refine .inl ⟨?_, rfl⟩
    simpa [List.contains_iff_mem] using passedOver
  · rename_i chosen
    simp only [Bool.or_eq_true, Bool.not_eq_true', List.contains_iff_mem, not_or,
      Bool.not_eq_false] at chosen
    refine .inr ⟨chosen.1, chosen.2, ?_⟩
    split
    · rename_i error later tried
      exact .inl ⟨error, later, tried, rfl⟩
    · rename_i later tried
      exact .inr ⟨later, tried, rfl⟩

/-- What failed attempts preserve holds after the awards of a pass when none of them goes
through. -/
theorem awardEach_idle {I : Progress σ → Prop}
    (failed : ∀ rule progress error later,
      engine.attempt collaborators context rule progress = (some error, later) →
      I progress → I later)
    {items : List (Rule × Outcome)} {progress : Progress σ}
    (idle : (engine.awardEach collaborators context items progress).2.1 = 0)
    (holding : I progress) :
    I (engine.awardEach collaborators context items progress).2.2 := by
  induction items generalizing progress with
  | nil => exact holding
  | cons item rest inductionHypothesis =>
    rw [awardEach_cons] at idle ⊢
    obtain ⟨others, own⟩ := Nat.add_eq_zero_iff.mp idle
    refine inductionHypothesis others ?_
    rcases awardItem_cases engine collaborators context item progress with
      ⟨_, passedOver⟩ | ⟨_, _, ⟨error, later, attempted, made⟩ | ⟨later, _, made⟩⟩
    · exact passedOver ▸ holding
    · exact made ▸ failed item.1 progress error later attempted holding
    · rw [made] at own
      contradiction

/-- Dealing with an outcome leaves it an outcome of its rule, with an error added at most. -/
theorem awardItem_rule (progress : Progress σ) :
    (engine.awardItem collaborators context item progress).1.rule = item.2.rule := by
  rcases awardItem_cases engine collaborators context item progress with
    ⟨_, made⟩ | ⟨_, _, ⟨_, _, _, made⟩ | ⟨_, _, made⟩⟩
  all_goals rw [made]

end Items

section Passes

variable {candidates : List Rule} {P : List (Rule × Outcome) → Progress σ → Prop}
  {I : Progress σ → Prop}

/-- What passing over an outcome and attempting an award preserve of the outcomes that are
left, awarding all of them does. -/
theorem awardEach_induction
    (passedOver : ∀ item rest progress, P (item :: rest) progress → P rest progress)
    (attempted : ∀ rule outcome rest progress, outcome.shouldAward = true →
      rule.name ∉ progress.settled → P ((rule, outcome) :: rest) progress →
      P rest (engine.attempt collaborators context rule progress).2)
    {items : List (Rule × Outcome)} {progress : Progress σ} (holding : P items progress) :
    P [] (engine.awardEach collaborators context items progress).2.2 := by
  induction items generalizing progress with
  | nil => exact holding
  | cons item rest inductionHypothesis =>
    rw [awardEach_cons]
    apply inductionHypothesis
    rcases awardItem_cases engine collaborators context item progress with
      ⟨_, made⟩ | ⟨chosen, unsettled, ⟨error, later, tried, made⟩ | ⟨later, tried, made⟩⟩
    · exact made ▸ passedOver item rest progress holding
    · have next := attempted item.1 item.2 rest progress chosen unsettled holding
      rw [tried] at next
      exact made ▸ next
    · have next := attempted item.1 item.2 rest progress chosen unsettled holding
      rw [tried] at next
      exact made ▸ next

/-- The awards of a pass add no outcomes and do not count as passes. -/
theorem awardEach_frame (items : List (Rule × Outcome)) (progress : Progress σ) :
    (engine.awardEach collaborators context items progress).2.2.outcomes = progress.outcomes ∧
      (engine.awardEach collaborators context items progress).2.2.passes = progress.passes :=
  awardEach_induction
    (P := fun _ later => later.outcomes = progress.outcomes ∧ later.passes = progress.passes)
    (fun _ _ _ => id)
    (fun rule _ _ later _ _ kept => by
      obtain ⟨_, _, _, _, _, _, made⟩ := attempt_frame collaborators context rule later engine
      rwa [made])
    ⟨rfl, rfl⟩

/-- What holds before a pass holds after it, if the checks bring about what passing over and
attempting preserve. -/
theorem pass_induction
    (escaped : ∀ progress, I progress →
      I (engine.checks collaborators context candidates progress).2.2)
    (checked : ∀ progress, I progress →
      (engine.checks collaborators context candidates progress).1 = none →
      P (engine.checks collaborators context candidates progress).2.1
        (engine.checks collaborators context candidates progress).2.2)
    (passedOver : ∀ item rest progress, P (item :: rest) progress → P rest progress)
    (attempted : ∀ rule outcome rest progress, outcome.shouldAward = true →
      rule.name ∉ progress.settled → P ((rule, outcome) :: rest) progress →
      P rest (engine.attempt collaborators context rule progress).2)
    (finished : ∀ progress outcomes, P [] progress → I { progress with outcomes := outcomes })
    {progress : Progress σ} (holding : I progress) :
    I (engine.pass collaborators context candidates progress).2 := by
  have early := escaped progress holding
  have ready := checked progress holding
  unfold pass
  split
  · rename_i failure items later made
    rw [made] at early
    exact early
  · rename_i items later made
    rw [made] at ready
    exact finished _ _ (awardEach_induction passedOver attempted (ready rfl))

/-- What a pass preserves, and notes of how passes come to their end, all passes preserve. -/
theorem passes_induction
    (passed : ∀ progress, I progress →
      I (engine.pass collaborators context candidates progress).2)
    (noted : ∀ progress happenings, (∀ happening ∈ happenings, happening.closes = true) →
      I progress → I (progress.note happenings))
    {left : Nat} {progress : Progress σ} (holding : I progress) :
    I (engine.passes collaborators context candidates left progress).2 := by
  induction left generalizing progress with
  | zero => exact noted _ _ (by simp [Happening.closes]) holding
  | succ left inductionHypothesis =>
    have next := passed progress holding
    unfold passes
    split
    · exact noted _ _ (by simp [Happening.closes]) holding
    · split
      · rename_i failure later made
        rw [made] at next
        exact next
      · rename_i later made
        rw [made] at next
        exact next
      · rename_i count later _ made
        rw [made] at next
        exact inductionHypothesis next

/-- A cycle is its passes from a fresh start, with no more than the end noted on top. -/
theorem process_passes (engine : Engine) (collaborators : Collaborators σ) (context : Context)
    (candidates : List Rule) (state : σ) :
    let made := engine.passes collaborators context candidates engine.maxPasses
      (Progress.start state engine.startsExpired)
    ∃ happenings, engine.process collaborators context candidates state =
      (made.1, { made.2 with happenings := happenings }) := by
  unfold process
  split
  · rename_i failure later made
    exact ⟨_, by rw [made]; rfl⟩
  · rename_i later made
    exact ⟨_, by rw [made]; rfl⟩

/-- What holds at the start, and is preserved by a pass and by notes of how passes come to their
end, holds when the cycle is over, whether or not a failure leaves it. -/
theorem process_induction
    (passed : ∀ progress, I progress →
      I (engine.pass collaborators context candidates progress).2)
    (noted : ∀ progress happenings, (∀ happening ∈ happenings, happening.closes = true) →
      I progress → I (progress.note happenings))
    {state : σ} (start : I (Progress.start state engine.startsExpired)) :
    I (engine.process collaborators context candidates state).2 := by
  have ended : I (engine.passes collaborators context candidates engine.maxPasses
      (Progress.start state engine.startsExpired)).2 := passes_induction passed noted start
  unfold process
  split
  · rename_i failure later made
    rw [made] at ended
    exact noted _ _ (by simp [Happening.closes]) ended
  · rename_i later made
    rw [made] at ended
    exact noted _ _ (by simp [Happening.closes, completion]) ended

/-- What attempts preserve of the state holds after the awards of a pass, and what holds of all
outcomes that are checked and of those with the error of an attempt holds of all that come back. -/
theorem awardEach_outcomes {S : σ → Prop} {F : Outcome → Prop} {items : List (Rule × Outcome)}
    (attempted : ∀ item ∈ items, ∀ progress, S progress.state →
      S (engine.attempt collaborators context item.1 progress).2.state ∧
      ∀ error, (engine.attempt collaborators context item.1 progress).1 = some error →
        F { item.2 with error := some error })
    (checked : ∀ item ∈ items, F item.2) {progress : Progress σ} (holding : S progress.state) :
    S (engine.awardEach collaborators context items progress).2.2.state ∧
      ∀ outcome ∈ (engine.awardEach collaborators context items progress).1, F outcome := by
  induction items generalizing progress with
  | nil => exact ⟨holding, by simp [awardEach]⟩
  | cons item rest inductionHypothesis =>
    obtain ⟨here, further⟩ := List.forall_mem_cons.mp attempted
    obtain ⟨own, restChecked⟩ := List.forall_mem_cons.mp checked
    obtain ⟨kept, failed⟩ := here progress holding
    have dealt : S (engine.awardItem collaborators context item progress).2.2.state ∧
        F (engine.awardItem collaborators context item progress).1 := by
      rcases awardItem_cases engine collaborators context item progress with
        ⟨_, made⟩ | ⟨_, _, ⟨error, later, tried, made⟩ | ⟨later, tried, made⟩⟩
      · rw [made]
        exact ⟨holding, own⟩
      · rw [tried] at kept failed
        rw [made]
        exact ⟨kept, failed error rfl⟩
      · rw [tried] at kept
        rw [made]
        exact ⟨kept, own⟩
    rw [awardEach_cons]
    obtain ⟨ended, others⟩ := inductionHypothesis further restChecked dealt.1
    exact ⟨ended, List.forall_mem_cons.mpr ⟨dealt.2, others⟩⟩

/-- If in certain states, which lookups keep to, the candidates get outcomes of some kind, and
attempts keep to such states and put no error on an outcome that is not of the kind, a cycle does
the same. -/
theorem process_outcomes {S : σ → Prop} {F : Outcome → Prop}
    (looked : ∀ kind query state, S state → S (collaborators.lookup kind query state).2)
    (judged : ∀ rule ∈ candidates, ∀ state, S state → ∀ outcome,
      (rule.judge collaborators.lookup engine.retry context state).1 = .judged outcome → F outcome)
    (late : ∀ rule ∈ candidates, F (.late rule.name))
    (attempted : ∀ rule ∈ candidates, ∀ progress : Progress σ, S progress.state →
      S (engine.attempt collaborators context rule progress).2.state ∧
      ∀ error, (engine.attempt collaborators context rule progress).1 = some error →
        ∀ outcome : Outcome, F { outcome with error := some error })
    {state : σ} (holding : S state) :
    S (engine.process collaborators context candidates state).2.state ∧
      ∀ outcome ∈ (engine.process collaborators context candidates state).2.outcomes,
        F outcome := by
  have moves : collaborators.lookup.Moves fun before after => S before → S after :=
    ⟨fun _ => id, fun early late => late ∘ early, looked⟩
  refine process_induction
    (I := fun progress => S progress.state ∧ ∀ outcome ∈ progress.outcomes, F outcome)
    ?_ (fun _ _ _ => id) ⟨holding, by simp [Progress.start]⟩
  rintro progress ⟨kept, outcomes⟩
  have still : S (engine.checks collaborators context candidates progress).2.2.state :=
    checks_moves moves kept
  have among : ∀ item ∈ (engine.checks collaborators context candidates progress).2.1,
      item.1 ∈ candidates ∧ F item.2 := by
    rintro ⟨rule, outcome⟩ inside
    obtain ⟨member, ⟨later, reached, told⟩ | hung⟩ := checks_member moves inside
    · exact ⟨member, judged rule member later (reached kept) outcome told⟩
    · exact ⟨member, hung ▸ late rule member⟩
  have known : (engine.checks collaborators context candidates progress).2.2.outcomes =
    progress.outcomes := rfl
  unfold pass
  split
  · rename_i failure items later checked
    rw [checked] at still known
    exact ⟨still, known ▸ outcomes⟩
  · rename_i items later checked
    rw [checked] at still known among
    obtain ⟨ended, others⟩ := awardEach_outcomes
      (fun item inside progress kept =>
        (attempted item.1 (among item inside).1 progress kept).imp_right
          fun failed error erred => failed error erred item.2)
      (fun item inside => (among item inside).2) still
    refine ⟨ended, List.forall_mem_append.mpr ⟨?_, others⟩⟩
    rw [(awardEach_frame _ _).1, known]
    exact outcomes

/-- No failure has escaped the checks of a pass that gives a number of awards. -/
theorem checks_of_pass {count : Nat} {progress later : Progress σ}
    (made : engine.pass collaborators context candidates progress = (.ok count, later)) :
    (engine.checks collaborators context candidates progress).1 = none := by
  unfold pass at made
  split at made
  · cases made
  · rename_i checked
    rw [checked]

/-- A failure that leaves a pass has left its checks. -/
theorem checks_of_failed_pass {failure : Failure} {progress later : Progress σ}
    (made : engine.pass collaborators context candidates progress = (.error failure, later)) :
    (engine.checks collaborators context candidates progress).1 = some failure := by
  unfold pass at made
  split at made
  · rename_i checked
    cases made
    rw [checked]
  · cases made

/-- How passes end that keep an invariant as long as no failure leaves them: a failure leaves the
checks of one of them, or the last of them comes to its end, after which no more is done than to
note why.

Proof: induction on the passes left. A pass that lets another one follow hands its progress over to
the hypothesis. Any other is the last one. -/
theorem passes_ending
    (passed : ∀ progress, I progress →
      (engine.checks collaborators context candidates progress).1 = none →
      I (engine.pass collaborators context candidates progress).2)
    (left : Nat) {progress : Progress σ} (holding : I progress) :
    (∃ before failure, I before ∧
      (engine.checks collaborators context candidates before).1 = some failure ∧
      (engine.passes collaborators context candidates left progress).1 = some failure) ∨
    ∃ last happenings, I last ∧ (∀ happening ∈ happenings, happening.closes = true) ∧
      engine.passes collaborators context candidates left progress =
        (none, last.note happenings) := by
  induction left generalizing progress with
  | zero => exact .inr ⟨progress, _, holding, by simp [Happening.closes], rfl⟩
  | succ left inductionHypothesis =>
    unfold passes
    split
    · exact .inr ⟨progress, _, holding, by simp [Happening.closes], rfl⟩
    · cases made : engine.pass collaborators context candidates progress with
      | mk result later =>
        match result with
        | .error failure =>
          exact .inl ⟨progress, failure, holding, checks_of_failed_pass made, rfl⟩
        | .ok count =>
          have next := passed progress holding (checks_of_pass made)
          rw [made] at next
          cases count with
          | zero => exact .inr ⟨later, [], next, by simp, by simp [Progress.note]⟩
          | succ _ => exact inductionHypothesis next

/-- What holds at the start, and is preserved by passes that no failure leaves and by notes of how
passes come to their end, holds when a cycle has come to its end. -/
theorem process_returned
    (passed : ∀ progress, I progress →
      (engine.checks collaborators context candidates progress).1 = none →
      I (engine.pass collaborators context candidates progress).2)
    (closed : ∀ progress happenings, (∀ happening ∈ happenings, happening.closes = true) →
      I progress → I (progress.note happenings))
    {state : σ} (start : I (Progress.start state engine.startsExpired))
    (returns : (engine.process collaborators context candidates state).1 = none) :
    I (engine.process collaborators context candidates state).2 := by
  unfold process at returns ⊢
  obtain ⟨_, _, _, _, escaped⟩ | ⟨last, happenings, kept, closing, ended⟩ :=
    passes_ending passed engine.maxPasses start
  · split at returns
    · contradiction
    · rename_i made
      rw [made] at escaped
      contradiction
  · rw [ended]
    exact closed _ _ (by simp [Happening.closes, completion])
      (closed last happenings closing kept)

/-- A failure that leaves a cycle has left the checks of a pass. -/
theorem process_failure {E : Failure → Prop}
    (escaping : ∀ progress, I progress → ∀ failure,
      (engine.checks collaborators context candidates progress).1 = some failure → E failure)
    (passed : ∀ progress, I progress →
      (engine.checks collaborators context candidates progress).1 = none →
      I (engine.pass collaborators context candidates progress).2)
    {state : σ} (start : I (Progress.start state engine.startsExpired)) :
    ∀ failure, (engine.process collaborators context candidates state).1 = some failure →
      E failure := by
  intro failure left
  unfold process at left
  obtain ⟨before, cause, kept, escaped, stopped⟩ | ⟨_, _, _, _, ended⟩ :=
    passes_ending passed engine.maxPasses start
  · refine escaping before kept failure ?_
    split at left
    · rename_i made
      rw [made] at stopped
      exact escaped.trans (stopped.symm.trans left)
    · contradiction
  · rw [ended] at left
    contradiction

/-- On a calm lookup a cycle is left in its first pass, before it does anything, if the evaluation
of a candidate is left. -/
theorem process_of_overruns {state : σ} (calm : collaborators.lookup.IsCalm state)
    (texts : AreTexts (Entries.keys context.attributes)) (least : 0 < engine.maxPasses)
    (inTime : engine.startsExpired = false) {rule : Rule} (member : rule ∈ candidates)
    (overruns : rule.Overruns collaborators.lookup context state) :
    let ended := engine.process collaborators context candidates state
    ended.1 = some .tooLongToWrite ∧ ended.2.awarded = [] ∧ ended.2.passes = 1 ∧
      ended.2.state = state := by
  have listed : rule ∈ eligible candidates (Progress.start state engine.startsExpired) := by
    simpa [eligible, Progress.start] using member
  obtain ⟨left, limit⟩ : ∃ left, engine.maxPasses = left + 1 := ⟨engine.maxPasses - 1, by omega⟩
  have unexpired : (Progress.start state engine.startsExpired).expired = false := inTime
  rcases @checks_of_calm σ collaborators context candidates
    (Progress.start state engine.startsExpired) engine calm texts with
    ⟨outcomeOf, _, _, judged, _⟩ | ⟨items, happenings, _, checked⟩
  · cases (overruns.judge calm texts engine.retry).symm.trans (judged rule listed)
  · simp only [process, limit, passes, unexpired, Bool.false_eq_true, if_false, pass, checked,
      true_and]
    exact ⟨rfl, rfl, rfl⟩

/-- A cycle is left by a failure, before it awards anything, if one escapes its first checks. -/
theorem process_of_escaped {state : σ} {rule : Rule} {failure : Failure}
    (least : 0 < engine.maxPasses) (inTime : engine.startsExpired = false)
    (escaped : (rule, .escaped failure) ∈
      (engine.judgeAll collaborators.lookup context candidates state).1) :
    let ended := engine.process collaborators context candidates state
    (∃ failure, ended.1 = some failure) ∧ ended.2.awarded = [] ∧ ended.2.passes = 1 := by
  have all : eligible candidates (Progress.start state engine.startsExpired) = candidates := by
    simp [eligible, Progress.start]
  obtain ⟨cause, collected⟩ := exists_collect_of_escaped escaped
  obtain ⟨left, limit⟩ : ∃ left, engine.maxPasses = left + 1 := ⟨engine.maxPasses - 1, by omega⟩
  obtain ⟨items, later, checked, unawarded, first⟩ : ∃ items later,
      engine.checks collaborators context candidates
        (Progress.start state engine.startsExpired) = (some cause, items, later) ∧
      later.awarded = [] ∧ later.passes = 1 :=
    ⟨_, _, Prod.ext (by rw [checks, all]; exact collected) rfl, rfl, rfl⟩
  have unexpired : (Progress.start state engine.startsExpired).expired = false := inTime
  have made : engine.process collaborators context candidates state =
      (some cause, later.note [.timed]) := by
    simp only [process, limit, passes, unexpired, Bool.false_eq_true, if_false, pass, checked]
  simp only [made]
  exact ⟨⟨cause, rfl⟩, unawarded, first⟩

/-- The rule that asks for too many visits is one whose check a failure escapes, wherever visits can
be looked up. -/
theorem process_of_busy {state later : σ} {query : Entries} {found : List Fact} {rest : List Rule}
    (least : 0 < engine.maxPasses) (inTime : engine.startsExpired = false)
    (formed : (context.forScope Catalogue.busyRule.scope).queryFor "visit" = .ok query)
    (looked : Requirement.facts collaborators.lookup .event query state = (.answer found, later)) :
    let ended := engine.process collaborators context (Catalogue.busyRule :: rest) state
    (∃ failure, ended.1 = some failure) ∧ ended.2.awarded = [] ∧ ended.2.passes = 1 := by
  have fulfilled : Catalogue.busyRule.isFulfilled collaborators.lookup context state =
      (.failed .tooLongToWrite, later) := by
    change Requirement.evaluateAll collaborators.lookup _ [_] state = _
    rw [Requirement.evaluateAll, Requirement.evaluate_event_of_not_isShort
      DecimalText.isShort_leastBeyond formed looked]
  have checked : Catalogue.busyRule.check collaborators.lookup context state =
      (.failed .tooLongToWrite, later) := by
    simp only [Rule.check, fulfilled]
  have decided : (Catalogue.busyRule.check collaborators.lookup context state).1.IsDecided
      False := by
    rw [checked]
    exact .failed (.tooLong id)
  have judged : Catalogue.busyRule.judge collaborators.lookup engine.retry context state =
      (.escaped .tooLongToWrite, later) := by
    rw [Rule.judge_of_decided engine.retry decided, checked]
    rfl
  refine @process_of_escaped _ _ _ _ _ _ Catalogue.busyRule .tooLongToWrite least inTime ?_
  simp only [judgeAll, judged]
  exact List.mem_cons_self

end Passes

section Writes

/-- The scope under which a rule in force retracts another is that of a rule in force. -/
theorem retractionScope_known {rule : Rule} (member : rule ∈ engine.catalogue.rules)
    (target : String) :
    ∃ held ∈ engine.catalogue.rules, engine.retractionScope rule target = held.scope := by
  unfold retractionScope
  cases found : engine.catalogue.find? target with
  | none => exact ⟨rule, member, rfl⟩
  | some held => exact ⟨held, List.mem_of_find?_eq_some found, rfl⟩

/-- A rule in force is retracted under its own scope, whatever the scope of the rule that replaces
it. -/
theorem retractionScope_of_mem (distinct : engine.catalogue.names.Nodup) {target : Rule}
    (member : target ∈ engine.catalogue.rules) (rule : Rule) :
    engine.retractionScope rule target.name = target.scope := by
  simp only [retractionScope, Catalogue.find?_of_mem distinct member, Option.map_some,
    Option.getD_some]

/-- The scope values of retractions exist exactly when each target's scope resolves. -/
theorem retractions_eq_ok_iff (engine : Engine) (context : Context) (rule : Rule)
    (targets : List String) (values : List (String × Entries)) :
    engine.retractions context rule targets = .ok values ↔
      (∀ target ∈ targets, (context.forScope (engine.retractionScope rule target)).Resolves) ∧
      values = targets.map fun target =>
        (target, (context.forScope (engine.retractionScope rule target)).boundValues) := by
  induction targets generalizing values with
  | nil => simp [retractions, eq_comm]
  | cons target rest inductionHypothesis =>
    by_cases resolves : (context.forScope (engine.retractionScope rule target)).Resolves
    · simp only [retractions, Context.scopeValues_of_resolves resolves, bind, Except.bind,
        List.forall_mem_cons, resolves, true_and, List.map_cons]
      cases found : engine.retractions context rule rest with
      | error failure =>
        have unresolved : ¬ ∀ target ∈ rest,
            (context.forScope (engine.retractionScope rule target)).Resolves := by
          intro all
          rw [(inductionHypothesis _).mpr ⟨all, rfl⟩] at found
          contradiction
        simp [unresolved]
      | ok others =>
        obtain ⟨all, same⟩ := (inductionHypothesis others).mp found
        subst same
        simp only [pure, Except.pure, Except.ok.injEq]
        exact ⟨fun same => ⟨all, same.symm⟩, fun both => both.2.symm⟩
    · have failed : ∀ values,
          (context.forScope (engine.retractionScope rule target)).scopeValues ≠ .ok values :=
        fun values found => resolves ((Context.scopeValues_eq_ok_iff _ values).mp found).1
      cases found : (context.forScope (engine.retractionScope rule target)).scopeValues with
      | ok values => exact absurd found (failed values)
      | error failure => simp [retractions, found, bind, Except.bind, resolves]

/-- The scope values of all writes exist exactly when all scopes resolve. -/
theorem writes_eq_ok_iff (engine : Engine) (context : Context) (rule : Rule) (values : Entries)
    (retractions : List (String × Entries)) :
    engine.writes context rule = .ok (values, retractions) ↔
      (context.forScope rule.scope).Resolves ∧
      values = (context.forScope rule.scope).boundValues ∧
      (∀ target ∈ rule.replaces,
        (context.forScope (engine.retractionScope rule target)).Resolves) ∧
      retractions = rule.replaces.map fun target =>
        (target, (context.forScope (engine.retractionScope rule target)).boundValues) := by
  unfold writes
  cases own : (context.forScope rule.scope).scopeValues with
  | error failure =>
    have unresolved : ¬ (context.forScope rule.scope).Resolves := by
      intro resolves
      rw [Context.scopeValues_of_resolves resolves] at own
      contradiction
    simp [unresolved, bind, Except.bind]
  | ok found =>
    obtain ⟨resolves, rfl⟩ := (Context.scopeValues_eq_ok_iff _ found).mp own
    cases others : engine.retractions context rule rule.replaces with
    | error failure =>
      have unresolved : ¬ ∀ target ∈ rule.replaces,
          (context.forScope (engine.retractionScope rule target)).Resolves := by
        intro all
        rw [(retractions_eq_ok_iff engine context rule _ _).mpr ⟨all, rfl⟩] at others
        contradiction
      simp [unresolved, bind, Except.bind]
    | ok listed =>
      obtain ⟨all, rfl⟩ := (retractions_eq_ok_iff engine context rule _ listed).mp others
      simp only [bind, Except.bind, pure, Except.pure, Except.ok.injEq, Prod.mk.injEq, resolves,
        true_and]
      exact ⟨fun same => ⟨same.1.symm, all, same.2.symm⟩, fun same => ⟨same.1.symm, same.2.2.symm⟩⟩

end Writes

section Attempts

variable {I : σ → Prop} {rule : Rule}

/-- What each retraction preserves, all do, failed or not. -/
theorem retractEach_state {retractions : List (String × Entries)}
    (retracted : ∀ entry ∈ retractions, ∀ state, I state →
      I (collaborators.retractAward context.subject entry.1 entry.2 state).2)
    {progress later : Progress σ} {result : Option Failure}
    (made : retractEach collaborators context rule retractions progress = (result, later))
    (holding : I progress.state) : I later.state := by
  induction retractions generalizing progress with
  | nil =>
    cases made
    exact holding
  | cons first rest inductionHypothesis =>
    obtain ⟨target, values⟩ := first
    obtain ⟨here, further⟩ := List.forall_mem_cons.mp retracted
    have next := here progress.state holding
    unfold retractEach at made
    split at made
    · rename_i failure state called
      cases made
      rw [called] at next
      exact next
    · rename_i state called
      rw [called] at next
      exact inductionHypothesis further made next

/-- What running actions preserves, the actions of a rule do. -/
theorem runActions_state
    (invoked : ∀ run, collaborators.invoke = some run → ∀ actions context state, I state →
      I (run actions context state).2)
    {progress : Progress σ} (holding : I progress.state) :
    I (runActions collaborators context rule progress).state := by
  unfold runActions
  split
  · rename_i first rest run given present
    have next := invoked run present rule.actions (context.forScope rule.scope) progress.state
      holding
    split
    · rename_i later called
      rw [called] at next
      exact next
    · rename_i failure later called
      rw [called] at next
      exact next
  · exact holding

/-- What holds before an attempt holds after it, if the award brings it about, and actions and
the retractions of the rules replaced preserve it.

Proof: the writes of the attempt are made one after the other, and each of them preserves what held
before it, up to the one that fails. -/
theorem attempt_state {progress : Progress σ}
    (recorded : (context.forScope rule.scope).Resolves →
      I (collaborators.recordAward context.subject rule.name
        (context.forScope rule.scope).boundValues progress.state).2)
    (retracted : ∀ target ∈ rule.replaces,
      (context.forScope (engine.retractionScope rule target)).Resolves → ∀ state, I state →
      I (collaborators.retractAward context.subject target
        (context.forScope (engine.retractionScope rule target)).boundValues state).2)
    (invoked : ∀ run, collaborators.invoke = some run → ∀ actions context state, I state →
      I (run actions context state).2)
    (holding : I progress.state) :
    I (engine.attempt collaborators context rule progress).2.state := by
  have awarded : I (engine.award collaborators context rule progress).2.state := by
    unfold award
    split
    · exact holding
    · rename_i values retractions resolved
      obtain ⟨resolves, rfl, allResolve, rfl⟩ :=
        (writes_eq_ok_iff engine context rule _ _).mp resolved
      have written := recorded resolves
      have each : ∀ entry ∈ rule.replaces.map fun target =>
          (target, (context.forScope (engine.retractionScope rule target)).boundValues),
          ∀ state, I state →
            I (collaborators.retractAward context.subject entry.1 entry.2 state).2 := by
        intro entry among
        obtain ⟨target, replaced, rfl⟩ := List.mem_map.mp among
        exact retracted target replaced (allResolve target replaced)
      split
      · rename_i failure later called
        rw [called] at written
        exact written
      · rename_i fact later called
        rw [called] at written
        dsimp only
        split
        · rename_i failure after made
          exact retractEach_state each made written
        · rename_i after made
          exact runActions_state invoked (retractEach_state each made written)
  unfold attempt
  split
  · rename_i failure later made
    rw [made] at awarded
    exact awarded
  · rename_i later made
    rw [made] at awarded
    exact awarded

section Kept

variable {candidates : List Rule}
  (looked : ∀ kind query state, I state → I (collaborators.lookup kind query state).2)
  (attempted : ∀ rule ∈ candidates, ∀ progress : Progress σ, I progress.state →
    I (engine.attempt collaborators context rule progress).2.state)
include looked attempted

/-- What lookups and attempts to award candidates preserve of the state, a pass preserves. -/
theorem pass_state {progress : Progress σ} (kept : I progress.state) :
    I (engine.pass collaborators context candidates progress).2.state := by
  have moves : collaborators.lookup.Moves fun before after => I before → I after :=
    ⟨fun _ => id, fun early late => late ∘ early, looked⟩
  refine pass_induction (I := fun progress => I progress.state)
    (P := fun items progress => (∀ item ∈ items, item.1 ∈ candidates) ∧ I progress.state)
    (fun _ => checks_moves moves) ?_ ?_ ?_ (fun _ _ kept => kept.2) kept
  · intro progress kept complete
    refine ⟨fun item inside => ?_, checks_moves moves kept⟩
    have listed : item.1 ∈ eligible candidates progress :=
      checks_rules complete ▸ List.mem_map.mpr ⟨item, inside, rfl⟩
    exact (List.mem_filter.mp listed).1
  · rintro item rest progress ⟨among, kept⟩
    exact ⟨(List.forall_mem_cons.mp among).2, kept⟩
  · rintro rule outcome rest progress _ _ ⟨among, kept⟩
    obtain ⟨here, further⟩ := List.forall_mem_cons.mp among
    exact ⟨further, attempted rule here progress kept⟩

/-- What lookups and attempts to award candidates preserve of the state, a cycle preserves. -/
theorem process_state {state : σ} (holding : I state) :
    I (engine.process collaborators context candidates state).2.state :=
  process_induction (I := fun progress => I progress.state)
    (fun _ kept => pass_state looked attempted kept) (fun _ _ _ => id) holding

end Kept

/-- If lookups are calm in certain states, and attempts to award candidates keep to such states, a
cycle comes to its end, as far as the candidates are brief. -/
theorem process_endsIfBrief {candidates : List Rule}
    (calm : ∀ state, I state → collaborators.lookup.IsCalm state)
    (texts : AreTexts (Entries.keys context.attributes))
    (attempted : ∀ rule ∈ candidates, ∀ progress : Progress σ, I progress.state →
      I (engine.attempt collaborators context rule progress).2.state)
    {state : σ} (holding : I state) :
    EndsIfBrief context candidates
      (engine.process collaborators context candidates state).1 := by
  have looked : ∀ kind query state, I state → I (collaborators.lookup kind query state).2 :=
    fun kind query state kept => ((calm state kept).still kind query).symm ▸ kept
  have escaping : ∀ progress : Progress σ, I progress.state → ∀ failure,
      (engine.checks collaborators context candidates progress).1 = some failure →
        failure = .tooLongToWrite ∧ ∃ rule ∈ candidates, ¬ rule.IsBrief context := by
    intro progress kept failure escaped
    rcases @checks_of_calm _ _ _ candidates _ engine (calm _ kept) texts with
      ⟨_, _, _, _, checked⟩ | ⟨_, _, ⟨rule, member, overruns⟩, checked⟩
    · rw [checked] at escaped
      contradiction
    · rw [checked] at escaped
      exact ⟨(Option.some.inj escaped).symm, rule, (List.mem_filter.mp member).1,
        overruns.not_isBrief (calm _ kept) texts⟩
  have failed := process_failure (I := fun progress => I progress.state) escaping
    (fun _ kept _ => pass_state looked attempted kept) holding
  cases ended : (engine.process collaborators context candidates state).1 with
  | none => exact .inl rfl
  | some failure =>
    obtain ⟨rfl, long⟩ := failed failure ended
    exact .inr ⟨rfl, long⟩

end Attempts

end Engine

/-- What holds before some visits holds after them, if the preparation of each visit and its cycle
preserve it. -/
theorem Visit.runEach_induction {σ : Type} {collaborators : Collaborators σ}
    {prepare : Visit → σ → σ} {I : σ → Prop} {visits : List Visit}
    (prepared : ∀ visit ∈ visits, ∀ state, I state → I (prepare visit state))
    (processed : ∀ visit ∈ visits, ∀ state, I state →
      I (visit.request.engine.process collaborators visit.request.context visit.request.candidates
        state).2.state)
    {state : σ} (holding : I state) : I (runEach collaborators prepare visits state) := by
  induction visits generalizing state with
  | nil => exact holding
  | cons visit rest inductionHypothesis =>
    obtain ⟨ready, restPrepared⟩ := List.forall_mem_cons.mp prepared
    obtain ⟨kept, restProcessed⟩ := List.forall_mem_cons.mp processed
    exact inductionHypothesis restPrepared restProcessed (kept _ (ready state holding))

end Accolade
