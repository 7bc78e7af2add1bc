import Accolade.Proofs.Cycle.Tracing
import Accolade.Proofs.Metrics

/-!
# The balance of counts

The metrics of a cycle are counted where things come about, its result is put together elsewhere: a
rule is counted when it is checked, and its outcome may take the error of an award later on. An
award is counted when it is recorded, although it may break off at a retraction after that, and a
run of actions that fails is counted, yet changes no outcome.

What holds at every step is a balance. What happened so far is counted in certain series; awards,
retractions, outcomes and failed runs of actions account for some of these. An attempt that fails is
ahead by the error that it is going to put on the outcome, the checks of a pass by the outcomes that
they found, and nothing else is ever ahead.
-/

namespace Accolade

namespace Outcome

/-- The name under which an outcome is counted. An error only counts here if the rule was not found
fulfilled. -/
def label (outcome : Outcome) : String :=
  if outcome.timedOut then "timeout"
  else if outcome.fulfilled then (if outcome.awardable then "awardable" else "capped")
  else if outcome.error.isSome then "error"
  else "unfulfilled"

/-- The series that an outcome accounts for. -/
def series (service : String) (outcome : Outcome) : List Series :=
  ⟨.evaluations, [outcome.label]⟩ ::
    outcome.error.toList.map fun error => ⟨.errors, [error.code, service]⟩

end Outcome

/-- Whether a call is a run of actions that failed. -/
def Call.isFailedRun : Call → Bool
  | .actions (some _) => true
  | _ => false

/-- The series that a call accounts for. -/
def Call.series (service : String) (call : Call) : List Series :=
  if call.isFailedRun then [⟨.errors, ["ACTIONS_ERROR", service]⟩] else []

variable {σ : Type}

/-- The series that a cycle accounts for by what it reports and by its calls, its outcomes left
out. -/
def Progress.accounted (service : String) (progress : Progress (σ × List Call)) : List Series :=
  progress.awarded.map (⟨.awards, [·]⟩) ++ progress.retracted.map (⟨.retractions, [·]⟩) ++
    progress.state.2.flatMap (Call.series service)

/-- How often a cycle was counted in a series beyond what it accounts for. -/
def Progress.ahead (service : String) (series : Series) (progress : Progress (σ × List Call)) :
    Int :=
  (progress.happenings.flatMap (Happening.series service)).count series -
    (progress.accounted service).count series

namespace Engine

variable (service : String) (series : Series) (collaborators : Collaborators σ) (context : Context)
  (rule : Rule)

/-- Calls of the award writer are no runs of actions, so they count in no series of errors. -/
theorem traced_writes (subject : Value) (name : String) (scope : Entries)
    (state : σ × List Call) :
    (collaborators.traced.recordAward subject name scope state).2.2.flatMap (Call.series service) =
        state.2.flatMap (Call.series service) ∧
      (collaborators.traced.retractAward subject name scope state).2.2.flatMap
        (Call.series service) = state.2.flatMap (Call.series service) := by
  constructor <;> simp [Collaborators.traced, Call.series, Call.isFailedRun]

/-- Retractions are counted as they are reported, so they leave the two sides of the balance as far
apart as before. -/
theorem retractEach_ahead (retractions : List (String × Entries))
    (progress : Progress (σ × List Call)) :
    (retractEach collaborators.traced context rule retractions progress).2.ahead service series =
      progress.ahead service series := by
  induction retractions generalizing progress with
  | nil => rfl
  | cons entry rest inductionHypothesis =>
    obtain ⟨target, values⟩ := entry
    have unseen := (traced_writes service collaborators context.subject target values
      progress.state).2
    unfold retractEach
    split
    · rename_i failure state called
      rw [called] at unseen
      simp only [Progress.ahead, Progress.accounted, unseen]
    · rename_i state called
      rw [called] at unseen
      rw [inductionHypothesis]
      simp only [Progress.ahead, Progress.accounted, unseen, List.flatMap_append, List.map_append,
        List.count_append, List.flatMap_singleton, Happening.series, List.map_singleton]
      omega

/-- A run of actions is counted exactly if it fails, as its call accounts for it. -/
theorem runActions_ahead (progress : Progress (σ × List Call)) :
    (runActions collaborators.traced context rule progress).ahead service series =
      progress.ahead service series := by
  unfold runActions
  split
  · rename_i action more run actions present
    simp only [Collaborators.traced, Option.map_eq_some_iff] at present
    obtain ⟨inner, _, rfl⟩ := present
    dsimp only
    cases inner rule.actions (context.forScope rule.scope) progress.state.1 with
    | mk outcome later =>
      cases outcome with
      | ok _ =>
        simp [Progress.ahead, Progress.accounted, Call.series, Call.isFailedRun, Call.failureOf]
      | error failure =>
        simp only [Progress.ahead, Progress.accounted, List.flatMap_append, List.count_append,
          List.flatMap_singleton, Happening.series, Call.series, Call.isFailedRun, Call.failureOf,
          if_true]
        omega
  · rfl

variable (engine : Engine)

/-- An award is counted as it is reported, whether or not it breaks off after that. -/
theorem award_ahead (progress : Progress (σ × List Call)) :
    (engine.award collaborators.traced context rule progress).2.ahead service series =
      progress.ahead service series := by
  rcases award_cases collaborators.traced context rule progress engine with
    ⟨failure, _, made⟩ | ⟨values, retractions, _, ⟨failure, state, refused, made⟩ |
      ⟨fact, state, broken, later, recorded, retracting, made⟩⟩
  · rw [made]
  · have unseen := (traced_writes service collaborators context.subject rule.name values
      progress.state).1
    rw [refused] at unseen
    rw [made]
    simp only [Progress.ahead, Progress.accounted, unseen]
  · have unseen := (traced_writes service collaborators context.subject rule.name values
      progress.state).1
    rw [recorded] at unseen
    have begun : (progress.withAward rule fact state).ahead service series =
        progress.ahead service series := by
      simp only [Progress.ahead, Progress.accounted, Progress.withAward, unseen,
        List.flatMap_append, List.map_append, List.count_append, List.flatMap_singleton,
        Happening.series, List.map_singleton]
      omega
    have retracted := retractEach_ahead service series collaborators context rule retractions
      (progress.withAward rule fact state)
    rw [retracting] at retracted
    rw [made]
    dsimp only
    split
    · exact retracted.trans begun
    · rw [runActions_ahead]
      exact retracted.trans begun

/-- An attempt that fails is ahead by its error, which its outcome has yet to report. -/
theorem attempt_ahead (progress : Progress (σ × List Call)) :
    (engine.attempt collaborators.traced context rule progress).2.ahead service series =
      progress.ahead service series +
        ((engine.attempt collaborators.traced context rule progress).1.toList.map
          fun error => (⟨.errors, [error.code, service]⟩ : Series)).count series := by
  have awarded := award_ahead service series collaborators context rule engine progress
  unfold attempt
  cases made : engine.award collaborators.traced context rule progress with
  | mk broken later =>
    rw [made] at awarded
    cases broken with
    | none =>
      rw [← awarded]
      simp [Progress.ahead, Progress.accounted]
    | some failure =>
      rw [← awarded]
      simp only [Progress.ahead, Progress.accounted, List.flatMap_append, List.count_append,
        List.flatMap_singleton, Happening.series, Option.toList_some, List.map_singleton]
      omega

/-- The error of an attempt is one more series of an outcome that was to be awarded. -/
theorem series_withError {outcome : Outcome} (chosen : outcome.shouldAward = true)
    (error : Diagnosis) :
    (({ outcome with error := some error } : Outcome).series service).count series =
      (outcome.series service).count series +
        [(⟨.errors, [error.code, service]⟩ : Series)].count series := by
  simp only [Outcome.shouldAward, Bool.and_eq_true, Option.isNone_iff_eq_none] at chosen
  obtain ⟨⟨fulfilled, awardable⟩, none⟩ := chosen
  simp only [Outcome.series, Outcome.label, fulfilled, awardable, none, Option.toList_none,
    Option.toList_some, List.map_nil, List.map_singleton, if_true, List.count_cons, List.count_nil]
  omega

/-- After the awards of a pass, what is counted beyond the outcomes is what it was before. -/
theorem awardEach_ahead (items : List (Rule × Outcome)) (progress : Progress (σ × List Call)) :
    (engine.awardEach collaborators.traced context items progress).2.2.ahead service series +
        (items.flatMap fun item => item.2.series service).count series =
      progress.ahead service series +
        ((engine.awardEach collaborators.traced context items progress).1.flatMap
          (Outcome.series service)).count series := by
  induction items generalizing progress with
  | nil => rfl
  | cons item rest inductionHypothesis =>
    rw [awardEach_cons]
    dsimp only
    have further := inductionHypothesis
      (engine.awardItem collaborators.traced context item progress).2.2
    have own : (engine.awardItem collaborators.traced context item progress).2.2.ahead service
          series + (item.2.series service).count series =
        progress.ahead service series +
          ((engine.awardItem collaborators.traced context item progress).1.series service).count
            series := by
      have tried := attempt_ahead service series collaborators context item.1 engine progress
      rcases awardItem_cases engine collaborators.traced context item progress with
        ⟨_, made⟩ | ⟨chosen, _, ⟨error, later, attempted, made⟩ | ⟨later, attempted, made⟩⟩
      · rw [made]
      · rw [attempted] at tried
        rw [made]
        dsimp only
        rw [series_withError service series chosen error]
        simp only [Option.toList_some, List.map_singleton] at tried
        omega
      · rw [attempted] at tried
        rw [made]
        simpa using tried
    simp only [List.flatMap_cons, List.count_append]
    omega

/-- A verdict that was judged is noted in the series that its outcome accounts for. -/
theorem judged_series {name : String} {ending : Ending (Bool × Bool)} {outcome : Outcome}
    (judged : Verdict.ofEnding name ending = .judged outcome) :
    ((Verdict.judged outcome).happenings.flatMap (Happening.series service)).count series =
      (outcome.series service).count series := by
  rcases Verdict.ofEnding_judged judged with ⟨fulfilled, awardable, rfl⟩ | ⟨error, rfl⟩
  · cases fulfilled <;> cases awardable <;> rfl
  · simp only [Verdict.happenings, Outcome.failed, List.flatMap_singleton, Happening.series,
      Outcome.series, Outcome.label, Option.toList_some, List.map_singleton, List.count_cons,
      List.count_nil]
    simp
    omega

/-- Verdicts that let no failure escape are noted in the series that their outcomes account for. -/
theorem collect_series {verdicts : List (Rule × Verdict)}
    (made : ∀ item ∈ verdicts, ∃ ending, item.2 = Verdict.ofEnding item.1.name ending)
    (complete : (collect verdicts).1 = none) :
    (((verdicts.flatMap fun item => item.2.happenings) ++ (collect verdicts).2.2).flatMap
        (Happening.series service)).count series =
      ((collect verdicts).2.1.flatMap fun item => item.2.series service).count series := by
  fun_induction collect verdicts with
  | case1 => rfl
  | case2 rule outcome rest escaped outcomes late collected inductionHypothesis =>
    rw [collected] at inductionHypothesis
    obtain ⟨⟨ending, judged⟩, others⟩ := List.forall_mem_cons.mp made
    have further := inductionHypothesis others complete
    have own := judged_series service series judged.symm
    simp only [List.flatMap_cons, List.flatMap_append, List.count_append] at further own ⊢
    omega
  | case3 rule rest escaped outcomes late collected inductionHypothesis =>
    rw [collected] at inductionHypothesis
    have further := inductionHypothesis (List.forall_mem_cons.mp made).2 complete
    have own : Outcome.series service (.late rule.name) = Happening.series service
        (.timedOut rule.name) := rfl
    simp only [List.flatMap_cons, List.flatMap_append, List.count_append, Verdict.happenings,
      List.nil_append, own] at further ⊢
    omega
  | case4 => contradiction

/-- The checks of a pass are ahead by the outcomes that they found. -/
theorem checks_ahead (candidates : List Rule) (progress : Progress (σ × List Call))
    (complete : (engine.checks collaborators.traced context candidates progress).1 = none) :
    (engine.checks collaborators.traced context candidates progress).2.2.ahead service series =
      progress.ahead service series +
        ((engine.checks collaborators.traced context candidates progress).2.1.flatMap
          fun item => item.2.series service).count series := by
  have moves : collaborators.traced.lookup.Moves fun before after =>
      after.2.flatMap (Call.series service) = before.2.flatMap (Call.series service) :=
    ⟨fun _ => rfl, fun early late => late.trans early, fun _ _ _ => by
      simp [Collaborators.traced, Lookup.traced, Call.series, Call.isFailedRun]⟩
  have unseen : (engine.checks collaborators.traced context candidates
      progress).2.2.state.2.flatMap (Call.series service) =
        progress.state.2.flatMap (Call.series service) := checks_moves moves
  cases judged : engine.judgeAll collaborators.traced.lookup context (eligible candidates progress)
    progress.state with
  | mk verdicts state =>
    have made : ∀ item ∈ verdicts, ∃ ending, item.2 = Verdict.ofEnding item.1.name ending := by
      rintro ⟨rule, verdict⟩ member
      have inside : (rule, verdict) ∈ (engine.judgeAll collaborators.traced.lookup context
          (eligible candidates progress) progress.state).1 := by
        rw [judged]
        exact member
      obtain ⟨later, _, reached⟩ := judgeAll_member moves engine context inside
      obtain ⟨ending, verdictOf⟩ := rule.judge_ofEnding collaborators.traced.lookup engine.retry
        context later
      exact ⟨ending, reached.symm.trans verdictOf⟩
    cases collected : collect verdicts with
    | mk escaped rest =>
      obtain ⟨outcomes, late⟩ := rest
      simp only [checks, judged, collected] at complete unseen ⊢
      have counted := collect_series service series made (collected ▸ complete)
      simp only [collected] at counted
      simp only [Progress.ahead, Progress.accounted, unseen, List.append_assoc,
        List.flatMap_append, List.count_append] at counted ⊢
      omega

/-- Whether a cycle is ahead by its outcomes and nothing else. -/
def Balanced (progress : Progress (σ × List Call)) : Prop :=
  progress.ahead service series = (progress.outcomes.flatMap (Outcome.series service)).count series

/-- A pass that no failure leaves keeps the balance: each outcome reports the evaluation and the
error that were counted for it. -/
theorem pass_balanced {candidates : List Rule} {progress : Progress (σ × List Call)}
    (balanced : Balanced service series progress)
    (complete : (engine.checks collaborators.traced context candidates progress).1 = none) :
    Balanced service series
      (engine.pass collaborators.traced context candidates progress).2 := by
  have checked := checks_ahead service series collaborators context engine candidates progress
    complete
  unfold pass
  split
  · rename_i failure items later made
    rw [made] at complete
    contradiction
  · rename_i items later made
    rw [made] at checked
    have awarded := awardEach_ahead service series collaborators context engine items later
    have told : (engine.awardEach collaborators.traced context items later).2.2.outcomes =
        later.outcomes := (awardEach_frame items later).1
    have kept : (engine.checks collaborators.traced context candidates progress).2.2.outcomes =
        progress.outcomes := rfl
    rw [made] at kept
    cases dealt : engine.awardEach collaborators.traced context items later with
    | mk outcomes rest =>
      obtain ⟨count, ended⟩ := rest
      rw [dealt] at awarded told
      unfold Balanced at balanced ⊢
      dsimp only at awarded told checked kept ⊢
      have same : Progress.ahead service series
          { ended with outcomes := ended.outcomes ++ outcomes } = ended.ahead service series := rfl
      rw [same, told, kept, List.flatMap_append, List.count_append]
      omega

variable {engine}

/-- A cycle that comes to its end is balanced: nothing it has written, looked up or evaluated is
left uncounted. -/
theorem process_balanced {candidates : List Rule} {state : σ}
    (returns : (engine.process collaborators.traced context candidates (state, [])).1 = none) :
    Balanced service series
      (engine.process collaborators.traced context candidates (state, [])).2 := by
  refine process_returned (I := Balanced service series)
    (fun progress balanced => pass_balanced service series collaborators context engine balanced)
    (fun progress happenings closing balanced => ?_) ?_ returns
  · have silent : ∀ happening ∈ happenings, Happening.series service happening = [] := by
      intro happening member
      have closes := closing happening member
      cases happening <;> first | rfl | contradiction
    have unseen : happenings.flatMap (Happening.series service) = [] :=
      List.flatMap_eq_nil_iff.mpr silent
    unfold Balanced Progress.ahead at *
    simpa [Progress.note, Progress.accounted, unseen] using balanced
  · simp [Balanced, Progress.ahead, Progress.accounted, Progress.start]

end Engine

end Accolade
