import Mathlib.Data.List.Count
import Accolade.Fact.Stores
import Accolade.Proofs.Cycle.Tallies

/-!
# Metrics and the result of a cycle

The metrics of a cycle show what its result tells, wherever calls of its collaborators fail: awards
and retractions by rule, outcomes by the name under which their rules were counted, and errors by
code. An error under the code of actions may also come of a run of actions, which the result keeps
apart from the outcomes.

For every counter there is but one part of the result that accounts for it, errors excepted.
Whatever is awarded or retracted counts for no evaluation, and no outcome counts for an award.
-/

namespace Accolade

variable {σ : Type}

/-- Series of one counter are no series of another one, whatever their labels. -/
theorem Series.count_other {listed : List Series} {own counter : Counter}
    (each : ∀ series ∈ listed, series.counter = own) (other : own ≠ counter)
    (labels : List String) : listed.count ⟨counter, labels⟩ = 0 :=
  List.count_eq_zero.mpr fun member => other (each _ member).symm

/-- A series for each of some names counts for a name as often as the name is there. -/
theorem Series.count_named (counter : Counter) (names : List String) (name : String) :
    (names.map fun named => (⟨counter, [named]⟩ : Series)).count ⟨counter, [name]⟩ =
      names.count name :=
  List.count_map_of_injective names (fun named => (⟨counter, [named]⟩ : Series))
    (fun _ _ same => by simpa using same) name

/-- Series of one counter account for nothing under another counter. -/
theorem Series.count_named_other {own counter : Counter} (other : own ≠ counter)
    (names labels : List String) :
    (names.map fun named => (⟨own, [named]⟩ : Series)).count ⟨counter, labels⟩ = 0 :=
  Series.count_other (by simp) other labels

/-- Outcomes account for evaluations and errors only, so they raise no other counter. -/
theorem Outcome.count_other {counter : Counter} (evaluated : counter ≠ .evaluations)
    (erred : counter ≠ .errors) (service : String) (outcomes : List Outcome)
    (labels : List String) :
    (outcomes.flatMap (Outcome.series service)).count ⟨counter, labels⟩ = 0 := by
  apply List.count_eq_zero.mpr
  simp only [List.mem_flatMap, Outcome.series, List.mem_cons, List.mem_map]
  rintro ⟨outcome, _, same | ⟨error, _, same⟩⟩
  · exact evaluated (congrArg Series.counter same)
  · exact erred (congrArg Series.counter same).symm

/-- Calls account for errors only, those of failed runs of actions. -/
theorem Call.series_counter (service : String) (calls : List Call) :
    ∀ series ∈ calls.flatMap (Call.series service), series.counter = .errors := by
  simp only [List.mem_flatMap, Call.series]
  rintro series ⟨call, _, member⟩
  split at member
  · rw [List.mem_singleton.mp member]
  · contradiction

/-- Outcomes account for one evaluation each, under the label of their result. -/
theorem Outcome.count_evaluations (service label : String) (outcomes : List Outcome) :
    (outcomes.flatMap (Outcome.series service)).count ⟨.evaluations, [label]⟩ =
      outcomes.countP fun outcome => outcome.label == label := by
  induction outcomes with
  | nil => rfl
  | cons outcome rest inductionHypothesis =>
    have noError : (outcome.error.toList.map fun error =>
        (⟨.errors, [error.code, service]⟩ : Series)).count ⟨.evaluations, [label]⟩ = 0 :=
      @Series.count_other _ .errors _ (by simp) (by decide) _
    rw [List.flatMap_cons, List.count_append, inductionHypothesis, List.countP_cons,
      Outcome.series, List.count_cons, noError]
    by_cases named : outcome.label = label <;> simp [named, Nat.add_comm]

/-- Outcomes account for errors under a code as often as they have an error of that code. -/
theorem Outcome.count_errors (service code : String) (outcomes : List Outcome) :
    (outcomes.flatMap (Outcome.series service)).count ⟨.errors, [code, service]⟩ =
      outcomes.countP fun outcome => outcome.error.any fun error => error.code == code := by
  induction outcomes with
  | nil => rfl
  | cons outcome rest inductionHypothesis =>
    rw [List.flatMap_cons, List.count_append, inductionHypothesis, List.countP_cons,
      Outcome.series, List.count_cons]
    cases outcome.error with
    | none => simp
    | some error => by_cases coded : error.code = code <;> simp [coded, Nat.add_comm]

/-- Runs of actions that failed account for errors under their own code. -/
theorem Call.count_errors (service code : String) (calls : List Call) :
    (calls.flatMap (Call.series service)).count ⟨.errors, [code, service]⟩ =
      if code = "ACTIONS_ERROR" then calls.countP Call.isFailedRun else 0 := by
  induction calls with
  | nil => simp
  | cons call rest inductionHypothesis =>
    rw [List.flatMap_cons, List.count_append, inductionHypothesis, List.countP_cons, Call.series]
    by_cases failed : call.isFailedRun = true <;> by_cases coded : code = "ACTIONS_ERROR"
    · simp [failed, coded, Nat.add_comm]
    · have apart : ¬ "ACTIONS_ERROR" = code := fun same => coded same.symm
      simp [failed, coded, apart]
    · simp [failed, coded]
    · simp [failed, coded]

/-- Whether a collector shows, under the name of a service, what the result of a cycle tells, and
beside the errors of outcomes the number of runs of actions that failed. -/
structure Metrics.Shows (metrics : Metrics) (service : String) (result : Progress σ)
    (failedRuns : Nat) : Prop where
  awards : ∀ rule, metrics.get? "awards_total" [(.text "rule", .text rule)] =
    shown (result.awarded.count rule)
  retractions : ∀ rule, metrics.get? "retractions_total" [(.text "rule", .text rule)] =
    shown (result.retracted.count rule)
  awardable : metrics.get? "rule_evaluations_total" [(.text "outcome", .text "awardable")] =
    shown (result.outcomes.countP fun outcome => outcome.fulfilled && outcome.awardable)
  capped : metrics.get? "rule_evaluations_total" [(.text "outcome", .text "capped")] =
    shown (result.outcomes.countP fun outcome => outcome.fulfilled && !outcome.awardable)
  unfulfilled : metrics.get? "rule_evaluations_total" [(.text "outcome", .text "unfulfilled")] =
    shown (result.outcomes.countP fun outcome => !outcome.fulfilled && outcome.error.isNone)
  failed : metrics.get? "rule_evaluations_total" [(.text "outcome", .text "error")] =
    shown (result.outcomes.countP fun outcome => !outcome.fulfilled && outcome.error.isSome)
  errors : ∀ code, metrics.get? "errors_total"
      [(.text "error_type", .text code), (.text "service", .text service)] =
    shown ((result.outcomes.countP fun outcome =>
        outcome.error.any fun error => error.code == code) +
      if code = "ACTIONS_ERROR" then failedRuns else 0)

namespace Engine

section Counts

variable {service : String} {progress : Progress (σ × List Call)}
  (balanced : ∀ series, Balanced service series progress)
include balanced

/-- What a balanced cycle was counted in is what it accounts for. -/
theorem count_of_balanced (series : Series) :
    (progress.happenings.flatMap (Happening.series service)).count series =
      (progress.awarded.map (⟨.awards, [·]⟩)).count series +
        (progress.retracted.map (⟨.retractions, [·]⟩)).count series +
        (progress.state.2.flatMap (Call.series service)).count series +
        (progress.outcomes.flatMap (Outcome.series service)).count series := by
  have equal := balanced series
  simp only [Balanced, Progress.ahead, Progress.accounted, List.count_append] at equal
  omega

/-- A balanced cycle was counted in awards as often as it reports them. -/
theorem count_awards (rule : String) :
    (progress.happenings.flatMap (Happening.series service)).count ⟨.awards, [rule]⟩ =
      progress.awarded.count rule := by
  rw [count_of_balanced balanced, Series.count_named, Series.count_named_other (by decide),
    Series.count_other (Call.series_counter service _) (by decide),
    Outcome.count_other (by decide) (by decide)]
  omega

/-- A balanced cycle was counted in retractions as often as it reports them. -/
theorem count_retractions (rule : String) :
    (progress.happenings.flatMap (Happening.series service)).count ⟨.retractions, [rule]⟩ =
      progress.retracted.count rule := by
  rw [count_of_balanced balanced, Series.count_named_other (by decide), Series.count_named,
    Series.count_other (Call.series_counter service _) (by decide),
    Outcome.count_other (by decide) (by decide)]
  omega

/-- A balanced cycle was counted in evaluations under a label as often as it reports outcomes with
that label. -/
theorem count_evaluations (label : String) :
    (progress.happenings.flatMap (Happening.series service)).count ⟨.evaluations, [label]⟩ =
      progress.outcomes.countP fun outcome => outcome.label == label := by
  rw [count_of_balanced balanced, Series.count_named_other (by decide),
    Series.count_named_other (by decide), Outcome.count_evaluations,
    Series.count_other (Call.series_counter service _) (by decide)]
  omega

/-- A balanced cycle was counted in errors under a code as often as its outcomes have an error of
that code, and as often as runs of actions failed where the code is that of actions. -/
theorem count_errors (code : String) :
    (progress.happenings.flatMap (Happening.series service)).count ⟨.errors, [code, service]⟩ =
      (progress.outcomes.countP fun outcome =>
          outcome.error.any fun error => error.code == code) +
        if code = "ACTIONS_ERROR" then progress.state.2.countP Call.isFailedRun else 0 := by
  rw [count_of_balanced balanced, Series.count_named_other (by decide),
    Series.count_named_other (by decide), Call.count_errors, Outcome.count_errors]
  omega

end Counts

/-- A balanced cycle in which no check is late is shown by what has counted its happenings. -/
theorem shows_of_balanced (service : Value) {progress : Progress (σ × List Call)}
    (balanced : ∀ series, Balanced service.plain series progress)
    (inTime : ∀ outcome ∈ progress.outcomes, outcome.timedOut = false) :
    ((Metrics.of service).noteAll progress.happenings).Shows service.plain progress
      (progress.state.2.countP Call.isFailedRun) := by
  have read : ∀ series : Series, series.IsLabelled → ∀ count,
      (progress.happenings.flatMap (Happening.series service.plain)).count series = count →
      ((Metrics.of service).noteAll progress.happenings).get? series.counter.name
        series.entries = Metrics.shown count := by
    rintro series labelled _ rfl
    exact Metrics.get?_noteAll service progress.happenings labelled
  have evaluated : ∀ (label : String) (isSo : Outcome → Bool),
      (∀ outcome : Outcome, outcome.timedOut = false →
        (outcome.label = label ↔ isSo outcome = true)) →
      ((Metrics.of service).noteAll progress.happenings).get? "rule_evaluations_total"
        [(.text "outcome", .text label)] = Metrics.shown (progress.outcomes.countP isSo) := by
    intro label isSo named
    refine read ⟨.evaluations, [label]⟩ rfl _ ((count_evaluations balanced label).trans ?_)
    exact List.countP_congr fun outcome member => by
      simpa using named outcome (inTime outcome member)
  refine ⟨fun rule => ?awards, fun rule => ?retractions, evaluated _ _ ?_, evaluated _ _ ?_,
    evaluated _ _ ?_, evaluated _ _ ?_, fun code => ?errors⟩
  case awards => exact read ⟨.awards, [rule]⟩ rfl _ (count_awards balanced rule)
  case retractions => exact read ⟨.retractions, [rule]⟩ rfl _ (count_retractions balanced rule)
  case errors => exact read ⟨.errors, [code, service.plain]⟩ rfl _ (count_errors balanced code)
  -- an outcome that is not late has one of four names, by what was found and whether that failed
  all_goals
    intro outcome early
    cases found : outcome.fulfilled <;> cases below : outcome.awardable <;>
      cases erred : outcome.error <;> simp [Outcome.label, early, found, below, erred]

/-- A cycle that comes to its end while no check is late, whichever calls of its collaborators fail,
is shown by a collector that has counted its happenings and nothing before. Its failed runs of
actions are those in its trace. Without a time limit no cycle that comes to its end has a late
check: a check is late only if it hangs, and one that hangs would then never be given up. -/
theorem process_metered (service : Value) (engine : Engine) (collaborators : Collaborators σ)
    (context : Context) (candidates : List Rule) (state : σ)
    (returns : (engine.process collaborators context candidates state).1 = none)
    (inTime : (engine.process collaborators context candidates state).2.timedOut = []) :
    ((Metrics.of service).noteAll
        (engine.process collaborators context candidates state).2.happenings).Shows service.plain
      (engine.process collaborators context candidates state).2
      ((engine.process collaborators.traced context candidates
        (state, [])).2.state.2.countP Call.isFailedRun) := by
  obtain ⟨ends, copied⟩ := process_copy engine context collaborators.traced_isCopy candidates
    (state, [])
  have balanced := fun series => process_balanced service.plain series collaborators context
    (ends.symm.trans returns)
  unfold Progress.IsCopy at copied
  rw [copied] at inTime ⊢
  have early : ∀ outcome ∈ (engine.process collaborators.traced context candidates
      (state, [])).2.outcomes, outcome.timedOut = false := by
    simpa [Progress.timedOut] using inTime
  have shown := shows_of_balanced service balanced early
  exact ⟨shown.awards, shown.retractions, shown.awardable, shown.capped, shown.unfulfilled,
    shown.failed, shown.errors⟩

/-- An engine over a rule that has actions and a rule that replaces another. -/
def busyEngine : Engine :=
  ⟨⟨[⟨"Loud", .allOf [], [], 1, ["user_id"], [.text "notify"], false⟩,
    ⟨"New", .allOf [], ["Old"], 1, ["user_id"], [], false⟩,
    ⟨"Old", .allOf [], [], 1, ["user_id"], [], false⟩]⟩, 10, none, none⟩

/-- Stores whose fifth and seventh calls fail. -/
def unreliableStores : Collaborators (Stores × Nat) :=
  (Stores.collaborators true).disturbed fun call =>
    if call = 4 ∨ call = 6 then some (.foreign "lost") else none

/-- In a cycle on these, the actions of one rule fail and the award of another breaks off at its
retraction. Both are counted as errors, and all three awards as awards. -/
theorem busy_metered :
    let ran := busyEngine.process unreliableStores (Context.of (.text "u") [] defaultScope)
      busyEngine.catalogue.rules (Stores.of [] [] [], 0)
    ran.1 = none ∧ ran.2.timedOut = [] ∧ ran.2.awarded = ["Loud", "New", "Old"] ∧
      ran.2.retracted = [] ∧
      ((Metrics.of (.text "achievements")).noteAll ran.2.happenings).Shows "achievements" ran.2
        1 := by
  have returns : (busyEngine.process unreliableStores (Context.of (.text "u") [] defaultScope)
      busyEngine.catalogue.rules (Stores.of [] [] [], 0)).1 = none :=
    Option.isNone_iff_eq_none.mp (by decide +kernel)
  have inTime : (busyEngine.process unreliableStores (Context.of (.text "u") [] defaultScope)
      busyEngine.catalogue.rules (Stores.of [] [] [], 0)).2.timedOut = [] := by decide +kernel
  have failedRuns : (busyEngine.process unreliableStores.traced
      (Context.of (.text "u") [] defaultScope) busyEngine.catalogue.rules
      ((Stores.of [] [] [], 0), [])).2.state.2.countP Call.isFailedRun = 1 := by decide +kernel
  have shown :=
    process_metered (.text "achievements") busyEngine unreliableStores _ _ _ returns inTime
  rw [failedRuns] at shown
  exact ⟨returns, inTime, by decide +kernel, by decide +kernel, shown⟩

end Engine

end Accolade
