import Mathlib.Data.List.Basic
import Accolade.Metrics
import Accolade.Proofs.Document.Sameness

/-!
# What counters show

A collector counts a happening in certain series, once in each. After some happenings, a series
shows how often they were counted in it, on top of what it showed before. A series that was never
counted in does not exist, and reading it makes none.

Counters are read by their names and labels. The labels of a series are those of its counter, each
with one value, so a counter that is read under given labels is the series of these.
-/

namespace Accolade

/-- The series in which a happening is counted for a service. -/
def Happening.series (service : String) : Happening → List Series
  | .evaluated outcome => [⟨.evaluations, [Metrics.evaluationLabel outcome]⟩]
  | .evaluationFailed _ error => [⟨.errors, [error.code, service]⟩, ⟨.evaluations, ["error"]⟩]
  | .timedOut _ => [⟨.evaluations, ["timeout"]⟩]
  | .awarded rule _ _ => [⟨.awards, [rule]⟩]
  | .replaced rule _ => [⟨.retractions, [rule]⟩]
  | .actionsFailed _ _ => [⟨.errors, ["ACTIONS_ERROR", service]⟩]
  | .awardFailed _ error => [⟨.errors, [error.code, service]⟩]
  | .deadlineReached | .passLimitReached _ | .timed | .completed .. => []

/-- Whether a series has one value for each label of its counter. -/
def Series.IsLabelled (series : Series) : Prop :=
  series.labels.length = series.counter.labels.length

/-- The labels under which a series is read. -/
def Series.entries (series : Series) : Entries :=
  (series.counter.labels.zip series.labels).map fun (label, value) => (.text label, .text value)

/-- Happenings are counted in series that have all their labels. -/
theorem Happening.series_isLabelled (service : String) (happening : Happening) :
    ∀ series ∈ happening.series service, series.IsLabelled := by
  cases happening <;> simp [Happening.series, Series.IsLabelled, Counter.labels]

namespace Metrics

/-- What is read of a series that was counted in so many times, none if it was not. -/
def shown (count : Nat) : Option Nat := if count = 0 then none else some count

/-- Counting in a series raises its count, or begins one, and touches the count of no other series.
-/
theorem count?_addTo (metrics : Metrics) (counted series : Series) (amount : Nat) :
    count? { metrics with counts := addTo metrics.counts counted amount } series =
      if counted = series then some ((metrics.count? series).getD 0 + amount)
      else metrics.count? series := by
  unfold count?
  dsimp only
  induction metrics.counts with
  | nil => by_cases same : counted = series <;> simp [addTo, same]
  | cons entry rest inductionHypothesis =>
    obtain ⟨other, count⟩ := entry
    by_cases here : other = counted
    · subst here
      by_cases same : other = series <;> simp [addTo, same]
    · rw [addTo, if_neg here]
      by_cases same : other = series
      · subst same
        have apart : ¬ counted = other := fun equal => here equal.symm
        simp [apart]
      · simpa [same] using inductionHypothesis

/-- Counting in some series raises the count of each by the number of its occurrences. -/
theorem count?_addEach (counted : List Series) (metrics : Metrics) (series : Series) :
    count? { metrics with
        counts := counted.foldl (fun counts series => addTo counts series 1) metrics.counts }
        series =
      if counted.count series = 0 then metrics.count? series
      else some ((metrics.count? series).getD 0 + counted.count series) := by
  induction counted generalizing metrics with
  | nil => rfl
  | cons first rest inductionHypothesis =>
    have later := inductionHypothesis { metrics with counts := addTo metrics.counts first 1 }
    rw [count?_addTo] at later
    rw [List.foldl_cons, List.count_cons]
    refine later.trans ?_
    by_cases same : first = series
    · subst same
      by_cases none : rest.count first = 0
      · simp [none]
      · simp only [none, if_false, if_true, Option.getD_some, beq_self_eq_true]
        rw [if_neg (by omega)]
        congr 1
        omega
    · simp [same]

/-- Series that are counted in have all their labels if those there were have them. -/
theorem addTo_isLabelled {counts : List (Series × Nat)} {counted : Series} (amount : Nat)
    (labelled : ∀ entry ∈ counts, entry.1.IsLabelled) (own : counted.IsLabelled) :
    ∀ entry ∈ addTo counts counted amount, entry.1.IsLabelled := by
  induction counts with
  | nil => simpa [addTo] using own
  | cons entry rest inductionHypothesis =>
    obtain ⟨here, further⟩ := List.forall_mem_cons.mp labelled
    unfold addTo
    split
    · exact List.forall_mem_cons.mpr ⟨here, further⟩
    · exact List.forall_mem_cons.mpr ⟨here, inductionHypothesis further⟩

/-- Counting any number of series that have the labels of their counters leaves counts of such
series only. -/
theorem addEach_isLabelled {counted : List Series} {counts : List (Series × Nat)}
    (labelled : ∀ entry ∈ counts, entry.1.IsLabelled)
    (each : ∀ series ∈ counted, series.IsLabelled) :
    ∀ entry ∈ counted.foldl (fun counts series => addTo counts series 1) counts,
      entry.1.IsLabelled := by
  induction counted generalizing counts with
  | nil => exact labelled
  | cons first rest inductionHypothesis =>
    obtain ⟨here, further⟩ := List.forall_mem_cons.mp each
    exact inductionHypothesis (addTo_isLabelled 1 labelled here) further

/-- A happening is counted once in each of its series, for the service of the collector. -/
theorem note_counts (metrics : Metrics) (happening : Happening) :
    (metrics.note happening).service = metrics.service ∧
      (metrics.note happening).counts = (happening.series metrics.service.plain).foldl
        (fun counts series => addTo counts series 1) metrics.counts := by
  cases happening <;> exact ⟨rfl, rfl⟩

/-- Noting any number of happenings counts each series of theirs once, in their order. -/
theorem noteAll_counts (metrics : Metrics) (happenings : List Happening) :
    (metrics.noteAll happenings).counts =
      (happenings.flatMap (Happening.series metrics.service.plain)).foldl
        (fun counts series => addTo counts series 1) metrics.counts := by
  induction happenings generalizing metrics with
  | nil => rfl
  | cons happening rest inductionHypothesis =>
    obtain ⟨service, counts⟩ := note_counts metrics happening
    have later := inductionHypothesis (metrics.note happening)
    rw [service, counts] at later
    rw [List.flatMap_cons, List.foldl_append]
    exact later

/-- The sample of a series is the one that is read under the labels of this series. -/
theorem sample_matches {held series : Series} (labelled : held.IsLabelled)
    (own : series.IsLabelled) :
    (held.counter.name == series.counter.name &&
      Value.same (Fields.toValue (held.counter.labels.zip (held.labels.map .text)))
        (.mapping series.entries)) = decide (held = series) := by
  obtain ⟨counter, values⟩ := held
  obtain ⟨other, wanted⟩ := series
  by_cases same : counter = other
  · subst same
    cases counter with
    | errors | businessEvents =>
      obtain ⟨first, second, rfl⟩ := List.length_eq_two.mp labelled
      obtain ⟨one, two, rfl⟩ := List.length_eq_two.mp own
      simp [Series.entries, Counter.labels, Fields.toValue, Value.same, Value.sameEntries,
        Entries.find?]
    | evaluations | awards | retractions =>
      obtain ⟨value, rfl⟩ := List.length_eq_one_iff.mp labelled
      obtain ⟨one, rfl⟩ := List.length_eq_one_iff.mp own
      simp [Series.entries, Counter.labels, Fields.toValue, Value.same, Value.sameEntries,
        Entries.find?]
  · have named : counter.name ≠ other.name := by
      cases counter <;> cases other <;> first | contradiction | decide
    simp [named, same]

/-- Among the samples of counters, the one that is read under the labels of a series has its
count. -/
theorem find?_samples {counts : List (Series × Nat)}
    (labelled : ∀ entry ∈ counts, entry.1.IsLabelled) {series : Series} (own : series.IsLabelled) :
    ((counts.map fun entry => (⟨entry.1.counter.name,
        entry.1.counter.labels.zip (entry.1.labels.map .text), entry.2⟩ : Sample)).find?
      fun sample => sample.name == series.counter.name &&
        Value.same sample.labels.toValue (.mapping series.entries)).map (·.count) =
      (counts.find? fun entry => decide (entry.1 = series)).map Prod.snd := by
  induction counts with
  | nil => rfl
  | cons entry rest inductionHypothesis =>
    obtain ⟨here, further⟩ := List.forall_mem_cons.mp labelled
    rw [List.map_cons, List.find?_cons, List.find?_cons]
    dsimp only
    rw [sample_matches here own]
    cases decide (entry.1 = series) with
    | true => rfl
    | false => exact inductionHypothesis further

/-- A counter that is read under the labels of a series shows the count of the series. -/
theorem get?_entries {metrics : Metrics} (labelled : ∀ entry ∈ metrics.counts, entry.1.IsLabelled)
    {series : Series} (own : series.IsLabelled) :
    metrics.get? series.counter.name series.entries = metrics.count? series := by
  have described : (serviceInfoName ++ "_info" == series.counter.name) = false := by
    cases series.counter <;> decide
  have timed : (durationName ++ "_count" == series.counter.name) = false := by
    cases series.counter <;> decide
  unfold get? count?
  rw [← find?_samples labelled own]
  simp [serviceInfo, samples, described, timed]

/-- A collector that has counted some happenings, and nothing before, shows in each series how often
they were counted in it. -/
theorem get?_noteAll (service : Value) (happenings : List Happening) {series : Series}
    (own : series.IsLabelled) :
    ((Metrics.of service).noteAll happenings).get? series.counter.name series.entries =
      shown ((happenings.flatMap (Happening.series service.plain)).count series) := by
  have counted : ((Metrics.of service).noteAll happenings).counts =
      (happenings.flatMap (Happening.series service.plain)).foldl
        (fun counts series => addTo counts series 1) [] := noteAll_counts _ happenings
  have raised := count?_addEach (happenings.flatMap (Happening.series service.plain))
    (Metrics.of service) series
  have labelled : ∀ entry ∈ ((Metrics.of service).noteAll happenings).counts,
      entry.1.IsLabelled := by
    rw [counted]
    exact addEach_isLabelled (by simp)
      (List.forall_mem_flatMap.mpr fun happening _ => happening.series_isLabelled service.plain)
  rw [get?_entries labelled own]
  calc ((Metrics.of service).noteAll happenings).count? series
      = count? { Metrics.of service with
          counts := ((Metrics.of service).noteAll happenings).counts } series := rfl
    _ = shown ((happenings.flatMap (Happening.series service.plain)).count series) := by
        rw [counted]
        refine raised.trans ?_
        simp [shown, count?, Metrics.of]

end Metrics

end Accolade
