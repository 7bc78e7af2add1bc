import Accolade.Cycle.Outcome
import Accolade.Document.Sameness
import Accolade.Document.Written

/-!
# Metrics

A collector counts: errors and business events by service, rule evaluations by outcome,
awards and retractions by rule, and processing cycles that were timed. A counter exists
once it was used under its labels. Reading a counter never makes one.

What a cycle adds is read off its happenings, one by one.
-/

namespace Accolade

/-- The labelled counters. -/
inductive Counter
  | errors | businessEvents | evaluations | awards | retractions
  deriving DecidableEq, Repr

namespace Counter

def name : Counter → String
  | .errors => "errors_total"
  | .businessEvents => "business_events_total"
  | .evaluations => "rule_evaluations_total"
  | .awards => "awards_total"
  | .retractions => "retractions_total"

/-- The labels of a counter, in order. -/
def labels : Counter → List String
  | .errors => ["error_type", "service"]
  | .businessEvents => ["event_type", "service"]
  | .evaluations => ["outcome"]
  | .awards => ["rule"]
  | .retractions => ["rule"]

def all : List Counter := [.errors, .businessEvents, .evaluations, .awards, .retractions]

end Counter

/-- A counter under the values of its labels. -/
structure Series where
  counter : Counter
  labels : List String
  deriving DecidableEq, Repr

/-- The counts of one service. -/
structure Metrics where
  service : Value
  counts : List (Series × Nat)
  /-- how many cycles were timed -/
  timings : Nat
  deriving Repr

/-- The name of the histogram of cycles, and of its count. -/
def durationName : String := "processing_duration_seconds"

/-- The name of the metric that describes the service. -/
def serviceInfoName : String := "service_info"

/-- The version that the description of the service gives. -/
def serviceVersion : String := "1.0.0"

namespace Metrics

/-- A collector that has counted nothing. -/
def of (service : Value) : Metrics := ⟨service, [], 0⟩

/-- Add to the count of a series, which then exists. -/
def addTo (counts : List (Series × Nat)) (series : Series) (amount : Nat) :
    List (Series × Nat) :=
  match counts with
  | [] => [(series, amount)]
  | (other, count) :: rest =>
    if other = series then (other, count + amount) :: rest
    else (other, count) :: addTo rest series amount

/-- The count of a series, if it exists. -/
def count? (metrics : Metrics) (series : Series) : Option Nat :=
  (metrics.counts.find? fun entry => decide (entry.1 = series)).map Prod.snd

/-- Count once in a series. -/
def increment (metrics : Metrics) (counter : Counter) (labels : List String) : Metrics :=
  { metrics with counts := addTo metrics.counts ⟨counter, labels⟩ 1 }

/-- The service to count for: the one given, unless it counts as false. -/
def serviceName (metrics : Metrics) (service : Value) : String :=
  if service.isTruthy then service.plain else metrics.service.plain

/-- Count an error. -/
def recordError (metrics : Metrics) (code : String) (service : Value) : Metrics :=
  metrics.increment .errors [code, metrics.serviceName service]

/-- Count a business event. -/
def recordBusinessEvent (metrics : Metrics) (event : String) (service : Value) : Metrics :=
  metrics.increment .businessEvents [event, metrics.serviceName service]

/-- The name under which a checked rule is counted. -/
def evaluationLabel (outcome : Outcome) : String :=
  if outcome.shouldAward then "awardable"
  else if outcome.fulfilled then "capped"
  else "unfulfilled"

/-- Count what happened in a cycle. -/
def note (metrics : Metrics) : Happening → Metrics
  | .evaluated outcome => metrics.increment .evaluations [evaluationLabel outcome]
  | .evaluationFailed _ error =>
    (metrics.recordError error.code .null).increment .evaluations ["error"]
  | .timedOut _ => metrics.increment .evaluations ["timeout"]
  | .awarded rule _ _ => metrics.increment .awards [rule]
  | .replaced rule _ => metrics.increment .retractions [rule]
  | .actionsFailed _ _ => metrics.recordError "ACTIONS_ERROR" .null
  | .awardFailed _ error => metrics.recordError error.code .null
  | .timed => { metrics with timings := metrics.timings + 1 }
  | .deadlineReached | .passLimitReached _ | .completed .. => metrics

/-- Count all that happened in a cycle. -/
def noteAll (metrics : Metrics) (happenings : List Happening) : Metrics :=
  happenings.foldl note metrics

/-- One sample: a name, its labels and the count. -/
structure Sample where
  name : String
  labels : Fields
  count : Nat
  deriving Repr

/-- The samples of the counters and of the timed cycles. -/
def samples (metrics : Metrics) : List Sample :=
  metrics.counts.map (fun (series, count) =>
    ⟨series.counter.name, series.counter.labels.zip (series.labels.map .text), count⟩) ++
  [⟨durationName ++ "_count", [], metrics.timings⟩]

/-- The sample that describes the service. -/
def serviceInfo (metrics : Metrics) : Sample :=
  ⟨serviceInfoName ++ "_info",
    [("service", metrics.service), ("version", .text serviceVersion)], 1⟩

/-- The value of the sample of a name with exactly these labels. -/
def get? (metrics : Metrics) (name : String) (labels : Entries) : Option Nat :=
  ((metrics.serviceInfo :: metrics.samples).find? fun sample =>
    sample.name == name && Value.same sample.labels.toValue (.mapping labels)).map (·.count)

/-- Whether labels are given for exactly the label names of a counter. -/
def fits (counter : Counter) (labels : Entries) : Bool :=
  labels.length == counter.labels.length && counter.labels.all (Entries.hasField labels)

/-- The names that no label of a timed operation has, since they are given otherwise. -/
def takenLabels : List String := ["self", "operation_name"]

/-- Observe a metric under labels. Only the histogram of cycles can be observed, and only
without labels; a counter that is given its labels exists afterwards all the same. -/
def observe (metrics : Metrics) (name : String) (labels : Entries) :
    Except Failure Unit × Metrics :=
  if name == durationName then
    if labels.isEmpty then (.ok (), { metrics with timings := metrics.timings + 1 })
    else (.error (.wrongLabels name), metrics)
  else if name == serviceInfoName then
    if labels.isEmpty then (.error (.notObservable name), metrics)
    else (.error (.wrongLabels name), metrics)
  else
    match Counter.all.find? fun counter => counter.name == name with
    | none => (.ok (), metrics)
    | some counter =>
      if labels.isEmpty then (.error (.notObservable name), metrics)
      else if fits counter labels then
        let values := counter.labels.map fun label =>
          ((Entries.field? labels label).map (·.plain)).getD ""
        (.error (.notObservable name),
          { metrics with counts := addTo metrics.counts ⟨counter, values⟩ 0 })
      else (.error (.wrongLabels name), metrics)

/-- Time an operation of a name under labels. An unknown name is not timed, and labels with
names already taken keep the operation from beginning. -/
def time (metrics : Metrics) (name : String) (labels : Entries) : Except Failure Unit × Metrics :=
  match Failure.refuseNames takenLabels labels with
  | .error failure => (.error failure, metrics)
  | .ok () => metrics.observe name labels

end Metrics

end Accolade
