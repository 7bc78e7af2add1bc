import Accolade.Catalogue.RuleFile
import Accolade.Cycle.Process
import Accolade.Fact.Stores
import Accolade.Journal.CycleLines
import Accolade.Metrics
import Accolade.Profile
import Accolade.Settings.Basic

/-!
# The achievements service

The service wires settings, the catalogue, metrics, the log and the engine together. A
catalogue is given or loaded from the configured rules file; rules rejected there are
counted and logged. Awards must have somewhere to go.

Recording an event appends it to the events of the subject and runs a cycle whose
attributes are the scope values of the event: those the caller gives, over the subject.
-/

namespace Accolade

/-- The logger of the service. -/
def serviceLogger : String := "achievements.service"

/-- The name under which the service counts and logs. -/
def serviceName : String := "achievements"

/-- A running service: everything but the stores. -/
structure Service where
  settings : Settings
  engine : Engine
  metrics : Metrics
  /-- the least rank of the lines that are kept -/
  threshold : Nat
  log : LogContext
  /-- the lines written, in order -/
  lines : List Entries
  deriving Repr

/-- What a cycle run by the service came to. -/
structure ServiceCycle where
  service : Service
  ended : Option Failure
  progress : Progress Stores

namespace Service

/-- Write a line unless its level is below the threshold. -/
def write (service : Service) (logger : String) (level : Level) (event : String)
    (fields : Fields) : Service :=
  if level.rank < service.threshold then service
  else
    { service with
      lines := service.lines ++
        [LogLine.render service.log logger level (.text event)
          (fields.map fun (name, value) => (.text name, value))] }

/-- Write the lines of a cycle. -/
def writeAll (service : Service) (subject : Value) (happenings : List Happening) : Service :=
  happenings.foldl (fun service happening =>
    match happening.line? subject with
    | some (level, event, fields) => service.write engineLogger level event fields
    | none => service) service

/-- The failure of a service without a rules file. -/
def noRulesFile : Failure :=
  .diagnosed (.configuration "No rules file configured (ACHIEVEMENTS_RULES_FILE)" [])

/-- The failure of a service that cannot write awards. -/
def noAwardWriter : Failure :=
  .diagnosed (.configuration
    "An award writer is required when the achievements store cannot write awards" [])

/-- The catalogue given, or the one loaded from the rules file. -/
def catalogueOf (settings : Settings) (given : Option Catalogue)
    (load : Strictness → String → Except Failure Loaded) : Except Failure Loaded :=
  match given with
  | some catalogue => .ok ⟨catalogue, []⟩
  | none =>
    match settings.rulesFile with
    | none => .error noRulesFile
    | some path =>
      if path.isEmpty then .error noRulesFile
      else load (if settings.strictLoading then .strict else .lenient) path

/-- The engine that settings ask for. -/
def engineOf (settings : Settings) (catalogue : Catalogue) : Except Failure Engine := do
  let policy ←
    RetryPolicy.of settings.retryAttempts settings.retryBaseDelay (Double.ofInt 5) true
  Engine.of catalogue settings.maxPasses (some settings.evaluationTimeout) (some policy)

/-- Count and log a rule left out of the catalogue. -/
def noteRejection (service : Service) (rejection : Rejection) : Service :=
  { service with metrics := service.metrics.recordError Category.configuration.code .null }.write
    serviceLogger .warning "Rule skipped"
    [("rule", .text rejection.rule), ("error", .text rejection.message)]

/-- Start a service. The log level is checked first, then the catalogue, then whether
awards can be written. -/
def start (settings : Settings) (given : Option Catalogue)
    (load : Strictness → String → Except Failure Loaded) (writesAwards : Bool) :
    Except Failure Service := do
  let threshold ← Level.threshold settings.logLevel
  let loaded ← catalogueOf settings given load
  if !writesAwards then .error noAwardWriter
  let engine ← engineOf settings loaded.catalogue
  let service : Service :=
    ⟨settings, engine, .of (.text serviceName), threshold, .empty, []⟩
  let service := loaded.rejections.foldl noteRejection service
  return service.write serviceLogger .info "Achievements service initialized"
    [("rules", .integer loaded.catalogue.size)]

/-- The context of a subject over the stores of the service. -/
def contextFor (subject : Value) (attributes : Entries) (trigger : Value) : Context :=
  { Context.of subject attributes defaultScope with trigger := trigger }

/-- Run the catalogue in a context. -/
def run (service : Service) (runsActions : Bool) (context : Context) (stores : Stores) :
    ServiceCycle :=
  let (ended, progress) :=
    service.engine.process (Stores.collaborators runsActions) context
      service.engine.catalogue.rules stores
  let service := { service with
    metrics := service.metrics.noteAll progress.happenings
    log := context.logContext }
  ⟨service.writeAll context.subject progress.happenings, ended, progress⟩

/-- Run the catalogue for a subject on demand. -/
def evaluate (service : Service) (runsActions : Bool) (subject : Value) (attributes : Entries)
    (stores : Stores) : ServiceCycle :=
  service.run runsActions (contextFor subject attributes .null) stores

/-- The scope values of an event: those given, over the subject. -/
def eventScope (subject : Value) (scope : Entries) : Entries :=
  Entries.merge [(.text subjectKey, subject)] scope

/-- Record an event of a subject and run the catalogue. -/
def recordEvent (service : Service) (runsActions : Bool) (subject name : Value)
    (attributes scope : Entries) (stores : Stores) : ServiceCycle :=
  let values := eventScope subject scope
  let (event, events) := stores.events.add name values (.integer 1) attributes
  let identifier : Value := (event.identifier.map .text).getD .null
  let service :=
    { service with metrics := service.metrics.recordBusinessEvent "event_recorded" .null }.write
      serviceLogger .info "Event recorded"
      [("name", name), ("subject_id", subject), ("event_id", identifier)]
  service.run runsActions (contextFor subject values identifier) { stores with events := events }

/-- The profile of a subject. -/
def profile (service : Service) (subject : Value) (includeHidden : Bool) (stores : Stores) :
    Reply (Except ProfileError Profile) × Stores :=
  Profile.build Stores.lookup (contextFor subject [] .null) (some service.engine.catalogue)
    includeHidden stores

end Service

end Accolade
