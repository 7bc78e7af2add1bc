import Accolade.Settings.Conversion

/-!
# Settings

The settings of a service: where it runs, what it logs, which rules it loads and the
limits of evaluation. A setting is taken from the overrides, else from the environment
variable of its name, else it has its default. Names are compared without regard to case;
of several overrides for one setting the first counts. Overrides that name no setting are
kept as extras.

All settings are converted before any fault is reported, so the faults are complete and in
the order of the settings.
-/

namespace Accolade

/-- The settings of a service. -/
structure Settings where
  environment : String
  logLevel : String
  rulesFile : Option String
  strictLoading : Bool
  evaluationTimeout : Double
  maxPasses : Int
  retryAttempts : Int
  retryBaseDelay : Double
  metricsPort : Option Int
  service : String
  extras : Entries
  deriving Repr

namespace Settings

/-- The names of all settings, in order. -/
def names : List String :=
  ["env", "log_level", "rules_file", "strict_rule_loading", "evaluation_timeout_seconds",
    "max_award_passes", "query_retry_attempts", "query_retry_base_delay", "metrics_port",
    "service_name"]

/-- What the name of an environment variable starts with. -/
def variablePrefix : String := "achievements_"

/-- Whether a key is a name, whatever its case. -/
def isNamed (name : String) (key : Scalar) : Bool :=
  match key with
  | .text written => String.ofList (DecimalText.lowered written.toList) == name
  | _ => false

/-- The value of the environment variable for a setting. Of variables that differ in case
only, the last counts. -/
def environmentValue? (environment : Entries) (name : String) : Option Value :=
  (environment.reverse.find? fun entry => isNamed (variablePrefix ++ name) entry.1).map Prod.snd

/-- The override for a setting. -/
def override? (overrides : Entries) (name : String) : Option Value :=
  (List.find? (fun entry => isNamed name entry.1) overrides).map Prod.snd

/-- The input for a setting. -/
def input? (environment overrides : Entries) (name : String) : Option Value :=
  (override? overrides name).or (environmentValue? environment name)

/-- Convert the input for a setting, or take its default. -/
def convert {α : Type} (environment overrides : Entries) (name : String) (fallback : α)
    (conversion : Value → Except InputFault α) : Except InvalidInput α :=
  match input? environment overrides name with
  | none => .ok fallback
  | some value => (conversion value).mapError fun fault => ⟨[.text name], fault⟩

/-- The fault of a conversion, if it has one. -/
def fault {α : Type} : Except InvalidInput α → List InvalidInput
  | .ok _ => []
  | .error invalid => [invalid]

/-- The overrides that name no setting. -/
def extrasOf (overrides : Entries) : Entries :=
  List.filter (fun entry => !names.any (isNamed · entry.1)) overrides

/-- The names that no override has exactly, since they are given otherwise. -/
def takenNames : List String := ["self", "service_name"]

/-- Read the settings of a service. -/
def read (service : Value) (environment overrides : Entries) :
    Except (List InvalidInput) Settings :=
  let setting {α : Type} (name : String) (fallback : α)
      (conversion : Value → Except InputFault α) :=
    convert environment overrides name fallback conversion
  let env := setting "env" "local" Conversion.text
  let logLevel := setting "log_level" "info" Conversion.text
  let rulesFile := setting "rules_file" none (Conversion.optional Conversion.text)
  let strict := setting "strict_rule_loading" false Conversion.boolean
  let timeout := setting "evaluation_timeout_seconds" (Double.ofInt 5) Conversion.positive
  let passes := setting "max_award_passes" 10 (Conversion.integerFrom 1)
  let attempts := setting "query_retry_attempts" 3 (Conversion.integerFrom 1)
  let delay :=
    setting "query_retry_base_delay" (Double.ofDecimal false 1 (-1)) Conversion.nonNegative
  let metricsPort := setting "metrics_port" none (Conversion.optional Conversion.integer)
  let service := (Conversion.text service).mapError fun fault =>
    InvalidInput.mk [.text "service_name"] fault
  match env, logLevel, rulesFile, strict, timeout, passes, attempts, delay, metricsPort,
    service with
  | .ok env, .ok logLevel, .ok rulesFile, .ok strict, .ok timeout, .ok passes, .ok attempts,
      .ok delay, .ok metricsPort, .ok service =>
    .ok ⟨env, logLevel, rulesFile, strict, timeout, passes, attempts, delay, metricsPort, service,
      extrasOf overrides⟩
  | _, _, _, _, _, _, _, _, _, _ =>
    .error (fault env ++ fault logLevel ++ fault rulesFile ++ fault strict ++ fault timeout ++
      fault passes ++ fault attempts ++ fault delay ++ fault metricsPort ++ fault service)

/-- The settings as a mapping, extras last. -/
def toEntries (settings : Settings) : Entries :=
  let optionalText : Option String → Value := fun value => (value.map .text).getD .null
  let fixed : Fields :=
    [("env", .text settings.environment), ("log_level", .text settings.logLevel),
      ("rules_file", optionalText settings.rulesFile),
      ("strict_rule_loading", .boolean settings.strictLoading),
      ("evaluation_timeout_seconds", .double settings.evaluationTimeout),
      ("max_award_passes", .integer settings.maxPasses),
      ("query_retry_attempts", .integer settings.retryAttempts),
      ("query_retry_base_delay", .double settings.retryBaseDelay),
      ("metrics_port", (settings.metricsPort.map .integer).getD .null),
      ("service_name", .text settings.service)]
  fixed.map (fun (name, value) => (.text name, value)) ++ settings.extras

end Settings

end Accolade
