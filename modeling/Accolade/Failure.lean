import Accolade.Document.Template
import Accolade.Yaml.Fault

/-!
# Failures

A diagnosis is a failure that the rule engine understands: a malformed definition or
configuration, a fact store that breaks its own invariants, or a store that could not be
queried. It carries a message for people and details for programs. All other failures
are listed as their causes; the engine lets them pass, except that it wraps a foreign
failure of a collaborator into a diagnosis.
-/

namespace Accolade

/-- What a diagnosis is about. -/
inductive Category
  | configuration
  | integrity
  | query (store : String)
  | other (code : String)
  deriving DecidableEq, Repr

/-- The code by which programs know a category. -/
def Category.code : Category → String
  | .configuration => "CONFIGURATION_ERROR"
  | .integrity => "INTEGRITY_ERROR"
  | .query _ => "QUERY_ERROR"
  | .other code => code

/-- A failure that the engine understands. -/
structure Diagnosis where
  category : Category
  message : String
  details : Entries
  deriving Repr

namespace Diagnosis

/-- The message when the reporter gives none. -/
def defaultMessage : Category → String
  | .configuration => "Invalid configuration"
  | .integrity => "Fact store integrity violation"
  | .query _ => "Fact store query failed"
  | .other _ => ""

/-- A malformed definition or configuration. -/
def configuration (message : String) (details : Fields) : Diagnosis :=
  ⟨.configuration, message, details.map fun (name, value) => (.text name, value)⟩

/-- A fact store that holds what it must not hold. -/
def integrity (message : String) (details : Fields) : Diagnosis :=
  ⟨.integrity, message, details.map fun (name, value) => (.text name, value)⟩

/-- A store that could not be queried; its name opens the message. -/
def query (store message : String) (details : Fields) : Diagnosis :=
  ⟨.query store, store ++ ": " ++ message,
    details.map fun (name, value) => (.text name, value)⟩

/-- The code of the diagnosis. -/
def code (diagnosis : Diagnosis) : String := diagnosis.category.code

/-- Whether another attempt may succeed: only a failed query is transient. -/
def isTransient (diagnosis : Diagnosis) : Bool :=
  match diagnosis.category with
  | .query _ => true
  | _ => false

end Diagnosis

/-- Why an operation stopped. -/
inductive Failure
  /-- a failure that the engine understands -/
  | diagnosed (diagnosis : Diagnosis)
  /-- a collaborator failed in a way of its own -/
  | foreign (message : String)
  /-- two values of these kinds have no order -/
  | unordered (left right : Kind)
  /-- two values of these kinds have no sum -/
  | unaddable (left right : Kind)
  /-- an integer has more digits than are read, where their number is known, or than are written,
  where it is not -/
  | tooManyDigits (count : Option Nat)
  /-- a number is beyond the range of doubles -/
  | overflow
  /-- bytes are no text -/
  | undecodable
  /-- a path holds a character that no path holds -/
  | unusablePath
  /-- values stand too deep inside one another -/
  | tooDeep
  /-- a document is malformed in a way that is no breach of its format -/
  | unreadable (fault : Yaml.Fault)
  /-- a value of this kind cannot be a member of a set -/
  | unhashable (kind : Kind)
  /-- the evaluated thing is no requirement -/
  | noRequirement
  /-- a named value has a name already taken, or a key that is no text -/
  | misnamed (key : Scalar)
  /-- a template cannot be filled -/
  | unfillable (fault : TemplateFault)
  /-- a limit that must be at least one is less -/
  | belowOne (limit : String)
  /-- no log level has this name -/
  | unknownLevel (name : String)
  /-- a value of this kind stands for a logger and cannot be searched for a dot -/
  | unsearchable (kind : Kind)
  /-- a value of this kind stands for a logger and has no part before its dot -/
  | indivisible (kind : Kind)
  /-- a value of this kind stands for a record of another journal -/
  | noRecord (kind : Kind)
  /-- the name of a log level is taken by a value of another kind -/
  | misusedLevel (kind : Kind)
  /-- a metric has no such labels -/
  | wrongLabels (metric : String)
  /-- a metric cannot be observed -/
  | notObservable (metric : String)
  deriving Repr

namespace Failure

/-- The failure of a text that cannot be formed, since an integer in it has too many digits. -/
@[match_pattern] abbrev tooLongToWrite : Failure := .tooManyDigits none

/-- The message of a failure. -/
def message : Failure → String
  | .diagnosed diagnosis => diagnosis.message
  | .foreign message => message
  | .unordered left right =>
    "'<' not supported between instances of '" ++ left.name ++ "' and '" ++ right.name ++ "'"
  | .unaddable left right =>
    if left = .text ∨ left = .list then
      "can only concatenate " ++ left.name ++ " (not \"" ++ right.name ++ "\") to " ++ left.name
    else
      "unsupported operand type(s) for +: '" ++ left.name ++ "' and '" ++ right.name ++ "'"
  | .tooManyDigits count =>
    let found := match count with
      | some count => ": value has " ++ toString count ++ " digits"
      | none => ""
    "Exceeds the limit (4300 digits) for integer string conversion" ++ found ++
      "; use sys.set_int_max_str_digits() to increase the limit"
  | .overflow => "int too large to convert to float"
  | .undecodable => "the bytes are no text"
  | .unusablePath => "embedded null byte"
  | .tooDeep => "maximum recursion depth exceeded"
  | .unreadable _ => "the document holds a scalar that its tag does not fit"
  | .unhashable kind => "unhashable type: '" ++ kind.name ++ "'"
  | .noRequirement => "Unsupported requirement type"
  | .misnamed key => "no value can be given as " ++ key.plain
  | .unfillable _ => "the template does not fit its arguments"
  | .belowOne limit => limit ++ " must be at least 1"
  | .unknownLevel name => "no log level is named " ++ name
  | .unsearchable kind => "a value of type " ++ kind.name ++ " names no logger"
  | .indivisible kind => "a value of type " ++ kind.name ++ " has no part before a dot"
  | .noRecord kind => "a value of type " ++ kind.name ++ " is no record"
  | .misusedLevel kind => "a log level cannot be a " ++ kind.name
  | .wrongLabels metric => "wrong labels for " ++ metric
  | .notObservable metric => metric ++ " cannot be observed"

/-- The diagnosis inside a failure, if the engine understands it. -/
def diagnosis? : Failure → Option Diagnosis
  | .diagnosed diagnosis => some diagnosis
  | _ => none

/-- Refuse values given by name under the names that are taken, or under no names. -/
def refuseNames (taken : List String) (values : Entries) : Except Failure Unit :=
  let isRefused : Scalar → Bool
    | .text name => taken.contains name
    | _ => true
  match (Entries.keys values).find? isRefused with
  | some key => .error (.misnamed key)
  | none => .ok ()

end Failure

end Accolade
