import Accolade.Document.Sameness
import Accolade.Journal.Level

/-!
# Log lines

A line is a mapping: the fields given by the writer, the event, the logger and the level,
and what the surroundings add. The service is the part of the logger's name before its
first dot. The subject of the evaluation is added unless the line names one, the event
that set it off always. Who the evaluation is for is kept in the log context: naming a
subject or an event that counts as false changes nothing.
-/

namespace Accolade

/-- For whom, and set off by which event, lines are written. -/
structure LogContext where
  subject : Value
  event : Value
  deriving Repr

namespace LogContext

/-- Nobody and nothing. -/
def empty : LogContext := ⟨.null, .null⟩

/-- Name the subject and the event; what counts as false is left as it was. -/
def withNames (context : LogContext) (subject event : Value) : LogContext :=
  ⟨if subject.isTruthy then subject else context.subject,
    if event.isTruthy then event else context.event⟩

end LogContext

namespace LogLine

/-- The part of a logger's name before its first dot, if there is a dot. -/
def serviceOf? (logger : String) : Option String :=
  let characters := logger.toList
  if characters.contains '.' then some (String.ofList (characters.takeWhile (· != '.'))) else none

/-- Add the service of a logger. -/
def withService (logger : String) (line : Entries) : Entries :=
  match serviceOf? logger with
  | some service => Entries.putField line "service" (.text service)
  | none => line

/-- Add the service of the logger that a line names by any value. Lists and mappings are
searched for a dot as well, but have no part before it. -/
def withNamedService (line : Entries) : Except Failure Entries :=
  let dot : Scalar := .text "."
  match Entries.field? line "logger" with
  | none => .ok line
  | some (.text logger) => .ok (withService logger line)
  | some (.list items) =>
    if items.any (·.equals (.scalar dot)) then .error (.indivisible .list) else .ok line
  | some (.mapping entries) =>
    if Entries.has entries dot then .error (.indivisible .mapping) else .ok line
  | some other => .error (.unsearchable other.kind)

/-- Add the subject and the event of the context. -/
def withContext (context : LogContext) (line : Entries) : Entries :=
  let line :=
    if context.subject.isTruthy then Entries.putFieldIfAbsent line "subject_id" context.subject
    else line
  if context.event.isTruthy then Entries.putField line "event_id" context.event else line

/-- A key as the text under which a line shows it. -/
def keyName : Scalar → String
  | .null => "null"
  | .boolean true => "true"
  | .boolean false => "false"
  | .double (.notANumber _) => "NaN"
  | .double (.infinite negative) => if negative then "-Infinity" else "Infinity"
  | key => key.plain

mutual

/-- A value as written lines show it: keys are texts, pairs are lists, and what has no form
there is its written form. -/
def textKeyed : Value → Value
  | .scalar (.bytes value) => .text (Scalar.bytes value).literal
  | .scalar value => .scalar value
  | .list items => .list (textKeyedItems items)
  | .mapping entries => .mapping (Entries.ofPairs (textKeyedEntries entries))
  | .pair first second => .list [textKeyed first, textKeyed second]
  | value => .text value.literal

/-- Items as written lines show them. -/
def textKeyedItems : List Value → List Value
  | [] => []
  | item :: rest => textKeyed item :: textKeyedItems rest

/-- Entries as written lines show them. -/
def textKeyedEntries : List (Scalar × Value) → List (Scalar × Value)
  | [] => []
  | (key, value) :: rest => (.text (keyName key), textKeyed value) :: textKeyedEntries rest

end

/-- The line that an event and the fields of a writer become; a null event is left out. The
time is not kept here. -/
def render (context : LogContext) (logger : String) (level : Level) (event : Value)
    (fields : Entries) : Entries :=
  let line := match event with
    | .null => fields
    | event => Entries.putField fields "event" event
  let line := Entries.putField line "logger" (.text logger)
  let line := Entries.putField line "level" (.text level.name)
  textKeyedEntries (withContext context (withService logger line))

end LogLine

end Accolade
