import Accolade.Journal.Line

/-!
# Calls to the journal

A writer calls the journal by the name of a method, with an event and fields of any names
but those that the journal itself gives. Some fields steer the line and do not stand in it:
arguments fill the event, which then is a template, and an exception to report leaves its
text, of which nothing is known here. A call below the least rank leaves no line.
-/

namespace Accolade

/-- What a writer hands to the journal. -/
structure LogCall where
  logger : Value
  method : String
  event : Value
  fields : Entries
  deriving Repr

namespace LogCall

/-- The names under which a writer gives no field. -/
def takenNames : List String := ["event", "self", "method_name"]

/-- The field of the arguments that fill the event. -/
def argumentsField : String := "positional_args"

/-- The field that asks for the exception at hand. -/
def exceptionField : String := "exc_info"

/-- The name of the logger that all others descend from. -/
def rootLogger : String := "root"

/-- The fields other than one. -/
def without (name : String) (fields : Entries) : Entries :=
  List.filter (fun entry => !entry.1.same (.text name)) fields

/-- The name of the logger of a call; what counts as false stands for the root. -/
def loggerName (call : LogCall) : Except Failure String :=
  if !call.logger.isTruthy then .ok rootLogger
  else
    match call.logger with
    | .text name => .ok name
    | other => .error (.unsearchable other.kind)

/-- The argument that arguments come to: the only one of them when that is a mapping with
entries, else all of them as one. -/
def argumentOf (arguments : Value) : Except Failure Value :=
  let onlyMapping (item : Value) : Value :=
    match item with
    | .mapping (_ :: _) => item
    | _ => arguments
  match arguments with
  | .list [item] => .ok (onlyMapping item)
  | .mapping [entry] =>
    match Entries.find? [entry] (.integer 0) with
    | some item => .ok (onlyMapping item)
    | none => .error (.unfillable .missing)
  | .list _ | .mapping _ | .text _ => .ok arguments
  | _ => .error (.unfillable .misfit)

/-- The event of a call, filled with its arguments if there are any. -/
def filledEvent (call : LogCall) : Except Failure Value :=
  match Entries.field? call.fields argumentsField with
  | none => .ok call.event
  | some arguments =>
    if !arguments.isTruthy then .ok call.event
    else do
      let argument ← argumentOf arguments
      match call.event with
      | .text template => ((Template.fill template argument).map .text).mapError .unfillable
      | .null => .error (.unfillable .missing)
      | _ => .error (.unfillable .misfit)

/-- Whether a call asks for the exception at hand, as one method does unless told not to. -/
def asksForException (call : LogCall) : Bool :=
  match Entries.field? call.fields exceptionField with
  | some value => value.isTruthy
  | none => call.method == "exception"

/-- The fields that stand in the line. -/
def lineFields (call : LogCall) : Entries :=
  let fields := match Entries.field? call.fields argumentsField with
    | some .null | none => call.fields
    | some _ => without argumentsField call.fields
  let fields := [exceptionField, "stack_info", "timestamp"].foldr without fields
  if call.asksForException then Entries.putField fields "exception" (.text "MISSING") else fields

/-- Refuse a field that stands for a record of another journal. -/
def refuseRecord (fields : Entries) : Except Failure Unit :=
  match Entries.field? fields "_record" with
  | none | some .null => .ok ()
  | some value => .error (.noRecord value.kind)

/-- The line that a call leaves, if its level has the least rank. -/
def line? (context : LogContext) (threshold : Nat) (call : LogCall) :
    Except Failure (Option Entries) := do
  let logger ← call.loggerName
  match Level.ofMethod? call.method with
  | none => .error (.unknownLevel call.method)
  | some level =>
    Failure.refuseNames takenNames call.fields
    if level.rank < threshold then return none
    else
      refuseRecord call.fields
      let event ← call.filledEvent
      return some (LogLine.render context logger level event call.lineFields)

end LogCall

end Accolade
