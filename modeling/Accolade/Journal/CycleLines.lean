import Accolade.Context
import Accolade.Cycle.Outcome
import Accolade.Journal.Line

/-!
# Log lines of cycles

What a cycle writes to the log, happening by happening. Evaluations that went well are
not logged, and neither is the time a cycle took.
-/

namespace Accolade

/-- The logger of the engine. -/
def engineLogger : String := "achievements.engine"

/-- For whom a cycle in a context writes its lines. -/
def Context.logContext (context : Context) : LogContext :=
  LogContext.empty.withNames context.subject context.trigger

namespace Happening

/-- The level, event and fields of the line that a happening writes, if it writes one. -/
def line? (subject : Value) : Happening → Option (Level × String × Fields)
  | .evaluated _ => none
  | .timed => none
  | .evaluationFailed rule error =>
    some (.error, "Rule evaluation failed",
      [("rule", .text rule), ("subject_id", subject), ("code", .text error.code),
        ("error", .text error.message)])
  | .timedOut rule =>
    some (.warning, "Rule evaluation timed out", [("rule", .text rule), ("subject_id", subject)])
  | .awarded rule amount maxAwarded =>
    some (.info, "Achievement awarded",
      [("rule", .text rule), ("subject_id", subject), ("amount", amount),
        ("max_awarded", .integer maxAwarded)])
  | .replaced rule replacedBy =>
    some (.info, "Achievement replaced",
      [("rule", .text rule), ("replaced_by", .text replacedBy), ("subject_id", subject)])
  | .actionsFailed rule failure =>
    some (.error, "Post-award actions failed",
      [("rule", .text rule), ("error", .text failure.message)])
  | .awardFailed rule error =>
    some (.error, "Award failed",
      [("rule", .text rule), ("subject_id", subject), ("code", .text error.code),
        ("error", .text error.message)])
  | .deadlineReached => some (.warning, "Processing deadline reached", [("subject_id", subject)])
  | .passLimitReached maxPasses =>
    some (.warning, "Maximum award passes reached",
      [("subject_id", subject), ("max_passes", .integer maxPasses)])
  | .completed given withdrawn passes failing =>
    some (.info, "Processing cycle completed",
      [("subject_id", subject), ("awarded", .texts given), ("retracted", .texts withdrawn),
        ("passes", .integer passes), ("errors", .texts failing)])

/-- The warning that a happening is: its event and the rule it concerns. -/
def warning? : Happening → Option (String × Option String)
  | .timedOut rule => some ("Rule evaluation timed out", some rule)
  | .deadlineReached => some ("Processing deadline reached", none)
  | .passLimitReached _ => some ("Maximum award passes reached", none)
  | _ => none

end Happening

end Accolade
