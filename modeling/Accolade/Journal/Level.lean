import Accolade.Failure

/-!
# Log levels

A line has one of five levels; a journal is configured with the least level it keeps. The
least level is given by name in any case, with two more names for levels that have one
already, and one name that keeps everything.
-/

namespace Accolade

/-- The level of a log line. -/
inductive Level
  | debug | info | warning | error | critical
  deriving DecidableEq, Repr

namespace Level

/-- The rank of a level. -/
def rank : Level → Nat
  | .debug => 10
  | .info => 20
  | .warning => 30
  | .error => 40
  | .critical => 50

/-- The name of a level in log lines. -/
def name : Level → String
  | .debug => "debug"
  | .info => "info"
  | .warning => "warning"
  | .error => "error"
  | .critical => "critical"

/-- The level at which lines are written under a method name. -/
def ofMethod? : String → Option Level
  | "debug" => some .debug
  | "info" => some .info
  | "warning" | "warn" => some .warning
  | "error" | "exception" => some .error
  | "critical" | "fatal" => some .critical
  | _ => none

/-- A letter in upper case; besides the seven-bit letters only the two whose upper case is
a seven-bit letter matter for level names. -/
def upperLetter (c : Char) : Char :=
  if c = 'ı' then 'I' else if c = 'ſ' then 'S' else c.toUpper

/-- The least rank that a level name stands for. -/
def threshold (name : String) : Except Failure Nat :=
  match String.ofList (name.toList.map upperLetter) with
  | "CRITICAL" | "FATAL" => .ok 50
  | "ERROR" => .ok 40
  | "WARNING" | "WARN" => .ok 30
  | "INFO" => .ok 20
  | "DEBUG" => .ok 10
  | "NOTSET" => .ok 0
  | "BASIC_FORMAT" => .error (.misusedLevel .text)
  | "_STYLES" => .error (.misusedLevel .mapping)
  | _ => .error (.unknownLevel name)

end Level

end Accolade
