import Accolade.Service

/-!
# Histories of calls

A service is called again and again: an event of a subject is recorded, or the catalogue is run
for a subject on demand. Each call begins with the service and the stores that the one before has
left, and comes to a cycle of its own.
-/

namespace Accolade

/-- A call of the service. -/
inductive ServiceCall
  | event (subject name : Value) (attributes scope : Entries)
  | evaluation (subject : Value) (attributes : Entries)
  deriving Repr

namespace Service

/-- What a call comes to. -/
def answer (service : Service) (runsActions : Bool) (stores : Stores) : ServiceCall → ServiceCycle
  | .event subject name attributes scope =>
    service.recordEvent runsActions subject name attributes scope stores
  | .evaluation subject attributes => service.evaluate runsActions subject attributes stores

/-- What some calls come to, one after the other. -/
def answerEach (service : Service) (runsActions : Bool) :
    List ServiceCall → Stores → List ServiceCycle
  | [], _ => []
  | call :: rest, stores =>
    let cycle := service.answer runsActions stores call
    cycle :: answerEach cycle.service runsActions rest cycle.progress.state

/-- The service and the stores that some calls leave, one after the other. -/
def afterCalls (service : Service) (runsActions : Bool) :
    List ServiceCall → Stores → Service × Stores
  | [], stores => (service, stores)
  | call :: rest, stores =>
    let cycle := service.answer runsActions stores call
    afterCalls cycle.service runsActions rest cycle.progress.state

end Service

end Accolade
