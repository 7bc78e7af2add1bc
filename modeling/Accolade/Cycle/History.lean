import Accolade.Cycle.Process
import Accolade.Fact.Calls
import Accolade.Fact.Stores
import Accolade.Fact.Writer

/-!
# Histories of cycles

A history is cycles run one after the other on the same collaborators. Each has an engine,
a context and candidates of its own. What a cycle did stays done when a failure ends it,
and the next cycle begins on what it left.

In between, experience and events may go their own way: a visit is a cycle that comes upon
experience and events of its own, while awards stand as the cycle before has left them.
-/

namespace Accolade

/-- A cycle to be run. -/
structure CycleRequest where
  engine : Engine
  context : Context
  candidates : List Rule
  deriving Repr

/-- The collaborators' state after some cycles, run one after the other. -/
def runHistory {σ : Type} (collaborators : Collaborators σ) : List CycleRequest → σ → σ
  | [], state => state
  | request :: rest, state =>
    runHistory collaborators rest
      (request.engine.process collaborators request.context request.candidates state).2.state

/-- A cycle, and the experience and the events that it comes upon. -/
structure Visit where
  request : CycleRequest
  experience : Ledger
  events : Ledger
  deriving Repr

namespace Visit

/-- Stores with the experience and the events of a visit. -/
def prepare (visit : Visit) (stores : Stores) : Stores :=
  { stores with experience := visit.experience, events := visit.events }

/-- What some visits leave, one after the other. Each prepares the state for its cycle. -/
def runEach {σ : Type} (collaborators : Collaborators σ) (prepare : Visit → σ → σ) :
    List Visit → σ → σ
  | [], state => state
  | visit :: rest, state =>
    runEach collaborators prepare rest
      (visit.request.engine.process collaborators visit.request.context visit.request.candidates
        (prepare visit state)).2.state

/-- The stores that some visits leave. -/
def storesAfter (runsActions : Bool) (visits : List Visit) (stores : Stores) : Stores :=
  runEach (Stores.collaborators runsActions) prepare visits stores

/-- The same stores, and the postings that the award writer was asked for on the way. -/
def postedAfter (runsActions : Bool) (visits : List Visit) (stores : Stores) :
    Stores × List Posting :=
  runEach (Stores.collaborators runsActions).posted
    (fun visit state => (visit.prepare state.1, state.2)) visits (stores, [])

/-- The stores that some visits leave when calls of the award writer fail by a pattern, beside the
number of its calls so far. -/
def failingAfter (runsActions : Bool) (pattern : Nat → Option Failure) (visits : List Visit)
    (state : Stores × Nat) : Stores × Nat :=
  runEach ((Stores.collaborators runsActions).failing pattern)
    (fun visit state => (visit.prepare state.1, state.2)) visits state

end Visit

end Accolade
