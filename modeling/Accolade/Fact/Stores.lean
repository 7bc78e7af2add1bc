import Accolade.Fact.Collaborators
import Accolade.Fact.Ledger

/-!
# Stores in memory

The collaborators kept in memory: a ledger for each kind of fact, and the list of actions
that were invoked. Awards go into the achievement ledger, or into one of their own that
lookups never see.

Faults can be planned. A fault strikes at lookups in one store, at awards, retractions or
actions, under one name, a given number of times; or it keeps a lookup from ever
returning. A call that a fault strikes has no other effect, except that an invocation is
noted first.
-/

namespace Accolade

/-- Where a fault strikes. -/
inductive FaultPoint
  | lookup (kind : FactKind)
  | award
  | retraction
  | action
  deriving DecidableEq, Repr

/-- What a fault does: fail so many more times, or never return. -/
inductive Effect
  | fail (times : Nat) (failure : Failure)
  | hang
  deriving Repr

/-- A planned fault. -/
structure Fault where
  point : FaultPoint
  name : Value
  effect : Effect
  deriving Repr

namespace Fault

/-- What a fault does at a point, if it strikes there under the name, and what is left of it:
no failure means that nothing returns. -/
def effectAt (fault : Fault) (point : FaultPoint) (name : Value) :
    Option (Option Failure × Fault) :=
  if fault.point = point && fault.name.equals name then
    match fault.effect with
    | .hang => some (none, fault)
    | .fail (times + 1) failure => some (some failure, { fault with effect := .fail times failure })
    | .fail 0 _ => none
  else none

/-- What the first fault that strikes does. -/
def strike (point : FaultPoint) (name : Value) :
    List Fault → Option (Option Failure) × List Fault
  | [] => (none, [])
  | fault :: rest =>
    match fault.effectAt point name with
    | some (effect, fault) => (some effect, fault :: rest)
    | none =>
      let (struck, rest) := strike point name rest
      (struck, fault :: rest)

end Fault

/-- Actions that were run for an award. -/
structure Invocation where
  actions : List Value
  subject : Value
  scope : Entries
  deriving Repr

/-- The collaborators' state in memory. -/
structure Stores where
  achievements : Ledger
  experience : Ledger
  events : Ledger
  /-- the ledger of awards, when lookups do not see it -/
  separateAwards : Option Ledger
  faults : List Fault
  /-- the latest first -/
  invocations : List Invocation
  deriving Repr

namespace Stores

/-- Stores with these facts and no planned faults. -/
def of (achievements experience events : Ledger) : Stores :=
  ⟨achievements, experience, events, none, [], []⟩

/-- The ledger of a kind of fact. -/
def ledger (stores : Stores) : FactKind → Ledger
  | .achievement => stores.achievements
  | .experience => stores.experience
  | .event => stores.events

/-- The ledger that awards are written to. -/
def awards (stores : Stores) : Ledger := stores.separateAwards.getD stores.achievements

/-- Replace the ledger that awards are written to. -/
def withAwards (stores : Stores) (ledger : Ledger) : Stores :=
  match stores.separateAwards with
  | some _ => { stores with separateAwards := some ledger }
  | none => { stores with achievements := ledger }

/-- Let planned faults strike. -/
def struck (stores : Stores) (point : FaultPoint) (name : Value) :
    Option (Option Failure) × Stores :=
  let (struck, faults) := Fault.strike point name stores.faults
  (struck, { stores with faults := faults })

/-- Look facts up in the ledger of their kind. -/
def lookup : Lookup Stores := fun kind query stores =>
  match stores.struck (.lookup kind) ((Entries.field? query nameKey).getD .null) with
  | (some (some failure), stores) => (.failed failure, stores)
  | (some none, stores) => (.pending, stores)
  | (none, stores) => (.answer ((stores.ledger kind).find query), stores)

/-- Write one award. -/
def recordAward (subject : Value) (rule : String) (scope : Entries) (stores : Stores) :
    Except Failure Fact × Stores :=
  match stores.struck .award (.text rule) with
  | (some (some failure), stores) => (.error failure, stores)
  | (_, stores) =>
    match stores.awards.recordAward subject (.text rule) scope with
    | .ok (fact, ledger) => (.ok fact, stores.withAwards ledger)
    | .error failure => (.error failure, stores)

/-- Retract awards. -/
def retractAward (subject : Value) (rule : String) (scope : Entries) (stores : Stores) :
    Except Failure Unit × Stores :=
  match stores.struck .retraction (.text rule) with
  | (some (some failure), stores) => (.error failure, stores)
  | (_, stores) =>
    (.ok (), stores.withAwards (stores.awards.retractAward subject (.text rule) scope))

/-- The name by which faults know a list of actions: the type of its first descriptor, or
that descriptor itself. -/
def actionName : List Value → Value
  | [] => .null
  | .mapping entries :: _ =>
    (Entries.field? entries "type").getD (.text (Value.mapping entries).plain)
  | first :: _ => .text first.plain

/-- Note the invocation of actions. -/
def invoke (actions : List Value) (context : Context) (stores : Stores) :
    Except Failure Unit × Stores :=
  let scope := match context.scopeValues with
    | .ok values => values
    | .error _ => []
  let stores := { stores with
    invocations := ⟨actions, context.subject, scope⟩ :: stores.invocations }
  match stores.struck .action (actionName actions) with
  | (some (some failure), stores) => (.error failure, stores)
  | (_, stores) => (.ok (), stores)

/-- The stores as collaborators of a cycle, with or without somebody to run actions. -/
def collaborators (runsActions : Bool) : Collaborators Stores :=
  ⟨lookup, recordAward, retractAward, if runsActions then some invoke else none⟩

end Stores

end Accolade
