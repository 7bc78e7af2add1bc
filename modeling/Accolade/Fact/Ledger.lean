import Accolade.Fact.Basic
import Accolade.Rule.Amount

/-!
# Ledgers

A ledger is the records of one store in the order in which they were first written.
Records are appended, their amounts change in place, and none is ever removed short of
clearing the ledger.

An award ledger holds one record for each name and scope with the running amount. An
award adds one to it; a retraction sets every record that matches to zero and keeps it.
-/

namespace Accolade

/-- The records of a store, in the order of their first writing. -/
abbrev Ledger := List Fact

namespace Ledger

/-- The records that match a query. -/
def find (ledger : Ledger) (query : Entries) : List Fact :=
  List.filter (fun fact => fact.isMatch query) ledger

/-- The identifier of the next record that the ledger makes. -/
def nextIdentifier (ledger : Ledger) : String := "record-" ++ toString (List.length ledger)

/-- A new record, identified by its place. -/
def newFact (ledger : Ledger) (name : Value) (scope : Entries) (amount : Value)
    (attributes : Entries) : Fact :=
  ⟨name, amount, scope, attributes, some (nextIdentifier ledger)⟩

/-- Append a new record. -/
def add (ledger : Ledger) (name : Value) (scope : Entries) (amount : Value)
    (attributes : Entries) : Fact × Ledger :=
  let fact := newFact ledger name scope amount attributes
  (fact, ledger ++ [fact])

/-- The query for the records of a name within a scope. -/
def queryOf (name : Value) (scope : Entries) : Entries := Entries.putField scope nameKey name

/-- Whether a record is the one that holds the running amount of a name and a scope:
its scope is exactly that scope, not a larger one. -/
def holdsTotal (name : Value) (scope : Entries) (fact : Fact) : Bool :=
  fact.isMatch (queryOf name scope) && Entries.same fact.scope scope

/-- Add an amount to the first record that a test selects. There is no answer when no
record is selected. -/
def addToFirst (select : Fact → Bool) (amount : Value) :
    Ledger → Option (Except Failure (Fact × Ledger))
  | [] => none
  | fact :: rest =>
    if select fact then
      some ((addedAmounts fact.amount amount).map fun total =>
        ({ fact with amount := total }, { fact with amount := total } :: rest))
    else
      (addToFirst select amount rest).map fun outcome =>
        outcome.map fun (updated, rest) => (updated, fact :: rest)

/-- Add an amount to the running amount of a name and a scope, making the record if
there is none. -/
def increment (ledger : Ledger) (name : Value) (scope : Entries) (amount : Value) :
    Except Failure (Fact × Ledger) :=
  match addToFirst (holdsTotal name scope) amount ledger with
  | some outcome => outcome
  | none => .ok (add ledger name scope amount [])

/-- The scope of an award: the scope values of the rule, or the subject alone. -/
def awardScope (subject : Value) (scope : Entries) : Entries :=
  if List.isEmpty scope then [(.text subjectKey, subject)] else scope

/-- Record one award. -/
def recordAward (ledger : Ledger) (subject name : Value) (scope : Entries) :
    Except Failure (Fact × Ledger) :=
  increment ledger name (awardScope subject scope) (.integer 1)

/-- Retract an award: every record that matches keeps its place with the amount zero. -/
def retractAward (ledger : Ledger) (subject name : Value) (scope : Entries) : Ledger :=
  let query := queryOf name (awardScope subject scope)
  List.map (fun fact => if fact.isMatch query then { fact with amount := .integer 0 } else fact)
    ledger

end Ledger

end Accolade
