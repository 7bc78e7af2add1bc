import Accolade.Fact.Ledger

/-!
# Histories of postings

A ledger of awards is written to by three kinds of call: an amount is added for a name and a
scope, an award is recorded, and awards are retracted. Each call begins with the ledger that the
one before has left.

A store need not keep running amounts. It may append a record of its own for every amount posted,
and on a retraction set all records that match to zero. What a query finds in such an itemised
ledger is more records of smaller amounts.
-/

namespace Accolade

/-- One call that writes to a ledger of awards. -/
inductive Posting
  | increment (name : String) (scope : Entries) (amount : Int)
  | award (subject : Value) (name : String) (scope : Entries)
  | retraction (subject : Value) (name : String) (scope : Entries)
  deriving Repr

namespace Ledger

/-- The ledger after a posting. -/
def post (ledger : Ledger) : Posting → Except Failure Ledger
  | .increment name scope amount =>
    (ledger.increment (.text name) scope (.integer amount)).map Prod.snd
  | .award subject name scope => (ledger.recordAward subject (.text name) scope).map Prod.snd
  | .retraction subject name scope => .ok (ledger.retractAward subject (.text name) scope)

/-- The ledger after some postings, one after the other. -/
def postAll (postings : List Posting) (ledger : Ledger) : Except Failure Ledger :=
  postings.foldlM post ledger

/-- The ledger after a posting, if each amount gets a record of its own. -/
def enter (ledger : Ledger) : Posting → Ledger
  | .increment name scope amount => (ledger.add (.text name) scope (.integer amount) []).2
  | .award subject name scope =>
    (ledger.add (.text name) (awardScope subject scope) (.integer 1) []).2
  | .retraction subject name scope => ledger.retractAward subject (.text name) scope

/-- The ledger after some postings, one after the other, if each amount gets its own record. -/
def enterAll (postings : List Posting) (ledger : Ledger) : Ledger := postings.foldl enter ledger

end Ledger

end Accolade
