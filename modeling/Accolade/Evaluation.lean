import Accolade.Context
import Accolade.Document.Written
import Accolade.Fact.Collaborators
import Accolade.Rule.Requirement

/-!
# Evaluating requirements

Evaluation reads facts and writes nothing. A conjunction stops at its first child that is
not fulfilled, a choice at its first that is; either also stops at a child that fails or
never returns. Exactly-one asks all its children, whatever they answer: the first failure
in order decides, and otherwise the number of fulfilled children.

Achievement and experience leaves expect at most one record for their query. Two records
are a breach of the store's integrity, not a larger amount. A record without an amount
passes no test.

An event leaf notes its test in the journal before it makes it. A threshold of more digits
than can be written is not judged at all: the leaf fails, and not with a diagnosis.
-/

namespace Accolade

namespace Requirement

variable {σ : Type}

/-- Look facts up. A failure that is no diagnosis becomes one that names the store and
the query. -/
def facts (lookup : Lookup σ) (kind : FactKind) (query : Entries) (state : σ) :
    Reply (List Fact) × σ :=
  match lookup kind query state with
  | (.failed (.diagnosed diagnosis), state) => (.failed (.diagnosed diagnosis), state)
  | (.failed failure, state) =>
    (.failed (.diagnosed (.query kind.store failure.message [("query", .mapping query)])), state)
  | reply => reply

/-- The failure of more than one record for a query that should have at most one: a diagnosis
that shows the query, where the query can be written. -/
def duplicates (kind : FactKind) (query : Entries) (count : Nat) : Failure :=
  match (Value.mapping query).written? with
  | some written =>
    .diagnosed (.integrity
      ("Found " ++ toString count ++ " " ++ kind.store ++ " records for " ++ written ++
        ", expected at most one")
      [("store", .text kind.store), ("query", .mapping query), ("count", .integer count)])
  | none => .tooLongToWrite

/-- Whether an amount test passes on the amount of a record, which may have none. -/
def passes (test : AmountTest) : Value → Except Failure Bool
  | .null => .ok false
  | amount => test.holds amount

/-- Whether an amount test passes on the only record that answers a query. -/
def holdsOnOnly (kind : FactKind) (query : Entries) (test : AmountTest) :
    List Fact → Reply Bool
  | [] => .answer false
  | [fact] =>
    match passes test fact.amount with
    | .ok fulfilled => .answer fulfilled
    | .error failure => .failed failure
  | found => .failed (duplicates kind query found.length)

/-- How many events satisfy the conditions, if there are any. -/
def matchingEvents (conditions : Option Condition) (events : List Fact) : Nat :=
  match conditions with
  | none => events.length
  | some condition => (events.filter fun event => condition.holds event.attributes).length

/-- Whether an amount test passes on the number of matching events. The test is written down
first. -/
def holdsOnEvents (test : AmountTest) (conditions : Option Condition) (events : List Fact) :
    Reply Bool :=
  match test.text? with
  | some _ => .answer (test.holdsAt (matchingEvents conditions events))
  | none => .failed .tooLongToWrite

/-- Evaluate a leaf: form the query, look the facts up and judge them. -/
def evaluateLeaf (lookup : Lookup σ) (context : Context) (kind : FactKind) (name : String)
    (judge : Entries → List Fact → Reply Bool) (state : σ) : Reply Bool × σ :=
  match context.queryFor name with
  | .error failure => (.failed failure, state)
  | .ok query =>
    match facts lookup kind query state with
    | (.answer found, state) => (judge query found, state)
    | (.failed failure, state) => (.failed failure, state)
    | (.pending, state) => (.pending, state)

/-- Whether some reply never came. -/
def isPending : Reply Bool → Bool
  | .pending => true
  | _ => false

/-- Whether a reply is that a requirement is fulfilled. -/
def isFulfilled : Reply Bool → Bool
  | .answer fulfilled => fulfilled
  | _ => false

/-- The first failure among replies. -/
def firstFailure? : List (Reply Bool) → Option Failure
  | [] => none
  | .failed failure :: _ => some failure
  | _ :: rest => firstFailure? rest

/-- What the replies of all children make of exactly-one. Among several failures the first in the
order of the children decides. Where children run side by side, it is the first in time, and a
child that is a choice of its own fails later than a leaf beside it; which of them is reported
then is left out here. -/
def exactlyOne (replies : List (Reply Bool)) : Reply Bool :=
  match firstFailure? replies with
  | some failure => .failed failure
  | none =>
    if replies.any isPending then .pending
    else .answer (replies.countP isFulfilled == 1)

mutual

/-- Whether a requirement is fulfilled in a context. -/
def evaluate (lookup : Lookup σ) (context : Context) :
    Requirement → σ → Reply Bool × σ
  | .achievement name amount, state =>
    evaluateLeaf lookup context .achievement name
      (fun query => holdsOnOnly .achievement query amount) state
  | .experience name amount, state =>
    evaluateLeaf lookup context .experience name
      (fun query => holdsOnOnly .experience query amount) state
  | .event name amount conditions, state =>
    evaluateLeaf lookup context .event name
      (fun _ found => holdsOnEvents amount conditions found) state
  | .anyOf children, state => evaluateAny lookup context children state
  | .oneOf children, state =>
    let (replies, state) := evaluateEach lookup context children state
    (exactlyOne replies, state)
  | .allOf children, state => evaluateAll lookup context children state

/-- Whether every requirement of a list is fulfilled. -/
def evaluateAll (lookup : Lookup σ) (context : Context) :
    List Requirement → σ → Reply Bool × σ
  | [], state => (.answer true, state)
  | child :: rest, state =>
    match evaluate lookup context child state with
    | (.answer true, state) => evaluateAll lookup context rest state
    | reply => reply

/-- Whether some requirement of a list is fulfilled. -/
def evaluateAny (lookup : Lookup σ) (context : Context) :
    List Requirement → σ → Reply Bool × σ
  | [], state => (.answer false, state)
  | child :: rest, state =>
    match evaluate lookup context child state with
    | (.answer false, state) => evaluateAny lookup context rest state
    | reply => reply

/-- The replies of all requirements of a list. -/
def evaluateEach (lookup : Lookup σ) (context : Context) :
    List Requirement → σ → List (Reply Bool) × σ
  | [], state => ([], state)
  | child :: rest, state =>
    let (reply, state) := evaluate lookup context child state
    let (replies, state) := evaluateEach lookup context rest state
    (reply :: replies, state)

end

end Requirement

/-- The amount awarded under a name within the scope: the sum over all its records. -/
def awardedAmount {σ : Type} (lookup : Lookup σ) (context : Context) (name : String)
    (state : σ) : Reply Value × σ :=
  match context.queryFor name with
  | .error failure => (.failed failure, state)
  | .ok query =>
    match Requirement.facts lookup .achievement query state with
    | (.answer found, state) =>
      match totalAmount (found.map (·.amount)) with
      | .ok total => (.answer total, state)
      | .error failure => (.failed failure, state)
    | (.failed failure, state) => (.failed failure, state)
    | (.pending, state) => (.pending, state)

end Accolade
