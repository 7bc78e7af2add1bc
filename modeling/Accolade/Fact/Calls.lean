import Accolade.Fact.Collaborators
import Accolade.Fact.Postings

/-!
# Collaborators that are disturbed, forgiving or traced

A pattern of failures says of each call of a collaborator, by its number, whether it fails and how.
Any collaborators can be disturbed by a pattern: a call that is made to fail has no other effect,
be it a lookup, an award, a retraction or a run of actions.

Forgiving collaborators never complain about actions; whatever the actions do, they do.

Any collaborators can be traced as well: each call is then kept, in order, with the failure that it
raised, if it raised one. A lookup is kept with the number of facts that it found. Or only the
postings are kept, as the award writer is asked for them.
-/

namespace Accolade

/-- A call of a collaborator, and what it came to. -/
inductive Call
  | lookup (kind : FactKind) (query : Entries) (told : Except Failure Nat)
  | award (rule : String) (raised : Option Failure)
  | retraction (rule : String) (raised : Option Failure)
  | actions (raised : Option Failure)

namespace Call

/-- Whether a call only reads. -/
def isLookup : Call → Bool
  | .lookup _ _ _ => true
  | _ => false

/-- The failure of an outcome. -/
def failureOf {α : Type} : Except Failure α → Option Failure
  | .ok _ => none
  | .error failure => some failure

/-- The failure that a call raised. -/
def raised? : Call → Option Failure
  | .lookup _ _ told => failureOf told
  | .award _ raised => raised
  | .retraction _ raised => raised
  | .actions raised => raised

/-- How many facts a reply holds, or its failure. -/
def countOf : Reply (List Fact) → Except Failure Nat
  | .answer found => .ok found.length
  | .failed failure => .error failure
  | .pending => .ok 0

end Call

/-- A lookup that is kept beside the state, with what it came to. -/
def Lookup.traced {σ : Type} (lookup : Lookup σ) : Lookup (σ × List Call) :=
  fun kind query state =>
    let (reply, inner) := lookup kind query state.1
    (reply, inner, state.2 ++ [.lookup kind query (Call.countOf reply)])

namespace Collaborators

variable {σ : Type}

/-- The same collaborators, with the calls that a pattern names failing. The calls are counted from
zero, beside the state. -/
def disturbed (pattern : Nat → Option Failure) (collaborators : Collaborators σ) :
    Collaborators (σ × Nat) where
  lookup kind query state :=
    match pattern state.2 with
    | some failure => (.failed failure, state.1, state.2 + 1)
    | none =>
      let (reply, inner) := collaborators.lookup kind query state.1
      (reply, inner, state.2 + 1)
  recordAward subject rule scope state :=
    match pattern state.2 with
    | some failure => (.error failure, state.1, state.2 + 1)
    | none =>
      let (outcome, inner) := collaborators.recordAward subject rule scope state.1
      (outcome, inner, state.2 + 1)
  retractAward subject rule scope state :=
    match pattern state.2 with
    | some failure => (.error failure, state.1, state.2 + 1)
    | none =>
      let (outcome, inner) := collaborators.retractAward subject rule scope state.1
      (outcome, inner, state.2 + 1)
  invoke := collaborators.invoke.map fun run actions context state =>
    match pattern state.2 with
    | some failure => (.error failure, state.1, state.2 + 1)
    | none =>
      let (outcome, inner) := run actions context state.1
      (outcome, inner, state.2 + 1)

/-- The same collaborators, with actions that never fail. -/
def forgiving (collaborators : Collaborators σ) : Collaborators σ :=
  { collaborators with
    invoke := collaborators.invoke.map fun run actions context state =>
      (.ok (), (run actions context state).2) }

/-- The same collaborators, keeping all calls beside the state. -/
def traced (collaborators : Collaborators σ) : Collaborators (σ × List Call) where
  lookup := collaborators.lookup.traced
  recordAward subject rule scope state :=
    let (outcome, inner) := collaborators.recordAward subject rule scope state.1
    (outcome, inner, state.2 ++ [.award rule (Call.failureOf outcome)])
  retractAward subject rule scope state :=
    let (outcome, inner) := collaborators.retractAward subject rule scope state.1
    (outcome, inner, state.2 ++ [.retraction rule (Call.failureOf outcome)])
  invoke := collaborators.invoke.map fun run actions context state =>
    let (outcome, inner) := run actions context state.1
    (outcome, inner, state.2 ++ [.actions (Call.failureOf outcome)])

/-- The same collaborators, keeping beside the state which postings the award writer is asked for,
whatever comes of them. -/
def posted (collaborators : Collaborators σ) : Collaborators (σ × List Posting) where
  lookup kind query state :=
    let (reply, inner) := collaborators.lookup kind query state.1
    (reply, inner, state.2)
  recordAward subject rule scope state :=
    let (outcome, inner) := collaborators.recordAward subject rule scope state.1
    (outcome, inner, state.2 ++ [.award subject rule scope])
  retractAward subject rule scope state :=
    let (outcome, inner) := collaborators.retractAward subject rule scope state.1
    (outcome, inner, state.2 ++ [.retraction subject rule scope])
  invoke := collaborators.invoke.map fun run actions context state =>
    let (outcome, inner) := run actions context state.1
    (outcome, inner, state.2)

end Collaborators

end Accolade
