import Accolade.Context
import Accolade.Fact.Basic
import Accolade.Failure
import Accolade.Rule.Form

/-!
# Collaborators

All that a processing cycle touches outside itself: the lookups, the award writer and the
invoker of post-award actions. Each may fail and each moves the collaborators' state. The
cycle knows nothing else about them.

A lookup answers, fails, or never returns. Evaluation is written against any lookup over any
state, so it can be run over plain ledgers, over a store that fails now and then, or over
one that notes what it was asked.
-/

namespace Accolade

/-- What asking a collaborator comes to. -/
inductive Reply (α : Type)
  | answer (value : α)
  | failed (failure : Failure)
  /-- the collaborator never returns -/
  | pending
  deriving Repr

/-- A way to look facts up, over the states of a collaborator. -/
abbrev Lookup (σ : Type) := FactKind → Entries → σ → Reply (List Fact) × σ

/-- A lookup that notes each query before it is answered, the latest first. -/
def Lookup.noted {σ : Type} (lookup : Lookup σ) :
    Lookup (σ × List (FactKind × Entries)) :=
  fun kind query (state, queries) =>
    let (reply, state) := lookup kind query state
    (reply, state, (kind, query) :: queries)

/-- The collaborators of a cycle, over their states. -/
structure Collaborators (σ : Type) where
  lookup : Lookup σ
  /-- add one award of a rule for the subject within a scope -/
  recordAward : Value → String → Entries → σ → Except Failure Fact × σ
  /-- retract the awards of a rule for the subject within a scope -/
  retractAward : Value → String → Entries → σ → Except Failure Unit × σ
  /-- run the actions of a rule in a context; there may be nobody to run them -/
  invoke : Option (List Value → Context → σ → Except Failure Unit × σ)

end Accolade
