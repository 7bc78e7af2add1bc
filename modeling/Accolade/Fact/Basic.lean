import Accolade.Document.Sameness

/-!
# Facts

A fact is one record of a store: an award, an experience total or an event. It has a
name, an amount, the scope values it belongs to and, for events, a payload.

A query is a mapping. Its entry `name` speaks of the name of the fact, every other entry
of a scope value; a fact matches when every entry of the query is the same on the fact.
-/

namespace Accolade

/-- One record of a fact store. Records that were handed to a store rather than made by
it may lack an identifier. -/
structure Fact where
  name : Value
  amount : Value
  scope : Entries
  attributes : Entries
  identifier : Option String
  deriving Repr, Inhabited

/-- The key of the subject among scope values. -/
def subjectKey : String := "user_id"

/-- The key of the name in a query. -/
def nameKey : String := "name"

namespace Fact

/-- The subject that a fact belongs to, if its scope tells. -/
def subject? (fact : Fact) : Option Value := Entries.field? fact.scope subjectKey

/-- Whether a fact agrees with one entry of a query. -/
def agrees (fact : Fact) (key : Scalar) (expected : Value) : Bool :=
  if key.same (.text nameKey) then fact.name.equals expected
  else
    match Entries.find? fact.scope key with
    | some value => value.equals expected
    | none => false

/-- Whether a fact agrees with every entry of a query. -/
def isMatch (fact : Fact) (query : Entries) : Bool :=
  query.all fun (key, expected) => fact.agrees key expected

end Fact

end Accolade
