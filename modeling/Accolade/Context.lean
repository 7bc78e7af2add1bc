import Accolade.Failure
import Accolade.Document.KeyOrder
import Accolade.Document.Written
import Accolade.Fact.Basic

/-!
# Evaluation contexts

A context says for whom rules are evaluated: the subject, the attributes that give scope
keys their values, and the scope in force. The subject is among the attributes under its
own key unless the caller put another value there.

Binding a context to another scope changes nothing else. The values of the scope keys
exist when every key is an attribute; a missing key is a configuration error that names
the keys missing, the scope and the attributes there are.
-/

namespace Accolade

/-- The scope of rules that name none. -/
def defaultScope : List String := [subjectKey]

/-- For whom and within which scope facts are looked up. -/
structure Context where
  subject : Value
  attributes : Entries
  scope : List String
  /-- the identifier of the event that set off the evaluation, null without one -/
  trigger : Value
  deriving Repr

namespace Context

/-- The context of a subject. -/
def of (subject : Value) (attributes : Entries) (scope : List String) : Context :=
  ⟨subject, Entries.putFieldIfAbsent attributes subjectKey subject, scope, .null⟩

/-- The same context within another scope. -/
def forScope (context : Context) (scope : List String) : Context :=
  { context with scope := scope }

/-- The scope keys that are no attributes. -/
def missingKeys (context : Context) : List String :=
  context.scope.filter fun key => !Entries.hasField context.attributes key

/-- The failure of a context that lacks scope keys. -/
def missingFailure (context : Context) : Failure :=
  match sortedKeys (Entries.keys context.attributes) with
  | .error (left, right) => .unordered left right
  | .ok keys =>
    .diagnosed (.configuration
      ("Scope keys " ++ writtenTexts context.missingKeys ++
        " are not present in the evaluation context")
      [("scope", .texts context.scope), ("attributes", .list (keys.map .scalar))])

/-- The attribute values of the scope keys, each key once. -/
def boundValues (context : Context) : Entries :=
  Entries.ofPairs (context.scope.filterMap fun key =>
    (Entries.field? context.attributes key).map fun value => (.text key, value))

/-- The values of the scope keys, if all of them are attributes. -/
def scopeValues (context : Context) : Except Failure Entries :=
  if context.missingKeys.isEmpty then .ok context.boundValues
  else .error context.missingFailure

/-- The query for facts of a name within the scope. -/
def queryFor (context : Context) (name : String) : Except Failure Entries :=
  context.scopeValues.map fun values => Entries.putField values nameKey (.text name)

end Context

end Accolade
