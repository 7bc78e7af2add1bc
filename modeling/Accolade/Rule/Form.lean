import Accolade.Document.Value

/-!
# The forms of conditions and requirements

A mapping is a condition or a requirement of the form whose key it holds. Exactly one of
the keys may be there; the lists below give them in the order in which they are looked
for and in which messages name them.
-/

namespace Accolade

/-- The kinds of fact that a requirement can look at. -/
inductive FactKind
  | achievement | experience | event
  deriving DecidableEq, Repr

namespace FactKind

/-- The key that names a fact of this kind in a definition. -/
def key : FactKind → String
  | .achievement => "achievement"
  | .experience => "xp"
  | .event => "event"

/-- The name of the store that holds the facts of this kind. -/
def store : FactKind → String
  | .achievement => "achievements"
  | .experience => "xp"
  | .event => "events"

end FactKind

/-- The ways to combine children that a definition can name. -/
inductive Combinator
  | anyOf | oneOf
  deriving DecidableEq, Repr

/-- The key of a combinator in a definition. -/
def Combinator.key : Combinator → String
  | .anyOf => "AnyOf"
  | .oneOf => "OneOf"

/-- The forms of a condition. -/
inductive ConditionForm
  | parameter
  | combined (combinator : Combinator)
  deriving DecidableEq, Repr

namespace ConditionForm

/-- The key that makes a mapping a condition of this form. -/
def key : ConditionForm → String
  | .parameter => "parameter"
  | .combined combinator => combinator.key

def all : List ConditionForm := [.parameter, .combined .anyOf, .combined .oneOf]

/-- The forms whose keys a mapping holds. -/
def present (entries : Entries) : List ConditionForm :=
  all.filter fun form => Entries.hasField entries form.key

end ConditionForm

/-- The forms of a requirement. -/
inductive RequirementForm
  | leaf (kind : FactKind)
  | combined (combinator : Combinator)
  deriving DecidableEq, Repr

namespace RequirementForm

/-- The key that makes a mapping a requirement of this form. -/
def key : RequirementForm → String
  | .leaf kind => kind.key
  | .combined combinator => combinator.key

def all : List RequirementForm :=
  [.leaf .achievement, .leaf .experience, .leaf .event, .combined .anyOf, .combined .oneOf]

/-- The forms whose keys a mapping holds. -/
def present (entries : Entries) : List RequirementForm :=
  all.filter fun form => Entries.hasField entries form.key

end RequirementForm

end Accolade
