import Accolade.Rule.Requirement

/-!
# Catalogues

A catalogue is the rules that are in force, in the order of the document. A rule is found
by its name.
-/

namespace Accolade

/-- The rules in force, in document order. -/
structure Catalogue where
  rules : List Rule
  deriving Repr, Inhabited

namespace Catalogue

/-- The rule of a name. -/
def find? (catalogue : Catalogue) (name : String) : Option Rule :=
  catalogue.rules.find? fun rule => rule.name == name

/-- Whether a rule of this name is in force. -/
def has (catalogue : Catalogue) (name : String) : Bool :=
  catalogue.rules.any fun rule => rule.name == name

/-- The names of the rules, in document order. -/
def names (catalogue : Catalogue) : List String := catalogue.rules.map (·.name)

/-- How many rules are in force. -/
def size (catalogue : Catalogue) : Nat := catalogue.rules.length

/-- The rules that are shown. -/
def visible (catalogue : Catalogue) : List Rule := catalogue.rules.filter fun rule => !rule.hidden

/-- The achievements that a rule requires and no rule awards: each once, by rule and then
by first occurrence. -/
def unawardable (catalogue : Catalogue) : List (String × String) :=
  catalogue.rules.flatMap fun rule =>
    ((rule.requirement.referencedNames .achievement).filter fun name =>
      !catalogue.has name).map fun name => (rule.name, name)

end Catalogue

end Accolade
