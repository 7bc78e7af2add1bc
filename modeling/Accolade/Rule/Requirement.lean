import Accolade.Rule.Amount
import Accolade.Rule.Condition
import Accolade.Rule.Form

/-!
# Rules and their requirements

A rule says when an achievement is earned and how it is awarded: what is required, within
which scope and how often it may be awarded, which rules it replaces once awarded, and
what is done after an award. The action descriptors are opaque here.

A requirement is a tree that decides whether a rule is fulfilled. Its leaves look at
facts: the amount awarded of another achievement, the experience gathered under a name,
or the number of events of a name, counting only those that satisfy a condition where one
is given. Inner nodes ask for some, exactly one, or all of their children.

Next to the tree stand the names that its leaves read, kind by kind from left to right. A tree
finds out the names it refers to by a walk with a stack of trees still to look at: each round
takes the last of them, notes the name of a leaf, and puts the children of an inner node on the
stack from the last to the first. A walk takes as many rounds as the tree has nodes.
-/

namespace Accolade

/-- A requirement tree. -/
inductive Requirement
  | achievement (name : String) (amount : AmountTest)
  | experience (name : String) (amount : AmountTest)
  | event (name : String) (amount : AmountTest) (conditions : Option Condition)
  | anyOf (children : List Requirement)
  | oneOf (children : List Requirement)
  | allOf (children : List Requirement)
  deriving Repr, Inhabited

namespace Requirement

mutual

/-- The names of all leaves of a kind, from left to right, with repetitions. -/
def leafNames (kind : FactKind) : Requirement → List String
  | .achievement name _ => if kind = .achievement then [name] else []
  | .experience name _ => if kind = .experience then [name] else []
  | .event name _ _ => if kind = .event then [name] else []
  | .anyOf children => leafNamesOf kind children
  | .oneOf children => leafNamesOf kind children
  | .allOf children => leafNamesOf kind children

/-- The names of all leaves of a kind in a list of trees. -/
def leafNamesOf (kind : FactKind) : List Requirement → List String
  | [] => []
  | child :: rest => leafNames kind child ++ leafNamesOf kind rest

end

mutual

/-- How many nodes a tree has. -/
def size : Requirement → Nat
  | .achievement _ _ => 1
  | .experience _ _ => 1
  | .event _ _ _ => 1
  | .anyOf children => sizeOfAll children + 1
  | .oneOf children => sizeOfAll children + 1
  | .allOf children => sizeOfAll children + 1

/-- How many nodes the trees of a list have. -/
def sizeOfAll : List Requirement → Nat
  | [] => 0
  | child :: rest => size child + sizeOfAll rest

end

/-- How far a walk over a tree has come: the names found of each kind, and the stack of trees
still to look at, the next one last. -/
structure Walk where
  found : FactKind → List String
  stack : List Requirement

namespace Walk

/-- The walk over a tree, before its first round. -/
def start (requirement : Requirement) : Walk := ⟨fun _ => [], [requirement]⟩

/-- Whether there is nothing left to look at. -/
def hasEnded (walk : Walk) : Bool := walk.stack.isEmpty

/-- Note a name of a kind. -/
def note (walk : Walk) (kind : FactKind) (name : String) : Walk :=
  { walk with
    found := fun other => if other = kind then walk.found other ++ [name] else walk.found other }

/-- Put trees on the stack, so that the first of them is the next to look at. -/
def push (walk : Walk) (children : List Requirement) : Walk :=
  { walk with stack := walk.stack ++ children.reverse }

/-- Look at a tree that was taken from the stack. -/
def visit (walk : Walk) : Requirement → Walk
  | .achievement name _ => walk.note .achievement name
  | .experience name _ => walk.note .experience name
  | .event name _ _ => walk.note .event name
  | .anyOf children => walk.push children
  | .oneOf children => walk.push children
  | .allOf children => walk.push children

/-- One round. A walk that has ended stays as it is. -/
def step (walk : Walk) : Walk :=
  match walk.stack.getLast? with
  | none => walk
  | some next => visit { walk with stack := walk.stack.dropLast } next

/-- A number of rounds. -/
def advance : Nat → Walk → Walk
  | 0, walk => walk
  | rounds + 1, walk => advance rounds walk.step

end Walk

/-- The first occurrences of the names in a list, in order. -/
def firstOccurrences : List String → List String
  | [] => []
  | name :: rest => name :: (firstOccurrences rest).filter (· != name)

/-- The names of a kind that a tree refers to, each once, in the order in which a walk first finds
them. -/
def referencedNames (kind : FactKind) (requirement : Requirement) : List String :=
  firstOccurrences ((Walk.advance requirement.size (.start requirement)).found kind)

end Requirement

/-- A named requirement with its award policy. -/
structure Rule where
  name : String
  requirement : Requirement
  replaces : List String
  maxAwarded : Int
  scope : List String
  actions : List Value
  hidden : Bool
  deriving Repr, Inhabited

end Accolade
