import Accolade.Document.Sameness

/-!
# Conditions on event payloads

A condition is a tree over the attributes of one event. A leaf asks that an attribute is
there and is strictly the same as a value; a missing attribute is not a null one. Inner
nodes ask for some, exactly one, or all of their children.

Next to the evaluation stand the parameters that a tree reads.
-/

namespace Accolade

/-- A condition tree. -/
inductive Condition
  | parameter (name : String) (value : Value)
  | anyOf (children : List Condition)
  | oneOf (children : List Condition)
  | allOf (children : List Condition)
  deriving Repr, Inhabited

namespace Condition

mutual

/-- Whether the attributes of an event satisfy a condition. -/
def holds (attributes : Entries) : Condition → Bool
  | .parameter name value =>
    match Entries.field? attributes name with
    | some actual => actual.strictlySame value
    | none => false
  | .anyOf children => someHolds attributes children
  | .oneOf children => countHolding attributes children == 1
  | .allOf children => allHold attributes children

/-- Whether some condition of a list holds. -/
def someHolds (attributes : Entries) : List Condition → Bool
  | [] => false
  | child :: rest => holds attributes child || someHolds attributes rest

/-- Whether every condition of a list holds. -/
def allHold (attributes : Entries) : List Condition → Bool
  | [] => true
  | child :: rest => holds attributes child && allHold attributes rest

/-- How many conditions of a list hold. -/
def countHolding (attributes : Entries) : List Condition → Nat
  | [] => 0
  | child :: rest => (if holds attributes child then 1 else 0) + countHolding attributes rest

end

mutual

/-- The parameters that a condition reads, from left to right. -/
def parameters : Condition → List String
  | .parameter name _ => [name]
  | .anyOf children => parametersOf children
  | .oneOf children => parametersOf children
  | .allOf children => parametersOf children

/-- The parameters that the conditions of a list read. -/
def parametersOf : List Condition → List String
  | [] => []
  | child :: rest => parameters child ++ parametersOf rest

end

end Condition

end Accolade
