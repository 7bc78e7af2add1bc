import Accolade.Rule.Condition
import Accolade.Rule.DefinitionError

/-!
# Reading conditions

A condition is written as a mapping that holds exactly one of `parameter`, `AnyOf` and
`OneOf`. A parameter stands beside its value and nothing else, a combinator beside
nothing at all, over a non-empty list of conditions. A list of conditions asks for all.
-/

namespace Accolade.Condition

/-- Read the leaf that a mapping with a parameter writes. -/
def readParameter (entries : Entries) : Except DefinitionError Condition := do
  let definition := Value.mapping entries
  match Entries.field? entries "parameter" with
  | some (.text name) =>
    if name.isEmpty then .error (.parameterUnnamed definition)
    else
      match Entries.field? entries "value" with
      | none => .error (.parameterWithoutValue name definition)
      | some value =>
        refuseKeysBeyond entries ["parameter", "value"] (.parameterKeys · definition)
        .ok (.parameter name value)
  | _ => .error (.parameterUnnamed definition)

/-- The condition that a combinator makes of its children. -/
def combine : Combinator → List Condition → Condition
  | .anyOf => .anyOf
  | .oneOf => .oneOf

mutual

/-- Read one condition. -/
def read : Value → Except DefinitionError Condition
  | .mapping entries =>
    match ConditionForm.present entries with
    | [.parameter] => readParameter entries
    | [.combined combinator] => do
      refuseKeysBeyond entries [combinator.key] (.conditionKeys · combinator (.mapping entries))
      return combine combinator (← readUnder combinator (.mapping entries) entries)
    | _ => .error (.conditionUndecided (.mapping entries))
  | definition => .error (.conditionNotMapping definition)

/-- Read the children under a combinator of a definition. -/
def readUnder (combinator : Combinator) (definition : Value) :
    List (Scalar × Value) → Except DefinitionError (List Condition)
  | [] => .error (.conditionChildren definition)
  | (key, value) :: rest =>
    if key.same (.text combinator.key) then readChildren definition value
    else readUnder combinator definition rest

/-- Read a non-empty list of children. -/
def readChildren (definition : Value) : Value → Except DefinitionError (List Condition)
  | .list (first :: rest) => do
    let child ← read first
    return child :: (← readItems rest)
  | _ => .error (.conditionChildren definition)

/-- Read conditions one after the other; the first that is malformed decides. -/
def readItems : List Value → Except DefinitionError (List Condition)
  | [] => .ok []
  | first :: rest => do
    let child ← read first
    return child :: (← readItems rest)

end

/-- Read a list of conditions, all of which are asked for. -/
def readAll : Value → Except DefinitionError Condition
  | .list items => do return .allOf (← readItems items)
  | definitions => .error (.conditionsNotList definitions)

end Accolade.Condition
