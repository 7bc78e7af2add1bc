import Accolade.Rule.AmountReader
import Accolade.Rule.ConditionReader
import Accolade.Rule.Requirement

/-!
# Reading requirements

A requirement is written as a mapping that holds exactly one of `achievement`, `xp`,
`event`, `AnyOf` and `OneOf`. A leaf names its fact and may add an amount, an event also
conditions; a combinator stands alone over a non-empty list of requirements. A list of
requirements asks for all, and no list for none.
-/

namespace Accolade.Requirement

/-- The name and amount of the fact that a mapping asks for. -/
def readFact (kind : FactKind) (entries : Entries) :
    Except DefinitionError (String × AmountTest) :=
  match Entries.field? entries kind.key with
  | some (.text name) =>
    if name.isEmpty then .error (.requirementUnnamed kind (.mapping entries))
    else do
      let amount ← AmountTest.read ((Entries.field? entries "amount").getD (.integer 1))
      return (name, amount)
  | _ => .error (.requirementUnnamed kind (.mapping entries))

/-- The conditions of an event; conditions that count as false are none. -/
def readConditions (entries : Entries) : Except DefinitionError (Option Condition) :=
  match Entries.field? entries "conditions" with
  | some definitions =>
    if definitions.isTruthy then some <$> Condition.readAll definitions else .ok none
  | none => .ok none

/-- The keys that may stand beside the name of a fact, that of the name included. -/
def leafKeys : FactKind → List String
  | .event => ["event", "amount", "conditions"]
  | kind => [kind.key, "amount"]

/-- Read the leaf that a mapping writes. The name decides first, then the amount, then
keys that do not belong there, and last the conditions of an event. -/
def readLeaf (kind : FactKind) (entries : Entries) : Except DefinitionError Requirement := do
  let (name, amount) ← readFact kind entries
  refuseKeysBeyond entries (leafKeys kind) (.requirementKeys · (.mapping entries))
  match kind with
  | .achievement => return .achievement name amount
  | .experience => return .experience name amount
  | .event => return .event name amount (← readConditions entries)

/-- The requirement that a combinator makes of its children. -/
def combine : Combinator → List Requirement → Requirement
  | .anyOf => .anyOf
  | .oneOf => .oneOf

mutual

/-- Read one requirement. -/
def read : Value → Except DefinitionError Requirement
  | .mapping entries =>
    match RequirementForm.present entries with
    | [] => .error (.requirementUndecided (.mapping entries))
    | [.leaf kind] => readLeaf kind entries
    | [.combined combinator] => do
      refuseKeysBeyond entries [combinator.key] (.requirementKeys · (.mapping entries))
      return combine combinator (← readUnder combinator (.mapping entries) entries)
    | present => .error (.requirementAmbiguous present (.mapping entries))
  | definition => .error (.requirementNotMapping definition)

/-- Read the children under a combinator of a definition. -/
def readUnder (combinator : Combinator) (definition : Value) :
    List (Scalar × Value) → Except DefinitionError (List Requirement)
  | [] => .error (.requirementChildren definition)
  | (key, value) :: rest =>
    if key.same (.text combinator.key) then readChildren definition value
    else readUnder combinator definition rest

/-- Read a non-empty list of children. -/
def readChildren (definition : Value) : Value → Except DefinitionError (List Requirement)
  | .list (first :: rest) => do
    let child ← read first
    return child :: (← readItems rest)
  | _ => .error (.requirementChildren definition)

/-- Read requirements one after the other; the first that is malformed decides. -/
def readItems : List Value → Except DefinitionError (List Requirement)
  | [] => .ok []
  | first :: rest => do
    let child ← read first
    return child :: (← readItems rest)

end

/-- Read the list of requirements of a rule, all of which are asked for. -/
def readAll : Value → Except DefinitionError Requirement
  | .null => .ok (.allOf [])
  | .list items => do return .allOf (← readItems items)
  | definitions => .error (.requirementsNotList definitions)

end Accolade.Requirement
