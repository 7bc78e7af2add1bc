import Accolade.Failure
import Accolade.Document.KeyOrder
import Accolade.Document.Written
import Accolade.Rule.Amount
import Accolade.Rule.Form

/-!
# What can be wrong with a definition

Every way in which the definition of an amount, a condition or a requirement can be
malformed, with its message. All but three are diagnoses that name the definition: keys of
kinds that have no order, a threshold of too many digits, and a definition that cannot be
written into the message are failures of another kind, because the message itself cannot be
formed or the number cannot be read.
-/

namespace Accolade

/-- The causes for which a definition is refused. -/
inductive DefinitionError
  | amountIsBoolean (value : Bool)
  | amountOfKind (value : Value)
  | amountMalformed (written : String)
  | amountTooLong (digits : Nat)
  | conditionNotMapping (definition : Value)
  | conditionUndecided (definition : Value)
  | parameterUnnamed (definition : Value)
  | parameterWithoutValue (parameter : String) (definition : Value)
  | parameterKeys (extra : List Scalar) (definition : Value)
  | conditionKeys (extra : List Scalar) (combinator : Combinator) (definition : Value)
  | conditionChildren (definition : Value)
  | conditionsNotList (definitions : Value)
  | requirementNotMapping (definition : Value)
  | requirementUndecided (definition : Value)
  | requirementAmbiguous (present : List RequirementForm) (definition : Value)
  | requirementUnnamed (kind : FactKind) (definition : Value)
  | requirementKeys (extra : List Scalar) (definition : Value)
  | requirementChildren (definition : Value)
  | requirementsNotList (definitions : Value)
  | keysUnordered (left right : Kind)
  deriving Repr

/-- The keys of some forms, as messages list them. -/
def RequirementForm.keyList (forms : List RequirementForm) : String :=
  ", ".intercalate (forms.map (·.key))

namespace DefinitionError

/-- The diagnosis of a cause, where it has one. -/
def diagnosis? : DefinitionError → Option Diagnosis
  | .amountIsBoolean value =>
    some (.configuration ("Invalid amount condition: " ++ (Scalar.boolean value).literal)
      [("amount", .boolean value)])
  | .amountOfKind value =>
    some (.configuration
      ("Amount condition must be an integer or a string, got " ++ value.kind.name)
      [("amount", value)])
  | .amountMalformed written =>
    some (.configuration ("Invalid amount condition: " ++ Text.quoted written)
      [("amount", .text written), ("operators", .texts (Comparison.all.map (·.sign)))])
  | .amountTooLong _ => none
  | .conditionNotMapping definition =>
    some (.configuration
      ("Invalid condition: expected a mapping, got " ++ definition.kind.name)
      [("condition", definition)])
  | .conditionUndecided definition =>
    some (.configuration
      "Invalid condition: exactly one of parameter, AnyOf or OneOf must be set"
      [("condition", definition)])
  | .parameterUnnamed definition =>
    some (.configuration "Invalid condition: parameter must be a non-empty string"
      [("condition", definition)])
  | .parameterWithoutValue parameter definition =>
    some (.configuration
      ("Invalid condition: parameter " ++ Text.quoted parameter ++ " has no value")
      [("condition", definition)])
  | .parameterKeys extra definition => do
    return .configuration ("Invalid condition: unexpected keys " ++ (← writtenKeys? extra))
      [("condition", definition)]
  | .conditionKeys extra combinator definition => do
    return .configuration
      ("Invalid condition: unexpected keys " ++ (← writtenKeys? extra) ++ " next to " ++
        combinator.key)
      [("condition", definition)]
  | .conditionChildren definition =>
    some (.configuration
      "Invalid condition: combinators need a non-empty list of conditions"
      [("condition", definition)])
  | .conditionsNotList definitions =>
    some (.configuration "Invalid conditions: expected a list" [("conditions", definitions)])
  | .requirementNotMapping definition =>
    some (.configuration
      ("Invalid requirement: expected a mapping, got " ++ definition.kind.name)
      [("requirement", definition)])
  | .requirementUndecided definition => do
    return .configuration
      ("Invalid requirement: one of " ++ RequirementForm.keyList RequirementForm.all ++
        " needs to be set: " ++ (← definition.written?))
      [("requirement", definition)]
  | .requirementAmbiguous present definition => do
    return .configuration
      ("Invalid requirement: " ++ RequirementForm.keyList present ++ " are mutually exclusive: " ++
        (← definition.written?))
      [("requirement", definition)]
  | .requirementUnnamed kind definition =>
    some (.configuration
      ("Invalid requirement: " ++ kind.key ++ " must name a non-empty string")
      [("requirement", definition)])
  | .requirementKeys extra definition => do
    return .configuration
      ("Invalid requirement: unexpected keys " ++ (← writtenKeys? extra) ++ ": " ++
        (← definition.written?))
      [("requirement", definition)]
  | .requirementChildren definition => do
    return .configuration
      ("Invalid requirement: AnyOf/OneOf need a non-empty list: " ++ (← definition.written?))
      [("requirement", definition)]
  | .requirementsNotList definitions =>
    some (.configuration "Invalid requirements: expected a list"
      [("requirements", definitions)])
  | .keysUnordered _ _ => none

/-- A refusal as a failure. A diagnosis whose message cannot be written is none. -/
def failure (error : DefinitionError) : Failure :=
  match error.diagnosis?, error with
  | some diagnosis, _ => .diagnosed diagnosis
  | none, .keysUnordered left right => .unordered left right
  | none, .amountTooLong digits => .tooManyDigits (some digits)
  | none, _ => .tooLongToWrite

end DefinitionError

/-- Refuse keys beyond the allowed ones; the refusal lists them in order. -/
def refuseKeysBeyond (entries : Entries) (allowed : List String)
    (refusal : List Scalar → DefinitionError) : Except DefinitionError Unit :=
  match Entries.keysBeyond entries allowed with
  | [] => .ok ()
  | extra =>
    match sortedKeys extra with
    | .ok sorted => .error (refusal sorted)
    | .error (left, right) => .error (.keysUnordered left right)

end Accolade
