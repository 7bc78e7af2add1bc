import Accolade.Context
import Accolade.Rule.RequirementReader

/-!
# Reading rules

The body of a rule is a mapping of six optional fields. All of them are checked before
anything is said, so a diagnosis lists every field at fault: first the known fields in
their own order, then unknown keys in the order of the document. Null stands for the
default of a list, but neither of the cap nor of the display flag. A set or a pair is as
good as a list, and bytes that are a text as good as that text.

After the fields, a rule may not replace itself, and its requirements must be well formed.
-/

namespace Accolade

/-- What is wrong with one field of a rule body. -/
inductive FieldFault
  | notList
  | itemNotText
  | itemUndecodable
  | emptyList
  | notInteger
  | belowOne
  | notBoolean
  | unknownKey
  | keyNotText
  deriving DecidableEq, Repr

/-- The message of a field fault. -/
def FieldFault.message : FieldFault → String
  | .notList => "Input should be a valid list"
  | .itemNotText => "Input should be a valid string"
  | .itemUndecodable =>
    "Input should be a valid string, unable to parse raw data as a unicode string"
  | .emptyList => "List should have at least 1 item after validation, not 0"
  | .notInteger => "Input should be a valid integer"
  | .belowOne => "Input should be greater than or equal to 1"
  | .notBoolean => "Input should be a valid boolean"
  | .unknownKey => "Extra inputs are not permitted"
  | .keyNotText => "Keys should be strings"

/-- A fault and where it is: the field, and the item where the fault is inside a list. -/
structure LocatedFault where
  location : String
  fault : FieldFault
  deriving DecidableEq, Repr

/-- A located fault as messages show it. -/
def LocatedFault.text (located : LocatedFault) : String :=
  located.location ++ ": " ++ located.fault.message

/-- Why the definition of a rule is refused. -/
inductive RuleError
  | notMapping (definition : Value)
  | fields (faults : List LocatedFault) (definition : Value)
  | replacesItself (definition : Value)
  | requirement (error : DefinitionError)
  deriving Repr

namespace RuleError

/-- The refusal of a rule as a failure. -/
def failure (rule : String) : RuleError → Failure
  | .notMapping definition =>
    .diagnosed (.configuration ("Rule definition must be a mapping, got " ++ definition.kind.name)
      [("rule", .text rule), ("definition", definition)])
  | .fields faults definition =>
    .diagnosed (.configuration ("; ".intercalate (faults.map (·.text)))
      [("rule", .text rule), ("definition", definition)])
  | .replacesItself definition =>
    .diagnosed (.configuration "A rule cannot replace itself"
      [("rule", .text rule), ("definition", definition)])
  | .requirement error => error.failure

end RuleError

namespace Rule

/-- A field value, or what is wrong with it. -/
abbrev Checked (α : Type) := Except (List LocatedFault) α

/-- The faults of a checked value. -/
def faultsOf {α : Type} : Checked α → List LocatedFault
  | .ok _ => []
  | .error faults => faults

/-- The items of a value that may stand for a list. -/
def itemsOf? : Value → Option (List Value)
  | .list items => some items
  | .pair first second => some [first, second]
  | .set members => some (members.map .scalar)
  | _ => none

/-- A list of any values; nothing and null are the empty list. -/
def checkList (field : String) : Option Value → Checked (List Value)
  | none | some .null => .ok []
  | some value =>
    match itemsOf? value with
    | some items => .ok items
    | none => .error [⟨field, .notList⟩]

/-- The text that an item of a list is. -/
def textOfItem : Value → Except FieldFault String
  | .text value => .ok value
  | .scalar (.bytes value) =>
    match String.fromUTF8? ⟨value.toArray⟩ with
    | some text => .ok text
    | none => .error .itemUndecodable
  | _ => .error .itemNotText

/-- The faults of the items that are no texts. -/
def itemFaults (field : String) : Nat → List Value → List LocatedFault
  | _, [] => []
  | index, item :: rest =>
    match textOfItem item with
    | .ok _ => itemFaults field (index + 1) rest
    | .error fault =>
      ⟨field ++ "." ++ toString index, fault⟩ :: itemFaults field (index + 1) rest

/-- The texts among values. -/
def textItems (items : List Value) : List String :=
  items.filterMap fun item => (textOfItem item).toOption

/-- A list of texts. -/
def checkTexts (field : String) (value : Option Value) : Checked (List String) :=
  match checkList field value with
  | .error faults => .error faults
  | .ok items =>
    match itemFaults field 0 items with
    | [] => .ok (textItems items)
    | faults => .error faults

/-- The scope keys: at least one text; nothing and null are the default scope. -/
def checkScope (value : Option Value) : Checked (List String) :=
  match value with
  | none | some .null => .ok defaultScope
  | value =>
    match checkTexts "scope" value with
    | .ok [] => .error [⟨"scope", .emptyList⟩]
    | checked => checked

/-- The cap under the key that was used: a whole number of at least one. -/
def checkCap (field : String) : Option Value → Checked Int
  | none => .ok 1
  | some (.integer cap) => if cap < 1 then .error [⟨field, .belowOne⟩] else .ok cap
  | some _ => .error [⟨field, .notInteger⟩]

/-- The display flag. -/
def checkHidden : Option Value → Checked Bool
  | none => .ok false
  | some (.boolean hidden) => .ok hidden
  | some _ => .error [⟨"hidden", .notBoolean⟩]

/-- The key under which a body gives its cap: the spelling of documents wins. -/
def capKey (entries : Entries) : String :=
  if Entries.hasField entries "maxAwarded" then "maxAwarded" else "max_awarded"

/-- The faults of keys that name no field. -/
def keyFaults (entries : Entries) : List LocatedFault :=
  (Entries.keys entries).filterMap fun key => match key with
    | .text name =>
      if ["requirements", "replaces", capKey entries, "scope", "actions", "hidden"].contains name
      then none else some ⟨name, .unknownKey⟩
    | key => some ⟨key.location.plain, .keyNotText⟩

/-- The fields of a rule body. -/
structure Body where
  requirements : List Value
  replaces : List String
  maxAwarded : Int
  scope : List String
  actions : List Value
  hidden : Bool

/-- Check all fields of a rule body. -/
def checkBody (entries : Entries) : Checked Body :=
  let requirements := checkList "requirements" (Entries.field? entries "requirements")
  let replaces := checkTexts "replaces" (Entries.field? entries "replaces")
  let cap := checkCap (capKey entries) (Entries.field? entries (capKey entries))
  let scope := checkScope (Entries.field? entries "scope")
  let actions := checkList "actions" (Entries.field? entries "actions")
  let hidden := checkHidden (Entries.field? entries "hidden")
  match requirements, replaces, cap, scope, actions, hidden, keyFaults entries with
  | .ok requirements, .ok replaces, .ok cap, .ok scope, .ok actions, .ok hidden, [] =>
    .ok ⟨requirements, replaces, cap, scope, actions, hidden⟩
  | _, _, _, _, _, _, unknown =>
    .error (faultsOf requirements ++ faultsOf replaces ++ faultsOf cap ++ faultsOf scope ++
      faultsOf actions ++ faultsOf hidden ++ unknown)

/-- Read the body of a rule that is a mapping. -/
def readBody (name : String) (entries : Entries) : Except RuleError Rule :=
  match checkBody entries with
  | .error faults => .error (.fields faults (.mapping entries))
  | .ok body =>
    if body.replaces.contains name then .error (.replacesItself (.mapping entries))
    else
      match Requirement.readAll (.list body.requirements) with
      | .error error => .error (.requirement error)
      | .ok requirement =>
        .ok ⟨name, requirement, body.replaces, body.maxAwarded, body.scope, body.actions,
          body.hidden⟩

/-- Read the definition of a rule; null is the empty body. -/
def read (name : String) : Value → Except RuleError Rule
  | .null => readBody name []
  | .mapping entries => readBody name entries
  | definition => .error (.notMapping definition)

end Rule

end Accolade
