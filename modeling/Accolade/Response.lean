import Accolade.Settings.Conversion

/-!
# Responses

A failure is answered by a response: its code, its message and details. What a reporter
gives is checked like any input. The code and the message are texts, the details a mapping
with texts as keys; all faults are told, in that order. Details that count as false are none.
-/

namespace Accolade

/-- The answer to a failure. -/
structure Response where
  code : String
  message : String
  details : Entries
  deriving Repr

namespace Response

/-- The faults of details. -/
def detailFaults : Value → List InvalidInput
  | .mapping entries => keyFaults "details" entries
  | _ => [⟨[.text "details"], .notMapping⟩]

/-- The response that a reporter's code, message and details make. -/
def of (code message details : Value) : Except (List InvalidInput) Response :=
  let details : Value := if details.isTruthy then details else .mapping []
  match Conversion.text code, Conversion.text message, details, detailFaults details with
  | .ok code, .ok message, .mapping entries, [] => .ok ⟨code, message, entries⟩
  | code, message, _, faults =>
    .error (faultAt "code" code ++ faultAt "message" message ++ faults)
where
  /-- The fault of a field, if it has one. -/
  faultAt (field : String) : Except InputFault String → List InvalidInput
    | .ok _ => []
    | .error fault => [⟨[.text field], fault⟩]

end Response

end Accolade
