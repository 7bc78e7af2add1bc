import Accolade.Document.Value
import Accolade.Number.DecimalText
import Accolade.Number.Shortest
import Accolade.Text.Quoted

/-!
# The written form of values

Messages show values as literals: lists in brackets, mappings and sets in braces in their
own order, pairs in parentheses, texts quoted, bytes quoted behind a letter, numbers in
their shortest exact form. A reference to an enclosing collection shows the brackets of that
collection.

A value cannot be written if an integer of too many digits stands anywhere inside it, and then
neither can a message that shows it. Literals have no such limit: they are what the written
form is where there is one.
-/

namespace Accolade

namespace Scalar

/-- The literal of a scalar, however long it is. -/
def literal : Scalar → String
  | .null => "None"
  | .boolean true => "True"
  | .boolean false => "False"
  | .integer value => toString value
  | .double value => value.text
  | .text value => Text.quoted value
  | .bytes value => Text.quotedBytes value

/-- A key as plain text, however long it is: a text is itself, any other key its literal. -/
def plain : Scalar → String
  | .text value => value
  | key => key.literal

/-- Whether a scalar can be written: only integers can be too long for that. -/
def hasText : Scalar → Bool
  | .integer value => DecimalText.isShort value
  | _ => true

/-- A key as plain text, where it can be written. -/
def plain? (key : Scalar) : Option String := if key.hasText then some key.plain else none

/-- How a key stands in the location of a fault: as an integer of 64 bits where it denotes
one, else as plain text. A key that cannot be written is told by its kind. -/
def location : Scalar → Scalar
  | .boolean value => .integer (if value then 1 else 0)
  | .integer value =>
    if -(Nat.pow 2 63 : Nat) ≤ value ∧ value < (Nat.pow 2 63 : Nat) then .integer value
    else .text ((DecimalText.whole? value).getD "<unprintable int object>")
  | key => .text key.plain

end Scalar

namespace Value

mutual

/-- The literal of a value, however long it is. -/
def literal : Value → String
  | .scalar value => value.literal
  | .list items => "[" ++ itemLiterals items ++ "]"
  | .mapping entries => "\x7b" ++ entryLiterals entries ++ "\x7d"
  | .pair first second => "(" ++ literal first ++ ", " ++ literal second ++ ")"
  | .set [] => "set()"
  | .set members => "\x7b" ++ ", ".intercalate (members.map (·.literal)) ++ "\x7d"
  | .enclosing .mapping => "\x7b...\x7d"
  | .enclosing _ => "[...]"

/-- The literals of items, with commas between them. -/
def itemLiterals : List Value → String
  | [] => ""
  | [item] => literal item
  | item :: next :: rest => literal item ++ ", " ++ itemLiterals (next :: rest)

/-- The literals of entries, with commas between them. -/
def entryLiterals : List (Scalar × Value) → String
  | [] => ""
  | [(key, value)] => key.literal ++ ": " ++ literal value
  | (key, value) :: next :: rest =>
    key.literal ++ ": " ++ literal value ++ ", " ++ entryLiterals (next :: rest)

end

mutual

/-- Whether a value can be written: no integer inside it is too long. -/
def hasText : Value → Bool
  | .scalar value => value.hasText
  | .list items => itemsHaveText items
  | .mapping entries => entriesHaveText entries
  | .pair first second => hasText first && hasText second
  | .set members => members.all (·.hasText)
  | .enclosing _ => true

/-- Whether all items of a list can be written. -/
def itemsHaveText : List Value → Bool
  | [] => true
  | item :: rest => hasText item && itemsHaveText rest

/-- Whether all keys and values of a mapping can be written. -/
def entriesHaveText : List (Scalar × Value) → Bool
  | [] => true
  | (key, value) :: rest => key.hasText && hasText value && entriesHaveText rest

end

/-- The written form of a value, where it can be written. -/
def written? (value : Value) : Option String := if value.hasText then some value.literal else none

@[simp] theorem written?_eq_none_iff (value : Value) :
    value.written? = none ↔ value.hasText = false := by
  simp [written?]

theorem itemsHaveText_eq (items : List Value) : itemsHaveText items = items.all (·.hasText) := by
  induction items with
  | nil => rfl
  | cons item rest inductionHypothesis =>
    simp only [itemsHaveText, inductionHypothesis, List.all_cons]

theorem entriesHaveText_iff (entries : List (Scalar × Value)) :
    entriesHaveText entries = true ↔
      ∀ entry ∈ entries, entry.1.hasText = true ∧ entry.2.hasText = true := by
  induction entries with
  | nil => simp [entriesHaveText]
  | cons entry rest inductionHypothesis => simp [entriesHaveText, inductionHypothesis]

/-- A value as plain text, however long it is: a text is itself, any other value its
literal. -/
def plain : Value → String
  | .text value => value
  | value => value.literal

/-- A value as plain text, where it can be written. -/
def plain? (value : Value) : Option String := if value.hasText then some value.plain else none

end Value

/-- The written form of a list of scalars, where it can be written. -/
def writtenKeys? (keys : List Scalar) : Option String :=
  Value.written? (.list (keys.map .scalar))

theorem writtenKeys?_eq_none_iff (keys : List Scalar) :
    writtenKeys? keys = none ↔ ∃ key ∈ keys, key.hasText = false := by
  simp [writtenKeys?, Value.hasText, Value.itemsHaveText_eq]

/-- The written form of a list of texts. -/
def writtenTexts (items : List String) : String :=
  Value.literal (.texts items)

end Accolade
