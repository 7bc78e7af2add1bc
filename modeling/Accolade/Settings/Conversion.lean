import Accolade.Document.Written
import Accolade.Number.DecimalText
import Accolade.Text.Blank

/-!
# Converting inputs

Settings and summaries take what they are given and convert it where nothing is lost: a
whole double is an integer, a number may be written as text with spaces around it, and a
handful of words are booleans. What cannot be converted is a fault with a message and a
code of its own.
-/

namespace Accolade

/-- Why an input is not taken. -/
inductive InputFault
  | notText
  | notInteger
  | unreadableInteger
  | oversizedInteger
  | fractional
  | notFinite
  | notNumber
  | unreadableNumber
  | notBoolean
  | unreadableBoolean
  | notMapping
  | notGreater (bound : Nat)
  | notAtLeast (bound : Nat)
  deriving DecidableEq, Repr

namespace InputFault

def message : InputFault → String
  | .notText => "Input should be a valid string"
  | .notInteger => "Input should be a valid integer"
  | .unreadableInteger => "Input should be a valid integer, unable to parse string as an integer"
  | .oversizedInteger => "Unable to parse input string as an integer, exceeded maximum size"
  | .fractional => "Input should be a valid integer, got a number with a fractional part"
  | .notFinite => "Input should be a finite number"
  | .notNumber => "Input should be a valid number"
  | .unreadableNumber => "Input should be a valid number, unable to parse string as a number"
  | .notBoolean => "Input should be a valid boolean"
  | .unreadableBoolean => "Input should be a valid boolean, unable to interpret input"
  | .notMapping => "Input should be a valid dictionary"
  | .notGreater bound => "Input should be greater than " ++ toString bound
  | .notAtLeast bound => "Input should be greater than or equal to " ++ toString bound

/-- The code by which programs know a fault. -/
def code : InputFault → String
  | .notText => "string_type"
  | .notInteger => "int_type"
  | .unreadableInteger => "int_parsing"
  | .oversizedInteger => "int_parsing_size"
  | .fractional => "int_from_float"
  | .notFinite => "finite_number"
  | .notNumber => "float_type"
  | .unreadableNumber => "float_parsing"
  | .notBoolean => "bool_type"
  | .unreadableBoolean => "bool_parsing"
  | .notMapping => "dict_type"
  | .notGreater _ => "greater_than"
  | .notAtLeast _ => "greater_than_equal"

end InputFault

/-- A fault and the place of the input. -/
structure InvalidInput where
  location : List Scalar
  fault : InputFault
  deriving DecidableEq, Repr

/-- The faults of the keys of a mapping that are no texts. -/
def keyFaults (field : String) (entries : Entries) : List InvalidInput :=
  (Entries.keys entries).filterMap fun key => match key with
    | .text _ => none
    | key => some ⟨[.text field, key.location, .text "[key]"], .notText⟩

namespace Conversion

/-- Text without underscores, where single ones stand inside it. -/
def withoutUnderscores? (text : List Char) : Option (List Char) :=
  if text.head? = some '_' || text.getLast? = some '_' || hasDouble text then none
  else some (text.filter (· != '_'))
where
  hasDouble : List Char → Bool
    | '_' :: '_' :: _ => true
    | _ :: rest => hasDouble rest
    | [] => false

/-- Whether a number may begin with a character: a minus or a digit other than zero. -/
def beginsNumber (c : Char) : Bool := c == '-' || (c.isDigit && c != '0')

/-- A text behind zeros and underscores, of which the last is given. In front of a point one
of them stays, as it does at the end. -/
def behindZeros? (last : Char) : List Char → Option (List Char)
  | [] => some [last]
  | c :: rest =>
    if c = '0' ∨ c = '_' then behindZeros? c rest
    else if beginsNumber c then some (c :: rest)
    else if c = '.' then some (last :: c :: rest)
    else none

/-- A number without needless zeros in front, and the underscores among those. -/
def withoutLeadingZeros? : List Char → Option (List Char)
  | [] => none
  | c :: rest =>
    if c = '0' then behindZeros? c rest
    else if beginsNumber c then some (c :: rest)
    else none

/-- A number without its fraction, where that consists of zeros. -/
def withoutZeroFraction (text : List Char) : List Char :=
  match text.dropWhile (· != '.') with
  | '.' :: '0' :: zeros => if zeros.all (· == '0') then text.takeWhile (· != '.') else text
  | _ => text

/-- What is left of a number without the forms that are tolerated: spaces around it, a plus
sign, zeros in front, a fraction of zeros and underscores between digits. -/
def tidied? (text : List Char) : Option (List Char) := do
  let text := Text.trimSpaces text
  let text := if text.head? = some '+' then text.drop 1 else text
  let text := withoutZeroFraction (← withoutLeadingZeros? text)
  return (withoutUnderscores? text).getD text

/-- Whether a text is an integer without needless zeros, and perhaps with a minus sign. -/
def isStrictInteger (text : List Char) : Bool :=
  match if text.head? = some '-' then text.drop 1 else text with
  | [] => false
  | c :: rest => c.isDigit && rest.all Char.isDigit && (c != '0' || rest.isEmpty)

/-- The most characters that an integer may be written with. -/
def integerLimit : Nat := 4300

/-- Read an integer from text. -/
def integerOfText (text : String) : Except InputFault Int :=
  let characters := text.toList
  let candidate := if isStrictInteger characters then some characters else tidied? characters
  match candidate.filter isStrictInteger with
  | none => .error .unreadableInteger
  | some written =>
    if written.length > integerLimit then .error .oversizedInteger
    else
      let (negative, digits) := DecimalText.readSign written
      let magnitude : Int := DecimalText.value digits
      .ok (if negative then -magnitude else magnitude)

/-- An integer that a double is. Doubles beyond sixty-three bits are not taken. -/
def integerOfDouble (value : Double) : Except InputFault Int :=
  if !value.isFinite then .error .notFinite
  else
    match value.integral? with
    | none => .error .fractional
    | some n => if n.natAbs < Nat.pow 2 63 then .ok n else .error .oversizedInteger

/-- Convert to an integer. -/
def integer : Value → Except InputFault Int
  | .integer value => .ok value
  | .boolean value => .ok (if value then 1 else 0)
  | .double value => integerOfDouble value
  | .text value => integerOfText value
  | _ => .error .notInteger

/-- Read a number from text. Spaces may surround it or underscores stand in it, not both. -/
def doubleOfText (text : String) : Except InputFault Double :=
  match DecimalText.double? (Text.trimSpaces text.toList) with
  | some value => .ok value
  | none =>
    match (withoutUnderscores? text.toList).bind DecimalText.double? with
    | some value => .ok value
    | none => .error .unreadableNumber

/-- Convert to a double. -/
def double : Value → Except InputFault Double
  | .double value => .ok value
  | .integer value =>
    let rounded := Double.ofInt value
    if rounded.isFinite then .ok rounded else .error .notNumber
  | .boolean value => .ok (Double.ofInt (if value then 1 else 0))
  | .text value => doubleOfText value
  | _ => .error .notNumber

/-- The boolean that a word means. -/
def booleanOfText (text : String) : Except InputFault Bool :=
  let word := String.ofList (DecimalText.lowered text.toList)
  if ["1", "on", "t", "true", "y", "yes"].contains word then .ok true
  else if ["0", "off", "f", "false", "n", "no"].contains word then .ok false
  else .error .unreadableBoolean

/-- The boolean that a small number means. -/
def booleanOfInteger (value : Int) : Except InputFault Bool :=
  if value = 0 then .ok false
  else if value = 1 then .ok true
  else if value.natAbs < Nat.pow 2 63 then .error .unreadableBoolean
  else .error .notBoolean

/-- Convert to a boolean. -/
def boolean : Value → Except InputFault Bool
  | .boolean value => .ok value
  | .integer value => booleanOfInteger value
  | .double value =>
    match integerOfDouble value with
    | .ok n => booleanOfInteger n
    | .error _ => .error .notBoolean
  | .text value => booleanOfText value
  | _ => .error .notBoolean

/-- Take a text; nothing is converted to one. -/
def text : Value → Except InputFault String
  | .text value => .ok value
  | _ => .error .notText

/-- Null, or what another conversion makes of the input. -/
def optional {α : Type} (convert : Value → Except InputFault α) :
    Value → Except InputFault (Option α)
  | .null => .ok none
  | value => some <$> convert value

/-- An integer of at least a bound. -/
def integerFrom (bound : Nat) (value : Value) : Except InputFault Int := do
  let n ← integer value
  if n < bound then .error (.notAtLeast bound) else .ok n

/-- A double above zero. -/
def positive (value : Value) : Except InputFault Double := do
  let x ← double value
  if Double.zero.less x then .ok x else .error (.notGreater 0)

/-- A double of at least zero. -/
def nonNegative (value : Value) : Except InputFault Double := do
  let x ← double value
  if Double.zero.less x || x.isZero then .ok x else .error (.notAtLeast 0)

end Conversion

end Accolade
