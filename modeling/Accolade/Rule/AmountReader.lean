import Accolade.Rule.DefinitionError
import Accolade.Text.Blank
import Accolade.Text.DecimalDigit

/-!
# Reading amount tests

A written test is a comparison sign and a whole number: blanks may surround both, the
number may have a sign, and its digits may come from any script. A number of more digits
than integers are read with is not read at all. A plain number is the test "at least that
number".
-/

namespace Accolade

namespace AmountTest

/-- The comparison sign that a text starts with, and the rest. A sign of two characters
is read before the sign that is its first character. -/
def readSign? : List Char → Option (Comparison × List Char)
  | '=' :: '=' :: rest => some (.equal, rest)
  | '!' :: '=' :: rest => some (.different, rest)
  | '>' :: '=' :: rest => some (.greaterOrEqual, rest)
  | '<' :: '=' :: rest => some (.lessOrEqual, rest)
  | '>' :: rest => some (.greater, rest)
  | '<' :: rest => some (.less, rest)
  | _ => none

/-- The sign before a number, whether it is a minus, and the rest. -/
def readNegative : List Char → Bool × List Char
  | '-' :: rest => (true, rest)
  | '+' :: rest => (false, rest)
  | rest => (false, rest)

/-- The parts of a written test: the comparison, whether the number is negative, and its
digits. There are none when the text has another form. -/
def split? (text : List Char) : Option (Comparison × Bool × List Char) := do
  let (comparison, rest) ← readSign? (text.dropWhile Text.isBlank)
  let (negative, rest) := readNegative (rest.dropWhile Text.isBlank)
  let digits := rest.takeWhile Text.isDecimalDigit
  let rest := rest.dropWhile Text.isDecimalDigit
  if digits.isEmpty || !(rest.all Text.isBlank) then none
  else some (comparison, negative, digits)

/-- The number that a sign and digits write. -/
def signedValue (negative : Bool) (digits : List Char) : Int :=
  let magnitude : Int := Text.digitsValue digits
  if negative then -magnitude else magnitude

/-- Read a written test. -/
def readText (text : String) : Except DefinitionError AmountTest :=
  match split? text.toList with
  | none => .error (.amountMalformed text)
  | some (comparison, negative, digits) =>
    if digits.length > DecimalText.digitLimit then .error (.amountTooLong digits.length)
    else .ok ⟨comparison, signedValue negative digits⟩

/-- Read the definition of an amount test. A boolean is refused although it denotes a
number: as a threshold it is a slip of the pen. -/
def read : Value → Except DefinitionError AmountTest
  | .boolean value => .error (.amountIsBoolean value)
  | .integer threshold => .ok (atLeast threshold)
  | .text written => readText written
  | value => .error (.amountOfKind value)

end AmountTest

end Accolade
