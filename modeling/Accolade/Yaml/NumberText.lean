import Accolade.Number.DecimalText
import Accolade.Text.Blank
import Accolade.Text.DecimalDigit
import Accolade.Yaml.Fault

/-!
# Numbers in documents

Underscores in numbers have no meaning. A leading zero makes an integer octal, a letter
behind it binary or hexadecimal. Colons separate digits to the base sixty, in integers and
in doubles. Infinity and the value that is no number are written behind a point.

A text that was tagged as a number may be anything, so each of these readers can fail.
-/

namespace Accolade.Yaml

/-- The value of a digit in bases up to sixteen. -/
def baseDigit? (c : Char) : Option Nat :=
  match Text.digitValue? c with
  | some digit => some digit
  | none =>
    let lower := c.toLower
    if 'a' ≤ lower ∧ lower ≤ 'f' then some (lower.toNat - 'a'.toNat + 10) else none

/-- The letter that marks a base behind a zero. -/
def baseMark? : Nat → Option Char
  | 2 => some 'b'
  | 8 => some 'o'
  | 16 => some 'x'
  | _ => none

/-- The text behind the mark of a base, if it begins with one. -/
def withoutBaseMark (base : Nat) (text : List Char) : List Char :=
  match text with
  | '0' :: c :: rest => if some c.toLower = baseMark? base then rest else text
  | _ => text

/-- The integer that a text writes in a base: blanks around it, a sign and the mark of the
base are allowed. -/
def integerInBase (base : Nat) (text : List Char) : Except Fault Int := do
  let (negative, rest) := DecimalText.readSign (Text.trimBlanks text)
  match (withoutBaseMark base rest).mapM baseDigit? with
  | none => .error .noNumber
  | some digits =>
    if digits.isEmpty || digits.any (base ≤ ·) then .error .noNumber
    else if base = 10 && digits.length > DecimalText.digitLimit then
      .error (.tooManyDigits digits.length)
    else
      let magnitude : Int := (digits.foldl (fun n digit => n * base + digit) 0 : Nat)
      return if negative then -magnitude else magnitude

/-- The parts of a text between colons. -/
def colonParts (text : List Char) : List (List Char) :=
  text.foldr (fun c parts =>
    match c, parts with
    | ':', parts => [] :: parts
    | c, part :: rest => (c :: part) :: rest
    | c, [] => [[c]]) [[]]

/-- A number without underscores, its sign apart. -/
def signedText (text : String) : Except Fault (Bool × List Char) :=
  let text := text.toList.filter (· != '_')
  if text.isEmpty then .error .noDigits else .ok (DecimalText.readSign text)

/-- The integer that a text writes. -/
def integerOf (text : String) : Except Fault Int := do
  let (negative, rest) ← signedText text
  let magnitude ← match rest with
    | [] => .error .noDigits
    | '0' :: 'b' :: digits => integerInBase 2 digits
    | '0' :: 'x' :: digits => integerInBase 16 digits
    | '0' :: digits => if digits.isEmpty then pure 0 else integerInBase 8 rest
    | _ =>
      if rest.contains ':' then
        ((colonParts rest).mapM (integerInBase 10)).map (·.foldl (fun n part => n * 60 + part) 0)
      else integerInBase 10 rest
  return if negative then -magnitude else magnitude

/-- The double that a text in decimal notation writes. -/
def decimalOf (text : List Char) : Except Fault Double :=
  let seven := (Text.trimBlanks text).map fun c =>
    ((Text.digitValue? c).map fun digit => Char.ofNat (digit + '0'.toNat)).getD c
  match DecimalText.double? seven with
  | some value => .ok value
  | none => .error .noNumber

/-- The sum of digits to the base sixty, the least significant first and added first. There
is none when a power of sixty is beyond the doubles. -/
def sumOfSixtieths (parts : List Double) : Except Fault Double := do
  let (sum, _) ← parts.foldlM (fun (sum, power) part =>
    let factor := Double.ofInt power
    if factor.isFinite then .ok (sum.add (part.multiply factor), power * 60)
    else .error .overflow) (Double.zero, (1 : Int))
  return sum

/-- The value that is no number as documents write it: one value, wherever it stands. -/
def writtenUndefined : Double := .notANumber (some 0)

/-- The magnitude that a word in lower case writes behind its sign. -/
def magnitudeOf (word : List Char) : Except Fault Double := do
  if word = ".inf".toList then return .infinite false
  else if word.contains ':' then sumOfSixtieths (← (colonParts word).mapM decimalOf).reverse
  else decimalOf word

/-- The double that a text writes. -/
def doubleOf (text : String) : Except Fault Double := do
  let (negative, rest) ← signedText text
  let word := DecimalText.lowered rest
  if word = ".nan".toList then return writtenUndefined
  else
    let magnitude ← magnitudeOf word
    return if negative then magnitude.negate else magnitude

end Accolade.Yaml
