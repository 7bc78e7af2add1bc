import Accolade.Document.Written
import Accolade.Number.DecimalText
import Accolade.Number.RoundedText

/-!
# Filled templates

A template is a text with conversions, each from a percent sign to a letter. Between them
may stand, in this order, the key of a value in parentheses, flags, a width, a point with a
precision, and a size letter without meaning. A conversion shows the value under its key or
else the one argument, which is used once. An argument that is a list or a mapping need not
be used at all. Two percent signs are one.

The letters show a value as plain text, as its written form, as an integer in one of three
bases, as a double in one of three forms, or as one character.
-/

namespace Accolade

/-- Why a template cannot be filled. -/
inductive TemplateFault
  /-- a value is not of the kind that a conversion shows, or there is none or one too many -/
  | misfit
  /-- a conversion is malformed, or an integer in what it shows has more digits than are written -/
  | malformed
  /-- there is no value under a key -/
  | missing
  /-- a number is beyond the range of a conversion -/
  | outOfRange
  deriving DecidableEq, Repr

/-- A conversion of a template. -/
structure TemplateConversion where
  isLeft : Bool
  showsPlus : Bool
  showsBlank : Bool
  isAlternate : Bool
  fillsZeros : Bool
  width : Nat
  precision : Option Nat
  letter : Char
  deriving Repr

namespace Template

/-- The flags of a conversion. -/
def flags : List Char := ['-', '+', ' ', '#', '0']

/-- The key up to its closing parenthesis, inner parentheses included, and what follows. -/
def readKey (depth : Nat) : List Char → Option (List Char × List Char)
  | [] => none
  | c :: rest =>
    if c = ')' ∧ depth = 0 then some ([], rest)
    else
      let depth := if c = '(' then depth + 1 else if c = ')' then depth - 1 else depth
      (readKey depth rest).map fun (key, rest) => (c :: key, rest)

/-- The largest width. -/
def widthLimit : Nat := Nat.pow 2 63 - 1

/-- The largest precision. -/
def precisionLimit : Nat := Nat.pow 2 31 - 1

/-- The fault of a size that is taken from the argument. Since there is but one argument, it
never leaves a value to show. -/
def sizeFromArgument (limit : Nat) : Option Value → TemplateFault
  | some (.integer size) => if limit < size.natAbs then .outOfRange else .misfit
  | _ => .misfit

/-- The number at the start of a text. -/
def readSize (limit : Nat) (unused : Option Value) (text : List Char) :
    Except TemplateFault (Nat × List Char) :=
  let digits := text.takeWhile Char.isDigit
  let size := DecimalText.value digits
  if text.head? = some '*' then .error (sizeFromArgument limit unused)
  else if limit < size then .error .malformed
  else .ok (size, text.drop digits.length)

/-- Read a conversion behind its percent sign and key. -/
def readConversion (unused : Option Value) (text : List Char) :
    Except TemplateFault (TemplateConversion × List Char) := do
  let given := text.takeWhile flags.contains
  let (width, rest) ← readSize widthLimit unused (text.drop given.length)
  let (precision, rest) ← match rest with
    | '.' :: rest =>
      (readSize precisionLimit unused rest).map fun (size, rest) => (some size, rest)
    | rest => pure (none, rest)
  let rest := if rest.head?.any ("hlL".toList.contains ·) then rest.drop 1 else rest
  match rest with
  | letter :: rest =>
    return (⟨given.contains '-', given.contains '+', given.contains ' ', given.contains '#',
      given.contains '0', width, precision, letter⟩, rest)
  | [] => .error .malformed

end Template

namespace TemplateConversion

/-- A text filled up with blanks to the width. -/
def padded (conversion : TemplateConversion) (text : List Char) : List Char :=
  let blanks := List.replicate (conversion.width - text.length) ' '
  if conversion.isLeft then text ++ blanks else blanks ++ text

/-- A text cut to the precision and filled up to the width. -/
def textForm (conversion : TemplateConversion) (text : String) : List Char :=
  conversion.padded (match conversion.precision with
    | some precision => text.toList.take precision
    | none => text.toList)

/-- What stands in front of a number for its sign. -/
def signForm (conversion : TemplateConversion) (negative : Bool) : List Char :=
  if negative then ['-']
  else if conversion.showsPlus then ['+']
  else if conversion.showsBlank then [' ']
  else []

/-- A number with its sign and the mark of its base, filled up to the width with zeros
behind those or with blanks. -/
def numberForm (conversion : TemplateConversion) (negative : Bool) (mark digits : List Char) :
    List Char :=
  let front := conversion.signForm negative ++ mark
  if conversion.fillsZeros && !conversion.isLeft then
    front ++ List.replicate (conversion.width - front.length - digits.length) '0' ++ digits
  else conversion.padded (front ++ digits)

/-- An integer in a base. The precision is the least number of digits. -/
def integerForm (conversion : TemplateConversion) (base : Nat) (mark : List Char)
    (value : Int) : List Char :=
  let digits := Nat.toDigits base value.natAbs
  let digits := List.replicate (conversion.precision.getD 1 - digits.length) '0' ++ digits
  let text := conversion.numberForm (value < 0) (if conversion.isAlternate then mark else []) digits
  if conversion.letter = 'X' then text.map Char.toUpper else text

/-- A double in the form of the letter. -/
def doubleForm (conversion : TemplateConversion) (value : Double) : List Char :=
  let precision := conversion.precision.getD 6
  let digits := match value.finiteValue? with
    | none => value.text.toList.filter (· != '-')
    | some exact =>
      match conversion.letter.toLower with
      | 'f' => RoundedText.fixed exact precision conversion.isAlternate
      | 'e' => RoundedText.exponential exact precision conversion.isAlternate
      | _ => RoundedText.general exact precision conversion.isAlternate
  let text := conversion.numberForm value.isNegative [] digits
  if conversion.letter.isUpper then text.map Char.toUpper else text

/-- The integer that a value is shown as in decimal digits: doubles lose their fraction. -/
def wholeOf : Value → Except TemplateFault Int
  | .integer value => .ok value
  | .boolean value => .ok (if value then 1 else 0)
  | .double (.notANumber _) => .error .malformed
  | .double value =>
    match value.finiteValue? with
    | some exact => .ok (if exact < 0 then -(-exact).floor else exact.floor)
    | none => .error .outOfRange
  | _ => .error .misfit

/-- The integer that a value is. -/
def integerOf : Value → Except TemplateFault Int
  | .integer value => .ok value
  | .boolean value => .ok (if value then 1 else 0)
  | _ => .error .misfit

/-- The double that a value is. -/
def doubleOf : Value → Except TemplateFault Double
  | .double value => .ok value
  | .integer value =>
    let rounded := Double.ofInt value
    if rounded.isFinite then .ok rounded else .error .outOfRange
  | .boolean value => .ok (.ofInt (if value then 1 else 0))
  | _ => .error .misfit

/-- The character that a value is: a text of one, or the code of one. -/
def characterOf : Value → Except TemplateFault Char
  | .text text =>
    match text.toList with
    | [c] => .ok c
    | _ => .error .misfit
  | value => do
    let code ← integerOf value
    if 0 ≤ code ∧ code < 0x110000 then
      return if code.toNat.isValidChar then Char.ofNat code.toNat else '\ufffd'
    else .error .outOfRange

/-- A text in which characters beyond seven bits are escaped. -/
def sevenBit (text : String) : String :=
  String.ofList (text.toList.flatMap fun c =>
    if c.toNat < 0x80 then [c]
    else if c.toNat < 0x100 then '\\' :: 'x' :: Text.hexadecimal 2 c.toNat
    else if c.toNat < 0x10000 then '\\' :: 'u' :: Text.hexadecimal 4 c.toNat
    else '\\' :: 'U' :: Text.hexadecimal 8 c.toNat)

/-- A text that a conversion shows, if it can be written. -/
def textOf (text : Option String) : Except TemplateFault String :=
  match text with
  | some text => .ok text
  | none => .error .malformed

/-- A value as a conversion shows it. -/
def shown (conversion : TemplateConversion) (value : Value) :
    Except TemplateFault (List Char) :=
  match conversion.letter with
  | 's' => (textOf value.plain?).map conversion.textForm
  | 'r' => (textOf value.written?).map conversion.textForm
  | 'a' => (textOf value.written?).map fun text => conversion.textForm (sevenBit text)
  | 'd' | 'i' | 'u' => do
    let whole ← wholeOf value
    if DecimalText.isShort whole then return conversion.integerForm 10 [] whole
    else .error .malformed
  | 'o' => (integerOf value).map (conversion.integerForm 8 ['0', 'o'])
  | 'x' | 'X' => (integerOf value).map (conversion.integerForm 16 ['0', 'x'])
  | 'e' | 'E' | 'f' | 'F' | 'g' | 'G' => (doubleOf value).map conversion.doubleForm
  | 'c' => (characterOf value).map fun c => conversion.padded [c]
  | _ => .error .malformed

end TemplateConversion

namespace Template

/-- The value under a key of the argument, which must be a mapping. -/
def valueUnder (source : Value) (key : String) : Except TemplateFault Value :=
  match source with
  | .mapping entries =>
    match Entries.field? entries key with
    | some value => .ok value
    | none => .error .missing
  | _ => .error .misfit

/-- The key in front of a conversion: what there is to show afterwards, and what follows. -/
def readSource (source : Value) (unused : Option Value) (text : List Char) :
    Except TemplateFault (Option Value × List Char) :=
  match text with
  | '(' :: rest =>
    match source, readKey 0 rest with
    | .text _, _ => .error .misfit
    | _, none => .error .malformed
    | source, some (key, rest) =>
      (valueUnder source (String.ofList key)).map fun value => (some value, rest)
  | _ => .ok (unused, text)

/-- Fill a template, taking at most so many steps. The argument is shown where a conversion
has no key, unless it is used up. -/
def fillWithin (source : Value) : Nat → Option Value → List Char →
    Except TemplateFault (List Char × Option Value)
  | 0, unused, _ => .ok ([], unused)
  | _ + 1, unused, [] => .ok ([], unused)
  | steps + 1, unused, '%' :: '%' :: rest => do
    let (filled, unused) ← fillWithin source steps unused rest
    return ('%' :: filled, unused)
  | steps + 1, unused, '%' :: rest => do
    let (unused, rest) ← readSource source unused rest
    let (conversion, rest) ← readConversion unused rest
    match unused with
    | none => .error .misfit
    | some value =>
      let shown ← conversion.shown value
      let (filled, unused) ← fillWithin source steps none rest
      return (shown ++ filled, unused)
  | steps + 1, unused, c :: rest => do
    let (filled, unused) ← fillWithin source steps unused rest
    return (c :: filled, unused)

/-- Fill a template with an argument. A text must be used, a list or a mapping need not. -/
def fill (template : String) (argument : Value) : Except TemplateFault String := do
  let characters := template.toList
  let (filled, unused) ← fillWithin argument (characters.length + 1) (some argument) characters
  match argument, unused with
  | .text _, some _ => .error .misfit
  | _, _ => return String.ofList filled

end Template

end Accolade
