import Accolade.Document.Exchange
import Accolade.Number.DecimalText

/-!
# Reading exchanged values

The reader takes JSON with the reserved objects of exchanged values, and the words for the
doubles that are not finite. A number with a point or an exponent is a double, any other an
integer. A value that is no number is marked by its place in the text, or all alike where it
is written as a word.
-/

namespace Accolade.Exchange

/-- The text behind blanks. -/
def skipBlanks (text : List Char) : List Char :=
  text.dropWhile fun c => c == ' ' || c == '\n' || c == '\r' || c == '\t'

/-- The value of hexadecimal digits. -/
def unitOf (digits : List Char) : Nat :=
  digits.foldl (fun value c =>
    value * 16 + (if c.isDigit then c.toNat - '0'.toNat else c.toLower.toNat - 'a'.toNat + 10)) 0

/-- The character that a letter behind a backslash stands for. -/
def letterOf : Char → Char
  | 'n' => '\n'
  | 't' => '\t'
  | 'r' => '\r'
  | 'b' => '\x08'
  | 'f' => '\x0c'
  | c => c

/-- The character of two units. -/
def characterOfUnits (high low : Nat) : Char :=
  Char.ofNat (0x10000 + (high - 0xd800) * 0x400 + (low - 0xdc00))

/-- Whether two units are the halves of one character. -/
def arePaired (high low : Nat) : Bool :=
  0xd800 ≤ high && high < 0xdc00 && 0xdc00 ≤ low && low < 0xe000

/-- The characters up to the closing quote, at most so many, and the text behind it. -/
def readCharacters : Nat → List Char → Option (List Char × List Char)
  | 0, _ => none
  | _ + 1, [] => none
  | _ + 1, '"' :: rest => some ([], rest)
  | count + 1, '\\' :: 'u' :: a :: b :: c :: d :: rest =>
    let high := unitOf [a, b, c, d]
    let low := match rest with
      | '\\' :: 'u' :: e :: f :: g :: h :: _ => unitOf [e, f, g, h]
      | _ => 0
    let (read, rest) :=
      if arePaired high low then (characterOfUnits high low, rest.drop 6)
      else (Char.ofNat high, rest)
    (readCharacters count rest).map fun (more, rest) => (read :: more, rest)
  | count + 1, '\\' :: c :: rest =>
    (readCharacters count rest).map fun (more, rest) => (letterOf c :: more, rest)
  | count + 1, c :: rest =>
    (readCharacters count rest).map fun (more, rest) => (c :: more, rest)

/-- The text behind an opening quote, and what follows it. -/
def readText (text : List Char) : Option (String × List Char) :=
  (readCharacters (text.length + 1) text).map fun (characters, rest) =>
    (String.ofList characters, rest)

/-- The number that a word is. -/
def numberOf (word : List Char) : Scalar :=
  if word.any ".eE".toList.contains then
    .double ((DecimalText.double? word).getD .undefined)
  else
    let (negative, digits) := DecimalText.readSign word
    let magnitude : Int := DecimalText.value digits
    .integer (if negative then -magnitude else magnitude)

/-- The mark of the value that is no number where it is written as a word. -/
def wordMark : Nat := 1

/-- The scalars written as words. -/
def words : List (String × Scalar) :=
  [("true", .boolean true), ("false", .boolean false), ("null", .null),
    ("NaN", .double (.notANumber (some wordMark))), ("Infinity", .double (.infinite false)),
    ("-Infinity", .double (.infinite true))]

/-- The scalar at the start of a text that begins with no quote, and what follows it. -/
def readWord (text : List Char) : Option (Scalar × List Char) :=
  let word := text.takeWhile fun c => c.isAlphanum || c == '+' || c == '-' || c == '.'
  if word.isEmpty then none
  else
    let named := (words.find? fun entry => entry.1 == String.ofList word).map Prod.snd
    some (named.getD (numberOf word), text.drop word.length)

/-- The double of a name; a value that is no number has the given mark. -/
def doubleNamed (mark : Nat) (name : String) : Double :=
  if name == "nan" then .notANumber (some (wordMark + 1 + mark))
  else .infinite (name == "-inf")

/-- What an object with these members stands for. -/
def ofMembers (mark : Nat) (members : List (String × Value)) : Value :=
  match members with
  | [(key, value)] =>
    if key == doubleKey then
      match value with
      | .text name => .double (doubleNamed mark name)
      | _ => plain
    else if key == entriesKey then
      match value with
      | .list items => .mapping (Entries.ofPairs (items.filterMap entryOf))
      | _ => plain
    else plain
  | _ => plain
where
  plain : Value := .mapping (Entries.ofPairs (members.map fun (key, value) => (.text key, value)))
  /-- The entry that a list of a key and a value writes. -/
  entryOf : Value → Option (Scalar × Value)
    | .list [.scalar key, value] => some (key, value)
    | _ => none

mutual

/-- The value at the start of a text, and what follows it. -/
def readValue : Nat → List Char → Option (Value × List Char)
  | 0, _ => none
  | fuel + 1, text =>
    match skipBlanks text with
    | '"' :: rest => (readText rest).map fun (text, rest) => (.text text, rest)
    | '[' :: rest =>
      match skipBlanks rest with
      | ']' :: rest => some (.list [], rest)
      | rest => (readItems fuel rest).map fun (items, rest) => (.list items, rest)
    | '\x7b' :: rest =>
      match skipBlanks rest with
      | '\x7d' :: rest => some (.mapping [], rest)
      | rest =>
        (readMembers fuel rest).map fun (members, after) => (ofMembers after.length members, after)
    | rest => (readWord rest).map fun (value, rest) => (.scalar value, rest)

/-- The items up to the closing bracket. -/
def readItems : Nat → List Char → Option (List Value × List Char)
  | 0, _ => none
  | fuel + 1, text => do
    let (item, rest) ← readValue fuel text
    match skipBlanks rest with
    | ',' :: rest =>
      let (more, rest) ← readItems fuel rest
      return (item :: more, rest)
    | ']' :: rest => return ([item], rest)
    | _ => none

/-- The members up to the closing brace. -/
def readMembers : Nat → List Char → Option (List (String × Value) × List Char)
  | 0, _ => none
  | fuel + 1, text => do
    match skipBlanks text with
    | '"' :: rest =>
      let (key, rest) ← readText rest
      match skipBlanks rest with
      | ':' :: rest =>
        let (value, rest) ← readValue fuel rest
        match skipBlanks rest with
        | ',' :: rest =>
          let (more, rest) ← readMembers fuel rest
          return ((key, value) :: more, rest)
        | '\x7d' :: rest => return ([(key, value)], rest)
        | _ => none
      | _ => none
    | _ => none

end

/-- The value that a text writes. Every level and every item takes a character at least. -/
def read? (text : String) : Option Value :=
  let characters := text.toList
  match readValue (characters.length + 1) characters with
  | some (value, rest) => if (skipBlanks rest).isEmpty then some value else none
  | none => none

end Accolade.Exchange
