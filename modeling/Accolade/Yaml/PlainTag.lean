import Accolade.Yaml.Node

/-!
# What a plain scalar is

A scalar without tag and quotes is understood by its form. It is null when empty, a tilde
or a spelling of null; a truth value when it is yes, no, true, false, on or off, all in
lower case, all in upper case or with one capital; an integer in binary, octal, decimal,
hexadecimal or base-sixty notation; a double when it has a point; else a text. Digits may
be grouped by underscores. The bare marks of properties and aliases are no words.
-/

namespace Accolade.Yaml

/-- The spellings of null. -/
def nullTexts : List String := ["", "~", "null", "Null", "NULL"]

/-- The spellings of truth values. -/
def booleanTexts : List String :=
  ["yes", "Yes", "YES", "no", "No", "NO", "true", "True", "TRUE", "false", "False", "FALSE",
    "on", "On", "ON", "off", "Off", "OFF"]

/-- The text behind a sign, if there is one. -/
def withoutSign : List Char → List Char
  | '-' :: rest => rest
  | '+' :: rest => rest
  | rest => rest

/-- Whether a character is a digit below a base up to ten, or an underscore. -/
def isGroupedDigit (base : Nat) (c : Char) : Bool :=
  c == '_' || (c.isDigit && c.toNat - '0'.toNat < base)

/-- Whether a text is any number of sixtieths: numbers below sixty behind colons. -/
def isSixtieths : List Char → Bool
  | [] => true
  | [':', a] => a.isDigit
  | ':' :: a :: rest@(':' :: _) => a.isDigit && isSixtieths rest
  | ':' :: a :: b :: rest => '0' ≤ a && a ≤ '5' && b.isDigit && isSixtieths rest
  | _ => false

/-- Whether a text is an integer. -/
def isIntegerText (text : List Char) : Bool :=
  match withoutSign text with
  | [] => false
  | ['0'] => true
  | '0' :: 'b' :: c :: rest => (c :: rest).all (isGroupedDigit 2)
  | '0' :: 'x' :: c :: rest => (c :: rest).all fun c =>
      isGroupedDigit 10 c || ('a' ≤ c && c ≤ 'f') || ('A' ≤ c && c ≤ 'F')
  | '0' :: rest => rest.all (isGroupedDigit 8)
  | c :: rest => c.isDigit && isSixtieths (rest.dropWhile (isGroupedDigit 10))

/-- Whether a text is an exponent with its sign, or nothing. -/
def isExponent : List Char → Bool
  | [] => true
  | mark :: sign :: c :: rest =>
    (mark == 'e' || mark == 'E') && (sign == '+' || sign == '-') && (c :: rest).all Char.isDigit
  | _ => false

/-- Whether a text is a fraction behind its point, with an optional exponent. -/
def isFraction (text : List Char) : Bool := isExponent (text.dropWhile (isGroupedDigit 10))

/-- Whether a text is a double. -/
def isDoubleText (text : List Char) : Bool :=
  match withoutSign text with
  | '.' :: rest =>
    [".inf", ".Inf", ".INF"].contains (String.ofList ('.' :: rest)) ||
      (text.head? == some '.' &&
        (["nan", "NaN", "NAN"].contains (String.ofList rest) ||
          (rest.head?.any Char.isDigit && isFraction rest)))
  | c :: rest =>
    let behind := rest.dropWhile (isGroupedDigit 10)
    c.isDigit &&
      (match behind with
        | '.' :: fraction => isFraction fraction
        | ':' :: _ =>
          isSixtieths (behind.takeWhile (· != '.')) &&
            (match behind.dropWhile (· != '.') with
              | '.' :: fraction => fraction.all (isGroupedDigit 10)
              | _ => false)
        | _ => false)
  | [] => false

/-- The words that no tag is for. -/
def reservedTexts : List String := ["!", "&", "*"]

/-- The tag of a plain scalar. A line feed behind a word makes no difference. -/
def Tag.ofPlain (text : String) : Tag :=
  let characters := text.toList
  let isEnded := characters.length > 1 && characters.getLast? == some '\n'
  let characters := if isEnded then characters.dropLast else characters
  let word := String.ofList characters
  if nullTexts.contains word then .null
  else if booleanTexts.contains word then .boolean
  else if isDoubleText characters then .double
  else if isIntegerText characters then .integer
  else if word == "<<" then .merge
  else if word == "=" then .value
  else if reservedTexts.contains word then .unknown
  else .text

end Accolade.Yaml
