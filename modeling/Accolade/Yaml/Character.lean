import Accolade.Yaml.Fault

/-!
# Characters of documents

Documents hold printable characters only. A line ends at a line feed, at the next-line
control or at one of the two separators of lines and paragraphs; in a scalar the first two
are written as a line feed. Blanks inside a line are the space and the tab.

Three dashes or three dots at the start of a line, with a gap behind them, separate
documents wherever they stand.
-/

namespace Accolade.Yaml

/-- Whether a character may stand in a document. -/
def isPrintable (c : Char) : Bool :=
  let n := c.toNat
  n == 0x09 || n == 0x0a || n == 0x0d || (0x20 ≤ n && n ≤ 0x7e) || n == 0x85 ||
    (0xa0 ≤ n && n ≤ 0xfffd) || 0x10000 ≤ n

/-- Whether a character ends a line. -/
def isBreak (c : Char) : Bool := c == '\n' || c == '\x85' || c == '\u2028' || c == '\u2029'

/-- The character that a line break is in a scalar. -/
def breakText (c : Char) : Char := if c = '\x85' then '\n' else c

/-- Whether a character is a blank inside a line. -/
def isBlank (c : Char) : Bool := c == ' ' || c == '\t'

/-- Whether a character separates words. -/
def isGap (c : Char) : Bool := isBlank c || isBreak c

/-- Whether a text begins with a gap or is at its end. -/
def startsGap (text : List Char) : Bool := text.head?.all isGap

/-- Whether a text begins with a space or a line break or is at its end. -/
def startsSpace (text : List Char) : Bool := text.head?.all fun c => c == ' ' || isBreak c

/-- Whether a text begins with a line break or is at its end. -/
def startsBreak (text : List Char) : Bool := text.head?.all isBreak

/-- Whether a text, taken from the start of a line, begins with a mark between documents. -/
def startsDocumentMark (text : List Char) : Bool :=
  (text.take 3 == ['-', '-', '-'] || text.take 3 == ['.', '.', '.']) && startsGap (text.drop 3)

/-- Whether a character may stand in names of anchors, handles and directives. -/
def isNameCharacter (c : Char) : Bool := c.isAlphanum || c == '-' || c == '_'

/-- The value of a hexadecimal digit. -/
def hexadecimalDigit? (c : Char) : Option Nat :=
  if c.isDigit then some (c.toNat - '0'.toNat)
  else if 'a' ≤ c ∧ c ≤ 'f' then some (c.toNat - 'a'.toNat + 10)
  else if 'A' ≤ c ∧ c ≤ 'F' then some (c.toNat - 'A'.toNat + 10)
  else none

/-- The number that exactly so many hexadecimal digits at the start of a text write. -/
def hexadecimalNumber? (count : Nat) (text : List Char) : Option Nat :=
  if text.length < count then none
  else ((text.take count).mapM hexadecimalDigit?).map (·.foldl (fun n d => n * 16 + d) 0)

/-- What becomes of a line break inside a scalar of words: a single line feed is a space,
and before empty lines it vanishes. -/
def foldedBreak (first : Char) (emptyLines : List Char) : List Char :=
  if breakText first ≠ '\n' then breakText first :: emptyLines
  else if emptyLines.isEmpty then [' ']
  else emptyLines

/-- What follows a line that holds nothing but spaces and a comment any more. -/
def afterLine (text : List Char) : Except Fault (List Char) :=
  let text := text.dropWhile (· == ' ')
  let text := if text.head? = some '#' then text.dropWhile (!isBreak ·) else text
  if startsBreak text then .ok (text.drop 1) else .error .malformed

end Accolade.Yaml
