import Accolade.Text.Printable

/-!
# Quoted text

A text inside a message stands between single quotes, or between double quotes when it
holds a single quote and no double one. The enclosing quote and the backslash are
escaped, as is every character that does not show: tab and the two line ends by letter,
all others by their code point in two, four or eight hexadecimal digits.

Bytes are shown in the same way behind the letter b, where only the characters of seven
bits show.
-/

namespace Accolade.Text

/-- The hexadecimal digits of a number, padded with zeros to a width. -/
def hexadecimal (width value : Nat) : List Char :=
  let digits := Nat.toDigits 16 value
  List.replicate (width - digits.length) '0' ++ digits

/-- The quote that encloses a text. -/
def enclosingQuote (text : List Char) : Char :=
  if text.contains '\'' && !text.contains '"' then '"' else '\''

/-- A character as it stands between quotes. -/
def escaped (quote c : Char) : List Char :=
  if c = quote ∨ c = '\\' then ['\\', c]
  else if c = '\n' then ['\\', 'n']
  else if c = '\r' then ['\\', 'r']
  else if c = '\t' then ['\\', 't']
  else if isPrintable c then [c]
  else if c.toNat < 0x100 then '\\' :: 'x' :: hexadecimal 2 c.toNat
  else if c.toNat < 0x10000 then '\\' :: 'u' :: hexadecimal 4 c.toNat
  else '\\' :: 'U' :: hexadecimal 8 c.toNat

/-- A text between quotes. -/
def quoted (text : String) : String :=
  let characters := text.toList
  let quote := enclosingQuote characters
  String.ofList (quote :: characters.flatMap (escaped quote) ++ [quote])

/-- A byte as it stands between quotes. -/
def escapedByte (quote : Char) (byte : UInt8) : List Char :=
  if byte < 0x7f then escaped quote (Char.ofNat byte.toNat)
  else '\\' :: 'x' :: hexadecimal 2 byte.toNat

/-- Bytes between quotes, behind their letter. -/
def quotedBytes (bytes : List UInt8) : String :=
  let quote := enclosingQuote (bytes.map fun byte => Char.ofNat byte.toNat)
  String.ofList ('b' :: quote :: bytes.flatMap (escapedByte quote) ++ [quote])

end Accolade.Text
