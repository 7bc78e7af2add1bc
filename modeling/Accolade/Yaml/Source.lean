import Accolade.Text.Utf8
import Accolade.Yaml.Character
import Accolade.Yaml.Fault

/-!
# The text of a document

A document is loaded piece by piece: its bytes are decoded in chunks, and its characters are
checked in portions, of which the first two come at once. So a fault of the text, be it
bytes that are no character or a character that may not stand in a document, is met only
when the reading reaches the portion it is in. A source is the text in front of that
portion, and the fault.
-/

namespace Accolade.Yaml

/-- A text as far as it can be loaded, and the fault behind it. -/
structure Source where
  text : List Char
  fault : Option Fault
  deriving Repr

/-- A text whose lines all end with a line feed. -/
def withLineFeeds : List Char → List Char
  | '\r' :: '\n' :: rest => '\n' :: withLineFeeds rest
  | '\r' :: rest => '\n' :: withLineFeeds rest
  | c :: rest => c :: withLineFeeds rest
  | [] => []

namespace Source

/-- How many bytes are decoded at a time. -/
def chunkSize : Nat := 8192

/-- How many characters are checked at a time. -/
def portionSize : Nat := 4096

/-- How many characters there are in the portions in front of a character. -/
def portionsBefore (index : Nat) : Nat := portionSize * (index / portionSize)

/-- The text in front of the portion of a fault; in the first two portions there is none. -/
def stopped (text : List Char) (fault : Fault) : Source :=
  ⟨if text.length < 2 * portionSize then [] else text, some fault⟩

/-- The source of characters, behind which there may be bytes that are none. -/
def ofCharacters (characters : List Char) (isDecoded : Bool) : Source :=
  let text := withLineFeeds characters
  let text := if isDecoded then text else text.take (portionsBefore text.length)
  if !isDecoded && text.length < 2 * portionSize then ⟨[], some .undecodable⟩
  else
    let printable := text.takeWhile isPrintable
    if printable.length < text.length then
      stopped (text.take (portionsBefore printable.length)) .malformed
    else ⟨text, if isDecoded then none else some .undecodable⟩

/-- The source of bytes. Of the chunk that cannot be decoded no character is known. -/
def ofBytes (bytes : List UInt8) : Source :=
  let decoded := Text.decodeUtf8 bytes
  match decoded.fault with
  | none => ofCharacters decoded.characters true
  | some index =>
    if index = bytes.length then ofCharacters decoded.characters false
    else
      let whole := bytes.take (chunkSize * (index / chunkSize))
      ofCharacters (Text.decodeUtf8 whole).characters false

end Source

end Accolade.Yaml
