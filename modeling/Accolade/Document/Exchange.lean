import Accolade.Document.Written

/-!
# Values as exchanged

Values are exchanged as JSON in seven-bit characters. What JSON has no form for is an
object under one reserved key: a double that is not finite under `$float` by its name, and
a mapping with keys other than texts under `$map` as a list of its entries. Pairs and sets
are lists there.

A value that leads back into itself has no such form, which `Value.isEndless` tells.

In the ordered form the keys of an object stand in order and a blank follows each comma and
colon, so values that differ in the order of their keys only have one text.
-/

namespace Accolade

namespace Value

mutual

/-- Whether a value leads back into itself. -/
def isEndless : Value → Bool
  | .scalar _ => false
  | .list items => itemsAreEndless items
  | .mapping entries => entriesAreEndless entries
  | .pair first second => isEndless first || isEndless second
  | .set _ => false
  | .enclosing _ => true

/-- Whether an item leads back into a value around it. -/
def itemsAreEndless : List Value → Bool
  | [] => false
  | item :: rest => isEndless item || itemsAreEndless rest

/-- Whether an entry leads back into a value around it. -/
def entriesAreEndless : List (Scalar × Value) → Bool
  | [] => false
  | (_, value) :: rest => isEndless value || entriesAreEndless rest

end

end Value

namespace Exchange

/-- The reserved key of a double that is not finite. -/
def doubleKey : String := "$float"

/-- The reserved key of a mapping with any keys. -/
def entriesKey : String := "$map"

/-- A unit of sixteen bits in hexadecimal digits. -/
def unitText (unit : Nat) : List Char := '\\' :: 'u' :: Text.hexadecimal 4 unit

/-- A character as it stands between quotes. Those beyond sixteen bits are two units. -/
def characterText (c : Char) : List Char :=
  if c = '"' ∨ c = '\\' then ['\\', c]
  else if c = '\n' then ['\\', 'n']
  else if c = '\r' then ['\\', 'r']
  else if c = '\t' then ['\\', 't']
  else if c = '\x08' then ['\\', 'b']
  else if c = '\x0c' then ['\\', 'f']
  else if 0x20 ≤ c.toNat ∧ c.toNat < 0x7f then [c]
  else if c.toNat < 0x10000 then unitText c.toNat
  else
    let offset := c.toNat - 0x10000
    unitText (0xd800 + offset / 0x400) ++ unitText (0xdc00 + offset % 0x400)

/-- A text between quotes. -/
def quoted (text : String) : String :=
  String.ofList ('"' :: text.toList.flatMap characterText ++ ['"'])

/-- An object of one key. -/
def reserved (colon key value : String) : String :=
  "\x7b" ++ quoted key ++ colon ++ value ++ "\x7d"

/-- A scalar as exchanged. -/
def scalarText (colon : String) : Scalar → String
  | .null => "null"
  | .boolean value => if value then "true" else "false"
  | .integer value => toString value
  | .double value =>
    if value.isFinite then value.text else reserved colon doubleKey (quoted value.text)
  | .text value => quoted value
  | .bytes value => quoted (Text.quotedBytes value)

/-- Texts in brackets. -/
def bracketed (comma : String) (items : List String) : String :=
  "[" ++ comma.intercalate items ++ "]"

/-- The keys of a mapping, if all of them are texts. -/
def textKeys? (entries : List (Scalar × Value)) : Option (List String) :=
  entries.mapM fun entry => match entry.1 with
    | .text key => some key
    | _ => none

/-- A mapping as exchanged, from the texts of its values. -/
def mappingText (inOrder : Bool) (comma colon : String) (entries : List (Scalar × Value))
    (values : List String) : String :=
  match textKeys? entries with
  | some keys =>
    let members := keys.zip values
    let members := if inOrder then members.mergeSort fun a b => decide (a.1 ≤ b.1) else members
    "\x7b" ++ comma.intercalate (members.map fun (key, value) => quoted key ++ colon ++ value) ++
      "\x7d"
  | none =>
    reserved colon entriesKey (bracketed comma ((entries.zip values).map fun (entry, value) =>
      bracketed comma [scalarText colon entry.1, value]))

mutual

/-- A value as exchanged, in the ordered form or not. -/
def write (inOrder : Bool) : Value → String
  | .scalar value => scalarText (colon inOrder) value
  | .list items => bracketed (comma inOrder) (writeItems inOrder items)
  | .mapping entries =>
    mappingText inOrder (comma inOrder) (colon inOrder) entries (writeValues inOrder entries)
  | .pair first second =>
    bracketed (comma inOrder) [write inOrder first, write inOrder second]
  | .set members => bracketed (comma inOrder) (members.map (scalarText (colon inOrder)))
  | .enclosing kind => quoted (Value.enclosing kind).literal
where
  comma (inOrder : Bool) : String := if inOrder then ", " else ","
  colon (inOrder : Bool) : String := if inOrder then ": " else ":"

/-- Items as exchanged. -/
def writeItems (inOrder : Bool) : List Value → List String
  | [] => []
  | item :: rest => write inOrder item :: writeItems inOrder rest

/-- The values of a mapping as exchanged. -/
def writeValues (inOrder : Bool) : List (Scalar × Value) → List String
  | [] => []
  | (_, value) :: rest => write inOrder value :: writeValues inOrder rest

end

end Exchange

end Accolade
