import Accolade.Yaml.Character
import Accolade.Yaml.Token

/-!
# Properties and directives

Anchors and aliases name nodes. Tags say what a node is: in full between angle brackets, or
by a handle and a suffix. Suffixes and the expansions of handles are written with the
characters of addresses, all others in percent escapes.

A line that begins with a percent sign instructs the reader: it gives the version of the
format or the expansion of a handle. Other instructions are passed over.
-/

namespace Accolade.Yaml

/-- The name at the start of a text. It has at least one character. -/
def readName (text : List Char) : Except Fault (List Char × List Char) :=
  let name := text.takeWhile isNameCharacter
  if name.isEmpty then .error .malformed else .ok (name, text.drop name.length)

/-- The name of an anchor or alias at the start of a text. -/
def readNodeName (text : List Char) : Except Fault (String × List Char) := do
  let (name, rest) ← readName text
  let isClosed := startsGap rest || rest.head?.any ("?:,]\x7d%@`".toList.contains ·)
  if isClosed then return (String.ofList name, rest) else .error .malformed

/-- Whether a character may stand in the suffix of a tag without escape. -/
def isAddressCharacter (c : Char) : Bool :=
  c.isAlphanum || "-;/?:@&=+$,_.!~*'()[]".toList.contains c

/-- The bytes that an address writes: one for each character and each percent escape. -/
def addressBytes : List Char → Except Fault (List UInt8)
  | [] => .ok []
  | '%' :: a :: b :: rest => do
    match hexadecimalDigit? a, hexadecimalDigit? b with
    | some high, some low => return UInt8.ofNat (high * 16 + low) :: (← addressBytes rest)
    | _, _ => .error .malformed
  | c :: rest => do
    if c = '%' then .error .malformed
    else return UInt8.ofNat c.toNat :: (← addressBytes rest)

/-- The address at the start of a text, with its escapes resolved, and the text behind it.
It has at least one character. -/
def readAddress (text : List Char) : Except Fault (String × List Char) := do
  let written := text.takeWhile fun c => isAddressCharacter c || c == '%'
  if written.isEmpty then .error .malformed
  else
    match String.fromUTF8? ⟨(← addressBytes written).toArray⟩ with
    | some address => return (address, text.drop written.length)
    | none => .error .malformed

/-- The handle at the start of a text: an exclamation mark, or a name between two. -/
def readHandle (text : List Char) : Except Fault (String × List Char) :=
  match text with
  | '!' :: rest =>
    if rest.head? = some ' ' then .ok ("!", rest)
    else
      let name := rest.takeWhile isNameCharacter
      match rest.drop name.length with
      | '!' :: after => .ok (String.ofList ('!' :: name ++ ['!']), after)
      | _ => .error .malformed
  | _ => .error .malformed

/-- The tag that begins with the exclamation mark in front of a text. -/
def readTag (text : List Char) : Except Fault (Token × List Char) := do
  let (tag, rest) ← match text with
    | '<' :: rest => do
      let (suffix, rest) ← readAddress rest
      match rest with
      | '>' :: rest => pure (Token.tag none suffix, rest)
      | _ => .error .malformed
    | _ =>
      if startsGap text then pure (Token.tag none "!", text)
      else if (text.takeWhile fun c => !(c == ' ' || isBreak c)).contains '!' then do
        let (handle, rest) ← readHandle ('!' :: text)
        let (suffix, rest) ← readAddress rest
        pure (Token.tag (some handle) suffix, rest)
      else do
        let (suffix, rest) ← readAddress text
        pure (Token.tag (some "!") suffix, rest)
  if startsSpace rest then return (tag, rest) else .error .malformed

/-- The number at the start of a text. -/
def readVersionNumber (text : List Char) : Except Fault (Nat × List Char) :=
  let digits := text.takeWhile Char.isDigit
  if digits.isEmpty then .error .malformed
  else .ok (digits.foldl (fun n c => n * 10 + (c.toNat - '0'.toNat)) 0, text.drop digits.length)

/-- The value of a version directive. -/
def readVersion (text : List Char) : Except Fault (Directive × List Char) := do
  let (major, rest) ← readVersionNumber (text.dropWhile (· == ' '))
  match rest with
  | '.' :: rest => do
    let (minor, rest) ← readVersionNumber rest
    if startsSpace rest then return (.version major minor, rest) else .error .malformed
  | _ => .error .malformed

/-- The value of a directive for a handle. -/
def readHandleDirective (text : List Char) : Except Fault (Directive × List Char) := do
  let (handle, rest) ← readHandle (text.dropWhile (· == ' '))
  if rest.head? ≠ some ' ' then .error .malformed
  else
    let (expansion, rest) ← readAddress (rest.dropWhile (· == ' '))
    if startsSpace rest then return (.handle handle expansion, rest) else .error .malformed

/-- The directive behind a percent sign, and the lines below it. -/
def readDirective (text : List Char) : Except Fault (Directive × List Char) := do
  let (name, rest) ← readName text
  if !startsSpace rest then .error .malformed
  else
    let (directive, rest) ← match String.ofList name with
      | "YAML" => readVersion rest
      | "TAG" => readHandleDirective rest
      | _ => pure (.reserved, rest.dropWhile (!isBreak ·))
    return (directive, ← afterLine rest)

end Accolade.Yaml
