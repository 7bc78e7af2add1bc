import Accolade.Yaml.Character

/-!
# Quoted scalars

A quoted scalar runs to its closing quote. Line breaks inside are folded, with the blanks
around them. Between single quotes a quote is written twice; between double quotes a
backslash begins an escape, and one at the end of a line joins the lines.
-/

namespace Accolade.Yaml

/-- The lines without words at the start of a text: their breaks, and how many characters
they and the blanks before the next word take. No line may begin with a document mark. -/
def emptyQuotedLines : Bool → List Char → Except Fault (List Char × Nat)
  | _, [] => .ok ([], 0)
  | isLineStart, c :: rest =>
    if isLineStart && startsDocumentMark (c :: rest) then .error .malformed
    else if isBlank c then do
      let (breaks, count) ← emptyQuotedLines false rest
      return (breaks, count + 1)
    else if isBreak c then do
      let (breaks, count) ← emptyQuotedLines true rest
      return (breakText c :: breaks, count + 1)
    else .ok ([], 0)

/-- The character that an escape of one letter stands for. -/
def letterEscape? : Char → Option Char
  | '0' => some '\x00'
  | 'a' => some '\x07'
  | 'b' => some '\x08'
  | 't' => some '\t'
  | '\t' => some '\t'
  | 'n' => some '\n'
  | 'v' => some '\x0b'
  | 'f' => some '\x0c'
  | 'r' => some '\r'
  | 'e' => some '\x1b'
  | ' ' => some ' '
  | '"' => some '"'
  | '\\' => some '\\'
  | '/' => some '/'
  | 'N' => some '\x85'
  | '_' => some '\xa0'
  | 'L' => some '\u2028'
  | 'P' => some '\u2029'
  | _ => none

/-- How many digits follow the letter of a numeric escape. -/
def escapeDigits? : Char → Option Nat
  | 'x' => some 2
  | 'u' => some 4
  | 'U' => some 8
  | _ => none

/-- The character of a number. Halves of surrogate pairs that stand alone are replaced. -/
def characterOf (code : Nat) : Except Fault Char :=
  if code.isValidChar then .ok (Char.ofNat code)
  else if code < 0x110000 then .ok '\ufffd'
  else .error (.noCharacter code)

/-- The second half of a surrogate pair that is escaped at the start of a text, with the
number of characters of the escape. -/
def lowHalf? : List Char → Option (Nat × Nat)
  | '\\' :: c :: rest => do
    let digits ← escapeDigits? c
    let code ← hexadecimalNumber? digits rest
    if 0xdc00 ≤ code ∧ code < 0xe000 then some (code, 2 + digits) else none
  | _ => none

/-- The character of a numeric escape, which takes so many characters. The two halves of a
surrogate pair are one character. -/
def numericEscape (code count : Nat) (rest : List Char) : Except Fault (List Char × Nat) := do
  let second := if 0xd800 ≤ code ∧ code < 0xdc00 then lowHalf? rest else none
  match second with
  | some (low, more) =>
    let joined := 0x10000 + (code - 0xd800) * 0x400 + (low - 0xdc00)
    return ([← characterOf joined], count + more)
  | none => return ([← characterOf code], count)

/-- What the escape behind a backslash stands for, and how many characters it takes. -/
def escape : List Char → Except Fault (List Char × Nat)
  | [] => .error .malformed
  | c :: rest =>
    match letterEscape? c, escapeDigits? c with
    | some written, _ => .ok ([written], 1)
    | none, some digits =>
      match hexadecimalNumber? digits rest with
      | some code => numericEscape code (1 + digits) (rest.drop digits)
      | none => .error .malformed
    | none, none =>
      if isBreak c then do
        let (breaks, count) ← emptyQuotedLines true rest
        return (breaks, count + 1)
      else .error .malformed

/-- The gap at the start of a text: what it is in the scalar, and how many characters it
takes. A scalar does not end in a gap. -/
def quotedGap (text : List Char) : Except Fault (List Char × Nat) :=
  let blanks := text.takeWhile isBlank
  match text.drop blanks.length with
  | [] => .error .malformed
  | c :: rest =>
    if isBreak c then do
      let (breaks, count) ← emptyQuotedLines true rest
      return (foldedBreak c breaks, blanks.length + 1 + count)
    else .ok (blanks, blanks.length)

/-- The piece of a quoted scalar that begins with a character: what it is in the scalar,
and how many characters it takes. The closing quote is no piece. -/
def quotedPiece (isDouble : Bool) (c : Char) (rest : List Char) :
    Except Fault (Option (List Char × Nat)) :=
  if c = (if isDouble then '"' else '\'') then
    if !isDouble && rest.head? == some '\'' then .ok (some (['\''], 2)) else .ok none
  else if isGap c then some <$> quotedGap (c :: rest)
  else if isDouble && c = '\\' then do
    let (written, count) ← escape rest
    return some (written, count + 1)
  else .ok (some ([c], 1))

/-- Read a quoted scalar behind its opening quote: its text, and how many characters it
takes with the closing quote. -/
def quotedScalar (isDouble : Bool) (text : List Char) : Except Fault (List Char × Nat) :=
  match text with
  | [] => .error .malformed
  | c :: rest => do
    match ← quotedPiece isDouble c rest with
    | none => return ([], 1)
    | some (written, count) =>
      let (more, further) ← quotedScalar isDouble (rest.drop (count - 1))
      return (written ++ more, count + further)
termination_by text.length
decreasing_by simp only [List.length_drop, List.length_cons]; omega

end Accolade.Yaml
