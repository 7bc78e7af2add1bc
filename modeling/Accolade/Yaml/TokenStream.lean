import Accolade.Yaml.BlockText
import Accolade.Yaml.Cursor
import Accolade.Yaml.PlainText
import Accolade.Yaml.Property
import Accolade.Yaml.QuotedText
import Accolade.Yaml.Source

/-!
# The tokens of a text

A text is split into tokens from left to right. Outside flow collections indentation
matters: a token further right than the open block collections may open one, a token
further left closes those it is left of.

A mapping key that is no more than a node is known as a key only when the colon behind it
is met. Until then its place among the tokens is remembered, one place for each open flow
collection and one for the block around them. A key stands on one line and is at most 1024
characters long. A node at the indentation of the block around it must become a key.

Tokens are taken as soon as nothing can come in front of them any more. So when a fault is
met, the tokens in front of the first possible key are there, and those behind it are not.
-/

namespace Accolade.Yaml

/-- A node that may become a key. -/
structure PossibleKey where
  /-- how many tokens came before -/
  position : Nat
  isRequired : Bool
  index : Nat
  line : Nat
  column : Nat
  deriving Repr

/-- How far a text has been split. -/
structure Splitting where
  cursor : Cursor
  /-- the columns of the open block collections, the innermost first -/
  indentations : List Nat
  /-- the possible key outside flow collections -/
  blockKey : Option PossibleKey
  /-- the possible key of each open flow collection, the innermost first -/
  flowKeys : List (Option PossibleKey)
  /-- whether a key may begin here -/
  allowsKey : Bool
  /-- the tokens so far, the latest first -/
  tokens : List Token
  deriving Repr

namespace Splitting

/-- The longest key. -/
def keyLimit : Nat := 1024

/-- Nothing is split off yet. -/
def start (text : List Char) : Splitting := ⟨Cursor.start text, [], none, [], true, []⟩

/-- Whether a flow collection is open. -/
def isInFlow (state : Splitting) : Bool := !state.flowKeys.isEmpty

/-- The possible key of the innermost collection. -/
def possibleKey? (state : Splitting) : Option PossibleKey :=
  match state.flowKeys with
  | key :: _ => key
  | [] => state.blockKey

/-- Replace the possible key of the innermost collection. -/
def setKey (state : Splitting) (key : Option PossibleKey) : Splitting :=
  match state.flowKeys with
  | _ :: outer => { state with flowKeys := key :: outer }
  | [] => { state with blockKey := key }

/-- Put a token behind the others. -/
def write (state : Splitting) (token : Token) : Splitting :=
  { state with tokens := token :: state.tokens }

/-- Put a token in front of all but the first so many tokens. -/
def writeAt (state : Splitting) (position : Nat) (token : Token) : Splitting :=
  let later := state.tokens.length - position
  { state with tokens := state.tokens.take later ++ token :: state.tokens.drop later }

/-- Go on by so many characters. -/
def advance (state : Splitting) (count : Nat) : Splitting :=
  { state with cursor := state.cursor.advance count }

/-- Go on to where the given text is left. -/
def advanceTo (state : Splitting) (rest : List Char) : Splitting :=
  state.advance (state.cursor.rest.length - rest.length)

/-- Forget a possible key. One that is required must not be forgotten. -/
def forgotten : Option PossibleKey → Except Fault (Option PossibleKey)
  | some key => if key.isRequired then .error .malformed else .ok none
  | none => .ok none

/-- Forget the possible key of the innermost collection. -/
def forgetKey (state : Splitting) : Except Fault Splitting :=
  (forgotten state.possibleKey?).map state.setKey

/-- A possible key, unless by now it is too far away to be one. -/
def whileInReach (cursor : Cursor) (key : Option PossibleKey) :
    Except Fault (Option PossibleKey) :=
  match key with
  | some found =>
    if found.line ≠ cursor.line ∨ cursor.index - found.index > keyLimit then forgotten key
    else .ok key
  | none => .ok none

/-- Forget the possible keys out of reach. -/
def forgetDistantKeys (state : Splitting) : Except Fault Splitting := do
  let flowKeys ← state.flowKeys.mapM (whileInReach state.cursor)
  let blockKey ← whileInReach state.cursor state.blockKey
  return { state with flowKeys := flowKeys, blockKey := blockKey }

/-- Remember the node that begins here as a possible key, where a key may begin. -/
def rememberKey (state : Splitting) : Except Fault Splitting :=
  if state.allowsKey then do
    let state ← state.forgetKey
    let cursor := state.cursor
    let isRequired := !state.isInFlow && state.indentations.head? == some cursor.column
    return state.setKey
      (some ⟨state.tokens.length, isRequired, cursor.index, cursor.line, cursor.column⟩)
  else .ok state

/-- Close the block collections of which a token is on the left. -/
def closeBlocks (state : Splitting) (isLeft : Nat → Bool) : Splitting :=
  if state.isInFlow then state
  else
    let closed := state.indentations.takeWhile isLeft
    { state with
      indentations := state.indentations.drop closed.length
      tokens := closed.map (fun _ => Token.blockEnd) ++ state.tokens }

/-- Whether a column is right of all open block collections. -/
def isDeeper (state : Splitting) (column : Nat) : Bool := state.indentations.head?.all (· < column)

/-- Open a block collection here, if this is right of those that are open. -/
def openBlock (state : Splitting) (token : Token) : Splitting :=
  let column := state.cursor.column
  if state.isDeeper column then
    { state with indentations := column :: state.indentations }.write token
  else state

/-- How many characters there are before the next token: spaces, comments and line breaks.
With them comes whether there is a line break. -/
def gapBefore : Bool → List Char → Nat × Bool
  | _, [] => (0, false)
  | inComment, c :: rest =>
    if isBreak c then ((gapBefore false rest).1 + 1, true)
    else if inComment || c == ' ' then
      let (count, crosses) := gapBefore inComment rest
      (count + 1, crosses)
    else if c == '#' then
      let (count, crosses) := gapBefore true rest
      (count + 1, crosses)
    else (0, false)

/-- Go on to the next token. Outside flow collections a key may begin on a new line. -/
def toNextToken (state : Splitting) : Splitting :=
  let (count, crosses) := gapBefore false state.cursor.rest
  { state.advance count with allowsKey := state.allowsKey || (crosses && !state.isInFlow) }

/-- A mark between documents, or a directive: all block collections are closed. -/
def leaveDocument (state : Splitting) : Except Fault Splitting := do
  let state ← (state.closeBlocks fun _ => true).forgetKey
  return { state with allowsKey := false }

/-- A directive. -/
def splitDirective (state : Splitting) : Except Fault Splitting := do
  let state ← state.leaveDocument
  let (directive, rest) ← readDirective (state.cursor.rest.drop 1)
  return (state.advanceTo rest).write (.directive directive)

/-- A mark between documents. -/
def splitDocumentMark (state : Splitting) (token : Token) : Except Fault Splitting := do
  let state ← state.leaveDocument
  return (state.advance 3).write token

/-- The start of a flow collection, which as a whole may become a key. -/
def splitFlowStart (state : Splitting) (token : Token) : Except Fault Splitting := do
  let state ← state.rememberKey
  return { state.advance 1 with flowKeys := none :: state.flowKeys, allowsKey := true }.write token

/-- The end of a flow collection, one of which must be open. -/
def splitFlowEnd (state : Splitting) (token : Token) : Except Fault Splitting :=
  match state.flowKeys with
  | _ :: outer =>
    .ok ({ state.advance 1 with flowKeys := outer, allowsKey := false }.write token)
  | [] => .error .malformed

/-- The mark between the entries of a flow collection. -/
def splitFlowEntry (state : Splitting) : Except Fault Splitting := do
  let state ← state.forgetKey
  return { state.advance 1 with allowsKey := true }.write .flowEntry

/-- The mark of an item in a block. In a flow collection it is left to the reader of nodes. -/
def splitBlockEntry (state : Splitting) : Except Fault Splitting := do
  if !state.isInFlow && !state.allowsKey then .error .malformed
  else
    let state := if state.isInFlow then state else state.openBlock .blockSequenceStart
    let state ← state.forgetKey
    return { state.advance 1 with allowsKey := true }.write .blockEntry

/-- The mark of a key that is given as such. -/
def splitKey (state : Splitting) : Except Fault Splitting := do
  if !state.isInFlow && !state.allowsKey then .error .malformed
  else
    let state := if state.isInFlow then state else state.openBlock .blockMappingStart
    let state ← state.forgetKey
    return { state.advance 1 with allowsKey := !state.isInFlow }.write .key

/-- The mark of a value makes the possible key in front of it a key. -/
def splitValue (state : Splitting) : Except Fault Splitting :=
  match state.possibleKey? with
  | some key =>
    let state := (state.setKey none).writeAt key.position .key
    let state :=
      if !state.isInFlow && state.isDeeper key.column then
        { state with indentations := key.column :: state.indentations }.writeAt key.position
          .blockMappingStart
      else state
    .ok ({ state.advance 1 with allowsKey := false }.write .value)
  | none =>
    if !state.isInFlow && !state.allowsKey then .error .malformed
    else
      let state := if state.isInFlow then state else state.openBlock .blockMappingStart
      .ok ({ state.advance 1 with allowsKey := !state.isInFlow }.write .value)

/-- A node begins here that no other may follow as a key. -/
def beginNode (state : Splitting) : Except Fault Splitting := do
  return { ← state.rememberKey with allowsKey := false }

/-- An alias or an anchor. -/
def splitName (state : Splitting) (token : String → Token) : Except Fault Splitting := do
  let state ← state.beginNode
  let (name, rest) ← readNodeName (state.cursor.rest.drop 1)
  return (state.advanceTo rest).write (token name)

/-- A tag. -/
def splitTag (state : Splitting) : Except Fault Splitting := do
  let state ← state.beginNode
  let (token, rest) ← readTag (state.cursor.rest.drop 1)
  return (state.advanceTo rest).write token

/-- A quoted scalar. -/
def splitQuoted (state : Splitting) (isDouble : Bool) : Except Fault Splitting := do
  let state ← state.beginNode
  let (text, count) ← quotedScalar isDouble (state.cursor.rest.drop 1)
  return (state.advance (count + 1)).write (.scalar false (String.ofList text))

/-- The least indentation of a scalar inside the open block collections. -/
def innerIndentation (state : Splitting) : Nat :=
  match state.indentations with
  | column :: _ => column + 1
  | [] => 0

/-- A plain scalar. When it ends on a later line, a key may begin there. -/
def splitPlain (state : Splitting) : Except Fault Splitting := do
  let state ← state.beginNode
  let scalar := plainScalar state.isInFlow state.innerIndentation state.cursor
  return { state with cursor := scalar.cursor, allowsKey := scalar.crossesLine }.write
    (.scalar true (String.ofList scalar.text))

/-- A block scalar is no key, but a key may follow it. -/
def splitBlock (state : Splitting) (isFolded : Bool) : Except Fault Splitting := do
  let state ← state.forgetKey
  let (text, count) ←
    blockScalar isFolded (max 1 state.innerIndentation) (state.cursor.rest.drop 1)
  return { state.advance (count + 1) with allowsKey := true }.write
    (.scalar false (String.ofList text))

/-- Whether a character begins a plain scalar, with this text behind it. -/
def beginsPlain (inFlow : Bool) (c : Char) (rest : List Char) : Bool :=
  !(isGap c || "-?:,[]\x7b\x7d#&*!|>'\"%@`".toList.contains c) ||
    (!startsGap rest && (c == '-' || (!inFlow && (c == '?' || c == ':'))))

/-- Split off the token that begins with a character. -/
def splitToken (state : Splitting) (c : Char) (rest : List Char) : Except Fault Splitting :=
  let isAtStart := state.cursor.column == 0
  let inFlow := state.isInFlow
  if c == '%' && isAtStart then state.splitDirective
  else if isAtStart && startsDocumentMark (c :: rest) then
    state.splitDocumentMark (if c = '-' then .documentStart else .documentEnd)
  else if c == '[' then state.splitFlowStart .flowSequenceStart
  else if c == '\x7b' then state.splitFlowStart .flowMappingStart
  else if c == ']' then state.splitFlowEnd .flowSequenceEnd
  else if c == '\x7d' then state.splitFlowEnd .flowMappingEnd
  else if c == ',' then state.splitFlowEntry
  else if c == '-' && startsGap rest then state.splitBlockEntry
  else if c == '?' && (inFlow || startsGap rest) then state.splitKey
  else if c == ':' && (inFlow || startsGap rest) then state.splitValue
  else if c == '*' then state.splitName .alias
  else if c == '&' then state.splitName .anchor
  else if c == '!' then state.splitTag
  else if c == '|' && !inFlow then state.splitBlock false
  else if c == '>' && !inFlow then state.splitBlock true
  else if c == '\'' then state.splitQuoted false
  else if c == '"' then state.splitQuoted true
  else if beginsPlain inFlow c rest then state.splitPlain
  else .error .malformed

/-- The tokens of the whole text, once nothing is left of it. -/
def finish (state : Splitting) : Except Fault (List Token) := do
  let state ← state.leaveDocument
  return state.tokens.reverse

/-- The possible keys of all collections. -/
def possibleKeys (state : Splitting) : List PossibleKey :=
  (state.blockKey :: state.flowKeys).filterMap id

/-- How many tokens nothing can come in front of any more. -/
def readyCount (state : Splitting) : Nat :=
  let keys := match state.forgetDistantKeys with
    | .ok state => state.possibleKeys
    | .error _ => state.possibleKeys
  keys.foldl (fun count key => min count key.position) state.tokens.length

/-- The tokens when a fault is met next. -/
def stoppedBy (state : Splitting) (fault : Fault) : TokenStream :=
  ⟨state.tokens.reverse.take state.readyCount, some fault⟩

/-- Split off one more token, if the text is not at its end. -/
def splitNext (state : Splitting) : Except Fault (Option Splitting) := do
  let state ← state.toNextToken.forgetDistantKeys
  let state := state.closeBlocks (state.cursor.column < ·)
  match state.cursor.rest with
  | [] => return none
  | c :: rest => some <$> state.splitToken c rest

/-- Split off so many tokens and end. A fault behind the text is met as soon as one
character or none is left in front of it. -/
def splitWithin (behind : Option Fault) : Nat → Splitting → TokenStream
  | 0, state => state.stoppedBy .malformed
  | rounds + 1, state =>
    match state.splitNext, behind with
    | .error fault, _ => state.stoppedBy fault
    | .ok none, some fault => state.stoppedBy fault
    | .ok none, none =>
      match state.toNextToken.finish with
      | .ok tokens => ⟨tokens, none⟩
      | .error fault => state.stoppedBy fault
    | .ok (some next), some fault =>
      if next.cursor.rest.length ≤ 1 then state.stoppedBy fault
      else splitWithin behind rounds next
    | .ok (some next), none => splitWithin behind rounds next

end Splitting

/-- The tokens of a source. Each takes at least one character, so one round more than there
are characters is enough. -/
def TokenStream.ofSource (source : Source) : TokenStream :=
  Splitting.splitWithin source.fault (source.text.length + 1) (.start source.text)

end Accolade.Yaml
