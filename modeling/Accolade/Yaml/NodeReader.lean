import Accolade.Yaml.Fault
import Accolade.Yaml.Meaning
import Accolade.Yaml.PlainTag
import Accolade.Yaml.TokenStream

/-!
# Nodes from tokens

A document is its directives, the mark of its start and one node; the mark may be left out
when there are no directives. A stream holds at most one document.

A node may have a tag and an anchor, in any order. It may be missing after the mark of an
entry, a key or a value, and after its properties: then it is an empty plain scalar. As
the value of a key in a block, a sequence need not be indented.

Aliases stand for the node of their anchor, and inside that node for a reference to it. An
anchor is given once.

Tokens come one by one. A fault that ends them counts only when the next one is asked for,
so a fault of the nodes before it counts first.
-/

namespace Accolade.Yaml

/-- What has not been read, and what is known so far. -/
structure Reading where
  tokens : List Token
  /-- what comes after the tokens instead of an end -/
  fault : Option Fault
  /-- the anchors, a collection still being read as a reference -/
  anchors : List (String × Node)
  /-- how many collections are being read -/
  depth : Nat

/-- A step of reading, which may find a fault. -/
abbrev Reader (α : Type) := StateT Reading (Except Fault) α

namespace Reader

/-- The next token, which stays. -/
def peek : Reader (Option Token) := do
  let reading ← get
  match reading.tokens, reading.fault with
  | token :: _, _ => return some token
  | [], some fault => throw fault
  | [], none => return none

/-- Pass over the next token. -/
def skip : Reader Unit := modify fun reading => { reading with tokens := reading.tokens.tail }

/-- Give up. -/
def malformed {α : Type} : Reader α := throw .malformed

/-- Pass over the next token if it is the given one, and tell whether it was. -/
def take? (token : Token) : Reader Bool := do
  if (← peek) == some token then
    skip
    return true
  else return false

/-- Whether the next token is among the given ones. -/
def sees (tokens : List Token) : Reader Bool := do
  return (← peek).any tokens.contains

/-- How many collections may stand inside one another. -/
def depthLimit : Nat := 488

/-- Read what is inside a collection. -/
def inside {α : Type} (parts : Reader α) : Reader α := do
  let depth := (← get).depth
  if depthLimit ≤ depth then throw .tooDeep
  modify fun reading => { reading with depth := depth + 1 }
  let read ← parts
  modify fun reading => { reading with depth := depth }
  return read

end Reader

open Reader

/-- The handles that need no directive. -/
def standardHandles : List (String × String) := [("!", "!"), ("!!", tagAuthority)]

/-- The node of a missing scalar. -/
def emptyNode : Node := .scalar .null ""

/-- The properties of a node. -/
structure Properties where
  anchor : Option String
  /-- the name of the tag in full -/
  tag : Option String

/-- The name of a tag in full. -/
def tagName (handles : List (String × String)) (handle : Option String) (suffix : String) :
    Reader String :=
  match handle with
  | none => return suffix
  | some handle =>
    match handles.find? fun entry => entry.1 == handle with
    | some (_, expansion) => return expansion ++ suffix
    | none => malformed

/-- Read the properties in front of a node. -/
def readProperties (handles : List (String × String)) : Reader Properties := do
  match ← peek with
  | some (.anchor name) =>
    skip
    match ← peek with
    | some (.tag handle suffix) =>
      skip
      return ⟨some name, some (← tagName handles handle suffix)⟩
    | _ => return ⟨some name, none⟩
  | some (.tag handle suffix) =>
    skip
    match ← peek with
    | some (.anchor name) =>
      skip
      return ⟨some name, some (← tagName handles handle suffix)⟩
    | _ => return ⟨none, some (← tagName handles handle suffix)⟩
  | _ => return ⟨none, none⟩

namespace Properties

/-- Whether there are none. -/
def isEmpty (properties : Properties) : Bool :=
  properties.anchor.isNone && properties.tag.isNone

/-- The tag of a collection. Without a tag, or with the bare mark of one, it is the tag of
its kind. -/
def collectionTag (properties : Properties) (kind : Tag) : Tag :=
  match properties.tag with
  | none => kind
  | some name => if name == "!" then kind else .ofName name

/-- The scalar of a text. The bare mark of a tag makes it a plain one. -/
def scalar (properties : Properties) (isPlain : Bool) (text : String) : Node :=
  match properties.tag with
  | none => .scalar (if isPlain then .ofPlain text else .text) text
  | some name => .scalar (if name == "!" then .ofPlain text else .ofName name) text

end Properties

/-- What an alias refers to inside the collection that a token begins. -/
def reference (anchor : String) (properties : Properties) (first : Option Token) : Node :=
  let isMapping := first = some .flowMappingStart ∨ first = some .blockMappingStart
  .reference anchor isMapping (properties.collectionTag (if isMapping then .mapping else .sequence))

/-- Open the anchor of a node that begins with a token. -/
def openAnchor (properties : Properties) (first : Option Token) : Reader Unit :=
  match properties.anchor with
  | none => return
  | some name => do
    if (← get).anchors.any fun entry => entry.1 == name then malformed
    else modify fun reading =>
      { reading with anchors := (name, reference name properties first) :: reading.anchors }

/-- Give the node of an anchor. -/
def closeAnchor (anchor : Option String) (node : Node) : Reader Node := do
  match anchor with
  | none => return node
  | some name =>
    let node := (node.completed name).withMeaning
    modify fun reading => { reading with anchors := (name, node) :: reading.anchors }
    return node

/-- The node of an alias. -/
def nodeOfAlias (name : String) : Reader Node := do
  match (← get).anchors.find? fun entry => entry.1 == name with
  | some (_, node) => return node
  | none => malformed

/-- Where a node stands. -/
inductive Position
  /-- in a flow collection -/
  | flow
  /-- in a block -/
  | block
  /-- in a block, after the mark of a key or value -/
  | blockValue
  deriving DecidableEq

mutual

/-- Read a node. -/
def readNode (handles : List (String × String)) (position : Position) : Nat → Reader Node
  | 0 => malformed
  | fuel + 1 => do
    if let some (.alias name) ← peek then
      skip
      return ← nodeOfAlias name
    let properties ← readProperties handles
    openAnchor properties (← peek)
    let node ← readContent handles position properties fuel
    closeAnchor properties.anchor node

/-- Read a node behind its properties. -/
def readContent (handles : List (String × String)) (position : Position)
    (properties : Properties) : Nat → Reader Node
  | 0 => malformed
  | fuel + 1 => do
    let sequenceTag := properties.collectionTag .sequence
    let mappingTag := properties.collectionTag .mapping
    let next ← peek
    match next with
    | some (.scalar isPlain text) =>
      skip
      return properties.scalar isPlain text
    | some .flowSequenceStart =>
      skip
      return .sequence sequenceTag (← inside (readFlowItems handles true fuel))
    | some .flowMappingStart =>
      skip
      return .mapping mappingTag (← inside (readFlowPairs handles true fuel))
    | _ =>
      if next = some .blockEntry ∧ position = .blockValue then
        return .sequence sequenceTag (← inside (readFlushItems handles fuel))
      else if next = some .blockSequenceStart ∧ position ≠ .flow then
        skip
        return .sequence sequenceTag (← inside (readBlockItems handles fuel))
      else if next = some .blockMappingStart ∧ position ≠ .flow then
        skip
        return .mapping mappingTag (← inside (readBlockPairs handles fuel))
      else if properties.isEmpty then malformed
      else return properties.scalar true ""

/-- Read a node unless it is missing, which the next token tells. -/
def readNodeUnless (handles : List (String × String)) (position : Position)
    (stops : List Token) : Nat → Reader Node
  | 0 => malformed
  | fuel + 1 => do
    if ← sees stops then return emptyNode
    else readNode handles position fuel

/-- Read the value behind a key, if there is one. -/
def readValue (handles : List (String × String)) (position : Position)
    (stops : List Token) : Nat → Reader Node
  | 0 => malformed
  | fuel + 1 => do
    if ← take? .value then readNodeUnless handles position stops fuel
    else return emptyNode

/-- Read the items of a block sequence. -/
def readBlockItems (handles : List (String × String)) : Nat → Reader (List Node)
  | 0 => malformed
  | fuel + 1 => do
    if ← take? .blockEntry then
      let item ← readNodeUnless handles .block [.blockEntry, .blockEnd] fuel
      return item :: (← readBlockItems handles fuel)
    else if ← take? .blockEnd then return []
    else malformed

/-- Read the items of a sequence that is not indented. -/
def readFlushItems (handles : List (String × String)) : Nat → Reader (List Node)
  | 0 => malformed
  | fuel + 1 => do
    if ← take? .blockEntry then
      let item ← readNodeUnless handles .block [.blockEntry, .key, .value, .blockEnd] fuel
      return item :: (← readFlushItems handles fuel)
    else return []

/-- Read the pairs of a block mapping. -/
def readBlockPairs (handles : List (String × String)) : Nat → Reader (List (Node × Node))
  | 0 => malformed
  | fuel + 1 => do
    if ← take? .key then
      let stops : List Token := [.key, .value, .blockEnd]
      let key ← readNodeUnless handles .blockValue stops fuel
      let value ← readValue handles .blockValue stops fuel
      return (key, value) :: (← readBlockPairs handles fuel)
    else if ← take? .blockEnd then return []
    else malformed

/-- Read the items of a flow sequence. A key makes an item a mapping of one pair. -/
def readFlowItems (handles : List (String × String)) (isFirst : Bool) :
    Nat → Reader (List Node)
  | 0 => malformed
  | fuel + 1 => do
    if ← take? .flowSequenceEnd then return []
    let isSeparated ← if isFirst then pure true else take? .flowEntry
    if !isSeparated then malformed
    else if ← take? .key then
      let stops : List Token := [.flowEntry, .flowSequenceEnd]
      let pair ← inside do
        let key ← readNodeUnless handles .flow (.value :: stops) fuel
        return (key, ← readValue handles .flow stops fuel)
      return .mapping .mapping [pair] :: (← readFlowItems handles false fuel)
    else if ← take? .flowSequenceEnd then return []
    else
      let item ← readNode handles .flow fuel
      return item :: (← readFlowItems handles false fuel)

/-- Read the pairs of a flow mapping. A node that is no key has no value. -/
def readFlowPairs (handles : List (String × String)) (isFirst : Bool) :
    Nat → Reader (List (Node × Node))
  | 0 => malformed
  | fuel + 1 => do
    if ← take? .flowMappingEnd then return []
    let isSeparated ← if isFirst then pure true else take? .flowEntry
    if !isSeparated then malformed
    else if ← take? .key then
      let stops : List Token := [.flowEntry, .flowMappingEnd]
      let key ← readNodeUnless handles .flow (.value :: stops) fuel
      let value ← readValue handles .flow stops fuel
      return (key, value) :: (← readFlowPairs handles false fuel)
    else if ← take? .flowMappingEnd then return []
    else
      let key ← readNode handles .flow fuel
      return (key, emptyNode) :: (← readFlowPairs handles false fuel)

end

/-- Take in a directive. A version is given once and is the first major one; a handle is
given once. -/
def noteDirective (hasVersion : Bool) (handles : List (String × String)) :
    Directive → Reader (Bool × List (String × String))
  | .version major _ => if hasVersion || major ≠ 1 then malformed else return (true, handles)
  | .handle name expansion =>
    if handles.any fun entry => entry.1 == name then malformed
    else return (hasVersion, handles ++ [(name, expansion)])
  | .reserved => return (hasVersion, handles)

/-- Take in directives, of which there are at most so many. -/
def readDirectives (hasVersion : Bool) (handles : List (String × String)) :
    Nat → Reader (List (String × String))
  | 0 => return handles
  | fuel + 1 => do
    match ← peek with
    | some (.directive directive) =>
      skip
      let (hasVersion, handles) ← noteDirective hasVersion handles directive
      readDirectives hasVersion handles fuel
    | _ => return handles

/-- Whether a token begins a document with a mark or directives. -/
def Token.isPreamble : Token → Bool
  | .directive _ => true
  | .documentStart => true
  | _ => false

/-- Pass over the marks at the end of a document, of which there are at most so many. -/
def skipEndMarks : Nat → Reader Unit
  | 0 => return
  | count + 1 => do
    if ← take? .documentEnd then skipEndMarks count

/-- Read the end of a document. Behind its marks there are at most directives, which are of
no use without another document. -/
def readEnd (count : Nat) : Reader Unit := do
  skipEndMarks count
  if (← peek).isSome then
    let _ ← readDirectives false [] count
    malformed

/-- Read the only document of a stream. There is none in an empty stream. -/
def readDocument : Reader (Option Node) := do
  let count := (← get).tokens.length
  -- every token is looked at by at most four calls, one inside the other
  let fuel := 4 * count + 4
  match ← peek with
  | none => return none
  | some first =>
    let node ←
      if first.isPreamble then
        let given ← readDirectives false [] count
        if !(← take? .documentStart) then malformed
        else
          let next ← peek
          if next.all (fun token => token.isPreamble || token == .documentEnd) then pure emptyNode
          else readNode (given ++ standardHandles) .block fuel
      else readNode standardHandles .block fuel
    readEnd count
    return some node

/-- The only document of a stream of tokens. -/
def Node.ofTokens (stream : TokenStream) : Except Fault (Option Node) :=
  readDocument.run' ⟨stream.tokens, stream.fault, [], 0⟩

/-- The value that the text of a document means: its tokens are made a tree of nodes, and the tree
is understood. An empty text means null. -/
def read (source : Source) : Except Fault Value := do
  match ← Node.ofTokens (.ofSource source) with
  | some node => node.meaning
  | none => return .null

end Accolade.Yaml
