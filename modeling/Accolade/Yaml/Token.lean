import Accolade.Yaml.Fault

/-!
# Tokens of a document

A document is a sequence of tokens: marks between documents, the starts and ends of
collections, the marks for entries, keys and values, the properties of nodes, and
scalars. Indentation has become starts and ends of block collections.
-/

namespace Accolade.Yaml

/-- A line of instructions before a document. -/
inductive Directive
  /-- the version of the format -/
  | version (major minor : Nat)
  /-- what a tag handle stands for -/
  | handle (name expansion : String)
  /-- an instruction without meaning here -/
  | reserved
  deriving DecidableEq, Repr

/-- A token of a document. -/
inductive Token
  | directive (directive : Directive)
  | documentStart
  | documentEnd
  | blockSequenceStart
  | blockMappingStart
  | blockEnd
  | flowSequenceStart
  | flowSequenceEnd
  | flowMappingStart
  | flowMappingEnd
  | flowEntry
  | blockEntry
  | key
  | value
  | alias (name : String)
  | anchor (name : String)
  /-- a tag, with its handle unless it is given in full -/
  | tag (handle : Option String) (suffix : String)
  /-- a scalar, and whether it stands without quotes or block mark -/
  | scalar (isPlain : Bool) (text : String)
  deriving DecidableEq, Repr

/-- The tokens of a text in order. When a fault ends them, they are those that can be taken
before it is met. -/
structure TokenStream where
  tokens : List Token
  fault : Option Fault
  deriving Repr

end Accolade.Yaml
