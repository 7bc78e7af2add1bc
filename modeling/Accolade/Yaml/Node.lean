import Accolade.Document.Value
import Accolade.Yaml.Fault

/-!
# Nodes of a document

A document is a tree of scalars, sequences and mappings, each with a tag that says how it
is to be understood. A node that is referred to by an alias stands at both places, and keeps
what it means, so that it is understood once. An alias inside the collection it refers to
stays a reference, which keeps the tree finite.
-/

namespace Accolade.Yaml

/-- How a node is to be understood. -/
inductive Tag
  | null | boolean | integer | double | text | bytes | sequence | mapping
  /-- a sequence of mappings of one pair -/
  | pairs
  /-- a mapping of which the keys count -/
  | set
  /-- a key under which other mappings are merged into this one -/
  | merge
  /-- a key under which a mapping keeps its value as a scalar -/
  | value
  /-- a tag without meaning here -/
  | unknown
  deriving DecidableEq, Repr

/-- What the names of all tags with a meaning begin with. -/
def tagAuthority : String := "tag:yaml.org,2002:"

/-- The tag of a name. -/
def Tag.ofName (name : String) : Tag :=
  let names : List (String × Tag) :=
    [("null", .null), ("bool", .boolean), ("int", .integer), ("float", .double), ("str", .text),
      ("binary", .bytes), ("seq", .sequence), ("map", .mapping), ("omap", .pairs),
      ("pairs", .pairs), ("set", .set), ("merge", .merge), ("value", .value)]
  ((names.find? fun entry => tagAuthority ++ entry.1 == name).map Prod.snd).getD .unknown

/-- A result, or a fault with its distance from the node that is understood. -/
abbrev Understood (α : Type) := Except (Nat × Fault) α

/-- A node of a document. -/
inductive Node
  | scalar (tag : Tag) (text : String)
  | sequence (tag : Tag) (items : List Node)
  | mapping (tag : Tag) (pairs : List (Node × Node))
  /-- a reference to the sequence or mapping of an anchor, from inside it -/
  | reference (anchor : String) (isMapping : Bool) (tag : Tag)
  /-- a node that aliases may refer to, with what it means -/
  | shared (node : Node) (meaning : Understood Value)

namespace Node

/-- The tag of a node. -/
def tag : Node → Tag
  | .scalar tag _ => tag
  | .sequence tag _ => tag
  | .mapping tag _ => tag
  | .reference _ _ tag => tag
  | .shared node _ => node.tag

/-- A node as it is without aliases. -/
def bare : Node → Node
  | .shared node _ => node.bare
  | node => node

/-- Whether a node is a mapping, or refers to one. -/
def isMapping : Node → Bool
  | .mapping _ _ => true
  | .reference _ isMapping _ => isMapping
  | .shared node _ => node.isMapping
  | _ => false

mutual

/-- How many nodes that are yet to be understood stand above one another. -/
def height : Node → Nat
  | .scalar _ _ => 1
  | .sequence _ items => heightOfItems items + 1
  | .mapping _ pairs => heightOfPairs pairs + 1
  | .reference _ _ _ => 1
  | .shared _ _ => 1

/-- The height of the highest item. -/
def heightOfItems : List Node → Nat
  | [] => 0
  | item :: rest => max item.height (heightOfItems rest)

/-- The height of the highest key or value. -/
def heightOfPairs : List (Node × Node) → Nat
  | [] => 0
  | (key, value) :: rest => max (max key.height value.height) (heightOfPairs rest)

end

end Node

end Accolade.Yaml
