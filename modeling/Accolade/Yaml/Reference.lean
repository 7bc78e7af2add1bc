import Accolade.Yaml.Node

/-!
# References from inside a collection

An alias may refer to a collection that is not complete yet, because the alias stands
inside it. Under a merge key such a reference still means pairs or mappings, which are
known once the collection is complete: `Node.completed` puts them in.

Nodes that are shared hold no references: a node that does is not understood until the
collection around it is complete.

Seen from inside, a collection holds all that it holds, except that what leads back again is
a mere reference. A mapping that is merged into itself adds what it has beside the merges
made so far; its own pairs win over those anyway.
-/

namespace Accolade.Yaml.Node

mutual

/-- Whether a node holds a reference. -/
def hasReference : Node → Bool
  | .scalar _ _ => false
  | .sequence _ items => itemsHaveReference items
  | .mapping _ pairs => pairsHaveReference pairs
  | .reference _ _ _ => true
  | .shared _ _ => false

/-- Whether an item holds a reference. -/
def itemsHaveReference : List Node → Bool
  | [] => false
  | item :: rest => item.hasReference || itemsHaveReference rest

/-- Whether a key or a value holds a reference. -/
def pairsHaveReference : List (Node × Node) → Bool
  | [] => false
  | (key, value) :: rest => key.hasReference || value.hasReference || pairsHaveReference rest

end

/-- A node as a part of the collection of an anchor, seen from inside that collection. -/
def partFromInside (anchor : String) (node : Node) : Node :=
  if node.hasReference then .reference anchor node.isMapping node.tag else node

/-- The collection of an anchor, seen from inside. -/
def fromInside (anchor : String) : Node → Node
  | .sequence tag items => .sequence tag (items.map (partFromInside anchor))
  | .mapping tag pairs =>
    .mapping tag (pairs.map fun (key, value) => (key, value.partFromInside anchor))
  | node => node

/-- A node unless it is a reference to an anchor, for which another node is put in. -/
def replaced (anchor : String) (target : Node) : Node → Node
  | .reference name isMapping tag =>
    if name = anchor then target else .reference name isMapping tag
  | node => node

/-- What stands under a merge key, with a node put in for references to an anchor. -/
def mergeReplaced (anchor : String) (target : Node) : Node → Node
  | .sequence tag items => .sequence tag (items.map (replaced anchor target))
  | node => replaced anchor target node

/-- The pairs of the mapping of an anchor, the references to itself under its merge keys
resolved. The first argument holds the pairs passed over that are its own. -/
def mergingItself (anchor : String) (own : List (Node × Node)) :
    List (Node × Node) → List (Node × Node)
  | [] => []
  | (key, value) :: rest =>
    if key.tag = .merge then
      let rest := mergingItself anchor own rest
      (key, mergeReplaced anchor (.mapping .mapping (own ++ rest)) value) :: rest
    else (key, value) :: mergingItself anchor (own ++ [(key, value)]) rest

mutual

/-- A node in which a target is put in for references to an anchor under merge keys. -/
def resolved (anchor : String) (target : Node) : Node → Node
  | .sequence tag items => .sequence tag (resolvedItems anchor target items)
  | .mapping tag pairs => .mapping tag (resolvedPairs anchor target pairs)
  | node => node

/-- Items in which references under merge keys are resolved. -/
def resolvedItems (anchor : String) (target : Node) : List Node → List Node
  | [] => []
  | item :: rest => resolved anchor target item :: resolvedItems anchor target rest

/-- Pairs in which references under merge keys are resolved. -/
def resolvedPairs (anchor : String) (target : Node) : List (Node × Node) → List (Node × Node)
  | [] => []
  | (key, value) :: rest =>
    let value := resolved anchor target value
    let value := if key.tag = .merge then mergeReplaced anchor target value else value
    (resolved anchor target key, value) :: resolvedPairs anchor target rest

end

/-- The collection of an anchor once it is complete. -/
def completed (anchor : String) (node : Node) : Node :=
  if !node.hasReference then node
  else
    let node : Node := match node with
      | .mapping tag pairs => .mapping tag (mergingItself anchor [] pairs)
      | node => node
    resolved anchor (fromInside anchor node) node

end Accolade.Yaml.Node
