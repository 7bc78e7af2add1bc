import Accolade.Text.Base64
import Accolade.Yaml.NumberText
import Accolade.Yaml.Reference

/-!
# What a document means

Every node means a value. A scalar means what its tag makes of its text, a sequence a
list, and a mapping a mapping whose keys are scalars; of equal keys the last one counts. A
mapping under a merge key becomes part of the mapping around it, whose own keys win; of
several merged mappings the earlier ones win. A mapping tagged as a scalar means its value
key, one tagged as a set the set of its keys, and a sequence tagged as pairs a list of them.

A tree is understood level by level, so of several faults the one nearest to the root
counts, and among equals the first.
-/

namespace Accolade.Yaml

/-- Two results together. The fault nearer to the root counts, else the first. -/
def both {α β : Type} (first : Understood α) (second : Understood β) : Understood (α × β) :=
  match first, second with
  | .ok a, .ok b => .ok (a, b)
  | .error fault, .ok _ => .error fault
  | .ok _, .error fault => .error fault
  | .error fault, .error other => .error (if other.1 < fault.1 then other else fault)

/-- All results together. -/
def together {α : Type} : List (Understood α) → Understood (List α)
  | [] => .ok []
  | first :: rest => (both first (together rest)).map fun (a, more) => a :: more

namespace Node

mutual

/-- The text of a node that is understood as a scalar. -/
def scalarText? : Node → Option String
  | .scalar _ text => some text
  | .sequence _ _ => none
  | .mapping _ pairs => valueText? pairs
  | .reference _ _ _ => none
  | .shared node _ => node.scalarText?

/-- The text under the first value key. -/
def valueText? : List (Node × Node) → Option String
  | [] => none
  | (key, value) :: rest => if key.tag = .value then value.scalarText? else valueText? rest

end

/-- A node as a key of a mapping, where the value key is a text. -/
def asKey (node : Node) : Node :=
  match node.bare with
  | .scalar .value text => .scalar .text text
  | _ => node

mutual

/-- The pairs of a mapping with all merges made. A reference to a mapping adds nothing. -/
def flattened : Node → Option (List (Node × Node))
  | .mapping _ pairs => (flattenedPairs pairs).map fun (merged, own) => merged ++ own
  | .reference _ true _ => some []
  | .shared node _ => node.flattened
  | _ => none

/-- The pairs that are merged into a mapping, and its own pairs. -/
def flattenedPairs : List (Node × Node) → Option (List (Node × Node) × List (Node × Node))
  | [] => some ([], [])
  | (key, value) :: rest => do
    if key.tag = .merge then
      let merged ← value.mergedPairs
      let (more, own) ← flattenedPairs rest
      return (merged ++ more, own)
    else
      let (merged, own) ← flattenedPairs rest
      return (merged, (key.asKey, value) :: own)

/-- The pairs that a node under a merge key stands for: a mapping, or a sequence of them. -/
def mergedPairs : Node → Option (List (Node × Node))
  | .scalar _ _ => none
  | .mapping _ pairs => (flattenedPairs pairs).map fun (merged, own) => merged ++ own
  | .sequence _ items => mergedItems items
  | .reference _ _ _ => some []
  | .shared node _ => node.mergedPairs

/-- The pairs of mappings, the last mapping first. -/
def mergedItems : List Node → Option (List (Node × Node))
  | [] => some []
  | item :: rest => do
    let pairs ← item.flattened
    let later ← mergedItems rest
    return later ++ pairs

end

/-- The truth value of a text. -/
def truthOf (text : String) : Except Fault Bool :=
  match String.ofList (DecimalText.lowered text.toList) with
  | "yes" | "true" | "on" => .ok true
  | "no" | "false" | "off" => .ok false
  | _ => .error .noTruthValue

/-- What a text means under the tag of a scalar. -/
def scalarMeaning (tag : Tag) (text : String) : Except Fault Scalar :=
  match tag with
  | .null => .ok .null
  | .boolean => (truthOf text).map .boolean
  | .integer => (integerOf text).map .integer
  | .double => (doubleOf text).map .double
  | .bytes =>
    match Text.base64Bytes? text.toList with
    | some bytes => .ok (.bytes bytes)
    | none => .error .malformed
  | _ => .ok (.text text)

/-- Whether a tag is one of a collection. -/
def isCollectionTag (tag : Tag) : Bool :=
  tag = .sequence || tag = .mapping || tag = .pairs || tag = .set

/-- What a reference to an enclosing collection means. -/
def enclosing (isMapping : Bool) : Value := .enclosing (if isMapping then .mapping else .list)

/-- What a node at a distance from the root means. -/
def meaningAt : Nat → Nat → Node → Understood Value
  | 0, distance, _ => .error (distance, .malformed)
  | height + 1, distance, node =>
    let inner := meaningAt height (distance + 1)
    match node.tag, node with
    | _, .shared _ meaning => meaning.mapError fun (beyond, fault) => (distance + beyond, fault)
    | .merge, _ | .value, _ | .unknown, _ => .error (distance, .malformed)
    | _, .reference _ isMapping _ => .ok (enclosing isMapping)
    | .sequence, .sequence _ items => (together (items.map inner)).map .list
    | .pairs, .sequence _ items => (together (items.map (pairOf distance inner))).map .list
    | .mapping, .mapping _ _ =>
      (entriesOf distance inner node).map fun pairs => .mapping (Entries.ofPairs pairs)
    | .set, .mapping _ _ =>
      (entriesOf distance inner node).map fun pairs => Value.setOf (pairs.map Prod.fst)
    | tag, _ =>
      if isCollectionTag tag then .error (distance + 1, .malformed)
      else
        match node.scalarText? with
        | none => .error (distance, .malformed)
        | some text =>
          match scalarMeaning tag text with
          | .ok value => .ok (.scalar value)
          | .error fault => .error (distance, fault)
where
  /-- What a node means as a key, which a collection cannot be. -/
  keyOf (distance : Nat) (inner : Node → Understood Value) (key : Node) : Understood Scalar :=
    if isCollectionTag key.tag then .error (distance + 1, .malformed)
    else
      match inner key with
      | .ok (.scalar value) => .ok value
      | .ok _ => .error (distance + 1, .malformed)
      | .error fault => .error fault
  /-- The keys and values of a mapping, all merges made. -/
  entriesOf (distance : Nat) (inner : Node → Understood Value) (node : Node) :
      Understood (List (Scalar × Value)) :=
    match node.flattened with
    | none => .error (distance + 1, .malformed)
    | some pairs =>
      together (pairs.map fun (key, value) => both (keyOf distance inner key) (inner value))
  /-- What a mapping of one pair means as an item of a list of pairs. -/
  pairOf (distance : Nat) (inner : Node → Understood Value) (item : Node) : Understood Value :=
    match item.bare with
    | .mapping _ [(key, value)] =>
      (both (inner key) (inner value)).map fun (key, value) => .pair key value
    | _ => .error (distance + 1, .malformed)

/-- What a node means. -/
def understood (node : Node) : Understood Value := meaningAt node.height 0 node

/-- A node that aliases may refer to, understood unless it leads back into a collection
that is not complete. -/
def withMeaning (node : Node) : Node :=
  if node.hasReference then node else .shared node node.understood

/-- What the root of a document means. -/
def meaning (node : Node) : Except Fault Value := node.understood.mapError Prod.snd

end Node

end Accolade.Yaml
