import Accolade.Number.Double

/-!
# Document values

Rule definitions, fact amounts, scope values and event payloads are all values of one
dynamic type, as a document format delivers them: scalars, lists and mappings, and more
rarely pairs and sets. Mapping keys and the members of sets are scalars. A mapping is its
entries in the order in which they were written; the operations below keep one entry for
each key, where two keys are one as soon as they denote the same thing (`1`, `1.0` and
`true` are one key).

What a scalar denotes is nothing, a text, bytes, or a place on the number line. Booleans
denote zero and one. A value that is no number denotes its mark; without a mark it denotes
nothing at all and is no key found again, not even by itself.

A document may refer to a collection from inside that collection. Such a reference is a
value of its own, which knows no more than what it leads back to.
-/

namespace Accolade

/-- The kinds of value that messages tell apart. -/
inductive Kind
  | null | boolean | integer | double | text | bytes | list | mapping | pair | set
  deriving DecidableEq, Repr

/-- The name of a kind in messages. -/
def Kind.name : Kind → String
  | .null => "NoneType"
  | .boolean => "bool"
  | .integer => "int"
  | .double => "float"
  | .text => "str"
  | .bytes => "bytes"
  | .list => "list"
  | .mapping => "dict"
  | .pair => "tuple"
  | .set => "set"

/-- A value without parts, which may also be the key of a mapping. -/
inductive Scalar
  | null
  | boolean (value : Bool)
  | integer (value : Int)
  | double (value : Double)
  | text (value : String)
  | bytes (value : List UInt8)
  deriving DecidableEq, Repr, Inhabited

/-- A document value. -/
inductive Value
  | scalar (value : Scalar)
  | list (items : List Value)
  | mapping (entries : List (Scalar × Value))
  /-- an entry of an ordered list of pairs -/
  | pair (first second : Value)
  | set (members : List Scalar)
  /-- a reference to a collection of this kind, from inside it -/
  | enclosing (kind : Kind)
  deriving Repr, Inhabited

/-- The entries of a mapping, in written order. -/
abbrev Entries := List (Scalar × Value)

/-- What a scalar stands for when it is compared. -/
inductive Denotation
  | nothing
  | text (value : String)
  | bytes (value : List UInt8)
  | number (place : Place)
  | undefined (mark : Nat)
  deriving DecidableEq, Repr

namespace Scalar

def kind : Scalar → Kind
  | .null => .null
  | .boolean _ => .boolean
  | .integer _ => .integer
  | .double _ => .double
  | .text _ => .text
  | .bytes _ => .bytes

/-- The place of a number; booleans are the numbers zero and one. -/
def place? : Scalar → Option Place
  | .boolean value => some (.at (if value then 1 else 0))
  | .integer value => some (.at value)
  | .double value => value.place?
  | _ => none

/-- Whether a scalar may be ordered and added as a number. -/
def isNumber : Scalar → Bool
  | .boolean _ | .integer _ | .double _ => true
  | _ => false

/-- What a scalar denotes; only an unmarked value that is no number denotes nothing. -/
def denotation? : Scalar → Option Denotation
  | .null => some .nothing
  | .text value => some (.text value)
  | .bytes value => some (.bytes value)
  | .double (.notANumber mark) => mark.map .undefined
  | .boolean value => some (.number (.at (if value then 1 else 0)))
  | .integer value => some (.number (.at value))
  | .double value => value.place?.map .number

/-- Two scalars are the same when they denote the same: so are keys and the parts of values
compared. -/
def same (a b : Scalar) : Bool :=
  match a.denotation?, b.denotation? with
  | some x, some y => x == y
  | _, _ => false

/-- Whether a scalar is a number with no place. -/
def isUndefined : Scalar → Bool
  | .double (.notANumber _) => true
  | _ => false

/-- Whether a scalar counts as true: neither null, false, zero nor empty. -/
def isTruthy : Scalar → Bool
  | .null => false
  | .boolean value => value
  | .integer value => value != 0
  | .double value => !value.isZero
  | .text value => !value.isEmpty
  | .bytes value => !value.isEmpty

end Scalar

namespace Value

@[match_pattern] abbrev null : Value := .scalar .null
@[match_pattern] abbrev boolean (value : Bool) : Value := .scalar (.boolean value)
@[match_pattern] abbrev integer (value : Int) : Value := .scalar (.integer value)
@[match_pattern] abbrev double (value : Double) : Value := .scalar (.double value)
@[match_pattern] abbrev text (value : String) : Value := .scalar (.text value)

def kind : Value → Kind
  | .scalar value => value.kind
  | .list _ => .list
  | .mapping _ => .mapping
  | .pair _ _ => .pair
  | .set _ => .set
  | .enclosing kind => kind

/-- Whether a value counts as true: neither null, false, zero nor empty. -/
def isTruthy : Value → Bool
  | .scalar value => value.isTruthy
  | .list items => !items.isEmpty
  | .mapping entries => !entries.isEmpty
  | .set members => !members.isEmpty
  | .pair _ _ | .enclosing _ => true

/-- The set of some members, each of them once. -/
def setOf (members : List Scalar) : Value :=
  .set (members.foldl (fun set member =>
    if set.any (member.same ·) then set else set ++ [member]) [])

/-- A list of texts as a value. -/
def texts (items : List String) : Value := .list (items.map .text)

end Value

namespace Entries

/-- The value stored under a key. -/
def find? (entries : Entries) (key : Scalar) : Option Value :=
  match entries with
  | [] => none
  | (k, v) :: rest => if k.same key then some v else find? rest key

/-- The value stored under a textual key. -/
def field? (entries : Entries) (name : String) : Option Value := find? entries (.text name)

/-- Whether there is an entry under a key. -/
def has (entries : Entries) (key : Scalar) : Bool := (find? entries key).isSome

/-- Whether there is an entry under a textual key. -/
def hasField (entries : Entries) (name : String) : Bool := has entries (.text name)

/-- The keys in written order. -/
def keys (entries : Entries) : List Scalar := entries.map Prod.fst

/-- Store a value under a key: in place and under the key already there, else at the end. -/
def put (entries : Entries) (key : Scalar) (value : Value) : Entries :=
  match entries with
  | [] => [(key, value)]
  | (k, v) :: rest => if k.same key then (k, value) :: rest else (k, v) :: put rest key value

/-- Store a value under a textual key. -/
def putField (entries : Entries) (name : String) (value : Value) : Entries :=
  put entries (.text name) value

/-- Store a value under a textual key unless there is one. -/
def putFieldIfAbsent (entries : Entries) (name : String) (value : Value) : Entries :=
  if hasField entries name then entries else putField entries name value

/-- Store all entries of a second mapping into the first. -/
def merge (entries additions : Entries) : Entries :=
  additions.foldl (fun result (key, value) => put result key value) entries

/-- The mapping written as these pairs: one entry for each key, the first key with the
last value. -/
def ofPairs (pairs : List (Scalar × Value)) : Entries := merge [] pairs

/-- The keys other than the given textual ones. -/
def keysBeyond (entries : Entries) (allowed : List String) : List Scalar :=
  (keys entries).filter fun key => !allowed.any fun name => key.same (.text name)

end Entries

/-- Named values, as the details of a diagnosis hold them. -/
abbrev Fields := List (String × Value)

/-- Named values as a mapping. -/
def Fields.toValue (fields : Fields) : Value :=
  .mapping (fields.map fun (name, value) => (.text name, value))

end Accolade
