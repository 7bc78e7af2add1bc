import Accolade.Document.Value

/-!
# Keys in order

Keys have an order only among their like: numbers by value, texts by code point, bytes one
by one. Null is like nothing.

Keys are sorted by insertion. The keys at the front that rise, or else fall, are taken over
together; each later key is compared with the middle of those already in order, then with
the middle of one half, until its place is found. The first two keys that are compared and
are not alike end the sorting, so the way of comparing decides which two kinds are named.
-/

namespace Accolade

namespace Scalar

/-- Whether two keys can be compared. -/
def isLike : Scalar → Scalar → Bool
  | .text _, .text _ => true
  | .bytes _, .bytes _ => true
  | a, b => a.isNumber && b.isNumber

/-- Strict order of two keys that can be compared. -/
def less : Scalar → Scalar → Bool
  | .text a, .text b => decide (a < b)
  | .bytes a, .bytes b => decide (a < b)
  | a, b =>
    match a.place?, b.place? with
    | some p, some q => p.less q
    | _, _ => false

/-- Whether a key stands before another, or the kinds of two keys that are not alike. -/
def precedes (a b : Scalar) : Except (Kind × Kind) Bool :=
  if a.isLike b then .ok (a.less b) else .error (a.kind, b.kind)

end Scalar

/-- How many keys at the front go on in one direction from the key before them: falling,
or not falling. -/
def runLength (falling : Bool) (before : Scalar) : List Scalar → Except (Kind × Kind) Nat
  | [] => .ok 0
  | key :: rest => do
    if (← key.precedes before) == falling then return (← runLength falling key rest) + 1
    else return 0

/-- The keys at the front that rise or fall, in rising order, and the keys behind them. -/
def firstRun : List Scalar → Except (Kind × Kind) (List Scalar × List Scalar)
  | a :: b :: rest => do
    let falling ← b.precedes a
    let count := (← runLength falling b rest) + 2
    let run := (a :: b :: rest).take count
    return (if falling then run.reverse else run, (a :: b :: rest).drop count)
  | keys => .ok (keys, [])

/-- The place of a key among keys in order, between two bounds. It is found by halving. -/
def insertionPlace (key : Scalar) (keys : List Scalar) (low high : Nat) :
    Except (Kind × Kind) Nat :=
  if low < high then
    let middle := low + (high - low) / 2
    match keys[middle]? with
    | some other =>
      match key.precedes other with
      | .ok true => insertionPlace key keys low middle
      | .ok false => insertionPlace key keys (middle + 1) high
      | .error kinds => .error kinds
    | none => .ok low
  else .ok low
termination_by high - low

/-- Keys in order with one more key. -/
def withKey (keys : List Scalar) (key : Scalar) : Except (Kind × Kind) (List Scalar) := do
  let place ← insertionPlace key keys 0 keys.length
  return keys.take place ++ key :: keys.drop place

/-- The keys in increasing order, or the two kinds that have none. -/
def sortedKeys (keys : List Scalar) : Except (Kind × Kind) (List Scalar) := do
  let (run, rest) ← firstRun keys
  rest.foldlM withKey run

end Accolade
