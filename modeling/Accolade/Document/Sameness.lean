import Accolade.Document.Value

/-!
# When two values are the same

Values are compared part by part: scalars by what they denote, lists item by item, and
mappings as sets of entries, whatever their order. Integers and doubles compare on their
exact values. Inside a value a boolean is the number it denotes, and a value that is no
number is the same wherever it has the same mark. References to enclosing collections are the
same when they lead back to the same kind of collection.

`Value.equals` compares two values as wholes: there a value that is no number equals
nothing. `Value.strictlySame` is the comparison of condition values. It refuses a boolean
beside anything but the same boolean, yet looks at the two values themselves only: their
parts are compared like all parts.
-/

namespace Accolade.Value

mutual

/-- Whether two values are the same, part by part. -/
def same : Value → Value → Bool
  | .scalar a, .scalar b => a.same b
  | .list xs, .list ys => sameItems xs ys
  | .mapping xs, .mapping ys => xs.length == ys.length && sameEntries xs ys
  | .pair a b, .pair c d => same a c && same b d
  | .set xs, .set ys => xs.length == ys.length && xs.all fun x => ys.any (x.same ·)
  | .enclosing a, .enclosing b => a == b
  | _, _ => false

/-- Whether two lists have the same items in the same order. -/
def sameItems : List Value → List Value → Bool
  | [], [] => true
  | x :: xs, y :: ys => same x y && sameItems xs ys
  | _, _ => false

/-- Whether every entry of the first mapping is found in the second. -/
def sameEntries : List (Scalar × Value) → List (Scalar × Value) → Bool
  | [], _ => true
  | (key, value) :: rest, other =>
    (match Entries.find? other key with
      | some found => same value found
      | none => false) && sameEntries rest other

end

/-- Whether two values are equal as wholes. -/
def equals (a b : Value) : Bool :=
  match a with
  | .scalar x => !x.isUndefined && same a b
  | _ => same a b

/-- Equality that takes a boolean for nothing but the same boolean. -/
def strictlySame : Value → Value → Bool
  | .boolean a, .boolean b => a == b
  | .boolean _, _ => false
  | _, .boolean _ => false
  | a, b => equals a b

end Accolade.Value

/-- Whether two mappings are the same. -/
def Accolade.Entries.same (a b : Accolade.Entries) : Bool :=
  Accolade.Value.same (.mapping a) (.mapping b)
