import Accolade.Failure
import Accolade.Document.Sameness

/-!
# Amount tests

An amount test compares an observed amount with a whole threshold. Rules write it as a
number, meaning "at least", or as a comparison sign before a number.

Amounts come from fact stores and are dynamic: two values can always be told equal or
different, but only numbers can be ordered.
-/

namespace Accolade

/-- The comparisons an amount test can make. -/
inductive Comparison
  | equal | different | greater | less | greaterOrEqual | lessOrEqual
  deriving DecidableEq, Repr

namespace Comparison

/-- The written sign of a comparison. -/
def sign : Comparison → String
  | .equal => "=="
  | .different => "!="
  | .greater => ">"
  | .less => "<"
  | .greaterOrEqual => ">="
  | .lessOrEqual => "<="

/-- All comparisons, in the order in which messages list them. -/
def all : List Comparison :=
  [.equal, .different, .greater, .less, .greaterOrEqual, .lessOrEqual]

/-- Whether places on the line stand in this order. -/
def holds (comparison : Comparison) (observed threshold : Place) : Bool :=
  match comparison with
  | .equal => observed == threshold
  | .different => observed != threshold
  | .greater => threshold.less observed
  | .less => observed.less threshold
  | .greaterOrEqual => threshold.less observed || observed == threshold
  | .lessOrEqual => observed.less threshold || observed == threshold

end Comparison

/-- A comparison with a threshold. -/
structure AmountTest where
  comparison : Comparison
  threshold : Int
  deriving DecidableEq, Repr

namespace AmountTest

/-- The test that a plain number stands for. -/
def atLeast (threshold : Int) : AmountTest := ⟨.greaterOrEqual, threshold⟩

/-- The written form: the sign, a space and the threshold, however long it is. -/
def text (test : AmountTest) : String :=
  test.comparison.sign ++ " " ++ toString test.threshold

/-- The written form, where the threshold can be written. -/
def text? (test : AmountTest) : Option String :=
  if DecimalText.isShort test.threshold then some test.text else none

/-- Whether a number passes the test. -/
def holdsAt (test : AmountTest) (observed : Int) : Bool :=
  test.comparison.holds (.at observed) (.at test.threshold)

/-- The test on an amount as a store holds it. Equality is decided for every value, order
for numbers only; a number that is no number is ordered with nothing. -/
def holds (test : AmountTest) (observed : Value) : Except Failure Bool :=
  match test.comparison with
  | .equal => .ok (observed.equals (.integer test.threshold))
  | .different => .ok (!observed.equals (.integer test.threshold))
  | comparison =>
    match observed with
    | .scalar amount =>
      if amount.isNumber then
        match amount.place? with
        | some place => .ok (comparison.holds place (.at test.threshold))
        | none => .ok false
      else .error (.unordered amount.kind .integer)
    | _ => .error (.unordered observed.kind .integer)

end AmountTest

/-- Amounts as stores add them up: numbers are added, texts and lists put together. -/
def addedAmounts : Value → Value → Except Failure Value
  | .text a, .text b => .ok (.text (a ++ b))
  | .list xs, .list ys => .ok (.list (xs ++ ys))
  | .scalar a, .scalar b =>
    match a, b with
    | .integer x, .integer y => .ok (.integer (x + y))
    | _, _ =>
      if a.isNumber && b.isNumber then
        match a, b with
        | .double x, .double y => .ok (.double (x.add y))
        | .double x, other => (.double ∘ x.add) <$> asDouble other
        | other, .double y => (fun x => .double (x.add y)) <$> asDouble other
        | x, y => .ok (.integer (asInteger x + asInteger y))
      else .error (.unaddable a.kind b.kind)
  | a, b => .error (.unaddable a.kind b.kind)
where
  /-- The integer that a boolean or an integer is. -/
  asInteger : Scalar → Int
    | .boolean value => if value then 1 else 0
    | .integer value => value
    | _ => 0
  /-- The integer as a double, if it is within range. -/
  asDouble (value : Scalar) : Except Failure Double :=
    let rounded := Double.ofInt (asInteger value)
    if rounded.isFinite then .ok rounded else .error .overflow

/-- The sum of amounts, starting from zero. -/
def totalAmount (amounts : List Value) : Except Failure Value :=
  amounts.foldlM addedAmounts (.integer 0)

end Accolade
