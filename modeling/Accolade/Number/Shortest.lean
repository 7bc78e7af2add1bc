import Accolade.Number.Double

/-!
# The shortest decimal that reads back

A double is written with the fewest significant digits whose nearest double is the
number itself. Of two candidates on the same decimal grid the nearer one is taken.
The search needs only the two grid neighbours of the value for one to seventeen
digits, each tested in exact arithmetic against the interval that rounds to it.

`Double.text` is the written form: positional while the decimal point stays within
sixteen digits or four leading zeros, else with a signed exponent of two digits or
more. A number without a fraction keeps `.0`, so it never reads as an integer.
-/

namespace Accolade

namespace Double

/-- How many decimal digits a number has; zero has one. -/
def decimalLength (n : Nat) : Nat := (Nat.toDigits 10 n).length

/-- The position of the decimal point of a positive quotient: the exponent `k`
with the quotient at least `10 ^ (k - 1)` and below `10 ^ k`. -/
def pointPosition (dividend divisor : Nat) : Int :=
  if divisor ≤ dividend then decimalLength (dividend / divisor)
  else
    let reciprocal := (divisor + dividend - 1) / dividend
    1 - (decimalLength (reciprocal - 1) : Int)

/-- The interval of values that round to a double, as bounds in quarters of its
last place. The lower side of a power of two is half as wide. -/
def roundingBounds (significand : Nat) (exponent : Int) : Nat × Nat :=
  if significand = Nat.pow 2 52 ∧ exponent > -1074 then (4 * significand - 1, 4 * significand + 2)
  else (4 * significand - 2, 4 * significand + 2)

/-- A decimal: the digits as a number, and the power of ten they are multiplied by. -/
structure Decimal where
  digits : Nat
  tens : Int
  deriving DecidableEq, Repr

/-- The decimal on the grid of `count` digits that reads back, if there is one. -/
def onGrid? (significand : Nat) (exponent : Int) (point : Int) (count : Nat) : Option Decimal :=
  let tens : Int := point - (count : Int)
  -- every quantity below is multiplied by the same power of two and of ten
  let quarter : Int := exponent - 2
  let twosUp := if quarter < 0 then 1 else Nat.pow 2 quarter.natAbs
  let twosDown := if quarter < 0 then Nat.pow 2 quarter.natAbs else 1
  let tensUp := if tens < 0 then 1 else Nat.pow 10 tens.natAbs
  let tensDown := if tens < 0 then Nat.pow 10 tens.natAbs else 1
  let scale (quarters : Nat) : Nat := quarters * twosUp * tensDown
  let step := tensUp * twosDown
  let value := scale (4 * significand)
  let (low, high) := roundingBounds significand exponent
  let inside (candidate : Nat) : Bool :=
    let position := candidate * step
    if significand % 2 = 0 then decide (scale low ≤ position ∧ position ≤ scale high)
    else decide (scale low < position ∧ position < scale high)
  let lower := value / step
  let upper := lower + 1
  match inside lower, inside upper with
  | false, false => none
  | true, false => some ⟨lower, tens⟩
  | false, true => some ⟨upper, tens⟩
  | true, true =>
    let below := value - lower * step
    let above := upper * step - value
    if below < above then some ⟨lower, tens⟩
    else if above < below then some ⟨upper, tens⟩
    else some ⟨lower + lower % 2, tens⟩

/-- The first grid with a decimal that reads back; seventeen digits always do. -/
def shortestFrom (significand : Nat) (exponent : Int) (point : Int) : Nat → Nat → Decimal
  | 0, count => ⟨significand, (count : Int)⟩
  | fuel + 1, count =>
    match onGrid? significand exponent point count with
    | some decimal => decimal
    | none => shortestFrom significand exponent point fuel (count + 1)

/-- The shortest decimal of a positive finite double. -/
def shortest (significand : Nat) (exponent : Int) : Decimal :=
  let point :=
    if exponent < 0 then pointPosition significand (Nat.pow 2 exponent.natAbs)
    else pointPosition (significand * Nat.pow 2 exponent.natAbs) 1
  shortestFrom significand exponent point 17 1

/-- Digits without the zeros at their end. -/
def significantDigits (digits : Nat) : List Char :=
  ((Nat.toDigits 10 digits).reverse.dropWhile (· == '0')).reverse

/-- The exponent, signed and of at least two digits. -/
def exponentText (exponent : Int) : String :=
  let digits := toString exponent.natAbs
  (if exponent < 0 then "-" else "+") ++ (if digits.length < 2 then "0" ++ digits else digits)

/-- The written form of a decimal. -/
def Decimal.text (decimal : Decimal) : String :=
  let all := Nat.toDigits 10 decimal.digits
  let point : Int := (all.length : Int) + decimal.tens
  let digits := significantDigits decimal.digits
  if point > 16 ∨ point ≤ -4 then
    let tail := digits.drop 1
    let mantissa := digits.take 1 ++ (if tail.isEmpty then [] else '.' :: tail)
    String.ofList mantissa ++ "e" ++ exponentText (point - 1)
  else if point ≤ 0 then
    "0." ++ String.ofList (List.replicate point.natAbs '0' ++ digits)
  else
    let whole := digits.take point.toNat
    let padding := List.replicate (point.toNat - whole.length) '0'
    let fraction := digits.drop point.toNat
    String.ofList (whole ++ padding) ++ "." ++
      (if fraction.isEmpty then "0" else String.ofList fraction)

/-- The written form of a double. -/
def text : Double → String
  | .notANumber _ => "nan"
  | .infinite negative => if negative then "-inf" else "inf"
  | .finite negative significand exponent =>
    let magnitude := if significand = 0 then "0.0" else (shortest significand exponent).text
    if negative then "-" ++ magnitude else magnitude

end Double

end Accolade
