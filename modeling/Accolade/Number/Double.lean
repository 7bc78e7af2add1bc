/-!
# Double-precision numbers as exact values

A finite double is a sign, a significand and a power of two, so every comparison
is decided on the exact rational value and never through machine arithmetic.
Rounding goes the other way: `ofRatio` finds the nearest double of any quotient,
ties to the even significand. Sums and products are the exact result rounded once.

Zero keeps its sign as a representation, yet both zeros have the value zero. A value that
is no number has no place at all, and so equals nothing. It may carry a mark by which it is
known again: inside lists and as a key it counts as itself.
-/

namespace Accolade

/-- A number of double precision. Finite values are the significand times a power
of two; the rounding functions below keep the significand under 2 ^ 53. -/
inductive Double
  | notANumber (mark : Option Nat)
  | infinite (negative : Bool)
  | finite (negative : Bool) (significand : Nat) (exponent : Int)
  deriving DecidableEq, Repr, Inhabited

/-- Where a number stands on the line extended by its two infinite ends. -/
inductive Place
  | below
  | at (value : Rat)
  | above
  deriving DecidableEq, Repr

namespace Place

/-- The order of the extended line, strictly. -/
def less : Place → Place → Bool
  | .below, .below => false
  | .below, _ => true
  | .at _, .below => false
  | .at a, .at b => decide (a < b)
  | .at _, .above => true
  | .above, _ => false

end Place

/-- Two to an integral power, as an exact rational. -/
def twoPower (exponent : Int) : Rat :=
  if exponent < 0 then mkRat 1 (Nat.pow 2 exponent.natAbs)
  else mkRat (Nat.pow 2 exponent.natAbs) 1

/-- The quotient rounded to the nearest integer, a tie to the even one. -/
def roundedQuotient (dividend divisor : Nat) : Nat :=
  let quotient := dividend / divisor
  let remainder := dividend % divisor
  if 2 * remainder < divisor then quotient
  else if divisor < 2 * remainder then quotient + 1
  else quotient + quotient % 2

namespace Double

/-- The outcome of arithmetic that has none. It is known from nowhere. -/
def undefined : Double := .notANumber none

/-- Positive zero. -/
def zero : Double := .finite false 0 0

/-- The quotient in units of a power of two, rounded to the nearest integer. -/
def roundedUnits (dividend divisor : Nat) (exponent : Int) : Nat :=
  if exponent < 0 then roundedQuotient (dividend * Nat.pow 2 exponent.natAbs) divisor
  else roundedQuotient dividend (divisor * Nat.pow 2 exponent.natAbs)

/-- The power of two in whose units a positive quotient has 53 binary digits,
raised to the smallest unit that doubles have. -/
def unitExponent (dividend divisor : Nat) : Int :=
  let guess : Int := (Nat.log2 dividend : Int) - (Nat.log2 divisor : Int) - 52
  let short : Bool :=
    if guess < 0 then decide (dividend * Nat.pow 2 guess.natAbs < divisor * Nat.pow 2 52)
    else decide (dividend < divisor * Nat.pow 2 guess.natAbs * Nat.pow 2 52)
  max (if short then guess - 1 else guess) (-1074)

/-- The double nearest to a quotient, with the given sign; a tie goes to the even
significand, and a quotient beyond the largest double becomes infinite. -/
def ofRatio (negative : Bool) (dividend divisor : Nat) : Double :=
  if dividend = 0 then .finite negative 0 0
  else
    let exponent := unitExponent dividend divisor
    let units := roundedUnits dividend divisor exponent
    if units = 0 then .finite negative 0 0
    else if units = Nat.pow 2 53 then
      if exponent + 1 > 971 then .infinite negative
      else .finite negative (Nat.pow 2 52) (exponent + 1)
    else if exponent > 971 then .infinite negative
    else .finite negative units exponent

/-- The double nearest to a rational. An exact zero is positive. -/
def ofRat (value : Rat) : Double :=
  ofRatio (decide (value < 0)) value.num.natAbs value.den

/-- The double nearest to an integer. -/
def ofInt (value : Int) : Double :=
  ofRatio (decide (value < 0)) value.natAbs 1

/-- The double nearest to `digits` times a power of ten. Exponents far outside the
range of doubles are answered without forming the power. -/
def ofDecimal (negative : Bool) (digits : Nat) (tens : Int) : Double :=
  if digits = 0 then .finite negative 0 0
  else
    let magnitude : Int := tens + ((Nat.toDigits 10 digits).length : Int)
    if magnitude > 400 then .infinite negative
    else if magnitude < -400 then .finite negative 0 0
    else if tens < 0 then ofRatio negative digits (Nat.pow 10 tens.natAbs)
    else ofRatio negative (digits * Nat.pow 10 tens.natAbs) 1

/-- Whether the sign is set, which zero and infinity have too. -/
def isNegative : Double → Bool
  | .notANumber _ => false
  | .infinite negative => negative
  | .finite negative _ _ => negative

def isFinite : Double → Bool
  | .finite _ _ _ => true
  | _ => false

/-- The exact value of a finite double. -/
def finiteValue? : Double → Option Rat
  | .finite negative significand exponent =>
    let magnitude := (significand : Rat) * twoPower exponent
    some (if negative then -magnitude else magnitude)
  | _ => none

/-- The place on the extended line; a value that is no number has none. -/
def place? : Double → Option Place
  | .notANumber _ => none
  | .infinite negative => some (if negative then .below else .above)
  | .finite negative significand exponent =>
    let magnitude := (significand : Rat) * twoPower exponent
    some (.at (if negative then -magnitude else magnitude))

/-- Strict order; false as soon as one side is no number. -/
def less (a b : Double) : Bool :=
  match a.place?, b.place? with
  | some p, some q => p.less q
  | _, _ => false

def isZero : Double → Bool
  | .finite _ significand _ => significand == 0
  | _ => false

def negate : Double → Double
  | .notANumber _ => undefined
  | .infinite negative => .infinite (!negative)
  | .finite negative significand exponent => .finite (!negative) significand exponent

/-- The sum, rounded once. Two negative zeros add up to a negative zero, and ends
of opposite sign to no number. -/
def add : Double → Double → Double
  | .notANumber _, _ => undefined
  | _, .notANumber _ => undefined
  | .infinite a, .infinite b => if a = b then .infinite a else undefined
  | .infinite a, _ => .infinite a
  | _, .infinite b => .infinite b
  | .finite a m e, .finite b n f =>
    if m = 0 ∧ n = 0 then .finite (a && b) 0 0
    else
      match (Double.finite a m e).finiteValue?, (Double.finite b n f).finiteValue? with
      | some x, some y => ofRat (x + y)
      | _, _ => undefined

/-- The product, rounded once. -/
def multiply : Double → Double → Double
  | .notANumber _, _ => undefined
  | _, .notANumber _ => undefined
  | .infinite a, y => if y.isZero then undefined else .infinite (a != y.isNegative)
  | x, .infinite b => if x.isZero then undefined else .infinite (x.isNegative != b)
  | .finite a m e, .finite b n f =>
    let value := (m : Rat) * twoPower e * ((n : Rat) * twoPower f)
    ofRatio (a != b) value.num.natAbs value.den

/-- The second number when it is less, else the first. -/
def smaller (a b : Double) : Double := if b.less a then b else a

/-- The second number when it is greater, else the first. -/
def larger (a b : Double) : Double := if a.less b then b else a

/-- Two to an integral power; a power too small for a double is zero. -/
def powerOfTwo (exponent : Int) : Double :=
  if exponent < -1100 then zero
  else if exponent > 1100 then .infinite false
  else if exponent < 0 then ofRatio false 1 (Nat.pow 2 exponent.natAbs)
  else ofRatio false (Nat.pow 2 exponent.natAbs) 1

/-- The integer that a double without fractional part is. -/
def integral? (x : Double) : Option Int :=
  match x.finiteValue? with
  | some value => if value.den = 1 then some value.num else none
  | none => none

end Double

end Accolade
