import Accolade.Number.Shortest

/-!
# Doubles with a given number of digits

A double can be written with so many digits behind the point, with so many behind the first
one and a power of ten, or with so many digits that count, whichever of the two forms suits
its size. The digits are those of the exact value, rounded once; a tie goes to the even
digit.
-/

namespace Accolade.RoundedText

/-- Digits before and behind a point. The point stands alone where it is wanted anyway. -/
def withPoint (whole fraction : List Char) (keepsPoint : Bool) : List Char :=
  whole ++ (if fraction.isEmpty && !keepsPoint then [] else '.' :: fraction)

/-- The digits of a number, filled up with zeros to a width. -/
def digitsOfWidth (width number : Nat) : List Char :=
  let digits := Nat.toDigits 10 number
  List.replicate (width - digits.length) '0' ++ digits

/-- A quotient multiplied by a power of ten, rounded to an integer. -/
def scaled (value : Rat) (tens : Int) : Nat :=
  let power := Nat.pow 10 tens.natAbs
  if tens < 0 then roundedQuotient value.num.natAbs (value.den * power)
  else roundedQuotient (value.num.natAbs * power) value.den

/-- A magnitude with so many digits behind the point. -/
def fixed (value : Rat) (places : Nat) (keepsPoint : Bool) : List Char :=
  let digits := digitsOfWidth (places + 1) (scaled value places)
  withPoint (digits.take (digits.length - places)) (digits.drop (digits.length - places)) keepsPoint

/-- The digits of a magnitude, one and so many more, and the power of ten of the first. -/
def significant (value : Rat) (more : Nat) : List Char × Int :=
  if value.num = 0 then (List.replicate (more + 1) '0', 0)
  else
    let power := Double.pointPosition value.num.natAbs value.den - 1
    let digits := Nat.toDigits 10 (scaled value ((more : Int) - power))
    (digits.take (more + 1), if digits.length > more + 1 then power + 1 else power)

/-- A magnitude with one digit in front of the point, so many behind it, and a power. -/
def exponential (value : Rat) (places : Nat) (keepsPoint : Bool) : List Char :=
  let (digits, power) := significant value places
  withPoint (digits.take 1) (digits.drop 1) keepsPoint ++ 'e' :: (Double.exponentText power).toList

/-- Digits without the zeros at their end. -/
def withoutZeros (digits : List Char) : List Char :=
  (digits.reverse.dropWhile (· == '0')).reverse

/-- A magnitude with so many digits that count. Zeros at the end are left out, unless the
point is wanted anyway. -/
def general (value : Rat) (count : Nat) (keepsPoint : Bool) : List Char :=
  let count := max count 1
  let (digits, power) := significant value (count - 1)
  let trimmed (fraction : List Char) := if keepsPoint then fraction else withoutZeros fraction
  if -4 ≤ power ∧ power < count then
    let text := fixed value (count - 1 - power).toNat false
    withPoint (text.takeWhile (· != '.')) (trimmed ((text.dropWhile (· != '.')).drop 1)) keepsPoint
  else
    withPoint (digits.take 1) (trimmed (digits.drop 1)) keepsPoint ++
      'e' :: (Double.exponentText power).toList

end Accolade.RoundedText
