import Accolade.Number.Double

/-!
# Numbers in decimal notation

A number is written with digits, at most one point among or beside them, and perhaps a
power of ten; a sign may stand in front. Infinity and the value that is no number are
written by name, in any case.

An integer of more than 4300 digits is neither read from decimal digits nor written with
them. Other bases know no limit, so there are such integers all the same.
-/

namespace Accolade.DecimalText

/-- The most digits with which an integer is read or written; leading zeros count, the sign
does not. -/
def digitLimit : Nat := 4300

/-- Whether an integer has no more digits than can be written. -/
def isShort (value : Int) : Bool := (Nat.toDigits 10 value.natAbs).length ≤ digitLimit

theorem isShort_iff (value : Int) :
    isShort value = true ↔ value.natAbs < Nat.pow 10 digitLimit := by
  have some : 0 < digitLimit := by decide
  rw [isShort, decide_eq_true_eq]
  -- Left in place, the limit would have its power of ten worked out.
  generalize digitLimit = digits at some ⊢
  exact Nat.length_toDigits_le_iff (by decide) some

/-- The least number of more than some digits. -/
@[irreducible] def leastBeyond (digits : Nat) : Nat := Nat.pow 10 digits

theorem leastBeyond_eq (digits : Nat) : leastBeyond digits = Nat.pow 10 digits := by
  rw [leastBeyond]

@[simp] theorem isShort_leastBeyond : isShort (leastBeyond digitLimit) = false := by
  rw [← Bool.not_eq_true, isShort_iff, Int.natAbs_natCast]
  exact Nat.not_lt.mpr (Nat.le_of_eq (leastBeyond_eq digitLimit).symm)

/-- The text of an integer; one of too many digits has none. -/
def whole? (value : Int) : Option String := if isShort value then some (toString value) else none

/-- The number that seven-bit digits write. -/
def value (digits : List Char) : Nat :=
  digits.foldl (fun value c => value * 10 + (c.toNat - '0'.toNat)) 0

/-- A sign before a number: whether it is a minus, and the rest. -/
def readSign : List Char → Bool × List Char
  | '-' :: rest => (true, rest)
  | '+' :: rest => (false, rest)
  | rest => (false, rest)

/-- The letters of a word, in lower case. -/
def lowered (text : List Char) : List Char := text.map Char.toLower

/-- The double that digits with an optional fraction and power of ten write. -/
def unsigned? (negative : Bool) (text : List Char) : Option Double :=
  let whole := text.takeWhile Char.isDigit
  let rest := text.dropWhile Char.isDigit
  let (fraction, rest) := match rest with
    | '.' :: tail => (tail.takeWhile Char.isDigit, tail.dropWhile Char.isDigit)
    | tail => ([], tail)
  if whole.isEmpty && fraction.isEmpty then none
  else
    let number (tens : Int) : Double :=
      .ofDecimal negative (value (whole ++ fraction)) (tens - (fraction.length : Int))
    match rest with
    | [] => some (number 0)
    | mark :: tail =>
      let (down, digits) := readSign tail
      if mark.toLower = 'e' && !digits.isEmpty && digits.all Char.isDigit then
        let tens : Int := value digits
        some (number (if down then -tens else tens))
      else none

/-- The double that a text writes. -/
def double? (text : List Char) : Option Double :=
  let (negative, rest) := readSign text
  let word := String.ofList (lowered rest)
  if word == "inf" || word == "infinity" then some (.infinite negative)
  else if word == "nan" then some .undefined
  else unsigned? negative rest

end Accolade.DecimalText
