import Mathlib.Data.Nat.Digits.Lemmas
import Accolade.Proofs.Rule.AmountSpelling

/-!
# Amount tests in writing

A text is read as an amount test exactly when it spells that test in no more digits than are read,
from whatever script they are. Two spellings of one text spell the same test.

An amount test is written as a plain number if it asks for at least that number, and otherwise as
its text. Both are read back as the same test, unless the text has more digits than are read. No
test but these is ever read: a comparison other than "at least" has a threshold of at most so many
digits.
-/

namespace Accolade

namespace Text

/-- A decimal digit of any script is worth less than ten. -/
theorem digitValue?_lt {c : Char} {value : Nat} (known : digitValue? c = some value) :
    value < 10 := by
  unfold digitValue? at known
  split at known
  · split at known
    · rename_i digit
      cases known
      simp only [Char.isDigit, Bool.and_eq_true, decide_eq_true_eq] at digit
      have bound : c.toNat ≤ 57 := digit.2
      omega
    · contradiction
  · obtain ⟨start, found, rfl⟩ := Option.map_eq_some_iff.mp known
    have within := List.find?_some found
    simp only [Bool.and_eq_true, decide_eq_true_eq] at within
    omega

/-- The number that digits write is less than ten to the power of how many there are. -/
theorem digitsValue_lt (digits : List Char) : digitsValue digits < 10 ^ digits.length := by
  have small : ∀ digit ∈ digits.reverse.map worth, digit < 10 := by
    intro digit member
    obtain ⟨c, _, rfl⟩ := List.mem_map.mp member
    unfold worth
    cases known : digitValue? c with
    | none => decide
    | some value => exact digitValue?_lt known
  have bound := Nat.ofDigits_lt_base_pow_length (by decide) small
  rw [digitsValue_eq]
  simpa using bound

/-- A seven-bit digit is worth its distance from zero. -/
theorem digitValue?_of_isDigit {c : Char} (digit : c.isDigit = true) :
    digitValue? c = some (c.toNat - '0'.toNat) := by
  have bound : c.toNat < 0x80 := by
    simp only [Char.isDigit, Bool.and_eq_true, decide_eq_true_eq] at digit
    have : c.toNat ≤ 57 := digit.2
    omega
  simp only [digitValue?, bound, digit, if_true]
  rfl

/-- The decimal digits of a number are read as that number. -/
theorem digitsValue_toDigits (number : Nat) : digitsValue (Nat.toDigits 10 number) = number := by
  have same : ∀ digits : List Char, (∀ c ∈ digits, c.isDigit = true) → ∀ start : Nat,
      digits.foldl (fun value c => value * 10 + (digitValue? c).getD 0) start =
        Nat.ofDigitChars 10 digits start := by
    intro digits
    induction digits with
    | nil => exact fun _ _ => rfl
    | cons c rest inductionHypothesis =>
      intro all start
      obtain ⟨digit, further⟩ := List.forall_mem_cons.mp all
      rw [Nat.ofDigitChars_cons, List.foldl_cons, inductionHypothesis further,
        digitValue?_of_isDigit digit, Nat.mul_comm]
      rfl
  unfold digitsValue
  rw [same _ (fun c member => Nat.isDigit_of_mem_toDigits (by decide) (by decide) member)]
  exact Nat.ofDigitChars_ten_toDigits

end Text

open DecimalText (digitLimit)

namespace AmountTest

/-- Whether an amount test can be written: it asks for at least a number, or its threshold has no
more digits than are read. -/
def IsWritable (test : AmountTest) : Prop :=
  test.comparison = .greaterOrEqual ∨ test.threshold.natAbs < 10 ^ digitLimit

/-- The definition of an amount test: a plain number for "at least", its text otherwise. -/
def definition (test : AmountTest) : Value :=
  if test.comparison = .greaterOrEqual then .integer test.threshold else .text test.text

/-- A number is written as its digits, behind a minus if it is negative. -/
theorem toList_toString (number : Int) :
    (toString number).toList =
      (if number < 0 then ['-'] else []) ++ Nat.toDigits 10 number.natAbs := by
  rw [Int.toString_eq_repr, Int.repr_eq_if]
  by_cases negative : number < 0
  · have magnitude : (-number).toNat = number.natAbs := by omega
    rw [if_neg (by omega), if_pos negative, magnitude, String.toList_append, Nat.toList_repr]
    rfl
  · have magnitude : number.toNat = number.natAbs := by omega
    rw [if_pos (by omega), if_neg negative, magnitude, Nat.toList_repr]
    rfl

/-- The number that a spelling spells is the one that its sign and digits are read as. -/
theorem Spelling.threshold_eq (spelling : Spelling) :
    spelling.threshold = signedValue spelling.sign.isMinus spelling.digits := by
  rw [threshold, signedValue, Text.digitsValue_eq]

/-- The threshold of a spelling has no more digits than the spelling has. -/
theorem Spelling.threshold_lt (spelling : Spelling) :
    spelling.threshold.natAbs < 10 ^ spelling.digits.length := by
  have magnitude : spelling.threshold.natAbs = Text.digitsValue spelling.digits := by
    rw [spelling.threshold_eq, signedValue]
    split <;> omega
  rw [magnitude]
  exact Text.digitsValue_lt spelling.digits

/-- A text is read as what it spells in no more digits than are read, and else not at all. -/
theorem read_text_ok_iff {text : String} {test : AmountTest} :
    read (.text text) = .ok test ↔
      ∃ spelling : Spelling, spelling.text = text.toList ∧
        spelling.digits.length ≤ digitLimit ∧ spelling.test = test := by
  rw [read, readText]
  constructor
  · intro reads
    split at reads
    · contradiction
    · rename_i comparison negative digits splits
      split at reads
      · contradiction
      · rename_i short
        obtain ⟨spelling, spelt, rfl, rfl, rfl⟩ := Spelling.exists_of_split? splits
        refine ⟨spelling, spelt, Nat.le_of_not_lt short, ?_⟩
        rw [Spelling.test, spelling.threshold_eq]
        exact Except.ok.inj reads
  · rintro ⟨spelling, spelt, short, rfl⟩
    simp only [← spelt, spelling.split?_text, Nat.not_lt.mpr short, if_false, Spelling.test,
      spelling.threshold_eq]

/-- The spelling of a test by its text: a space behind the comparison, a sign only before a negative
number, and seven-bit digits. -/
def spelling (test : AmountTest) : Spelling where
  before := []
  comparison := test.comparison
  between := [' ']
  sign := if test.threshold < 0 then .minus else .none
  digits := Nat.toDigits 10 test.threshold.natAbs
  after := []
  before_blank := by simp
  between_blank := by simp [Text.isBlank]
  after_blank := by simp
  digits_decimal := by
    intro c member
    have digit : c.isDigit = true := Nat.isDigit_of_mem_toDigits (by decide) (by decide) member
    simp [Text.isDecimalDigit, Text.digitValue?_of_isDigit digit]
  digits_present := Nat.toDigits_ne_nil

/-- The spelling of a test spells the text in which the test is written. -/
theorem spelling_text (test : AmountTest) : test.spelling.text = test.text.toList := by
  rw [text, String.toList_append, String.toList_append, toList_toString, List.append_assoc]
  by_cases negative : test.threshold < 0 <;>
    simp [Spelling.text, Spelling.number, spelling, negative, NumberSign.text]

/-- The spelling of a test spells that very test: what is written is read back. -/
theorem spelling_test (test : AmountTest) : test.spelling.test = test := by
  obtain ⟨comparison, threshold⟩ := test
  have value : (spelling ⟨comparison, threshold⟩).threshold = threshold := by
    have magnitude : signedValue (decide (threshold < 0)) (Nat.toDigits 10 threshold.natAbs) =
        threshold := by
      simp only [signedValue, Text.digitsValue_toDigits, decide_eq_true_eq]
      split <;> omega
    have sign : (spelling ⟨comparison, threshold⟩).sign.isMinus = decide (threshold < 0) := by
      by_cases negative : threshold < 0 <;> simp [spelling, negative, NumberSign.isMinus]
    rw [Spelling.threshold_eq, sign]
    exact magnitude
  rw [Spelling.test, value]
  rfl

/-- A test is read from its text if its threshold has no more digits than are read. -/
theorem read_text {test : AmountTest} (short : test.threshold.natAbs < 10 ^ digitLimit) :
    read (.text test.text) = .ok test :=
  read_text_ok_iff.mpr ⟨test.spelling, test.spelling_text,
    (Nat.length_toDigits_le_iff (by decide) (by decide)).mpr short, test.spelling_test⟩

/-- A test that can be written is read from its definition. -/
theorem read_definition {test : AmountTest} (writable : test.IsWritable) :
    read test.definition = .ok test := by
  unfold definition
  split
  · rename_i least
    rw [read, atLeast, ← least]
  · rename_i other
    exact read_text (writable.resolve_left other)

/-- Every test that is read can be written. -/
theorem isWritable_of_read {definition : Value} {test : AmountTest}
    (reads : read definition = .ok test) : test.IsWritable := by
  unfold read at reads
  split at reads
  · contradiction
  · cases reads
    exact .inl rfl
  · rename_i written
    have spelt : read (.text written) = .ok test := reads
    obtain ⟨spelling, -, short, rfl⟩ := read_text_ok_iff.mp spelt
    exact .inr (Nat.lt_of_lt_of_le spelling.threshold_lt (Nat.pow_le_pow_right (by decide) short))
  · contradiction

/-- A text is read as an amount test exactly when it spells that test in no more digits than are
read, and it spells one test at most. So a test with no longer a threshold is read back from its
text, and a plain number that is no longer means what it means behind the sign of "at least". -/
theorem read_spellings :
    (∀ (text : String) (test : AmountTest), read (.text text) = .ok test ↔
      ∃ spelling : Spelling, spelling.text = text.toList ∧
        spelling.digits.length ≤ digitLimit ∧ spelling.test = test) ∧
    (∀ first second : Spelling, first.text = second.text → first.test = second.test) ∧
    (∀ test : AmountTest, test.threshold.natAbs < 10 ^ digitLimit →
      read (.text test.text) = .ok test) ∧
    ∀ threshold : Int, threshold.natAbs < 10 ^ digitLimit →
      read (.integer threshold) = read (.text (">= " ++ toString threshold)) := by
  refine ⟨fun text test => read_text_ok_iff, ?_, fun test => read_text, ?_⟩
  · intro first second same
    have parts := first.split?_text
    rw [same, second.split?_text] at parts
    obtain ⟨compared, signed, written⟩ : second.comparison = first.comparison ∧
        second.sign.isMinus = first.sign.isMinus ∧ second.digits = first.digits := by
      simpa using parts
    rw [Spelling.test, Spelling.test, first.threshold_eq, second.threshold_eq, compared, signed,
      written]
  · intro threshold short
    have back : read (.text (atLeast threshold).text) = .ok (atLeast threshold) := read_text short
    exact back.symm

/-- A negative threshold and its digits in another script, with blanks of three kinds. -/
theorem read_below_minus_seventeen :
    (-17 : Int).natAbs < 10 ^ digitLimit ∧
      read (.text "< -17") = .ok ⟨.less, -17⟩ ∧
      read (.text "\t<\u00a0-١٧\n") = .ok ⟨.less, -17⟩ := by
  have short : (-17 : Int).natAbs < 10 ^ digitLimit :=
    Nat.lt_of_lt_of_le (by decide : (-17 : Int).natAbs < 10 ^ 2)
      (Nat.pow_le_pow_right (by decide) (by decide))
  exact ⟨short, read_spellings.2.2.1 ⟨.less, -17⟩ short, rfl⟩

end AmountTest

end Accolade
