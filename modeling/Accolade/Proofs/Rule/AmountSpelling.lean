import Mathlib.Data.List.TakeWhile
import Mathlib.Data.Nat.Digits.Defs
import Accolade.Rule.AmountReader

/-!
# How amount tests are spelt

A spelling is the sign of a comparison and a number behind it, with blanks in three places: before
the sign, between the two, and at the end. The number has a sign or none, and at least one digit.

A text is split into the parts of its spelling, and split at all only if it has one. Nothing in a
spelling can be taken for its neighbour: no digit is blank, a number starts neither with a blank nor
with the second character of a comparison, and no blank is a digit. So the reader, which always
takes as many blanks or digits as it finds, never takes too many.
-/

namespace Accolade

namespace Text

/-- What a decimal digit is worth. -/
def worth (c : Char) : Nat := (digitValue? c).getD 0

/-- The number that digits write, the last of them counting ones, the one before it tens, and so
on. -/
theorem digitsValue_eq (digits : List Char) :
    digitsValue digits = Nat.ofDigits 10 (digits.reverse.map worth) := by
  rw [digitsValue, List.foldl_eq_foldr_reverse, Nat.ofDigits_eq_foldr, List.foldr_map]
  refine congrArg (fun add => List.foldr add 0 digits.reverse) ?_
  funext c value
  exact (Nat.add_comm _ _).trans (congrArg _ (Nat.mul_comm _ _))

/-- A seven-bit digit is no blank, so trimming blanks keeps all digits. -/
theorem isBlank_of_isDigit {c : Char} (digit : c.isDigit = true) : isBlank c = false := by
  simp only [Char.isDigit, Bool.and_eq_true, decide_eq_true_eq] at digit
  have above : 48 ≤ c.toNat := digit.1
  have below : c.toNat ≤ 57 := digit.2
  simp only [isBlank, Bool.or_eq_false_iff, Bool.and_eq_false_iff, decide_eq_false_iff_not,
    beq_eq_false_iff_ne]
  omega

/-- No digit of the table is blank. -/
theorem isBlank_of_scriptZeros : ∀ start ∈ scriptZeros, ∀ worth : Fin 10,
    isBlank (Char.ofNat (start + worth)) = false := by
  decide +kernel

/-- No decimal digit of any script is blank. -/
theorem isBlank_of_isDecimalDigit {c : Char} (digit : isDecimalDigit c = true) :
    isBlank c = false := by
  unfold isDecimalDigit digitValue? at digit
  split at digit
  · split at digit
    · exact isBlank_of_isDigit ‹_›
    · contradiction
  · obtain ⟨value, known⟩ := Option.isSome_iff_exists.mp digit
    obtain ⟨start, found, _⟩ := Option.map_eq_some_iff.mp known
    have within := List.find?_some found
    simp only [Bool.and_eq_true, decide_eq_true_eq] at within
    have tabled := isBlank_of_scriptZeros start (List.mem_of_find?_eq_some found)
      ⟨c.toNat - start, by omega⟩
    rwa [Nat.add_sub_cancel' within.1, Char.ofNat_toNat] at tabled

/-- No blank is a decimal digit. -/
theorem isDecimalDigit_of_isBlank {c : Char} (blank : isBlank c = true) :
    isDecimalDigit c = false := by
  cases digit : isDecimalDigit c with
  | false => rfl
  | true =>
    rw [isBlank_of_isDecimalDigit digit] at blank
    contradiction

end Text

namespace AmountTest

/-- The sign that a number may have. -/
inductive NumberSign
  | none | plus | minus

namespace NumberSign

/-- The sign as it is written. -/
def text : NumberSign → List Char
  | .none => []
  | .plus => ['+']
  | .minus => ['-']

/-- Whether the number is negative. -/
def isMinus : NumberSign → Bool
  | .minus => true
  | _ => false

end NumberSign

/-- The parts of a written test. -/
structure Spelling where
  before : List Char
  comparison : Comparison
  between : List Char
  sign : NumberSign
  digits : List Char
  after : List Char
  before_blank : ∀ c ∈ before, Text.isBlank c = true
  between_blank : ∀ c ∈ between, Text.isBlank c = true
  after_blank : ∀ c ∈ after, Text.isBlank c = true
  digits_decimal : ∀ c ∈ digits, Text.isDecimalDigit c = true
  digits_present : digits ≠ []

/-- A text that starts with the sign of a comparison starts with no other: the rest must not make
the sign a longer one. -/
theorem readSign?_sign (comparison : Comparison) {rest : List Char}
    (apart : ∀ others, rest ≠ '=' :: others) :
    readSign? (comparison.sign.toList ++ rest) = some (comparison, rest) := by
  cases comparison with
  | greater =>
    change readSign? ('>' :: rest) = some (.greater, rest)
    simp [readSign?]
  | less =>
    change readSign? ('<' :: rest) = some (.less, rest)
    simp [readSign?]
  | equal | different | greaterOrEqual | lessOrEqual => rfl

/-- What is read as the sign of a comparison is its sign. -/
theorem eq_of_readSign? {text rest : List Char} {comparison : Comparison}
    (reads : readSign? text = some (comparison, rest)) :
    text = comparison.sign.toList ++ rest := by
  unfold readSign? at reads
  split at reads
  case h_7 => contradiction
  all_goals
    cases reads
    rfl

/-- What is read as the sign of a number is its sign. -/
theorem eq_of_readNegative (text : List Char) :
    ∃ sign : NumberSign, sign.isMinus = (readNegative text).1 ∧
      text = sign.text ++ (readNegative text).2 := by
  unfold readNegative
  split
  · exact ⟨.minus, rfl, rfl⟩
  · exact ⟨.plus, rfl, rfl⟩
  · exact ⟨.none, rfl, rfl⟩

namespace Spelling

variable (spelling : Spelling)

/-- The number with its sign. -/
def number : List Char := spelling.sign.text ++ spelling.digits

/-- The text that is spelt. -/
def text : List Char :=
  spelling.before ++ (spelling.comparison.sign.toList ++
    (spelling.between ++ (spelling.number ++ spelling.after)))

/-- The number that is spelt, in decimal notation. -/
def threshold : Int :=
  let magnitude : Nat := Nat.ofDigits 10 (spelling.digits.reverse.map Text.worth)
  if spelling.sign.isMinus then -magnitude else magnitude

/-- The test that is spelt. -/
def test : AmountTest := ⟨spelling.comparison, spelling.threshold⟩

/-- The number starts with a sign or a digit, neither of which is blank or part of a comparison. -/
theorem number_head :
    ∃ first rest, spelling.number = first :: rest ∧ Text.isBlank first = false ∧ first ≠ '=' := by
  obtain ⟨digit, others, split⟩ := List.exists_cons_of_ne_nil spelling.digits_present
  have decimal := spelling.digits_decimal digit (split ▸ List.mem_cons_self)
  unfold number
  cases spelling.sign with
  | plus => exact ⟨'+', spelling.digits, rfl, rfl, by decide⟩
  | minus => exact ⟨'-', spelling.digits, rfl, rfl, by decide⟩
  | none =>
    refine ⟨digit, others, split, Text.isBlank_of_isDecimalDigit decimal, ?_⟩
    rintro rfl
    contradiction

/-- Behind the comparison, the text does not go on with a character that could belong to it. -/
theorem rest_apart (others : List Char) :
    spelling.between ++ (spelling.number ++ spelling.after) ≠ '=' :: others := by
  intro same
  cases split : spelling.between with
  | nil =>
    obtain ⟨first, rest, starts, _, other⟩ := spelling.number_head
    rw [split, starts] at same
    exact other (List.cons.inj same).1
  | cons first rest =>
    have blank := spelling.between_blank first (split ▸ List.mem_cons_self)
    rw [split] at same
    rw [(List.cons.inj same).1] at blank
    contradiction

/-- The blanks before a part that does not start with one are skipped, and nothing else. -/
theorem dropWhile_blanks {blanks rest : List Char} {first : Char}
    (blank : ∀ c ∈ blanks, Text.isBlank c = true) (stops : Text.isBlank first = false) :
    (blanks ++ first :: rest).dropWhile Text.isBlank = first :: rest := by
  rw [List.dropWhile_append_of_pos blank, List.dropWhile_cons_of_neg (by simp [stops])]

/-- The number is read as its sign and what follows. -/
theorem readNegative_number :
    readNegative (spelling.number ++ spelling.after) =
      (spelling.sign.isMinus, spelling.digits ++ spelling.after) := by
  obtain ⟨digit, others, split⟩ := List.exists_cons_of_ne_nil spelling.digits_present
  have decimal := spelling.digits_decimal digit (split ▸ List.mem_cons_self)
  unfold number
  cases spelling.sign with
  | plus => rfl
  | minus => rfl
  | none =>
    have unsigned : digit ≠ '-' ∧ digit ≠ '+' := by
      constructor <;> rintro rfl <;> contradiction
    rw [NumberSign.text, List.nil_append, split]
    simp [readNegative, unsigned, NumberSign.isMinus]

/-- The digits end where the blanks at the end begin. -/
theorem digits_end :
    (spelling.digits ++ spelling.after).takeWhile Text.isDecimalDigit = spelling.digits ∧
      (spelling.digits ++ spelling.after).dropWhile Text.isDecimalDigit = spelling.after := by
  rw [List.takeWhile_append_of_pos spelling.digits_decimal,
    List.dropWhile_append_of_pos spelling.digits_decimal]
  cases split : spelling.after with
  | nil => simp
  | cons first rest =>
    have blank := spelling.after_blank first (split ▸ List.mem_cons_self)
    simp [Text.isDecimalDigit_of_isBlank blank]

/-- What is spelt is split into its parts. -/
theorem split?_text :
    split? spelling.text = some (spelling.comparison, spelling.sign.isMinus, spelling.digits) := by
  obtain ⟨first, rest, starts, stops, _⟩ := spelling.number_head
  have compared : readSign? (spelling.text.dropWhile Text.isBlank) =
      some (spelling.comparison, spelling.between ++ (spelling.number ++ spelling.after)) := by
    have sign : ∃ mark others, spelling.comparison.sign.toList = mark :: others ∧
        Text.isBlank mark = false := by
      cases spelling.comparison <;> exact ⟨_, _, rfl, rfl⟩
    obtain ⟨mark, others, begins, apart⟩ := sign
    have skipped : spelling.text.dropWhile Text.isBlank = spelling.comparison.sign.toList ++
        (spelling.between ++ (spelling.number ++ spelling.after)) := by
      rw [text, begins, List.cons_append]
      exact dropWhile_blanks spelling.before_blank apart
    rw [skipped, readSign?_sign _ spelling.rest_apart]
  have skipped : (spelling.between ++ (spelling.number ++ spelling.after)).dropWhile
      Text.isBlank = spelling.number ++ spelling.after := by
    rw [starts, List.cons_append]
    exact dropWhile_blanks spelling.between_blank stops
  obtain ⟨taken, left⟩ := spelling.digits_end
  have blank : spelling.after.all Text.isBlank = true :=
    List.all_eq_true.mpr spelling.after_blank
  simp only [split?, compared, Option.bind_eq_bind, Option.bind_some, skipped,
    readNegative_number, taken, left, blank, List.isEmpty_iff, spelling.digits_present,
    Bool.not_true, Bool.or_false, if_false]

/-- Only what is spelt is split, and into the parts of a spelling. -/
theorem exists_of_split? {text : List Char} {comparison : Comparison} {negative : Bool}
    {digits : List Char} (splits : split? text = some (comparison, negative, digits)) :
    ∃ spelling : Spelling, spelling.text = text ∧ spelling.comparison = comparison ∧
      spelling.sign.isMinus = negative ∧ spelling.digits = digits := by
  simp only [split?, Option.bind_eq_bind, Option.bind_eq_some_iff, Prod.exists] at splits
  obtain ⟨compared, rest, reads, accepted⟩ := splits
  obtain ⟨sign, signed, number⟩ := eq_of_readNegative (rest.dropWhile Text.isBlank)
  generalize readNegative (rest.dropWhile Text.isBlank) = readNumber at accepted signed number
  obtain ⟨minus, tail⟩ := readNumber
  dsimp only at accepted signed number
  split at accepted
  · contradiction
  · rename_i complete
    simp only [Bool.or_eq_true, List.isEmpty_iff, Bool.not_eq_true', not_or, Bool.not_eq_false,
      List.all_eq_true] at complete
    obtain ⟨rfl, rfl, rfl⟩ : compared = comparison ∧ minus = negative ∧
        tail.takeWhile Text.isDecimalDigit = digits := by
      simpa using accepted
    refine ⟨⟨text.takeWhile Text.isBlank, compared, rest.takeWhile Text.isBlank, sign,
      tail.takeWhile Text.isDecimalDigit, tail.dropWhile Text.isDecimalDigit,
      fun _ => List.mem_takeWhile_imp, fun _ => List.mem_takeWhile_imp, complete.2,
      fun _ => List.mem_takeWhile_imp, complete.1⟩, ?_, rfl, signed, rfl⟩
    calc text.takeWhile Text.isBlank ++ (compared.sign.toList ++
          (rest.takeWhile Text.isBlank ++ ((sign.text ++ tail.takeWhile Text.isDecimalDigit) ++
            tail.dropWhile Text.isDecimalDigit)))
        = text.takeWhile Text.isBlank ++ (compared.sign.toList ++
            (rest.takeWhile Text.isBlank ++ (sign.text ++ tail))) := by
          rw [List.append_assoc, List.takeWhile_append_dropWhile]
      _ = text.takeWhile Text.isBlank ++ (compared.sign.toList ++ rest) := by
          rw [← number, List.takeWhile_append_dropWhile]
      _ = text := by
          rw [← eq_of_readSign? reads, List.takeWhile_append_dropWhile]

end Spelling

end AmountTest

end Accolade
