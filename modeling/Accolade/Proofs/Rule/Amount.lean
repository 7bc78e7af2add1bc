import Accolade.Proofs.Fact.Ledger
import Accolade.Rule.Amount

/-!
# What amount tests say about whole numbers

On whole amounts a test says what its sign says of whole numbers. A boolean amount is the number
it denotes.
-/

namespace Accolade

namespace AmountTest

/-- Whether a whole number passes a test. -/
def isMetBy (test : AmountTest) (number : Int) : Bool :=
  match test.comparison with
  | .equal => number == test.threshold
  | .different => number != test.threshold
  | .greater => test.threshold < number
  | .less => number < test.threshold
  | .greaterOrEqual => test.threshold ≤ number
  | .lessOrEqual => number ≤ test.threshold

/-- Whole numbers are tested as integers are compared, though a test compares rationals. -/
theorem holdsAt_eq (test : AmountTest) (number : Int) :
    test.holdsAt number = test.isMetBy number := by
  obtain ⟨comparison, threshold⟩ := test
  rw [Bool.eq_iff_iff]
  cases comparison <;>
    simp only [holdsAt, isMetBy, Comparison.holds, Place.less, Place.at.injEq, Rat.intCast_inj,
      Rat.intCast_lt_intCast, beq_iff_eq, bne_iff_ne, ne_eq, Bool.or_eq_true, decide_eq_true_eq] <;>
    omega

/-- A test decides an amount that is a whole number, an integer or a boolean, as it decides that
number. -/
theorem holds_eq (test : AmountTest) {amount : Value} {number : Int}
    (whole : amount.whole? = some number) : test.holds amount = .ok (test.isMetBy number) := by
  have placed : ∃ held, amount = .scalar held ∧ held.isNumber = true ∧ held.isUndefined = false ∧
      held.place? = some (.at number) ∧ held.denotation? = some (.number (.at number)) := by
    rcases (amount.whole?_eq_some_iff number).mp whole with rfl | ⟨held, rfl, rfl⟩
    · exact ⟨.integer number, rfl, rfl, rfl, rfl, rfl⟩
    · exact ⟨.boolean held, rfl, rfl, rfl, by cases held <;> rfl, by cases held <;> rfl⟩
  obtain ⟨held, rfl, numeric, defined, place, denotation⟩ := placed
  obtain ⟨comparison, threshold⟩ := test
  have equal : (Value.scalar held).equals (.integer threshold) =
      (Place.at number == .at threshold) := by
    have other : (Scalar.integer threshold).denotation? = some (.number (.at threshold)) := rfl
    rw [Bool.eq_iff_iff]
    simp [Value.equals, Value.same, Scalar.same, denotation, defined, other]
  rw [← holdsAt_eq]
  cases comparison <;> simp [holds, holdsAt, Comparison.holds, equal, numeric, place, bne]

/-- Any test decides an amount that is a whole number, and cannot fail on it. -/
theorem holds_of_whole (test : AmountTest) {amount : Value}
    (whole : amount.whole?.isSome = true) : ∃ passed, test.holds amount = .ok passed := by
  obtain ⟨number, known⟩ := Option.isSome_iff_exists.mp whole
  exact ⟨_, test.holds_eq known⟩

/-- A whole number passes a test for less exactly when it is less. -/
theorem less_holds (cap total : Int) :
    (AmountTest.mk .less cap).holds (.integer total) = .ok (decide (total < cap)) :=
  holds_eq _ rfl

end AmountTest

end Accolade
