import Mathlib.Algebra.Order.Field.Power
import Mathlib.Data.Rat.Lemmas
import Mathlib.Tactic.FieldSimp
import Mathlib.Tactic.Linarith
import Mathlib.Tactic.Positivity
import Mathlib.Tactic.Ring
import Accolade.Number.Double

/-!
# Quotients that doubles hold exactly

Rounding first chooses the unit in which a quotient has 53 binary digits, and then counts units. A
quotient that is a significand of 53 digits times a power of two is a whole number of its units, so
nothing is lost by rounding it: the double has its value, unless the unit is beyond the largest one.
This is why a double can be doubled any number of times, until it becomes infinite.
-/

namespace Accolade

/-- A power of two as doubles are computed with is that power of the rationals, for negative
exponents too. -/
theorem twoPower_eq (exponent : ℤ) : twoPower exponent = (2 : ℚ) ^ exponent := by
  unfold twoPower
  split
  · rename_i negative
    obtain ⟨size, rfl⟩ : ∃ size : ℕ, exponent = -size := ⟨exponent.natAbs, by omega⟩
    rw [Int.natAbs_neg, Int.natAbs_natCast, Nat.pow_eq, Rat.mkRat_eq_div, zpow_neg, zpow_natCast]
    push_cast
    rw [one_div]
  · rename_i notNegative
    obtain ⟨size, rfl⟩ : ∃ size : ℕ, exponent = size := ⟨exponent.natAbs, by omega⟩
    rw [Int.natAbs_natCast, Nat.pow_eq, Rat.mkRat_eq_div, zpow_natCast]
    push_cast
    rw [div_one]

namespace Double

variable {dividend divisor : ℕ}

/-- Logarithms tell a quotient up to a factor of two, in both directions. -/
theorem quotient_bounds (some : 0 < dividend) (proper : 0 < divisor) :
    (2 : ℚ) ^ ((dividend.log2 : ℤ) - divisor.log2 - 1) < dividend / divisor ∧
      (dividend / divisor : ℚ) < 2 ^ ((dividend.log2 : ℤ) - divisor.log2 + 1) := by
  have two : (2 : ℚ) ≠ 0 := two_ne_zero
  have positive : (0 : ℚ) < divisor := Nat.cast_pos.mpr proper
  have dividendLow : (2 : ℚ) ^ (dividend.log2 : ℤ) ≤ dividend := by
    exact_mod_cast Nat.log2_self_le some.ne'
  have dividendHigh : (dividend : ℚ) < 2 ^ ((dividend.log2 : ℤ) + 1) := by
    exact_mod_cast Nat.lt_log2_self
  have divisorLow : (2 : ℚ) ^ (divisor.log2 : ℤ) ≤ divisor := by
    exact_mod_cast Nat.log2_self_le proper.ne'
  have divisorHigh : (divisor : ℚ) < 2 ^ ((divisor.log2 : ℤ) + 1) := by
    exact_mod_cast Nat.lt_log2_self
  constructor
  · rw [lt_div_iff₀ positive]
    calc (2 : ℚ) ^ ((dividend.log2 : ℤ) - divisor.log2 - 1) * divisor
        < 2 ^ ((dividend.log2 : ℤ) - divisor.log2 - 1) * 2 ^ ((divisor.log2 : ℤ) + 1) :=
          mul_lt_mul_of_pos_left divisorHigh (zpow_pos two_pos _)
      _ = 2 ^ (dividend.log2 : ℤ) := by
          rw [← zpow_add₀ two]
          exact congrArg _ (by omega)
      _ ≤ dividend := dividendLow
  · rw [div_lt_iff₀ positive]
    calc (dividend : ℚ) < 2 ^ ((dividend.log2 : ℤ) + 1) := dividendHigh
      _ = 2 ^ ((dividend.log2 : ℤ) - divisor.log2 + 1) * 2 ^ (divisor.log2 : ℤ) := by
          rw [← zpow_add₀ two]
          exact congrArg _ (by omega)
      _ ≤ 2 ^ ((dividend.log2 : ℤ) - divisor.log2 + 1) * divisor :=
          mul_le_mul_of_nonneg_left divisorLow (zpow_nonneg two_pos.le _)

/-- Whether a quotient has fewer digits than guessed, decided on whole numbers. -/
theorem short_iff (proper : 0 < divisor) (guess : ℤ) :
    (if guess < 0 then decide (dividend * Nat.pow 2 guess.natAbs < divisor * Nat.pow 2 52)
      else decide (dividend < divisor * Nat.pow 2 guess.natAbs * Nat.pow 2 52)) = true ↔
      (dividend / divisor : ℚ) < 2 ^ (guess + 52) := by
  have positive : (0 : ℚ) < divisor := Nat.cast_pos.mpr proper
  have two : (2 : ℚ) ≠ 0 := two_ne_zero
  rw [div_lt_iff₀ positive, zpow_add₀ two]
  simp only [Nat.pow_eq]
  split
  · rename_i negative
    obtain ⟨size, rfl⟩ : ∃ size : ℕ, guess = -size := ⟨guess.natAbs, by omega⟩
    have power : (0 : ℚ) < 2 ^ size := pow_pos two_pos size
    have scaled :
        (2 : ℚ) ^ (-(size : ℤ)) * 2 ^ (52 : ℤ) * divisor = divisor * 2 ^ 52 / 2 ^ size := by
      rw [zpow_neg, zpow_natCast]
      field_simp
    rw [decide_eq_true_iff, scaled, lt_div_iff₀ power, Int.natAbs_neg, Int.natAbs_natCast]
    exact_mod_cast Iff.rfl
  · rename_i notNegative
    obtain ⟨size, rfl⟩ : ∃ size : ℕ, guess = size := ⟨guess.natAbs, by omega⟩
    have scaled : (2 : ℚ) ^ (size : ℤ) * 2 ^ (52 : ℤ) * divisor = divisor * 2 ^ size * 2 ^ 52 := by
      rw [zpow_natCast]
      norm_cast
      ring
    rw [decide_eq_true_iff, scaled, Int.natAbs_natCast]
    exact_mod_cast Iff.rfl

/-- The unit of a quotient: the quotient has at most 53 digits in it, and no fewer unless the unit
is the smallest one. -/
theorem unitExponent_spec (some : 0 < dividend) (proper : 0 < divisor) :
    -1074 ≤ unitExponent dividend divisor ∧
      (dividend / divisor : ℚ) < 2 ^ (unitExponent dividend divisor + 53) ∧
      (unitExponent dividend divisor = -1074 ∨
        (2 : ℚ) ^ (unitExponent dividend divisor + 52) ≤ dividend / divisor) := by
  obtain ⟨low, high⟩ := quotient_bounds some proper
  generalize digits : (dividend.log2 : ℤ) - divisor.log2 = difference at low high
  -- The place of the first digit is known up to one; the comparison settles it.
  obtain ⟨unit, settled, below, above⟩ : ∃ unit : ℤ,
      unitExponent dividend divisor = max unit (-1074) ∧
      (dividend / divisor : ℚ) < 2 ^ (unit + 53) ∧ (2 : ℚ) ^ (unit + 52) ≤ dividend / divisor := by
    have decided := @short_iff dividend divisor proper (difference - 52)
    simp only [unitExponent, digits]
    by_cases short : (dividend / divisor : ℚ) < 2 ^ (difference - 52 + 52)
    · refine ⟨difference - 52 - 1, by rw [if_pos (decided.mpr short)], ?_, ?_⟩
      · rw [show difference - 52 - 1 + 53 = difference - 52 + 52 by omega]
        exact short
      · rw [show difference - 52 - 1 + 52 = difference - 1 by omega]
        exact low.le
    · refine ⟨difference - 52, by rw [if_neg (mt decided.mp short)], ?_, ?_⟩
      · rw [show difference - 52 + 53 = difference + 1 by omega]
        exact high
      · exact not_lt.mp short
  rw [settled]
  refine ⟨le_max_right _ _, below.trans_le ?_, ?_⟩
  · exact zpow_le_zpow_right₀ one_le_two (by omega)
  · rcases le_total unit (-1074) with small | large
    · exact .inl (max_eq_right small)
    · rw [max_eq_left large]
      exact .inr above

/-- A multiple of the divisor is divided without a rest. -/
theorem roundedQuotient_mul (units : ℕ) (proper : 0 < divisor) :
    roundedQuotient (units * divisor) divisor = units := by
  simp [roundedQuotient, Nat.mul_div_cancel units proper, proper]

/-- A quotient that is a number of units is counted exactly. -/
theorem roundedUnits_exact {units : ℕ} {unit : ℤ} (proper : 0 < divisor)
    (exact : (dividend / divisor : ℚ) = units * 2 ^ unit) :
    roundedUnits dividend divisor unit = units := by
  have positive : (0 : ℚ) < divisor := Nat.cast_pos.mpr proper
  rw [div_eq_iff positive.ne'] at exact
  unfold roundedUnits
  split
  · obtain ⟨size, rfl⟩ : ∃ size : ℕ, unit = -size := ⟨unit.natAbs, by omega⟩
    have multiple : dividend * 2 ^ size = units * divisor := by
      rw [zpow_neg, zpow_natCast] at exact
      have scaled : (dividend : ℚ) * 2 ^ size = units * divisor := by
        rw [exact]
        field_simp
      exact_mod_cast scaled
    rw [Int.natAbs_neg, Int.natAbs_natCast, Nat.pow_eq, multiple, roundedQuotient_mul units proper]
  · obtain ⟨size, rfl⟩ : ∃ size : ℕ, unit = size := ⟨unit.natAbs, by omega⟩
    have multiple : dividend = units * (divisor * 2 ^ size) := by
      rw [zpow_natCast] at exact
      have scaled : (dividend : ℚ) = units * (divisor * 2 ^ size) := by
        rw [exact]
        ring
      exact_mod_cast scaled
    rw [Int.natAbs_natCast, Nat.pow_eq, multiple]
    exact roundedQuotient_mul units (Nat.mul_pos proper (Nat.two_pow_pos size))

/-- Whether a number is one of the finite ones that a double can be. -/
def InRange : Double → Prop
  | .finite _ significand exponent => significand < 2 ^ 53 ∧ -1074 ≤ exponent ∧ exponent ≤ 971
  | _ => False

/-- Whether a quotient is a significand of at most 53 digits in units that doubles have, be they as
large as they may. -/
def IsDyadic (value : ℚ) : Prop :=
  ∃ (significand : ℕ) (exponent : ℤ),
    significand < 2 ^ 53 ∧ -1074 ≤ exponent ∧ value = significand * 2 ^ exponent

/-- What rounding makes of such a quotient: its units, unless the unit is beyond the largest.

Proof: the unit is no coarser than the exponent of the quotient, or its 53 digits would pass what
the significand allows. So the quotient is a whole number of units, and rounding it changes nothing.
-/
theorem ofRatio_dyadic (some : 0 < dividend) (proper : 0 < divisor)
    (dyadic : IsDyadic (dividend / divisor)) (negative : Bool) :
    ∃ units : ℕ, units < 2 ^ 53 ∧
      (dividend / divisor : ℚ) = units * 2 ^ unitExponent dividend divisor ∧
      ofRatio negative dividend divisor =
        if unitExponent dividend divisor > 971 then .infinite negative
        else .finite negative units (unitExponent dividend divisor) := by
  obtain ⟨significand, exponent, small, fine, exact⟩ := dyadic
  obtain ⟨smallest, below, above⟩ := unitExponent_spec some proper
  generalize counted : unitExponent dividend divisor = unit at smallest below above
  have two : (2 : ℚ) ≠ 0 := two_ne_zero
  have positive : (0 : ℚ) < dividend / divisor :=
    div_pos (Nat.cast_pos.mpr some) (Nat.cast_pos.mpr proper)
  have finer : unit ≤ exponent := by
    rcases above with rfl | above
    · exact fine
    · have bounded : (2 : ℚ) ^ (unit + 52) < 2 ^ (exponent + 53) := by
        calc (2 : ℚ) ^ (unit + 52) ≤ significand * 2 ^ exponent := exact ▸ above
          _ < 2 ^ 53 * 2 ^ exponent :=
            mul_lt_mul_of_pos_right (by exact_mod_cast small) (zpow_pos two_pos _)
          _ = 2 ^ (exponent + 53) := by
            rw [zpow_add₀ two, mul_comm]
            norm_cast
      have := (zpow_lt_zpow_iff_right₀ (one_lt_two (α := ℚ))).mp bounded
      omega
  obtain ⟨shift, rfl⟩ : ∃ shift : ℕ, exponent = unit + shift := ⟨(exponent - unit).toNat, by omega⟩
  have whole : (dividend / divisor : ℚ) = (significand * 2 ^ shift : ℕ) * 2 ^ unit := by
    rw [exact, zpow_add₀ two, zpow_natCast]
    push_cast
    ring
  have few : significand * 2 ^ shift < 2 ^ 53 := by
    have bounded : ((significand * 2 ^ shift : ℕ) : ℚ) * 2 ^ unit < 2 ^ 53 * 2 ^ unit := by
      rw [← whole, mul_comm]
      refine below.trans_eq ?_
      rw [zpow_add₀ two]
      norm_cast
    exact_mod_cast lt_of_mul_lt_mul_right bounded (zpow_nonneg two_pos.le _)
  have present : significand * 2 ^ shift ≠ 0 := by
    intro absent
    rw [whole, absent, Nat.cast_zero, zero_mul] at positive
    exact lt_irrefl _ positive
  refine ⟨significand * 2 ^ shift, few, whole, ?_⟩
  simp only [ofRatio, counted, roundedUnits_exact proper whole, some.ne', present, if_false,
    Nat.pow_eq, few.ne]

/-- A quotient within the range of doubles is held exactly. -/
theorem ofRatio_finite (proper : 0 < divisor) (dyadic : IsDyadic (dividend / divisor))
    (bounded : (dividend / divisor : ℚ) < 2 ^ 1024) (negative : Bool) :
    ∃ units unit, ofRatio negative dividend divisor = .finite negative units unit ∧
      (Double.finite negative units unit).InRange ∧
      (units : ℚ) * 2 ^ unit = dividend / divisor := by
  rcases Nat.eq_zero_or_pos dividend with rfl | some
  · exact ⟨0, 0, by simp [ofRatio], by simp [InRange], by simp⟩
  · obtain ⟨units, few, exact, rounded⟩ := ofRatio_dyadic some proper dyadic negative
    obtain ⟨smallest, -, above⟩ := unitExponent_spec some proper
    have inRange : ¬ unitExponent dividend divisor > 971 := by
      intro beyond
      rcases above with same | above
      · omega
      · refine absurd (above.trans_lt bounded) (not_lt.mpr ?_)
        rw [← zpow_natCast]
        exact zpow_le_zpow_right₀ one_le_two (by omega)
    rw [if_neg inRange] at rounded
    exact ⟨units, _, rounded, ⟨few, smallest, not_lt.mp inRange⟩, exact.symm⟩

/-- A quotient beyond the range of doubles becomes infinite. -/
theorem ofRatio_infinite (proper : 0 < divisor) (dyadic : IsDyadic (dividend / divisor))
    (beyond : (2 : ℚ) ^ 1024 ≤ dividend / divisor) (negative : Bool) :
    ofRatio negative dividend divisor = .infinite negative := by
  have some : 0 < dividend := by
    rcases Nat.eq_zero_or_pos dividend with rfl | some
    · rw [Nat.cast_zero, zero_div] at beyond
      exact absurd beyond (not_le.mpr (pow_pos two_pos _))
    · exact some
  obtain ⟨units, few, exact, rounded⟩ := ofRatio_dyadic some proper dyadic negative
  obtain ⟨-, below, -⟩ := unitExponent_spec some proper
  have large : unitExponent dividend divisor > 971 := by
    by_contra inRange
    refine absurd (beyond.trans_lt below) (not_lt.mpr ?_)
    rw [← zpow_natCast]
    exact zpow_le_zpow_right₀ one_le_two (by omega)
  rw [rounded, if_pos large]

end Double

end Accolade
