import Accolade.Proofs.Number.Rounding
import Accolade.Retry

/-!
# Delays between attempts

The factor of a delay is a whole power of two before it is a double. As long as the power is within
the range of doubles it is a double exactly, so there is a delay after each of the first 1024
attempts. Beyond the range there is no such double, and so no delay after any later attempt.
-/

namespace Accolade

namespace Double

/-- A power of two is a significand of one digit. -/
theorem isDyadic_power (exponent : ℕ) : IsDyadic ((2 ^ exponent : ℕ) / (1 : ℕ)) :=
  ⟨1, exponent, by norm_num, by omega, by push_cast; rw [zpow_natCast]; ring⟩

/-- Powers of two within the range of doubles are doubles. -/
theorem powerOfTwo_finite {exponent : ℕ} (bounded : exponent ≤ 1023) :
    ∃ units unit, powerOfTwo exponent = .finite false units unit ∧
      (units : ℚ) * 2 ^ unit = 2 ^ exponent := by
  have small : ((2 ^ exponent : ℕ) / (1 : ℕ) : ℚ) < 2 ^ 1024 := by
    push_cast
    rw [div_one]
    exact pow_lt_pow_right₀ one_lt_two (by omega)
  obtain ⟨units, unit, rounded, -, exact⟩ :=
    ofRatio_finite Nat.one_pos (isDyadic_power exponent) small false
  have inRange : ¬ (exponent : ℤ) < -1100 ∧ ¬ (exponent : ℤ) > 1100 ∧ ¬ (exponent : ℤ) < 0 := by
    omega
  refine ⟨units, unit, ?_, ?_⟩
  · simp only [powerOfTwo, inRange.1, inRange.2.1, inRange.2.2, if_false, Int.natAbs_natCast,
      Nat.pow_eq, rounded]
  · rw [exact]
    push_cast
    rw [div_one]

/-- Powers of two beyond the range of doubles are infinite. -/
theorem powerOfTwo_infinite {exponent : ℕ} (beyond : 1024 ≤ exponent) :
    powerOfTwo exponent = .infinite false := by
  have large : (2 : ℚ) ^ 1024 ≤ (2 ^ exponent : ℕ) / (1 : ℕ) := by
    push_cast
    rw [div_one]
    exact pow_le_pow_right₀ one_le_two beyond
  have rounded := ofRatio_infinite Nat.one_pos (isDyadic_power exponent) large false
  have notBelow : ¬ (exponent : ℤ) < -1100 ∧ ¬ (exponent : ℤ) < 0 := by omega
  simp only [powerOfTwo, notBelow.1, notBelow.2, if_false, Int.natAbs_natCast, Nat.pow_eq, rounded,
    ite_self]

end Double

namespace RetryPolicy

/-- The factor after each of the first 1024 attempts is the power of two. -/
theorem factor_of_le {attempt : ℕ} (positive : 0 < attempt) (few : attempt ≤ 1024) :
    ∃ units unit, factor attempt = .ok (.finite false units unit) ∧
      (units : ℚ) * 2 ^ unit = 2 ^ (attempt - 1) := by
  obtain ⟨units, unit, power, exact⟩ := Double.powerOfTwo_finite (by omega : attempt - 1 ≤ 1023)
  have notLess : ¬ (attempt : ℤ) < 1 := by omega
  have one : ((attempt : ℤ) - 1) = (attempt - 1 : ℕ) := by omega
  refine ⟨units, unit, ?_, exact⟩
  simp only [factor, notLess, if_false, one, power, Double.isFinite, if_true]

/-- After any attempt later than the 1024th there is no factor, since the power of two is no double.
-/
theorem factor_of_gt {attempt : ℕ} (many : 1024 < attempt) :
    factor attempt = .error .overflow := by
  have notLess : ¬ (attempt : ℤ) < 1 := by omega
  have one : ((attempt : ℤ) - 1) = (attempt - 1 : ℕ) := by omega
  have power := Double.powerOfTwo_infinite (by omega : 1024 ≤ attempt - 1)
  simp only [factor, notLess, if_false, one, power, Double.isFinite, Bool.false_eq_true]

/-- There is a delay after each of the first 1024 attempts. -/
theorem delay_of_le (policy : RetryPolicy) (draw : Draw) {attempt : Nat} (positive : 0 < attempt)
    (few : attempt ≤ 1024) : ∃ delay, policy.delay draw attempt = .ok delay := by
  obtain ⟨units, unit, given, -⟩ := factor_of_le positive few
  simp only [delay, cappedDelay, given, Except.map, Except.ok.injEq, exists_eq']

/-- There is no delay after any attempt later than the 1024th, however low the cap is. -/
theorem delay_of_gt (policy : RetryPolicy) (draw : Draw) {attempt : Nat} (many : 1024 < attempt) :
    policy.delay draw attempt = .error .overflow := by
  simp only [delay, cappedDelay, factor_of_gt many, Except.map]

end RetryPolicy

end Accolade
