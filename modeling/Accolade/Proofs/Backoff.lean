import Accolade.Proofs.Attempts

/-!
# Doubling delays

Without jitter, the delay after an attempt is the base delay times a power of two, capped. Such a
product is a double exactly, or it is beyond every cap, so no rounding shows in the delays: they are
the least of the exact product and the cap, for as long as the power of two itself is a double. That
is so for the first 1024 attempts. After a later one there is no delay, and a call that is still to
be attempted again ends with a failure of its own.
-/

namespace Accolade

namespace Double

/-- The value of a finite double, by powers of two. -/
theorem finiteValue?_finite (negative : Bool) (significand : ℕ) (exponent : ℤ) :
    (Double.finite negative significand exponent).finiteValue? =
      some (if negative then -(significand * (2 : ℚ) ^ exponent)
        else significand * (2 : ℚ) ^ exponent) := by
  simp only [finiteValue?, twoPower_eq]

/-- Doubles with values compare as their values do. -/
theorem less_eq {x y : Double} {u v : ℚ} (left : x.finiteValue? = some u)
    (right : y.finiteValue? = some v) : x.less y = decide (u < v) := by
  cases x with
  | finite a m e =>
    cases y with
    | finite b n f =>
      cases left
      cases right
      rfl
    | _ => contradiction
  | _ => contradiction

/-- The smaller of two doubles has the smaller value. -/
theorem finiteValue?_smaller {x y : Double} {u v : ℚ} (left : x.finiteValue? = some u)
    (right : y.finiteValue? = some v) : (x.smaller y).finiteValue? = some (min u v) := by
  rw [smaller, less_eq right left]
  by_cases less : v < u
  · rw [if_pos (decide_eq_true less), right, min_eq_right less.le]
  · rw [if_neg (by simpa using less), left, min_eq_left (not_lt.mp less)]

/-- The larger of two doubles has the larger value. -/
theorem finiteValue?_larger {x y : Double} {u v : ℚ} (left : x.finiteValue? = some u)
    (right : y.finiteValue? = some v) : (x.larger y).finiteValue? = some (max u v) := by
  rw [larger, less_eq left right]
  by_cases less : u < v
  · rw [if_pos (decide_eq_true less), right, max_eq_right less.le]
  · rw [if_neg (by simpa using less), left, max_eq_left (not_lt.mp less)]

/-- A value is smaller than the infinite end. -/
theorem smaller_infinite {x : Double} {u : ℚ} (valued : x.finiteValue? = some u) :
    (Double.infinite false).smaller x = x := by
  cases x with
  | finite a m e => rfl
  | _ => contradiction

/-- Values within the range of doubles are below the power of two where it ends. -/
theorem InRange.value_lt {x : Double} {u : ℚ} (ranged : x.InRange)
    (valued : x.finiteValue? = some u) : u < 2 ^ 1024 := by
  cases x with
  | finite negative significand exponent =>
    obtain ⟨few, -, coarse⟩ := ranged
    have power : (0 : ℚ) < 2 ^ exponent := zpow_pos two_pos exponent
    have magnitude : (0 : ℚ) ≤ significand * 2 ^ exponent := by positivity
    have bounded : (significand : ℚ) * 2 ^ exponent < 2 ^ 1024 := by
      calc (significand : ℚ) * 2 ^ exponent < 2 ^ 53 * 2 ^ exponent :=
            mul_lt_mul_of_pos_right (by exact_mod_cast few) power
        _ ≤ 2 ^ 53 * 2 ^ (971 : ℤ) :=
            mul_le_mul_of_nonneg_left (zpow_le_zpow_right₀ one_le_two coarse) (by positivity)
        _ = 2 ^ 1024 := by rw [show (971 : ℤ) = (971 : ℕ) from rfl, zpow_natCast, ← pow_add]
    rw [finiteValue?_finite, Option.some.injEq] at valued
    rw [← valued]
    split
    · exact (neg_nonpos.mpr magnitude).trans_lt (pow_pos two_pos _)
    · exact bounded
  | _ => contradiction

/-- A value that is not negative is the magnitude of its double. The sign matters at zero only. -/
theorem unsigned_value {negative : Bool} {significand : ℕ} {exponent : ℤ} {value : ℚ}
    (valued : (Double.finite negative significand exponent).finiteValue? = some value)
    (nonnegative : 0 ≤ value) :
    (significand : ℚ) * 2 ^ exponent = value ∧ (negative = true → value = 0) := by
  rw [finiteValue?_finite, Option.some.injEq] at valued
  cases negative with
  | false => exact ⟨valued, fun signed => absurd signed Bool.false_ne_true⟩
  | true =>
    have magnitude : (0 : ℚ) ≤ significand * 2 ^ exponent := by positivity
    have opposite : -(significand * (2 : ℚ) ^ exponent) = value := valued
    exact ⟨by linarith, fun _ => by linarith⟩

/-- A double without sign is doubled exactly: its product with a power of two has the value of the
product, or is infinite if that is beyond the range of doubles.

Proof: the exact product is a quotient whose significand is that of the double, at a larger
exponent. So it is rounded to itself within the range of doubles, and to infinity beyond it. -/
theorem multiply_power {x : Double} {value : ℚ} (ranged : x.InRange)
    (valued : x.finiteValue? = some value) (nonnegative : 0 ≤ value) {units : ℕ} {unit : ℤ}
    {exponent : ℕ} (power : (units : ℚ) * 2 ^ unit = 2 ^ exponent) :
    (value * 2 ^ exponent < 2 ^ 1024 →
      (x.multiply (.finite false units unit)).finiteValue? = some (value * 2 ^ exponent)) ∧
    (2 ^ 1024 ≤ value * 2 ^ exponent →
      x.multiply (.finite false units unit) = .infinite false) := by
  cases x with
  | finite negative significand fine =>
    obtain ⟨few, coarse, -⟩ := ranged
    obtain ⟨unsigned, signless⟩ := unsigned_value valued nonnegative
    have product : (significand : ℚ) * twoPower fine * (units * twoPower unit) =
        value * 2 ^ exponent := by
      rw [twoPower_eq, twoPower_eq, unsigned, power]
    have proper : 0 < (value * 2 ^ exponent).den := Rat.den_pos _
    have scaled : 0 ≤ value * 2 ^ exponent := by positivity
    have quotient : ((value * 2 ^ exponent).num.natAbs : ℚ) / (value * 2 ^ exponent).den =
        value * 2 ^ exponent := by
      rw [Nat.cast_natAbs, abs_of_nonneg (Rat.num_nonneg.mpr scaled)]
      exact Rat.num_div_den _
    have dyadic : IsDyadic ((value * 2 ^ exponent).num.natAbs / (value * 2 ^ exponent).den) := by
      refine ⟨significand, fine + exponent, few, by omega, ?_⟩
      rw [quotient, ← unsigned, zpow_add₀ two_ne_zero, zpow_natCast]
      ring
    simp only [multiply, product, Bool.bne_false]
    constructor
    · intro bounded
      obtain ⟨count, size, rounded, -, exact⟩ :=
        ofRatio_finite proper dyadic (quotient.trans_lt bounded) negative
      rw [quotient] at exact
      rw [rounded, finiteValue?_finite, exact]
      cases negative with
      | false => rfl
      | true => simp [signless rfl]
    · intro beyond
      rw [ofRatio_infinite proper dyadic (beyond.trans_eq quotient.symm)]
      cases negative with
      | false => rfl
      | true =>
        rw [signless rfl, zero_mul] at beyond
        exact absurd beyond (not_le.mpr (pow_pos two_pos _))
  | _ => contradiction

end Double

namespace RetryPolicy

/-- Whether a policy has delays without jitter, between two doubles with these values, neither of
them negative. -/
structure Doubles (policy : RetryPolicy) (base cap : ℚ) : Prop where
  plain : policy.jitter = false
  baseRanged : policy.baseDelay.InRange
  baseValue : policy.baseDelay.finiteValue? = some base
  baseNonnegative : 0 ≤ base
  capRanged : policy.maxDelay.InRange
  capValue : policy.maxDelay.finiteValue? = some cap
  capNonnegative : 0 ≤ cap

variable {policy : RetryPolicy} {base cap : ℚ}

/-- The capped product of the base delay and a power of two, without rounding. -/
theorem Doubles.smaller_value (doubles : policy.Doubles base cap) {units : ℕ} {unit : ℤ}
    {exponent : ℕ} (power : (units : ℚ) * 2 ^ unit = 2 ^ exponent) :
    ((policy.baseDelay.multiply (.finite false units unit)).smaller policy.maxDelay).finiteValue? =
      some (min (base * 2 ^ exponent) cap) := by
  obtain ⟨exact, infinite⟩ := Double.multiply_power doubles.baseRanged doubles.baseValue
    doubles.baseNonnegative power
  rcases lt_or_ge (base * 2 ^ exponent) (2 ^ 1024) with bounded | beyond
  · exact Double.finiteValue?_smaller (exact bounded) doubles.capValue
  · have above : cap ≤ base * 2 ^ exponent :=
      (doubles.capRanged.value_lt doubles.capValue).le.trans beyond
    rw [infinite beyond, Double.smaller_infinite doubles.capValue, doubles.capValue,
      min_eq_right above]

/-- After each of the first 1024 attempts there is a delay, and its value is that of the base
doubled once for each earlier attempt, or the cap if that is less. -/
theorem Doubles.delay_value (doubles : policy.Doubles base cap) (draw : Draw) {attempt : ℕ}
    (positive : 0 < attempt) (few : attempt ≤ 1024) :
    ∃ delay, policy.delay draw attempt = .ok delay ∧
      delay.finiteValue? = some (min (base * 2 ^ (attempt - 1)) cap) := by
  obtain ⟨units, unit, given, power⟩ := factor_of_le positive few
  have nonnegative : 0 ≤ min (base * 2 ^ (attempt - 1)) cap :=
    le_min (mul_nonneg doubles.baseNonnegative (by positivity)) doubles.capNonnegative
  have zero : Double.zero.finiteValue? = some 0 := by
    simp [Double.zero, Double.finiteValue?_finite]
  refine ⟨_, ?_, (Double.finiteValue?_larger zero (doubles.smaller_value power)).trans ?_⟩
  · simp only [delay, cappedDelay, given, Except.map, doubles.plain, Bool.false_eq_true, if_false]
  · rw [max_eq_right nonnegative]

/-- A later attempt has no shorter delay, and none is beyond the cap. -/
theorem Doubles.delay_mono (doubles : policy.Doubles base cap) (draw : Draw) {attempt later : ℕ}
    (positive : 0 < attempt) (ordered : attempt ≤ later) {delay next : Double}
    (given : policy.delay draw attempt = .ok delay)
    (givenNext : policy.delay draw later = .ok next) :
    ∃ seconds secondsNext, delay.finiteValue? = some seconds ∧
      next.finiteValue? = some secondsNext ∧
      0 ≤ seconds ∧ seconds ≤ secondsNext ∧ secondsNext ≤ cap := by
  have few : later ≤ 1024 := by
    by_contra many
    rw [policy.delay_of_gt draw (not_le.mp many)] at givenNext
    contradiction
  obtain ⟨_, same, value⟩ := doubles.delay_value draw positive (ordered.trans few)
  obtain ⟨_, sameNext, valueNext⟩ := doubles.delay_value draw (positive.trans_le ordered) few
  obtain rfl := Except.ok.inj (given.symm.trans same)
  obtain rfl := Except.ok.inj (givenNext.symm.trans sameNext)
  have grows : base * 2 ^ (attempt - 1) ≤ base * 2 ^ (later - 1) :=
    mul_le_mul_of_nonneg_left (pow_le_pow_right₀ one_le_two (by omega)) doubles.baseNonnegative
  refine ⟨_, _, value, valueNext, ?_, min_le_min_right cap grows, min_le_right _ _⟩
  exact le_min (mul_nonneg doubles.baseNonnegative (by positivity)) doubles.capNonnegative

/-- The first 1024 attempts of any policy have delays, since the power of two is a double for each
of them. -/
theorem hasDelays_of_le (policy : RetryPolicy) (draws : ℕ → Draw) {attempts : ℕ}
    (few : attempts ≤ 1024) : policy.HasDelays draws attempts :=
  fun attempt positive bounded => policy.delay_of_le (draws attempt) positive (bounded.trans few)

section Endings

variable {α β : Type} {draws : ℕ → Draw} {isRetried : Failure → Bool}
  {results : ℕ → Except Failure α} {arguments : β}

/-- If 1025 results are tried again, and more attempts are allowed, the attempts end there, with a
failure that the function never came to. -/
theorem retrying_overruns (many : 1025 < policy.maxAttempts)
    (none : NoneFinal isRetried results 1025) :
    ∃ delays, retrying policy draws isRetried (scripted results) arguments [] =
      (⟨.failed .overflow, 1025, delays⟩, List.replicate 1025 arguments) := by
  obtain ⟨delays, listed⟩ := (policy.hasDelays_of_le draws (le_refl 1024)).exists_delays
  exact ⟨delays, retrying_undelayed (by norm_num) many none listed
    (policy.delay_of_gt (draws 1025) (by norm_num))⟩

/-- Otherwise the attempts end with the first final result, or exhausted. -/
theorem retrying_ends (positive : 0 < policy.maxAttempts)
    (short : ¬ (1025 < policy.maxAttempts ∧ NoneFinal isRetried results 1025)) :
    (∃ position ≤ policy.maxAttempts, FirstFinal isRetried results position ∧
      (retrying policy draws isRetried (scripted results) arguments []).1.ending =
        .ofResult (results position)) ∨
    (NoneFinal isRetried results policy.maxAttempts ∧
      ∃ failure, results policy.maxAttempts = .error failure ∧
        (retrying policy draws isRetried (scripted results) arguments []).1.ending =
          .exhausted policy.maxAttempts failure) := by
  rcases noneFinal_or_firstFinal isRetried results policy.maxAttempts with
    none | ⟨position, bounded, first⟩
  · have few : policy.maxAttempts - 1 ≤ 1024 := by
      by_contra many
      have early : NoneFinal isRetried results 1025 := fun attempt present within =>
        none attempt present (by omega)
      exact short ⟨by omega, early⟩
    obtain ⟨delays, listed⟩ := (policy.hasDelays_of_le draws few).exists_delays
    obtain ⟨failure, failed, ended⟩ := retrying_exhausted positive none listed
    exact .inr ⟨none, failure, failed, by rw [ended]⟩
  · have few : position - 1 ≤ 1024 := by
      by_contra many
      have early : NoneFinal isRetried results 1025 := fun attempt present within =>
        first.earlier attempt present (by omega)
      exact short ⟨by omega, early⟩
    obtain ⟨delays, listed⟩ := (policy.hasDelays_of_le draws few).exists_delays
    exact .inl ⟨position, bounded, first, by rw [retrying_final bounded first listed]⟩

end Endings

end RetryPolicy

/-- Without jitter, the delay after each of the first 1024 attempts is the base delay times a power
of two, or the cap if that is less; it is never negative, never falls from one attempt to a later
one, and never passes the cap. After any later attempt there is no delay at all: the power of two
is beyond the range of doubles, however low the cap. So a retried call ends with the first final
result or exhausted, unless it would be attempted again after its 1025th attempt. -/
theorem backoff_doubles {policy : RetryPolicy} {base cap : ℚ} (doubles : policy.Doubles base cap)
    (draw : Draw) :
    (∀ attempt : ℕ, 0 < attempt → attempt ≤ 1024 →
      ∃ delay, policy.delay draw attempt = .ok delay ∧
        delay.finiteValue? = some (min (base * 2 ^ (attempt - 1)) cap)) ∧
    (∀ attempt later : ℕ, 0 < attempt → attempt ≤ later → ∀ delay next,
      policy.delay draw attempt = .ok delay → policy.delay draw later = .ok next →
        ∃ seconds secondsNext, delay.finiteValue? = some seconds ∧
          next.finiteValue? = some secondsNext ∧
          0 ≤ seconds ∧ seconds ≤ secondsNext ∧ secondsNext ≤ cap) ∧
    (∀ attempt : ℕ, 1024 < attempt → policy.delay draw attempt = .error .overflow) ∧
    ∀ {α β : Type} (isRetried : Failure → Bool) (results : ℕ → Except Failure α) (arguments : β),
      0 < policy.maxAttempts →
        let retried := (retrying policy (fun _ => draw) isRetried (scripted results) arguments []).1
        (1025 < policy.maxAttempts ∧ NoneFinal isRetried results 1025 →
          retried.ending = .failed .overflow ∧ retried.calls = 1025) ∧
        (¬ (1025 < policy.maxAttempts ∧ NoneFinal isRetried results 1025) →
          (∃ position ≤ policy.maxAttempts, FirstFinal isRetried results position ∧
            retried.ending = .ofResult (results position)) ∨
          (NoneFinal isRetried results policy.maxAttempts ∧
            ∃ failure, results policy.maxAttempts = .error failure ∧
              retried.ending = .exhausted policy.maxAttempts failure)) := by
  refine ⟨fun _ => doubles.delay_value draw, ?_, fun _ => policy.delay_of_gt draw, ?_⟩
  · intro attempt later positive ordered delay next given givenNext
    exact doubles.delay_mono draw positive ordered given givenNext
  · intro α β isRetried results arguments positive
    constructor
    · rintro ⟨many, none⟩
      obtain ⟨delays, overrun⟩ : ∃ delays,
          retrying policy (fun _ => draw) isRetried (scripted results) arguments [] =
            (⟨.failed .overflow, 1025, delays⟩, List.replicate 1025 arguments) :=
        RetryPolicy.retrying_overruns many none
      exact ⟨by rw [overrun], by rw [overrun]⟩
    · exact RetryPolicy.retrying_ends positive

/-- Two thousand attempts, with delays from a second to five. -/
def RetryPolicy.patient : RetryPolicy := ⟨2000, .ofInt 1, .ofInt 5, false⟩

/-- The delays of the patient policy double from one second and are capped at five. -/
theorem RetryPolicy.patient_doubles : RetryPolicy.patient.Doubles 1 5 := by
  have one : Double.ofInt 1 = .finite false (2 ^ 52) (-52) := by decide +kernel
  have five : Double.ofInt 5 = .finite false (5 * 2 ^ 50) (-50) := by decide +kernel
  constructor
  · rfl
  · simp [patient, one, Double.InRange]
  · simp only [patient, one, Double.finiteValue?_finite]
    norm_num
  · norm_num
  · simp [patient, five, Double.InRange]
  · simp only [patient, five, Double.finiteValue?_finite]
    norm_num
  · norm_num

/-- The delay after its 1024th attempt is the cap, and there is none after the 1025th. -/
theorem patient_overruns :
    (∃ delay, RetryPolicy.patient.delay Draw.none (1024 : ℕ) = .ok delay ∧
      delay.finiteValue? = some (min (1 * 2 ^ (1024 - 1)) 5)) ∧
    RetryPolicy.patient.delay Draw.none (1025 : ℕ) = .error .overflow := by
  obtain ⟨doubling, -, overrun, -⟩ := backoff_doubles RetryPolicy.patient_doubles Draw.none
  exact ⟨doubling 1024 (by norm_num) (le_refl 1024), overrun 1025 (by norm_num)⟩

/-- Not every attempt has a delay, however low the cap: after 1025 attempts of the patient policy
the double of the product overflows, before the cap is looked at. -/
theorem patient_has_no_delay :
    ¬ ∀ (policy : RetryPolicy) (base cap : ℚ), policy.Doubles base cap →
      ∀ attempt : ℕ, 0 < attempt →
        ∃ delay, policy.delay Draw.none attempt = .ok delay ∧
          delay.finiteValue? = some (min (base * 2 ^ (attempt - 1)) cap) := by
  intro always
  obtain ⟨delay, given, -⟩ :=
    always .patient 1 5 RetryPolicy.patient_doubles 1025 (by norm_num)
  rw [RetryPolicy.patient.delay_of_gt Draw.none (by norm_num)] at given
  contradiction

end Accolade
