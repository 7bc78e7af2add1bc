import Accolade.Proofs.Retry

/-!
# Attempts of a function

A retried function is called until it comes to a value, or to a failure that is not retried, or has
been attempted often enough. What its calls come to is a sequence of results, one for each call;
which of them are tried again decides how many are made, and what the last of them comes to is what
the attempts come to. Between two calls there is the delay after the first of them.

If there is no delay after an attempt, the attempts end there, with a failure that the function
never came to.
-/

namespace Accolade

section Functions

variable {α β : Type}

/-- The reply that a result is. -/
def Reply.ofResult : Except Failure α → Reply α
  | .ok value => .answer value
  | .error failure => .failed failure

/-- The ending that a result is. -/
def Ending.ofResult : Except Failure α → Ending α
  | .ok result => .value result
  | .error failure => .failed failure

/-- A function that comes to one result after another, and notes with which arguments it was
called. -/
def scripted (results : Nat → Except Failure α) (arguments : β) (called : List β) :
    Reply α × List β :=
  (.ofResult (results (called.length + 1)), called ++ [arguments])

/-- Whether a result ends the attempts: it is a value, or a failure that is not retried. -/
def isFinal (isRetried : Failure → Bool) : Except Failure α → Bool
  | .ok _ => true
  | .error failure => !isRetried failure

/-- Whether none of the first results ends the attempts. -/
def NoneFinal (isRetried : Failure → Bool) (results : Nat → Except Failure α) (first : Nat) :
    Prop :=
  ∀ attempt, 0 < attempt → attempt ≤ first → isFinal isRetried (results attempt) = false

/-- Whether the first result to end the attempts has this position, counted from one. -/
structure FirstFinal (isRetried : Failure → Bool) (results : Nat → Except Failure α)
    (position : Nat) : Prop where
  positive : 0 < position
  final : isFinal isRetried (results position) = true
  earlier : NoneFinal isRetried results (position - 1)

/-- A result that does not end the attempts is a failure that is retried. -/
theorem exists_of_not_isFinal {isRetried : Failure → Bool} {result : Except Failure α}
    (again : isFinal isRetried result = false) :
    ∃ failure, result = .error failure ∧ isRetried failure = true := by
  cases result with
  | ok value => contradiction
  | error failure => exact ⟨failure, rfl, by simpa [isFinal] using again⟩

/-- Either none of the first results ends the attempts, or one of them is the first to do so. -/
theorem noneFinal_or_firstFinal (isRetried : Failure → Bool) (results : Nat → Except Failure α)
    (most : Nat) :
    NoneFinal isRetried results most ∨
      ∃ position, position ≤ most ∧ FirstFinal isRetried results position := by
  induction most with
  | zero => exact .inl fun attempt positive bounded => by omega
  | succ most inductionHypothesis =>
    rcases inductionHypothesis with none | ⟨position, bounded, first⟩
    · cases final : isFinal isRetried (results (most + 1)) with
      | true => exact .inr ⟨most + 1, Nat.le_refl _, Nat.succ_pos most, final, none⟩
      | false =>
        refine .inl fun attempt positive bounded => ?_
        rcases Nat.lt_or_eq_of_le bounded with less | rfl
        · exact none attempt positive (Nat.le_of_lt_succ less)
        · exact final
    · exact .inr ⟨position, Nat.le_succ_of_le bounded, first⟩

end Functions

namespace RetryPolicy

/-- The delays after the first attempts, in order. -/
def delaysAfter (policy : RetryPolicy) (draws : Nat → Draw) (attempts : Nat) :
    List (Except Failure Double) :=
  (List.range' 1 attempts).map fun attempt : Nat => policy.delay (draws attempt) attempt

/-- Whether there is a delay after each of the first attempts. -/
def HasDelays (policy : RetryPolicy) (draws : Nat → Draw) (attempts : Nat) : Prop :=
  ∀ attempt : Nat, 0 < attempt → attempt ≤ attempts →
    ∃ delay, policy.delay (draws attempt) attempt = .ok delay

variable {policy : RetryPolicy} {draws : Nat → Draw}

/-- One more attempt has the delays of those before it, and its own behind them. -/
theorem delaysAfter_succ (attempts : Nat) :
    policy.delaysAfter draws (attempts + 1) =
      policy.delaysAfter draws attempts ++
        [policy.delay (draws (attempts + 1)) (attempts + 1 : Nat)] := by
  simp [delaysAfter, List.range'_1_concat, Nat.add_comm 1 attempts]

/-- If there is a delay after each of some attempts, the delays can be listed without failures among
them. -/
theorem HasDelays.exists_delays {attempts : Nat} (delayed : policy.HasDelays draws attempts) :
    ∃ delays : List Double, policy.delaysAfter draws attempts = delays.map .ok := by
  induction attempts with
  | zero => exact ⟨[], rfl⟩
  | succ attempts inductionHypothesis =>
    obtain ⟨delays, listed⟩ := inductionHypothesis fun attempt positive bounded =>
      delayed attempt positive (Nat.le_succ_of_le bounded)
    obtain ⟨delay, last⟩ := delayed (attempts + 1) (Nat.succ_pos attempts) (Nat.le_refl _)
    refine ⟨delays ++ [delay], ?_⟩
    rw [delaysAfter_succ, listed, last, List.map_append, List.map_singleton]

end RetryPolicy

section Attempts

variable {σ α β : Type} {policy : RetryPolicy} {draws : Nat → Draw} {isRetried : Failure → Bool}

/-- A call that comes to a final result ends the attempts with it. -/
theorem attemptFrom_final {call : σ → Reply α × σ} {left attempt : Nat} {state later : σ}
    {result : Except Failure α} (replied : call state = (.ofResult result, later))
    (final : isFinal isRetried result = true) :
    attemptFrom policy draws isRetried call left attempt state =
      (⟨.ofResult result, attempt, []⟩, later) := by
  unfold attemptFrom
  rw [replied]
  cases result with
  | ok value => rfl
  | error failure =>
    have notRetried : isRetried failure = false := by simpa [isFinal] using final
    simp only [Reply.ofResult, notRetried, Bool.false_eq_true, if_false, Ending.ofResult]

/-- A failure that would be retried exhausts the last attempt: no delay follows, and the failure is
handed on with the number of attempts made. -/
theorem attemptFrom_last {call : σ → Reply α × σ} {attempt : Nat} {state later : σ}
    {failure : Failure} (replied : call state = (.failed failure, later))
    (retried : isRetried failure = true) :
    attemptFrom policy draws isRetried call 0 attempt state =
      (⟨.exhausted attempt failure, attempt, []⟩, later) := by
  unfold attemptFrom
  rw [replied]
  simp only [retried, if_true]

/-- Without a delay, a failure that would be retried ends the attempts with another. -/
theorem attemptFrom_undelayed {call : σ → Reply α × σ} {left attempt : Nat} {state later : σ}
    {failure overrun : Failure} (replied : call state = (.failed failure, later))
    (retried : isRetried failure = true)
    (undelayed : policy.delay (draws attempt) attempt = .error overrun) :
    attemptFrom policy draws isRetried call (left + 1) attempt state =
      (⟨.failed overrun, attempt, []⟩, later) := by
  unfold attemptFrom
  rw [replied]
  simp only [retried, if_true, undelayed]

/-- With a delay, a failure that is retried is followed by the attempts left. -/
theorem attemptFrom_again {call : σ → Reply α × σ} {left attempt : Nat} {state later : σ}
    {failure : Failure} {delay : Double} (replied : call state = (.failed failure, later))
    (retried : isRetried failure = true)
    (delayed : policy.delay (draws attempt) attempt = .ok delay) :
    attemptFrom policy draws isRetried call (left + 1) attempt state =
      Prod.map (fun rest => { rest with delays := delay :: rest.delays }) id
        (attemptFrom policy draws isRetried call left (attempt + 1) later) := by
  rw [attemptFrom, replied]
  simp only [retried, if_true, delayed]
  rfl

/-- A retried call that was already attempted, with the delays up to now. -/
def Retried.behind (delays : List Double) (retried : Retried α) : Retried α :=
  { retried with delays := delays ++ retried.delays }

variable {results : Nat → Except Failure α} {arguments : β}

/-- After some calls with the same arguments, the next one comes to the result behind those. -/
theorem scripted_replicate (results : Nat → Except Failure α) (arguments : β) (behind : Nat) :
    scripted results arguments (List.replicate behind arguments) =
      (.ofResult (results (behind + 1)), List.replicate (behind + 1) arguments) := by
  simp [scripted, List.replicate_succ']

/-- Where the next result of the script is a failure, the scripted call fails with it and notes its
arguments. -/
theorem scripted_failed (arguments : β) {behind : Nat} {failure : Failure}
    (failed : results (behind + 1) = .error failure) :
    scripted results arguments (List.replicate behind arguments) =
      (.failed failure, List.replicate (behind + 1) arguments) := by
  rw [scripted_replicate, failed, Reply.ofResult]

/-- As long as no result is final and there are delays, the attempts go on: what is left of them
follows, behind the delays and the calls made.

Proof: by induction on the attempts that are behind. One more of them is the first of those that
were left, so the step lemma applies to it. -/
theorem attemptFrom_scripted {behind left : Nat}
    (again : NoneFinal isRetried results behind) {delays : List Double}
    (delayed : policy.delaysAfter draws behind = delays.map .ok) :
    attemptFrom policy draws isRetried (scripted results arguments) (behind + left) 1 [] =
      Prod.map (Retried.behind delays) id
        (attemptFrom policy draws isRetried (scripted results arguments) left (behind + 1)
          (List.replicate behind arguments)) := by
  induction behind generalizing left delays with
  | zero =>
    have none : delays = [] := by simpa [RetryPolicy.delaysAfter] using delayed.symm
    subst none
    rw [Nat.zero_add]
    rfl
  | succ behind inductionHypothesis =>
    rw [RetryPolicy.delaysAfter_succ] at delayed
    obtain ⟨earlier, last, split, listed, ends⟩ := List.append_eq_map_iff.mp delayed
    obtain ⟨delay, rfl, given⟩ := List.map_eq_singleton_iff.mp ends
    obtain ⟨failure, failed, retried⟩ :=
      exists_of_not_isFinal (again (behind + 1) (Nat.succ_pos behind) (Nat.le_refl _))
    have replied := scripted_failed arguments failed
    have earlierAgain : NoneFinal isRetried results behind := fun attempt positive bounded =>
      again attempt positive (Nat.le_succ_of_le bounded)
    rw [Nat.add_assoc, Nat.add_comm 1 left, inductionHypothesis earlierAgain listed.symm,
      attemptFrom_again replied retried given.symm, split]
    simp [Prod.map, Retried.behind]

/-- A function whose first final result comes in time is called up to it, and the attempts end with
it. -/
theorem retrying_final {position : Nat} (bounded : position ≤ policy.maxAttempts)
    (first : FirstFinal isRetried results position) {delays : List Double}
    (delayed : policy.delaysAfter draws (position - 1) = delays.map .ok) :
    retrying policy draws isRetried (scripted results) arguments [] =
      (⟨.ofResult (results position), position, delays⟩, List.replicate position arguments) := by
  obtain ⟨behind, rfl⟩ := Nat.exists_eq_add_one.mpr first.positive
  have earlier : NoneFinal isRetried results behind := first.earlier
  have budget : policy.maxAttempts - 1 = behind + (policy.maxAttempts - (behind + 1)) := by omega
  rw [retrying, budget, attemptFrom_scripted earlier delayed,
    attemptFrom_final (scripted_replicate results arguments behind) first.final]
  simp [Prod.map, Retried.behind]

/-- A function that comes to no final result is called as often as allowed, and the attempts end
exhausted. -/
theorem retrying_exhausted (positive : 0 < policy.maxAttempts)
    (none : NoneFinal isRetried results policy.maxAttempts) {delays : List Double}
    (delayed : policy.delaysAfter draws (policy.maxAttempts - 1) = delays.map .ok) :
    ∃ failure, results policy.maxAttempts = .error failure ∧
      retrying policy draws isRetried (scripted results) arguments [] =
        (⟨.exhausted policy.maxAttempts failure, policy.maxAttempts, delays⟩,
          List.replicate policy.maxAttempts arguments) := by
  obtain ⟨failure, failed, retried⟩ :=
    exists_of_not_isFinal (none policy.maxAttempts positive (Nat.le_refl _))
  refine ⟨failure, failed, ?_⟩
  obtain ⟨behind, most⟩ := Nat.exists_eq_add_one.mpr positive
  have earlier : NoneFinal isRetried results behind := fun attempt positive bounded =>
    none attempt positive (by omega)
  rw [most, Nat.add_sub_cancel] at delayed
  rw [most] at failed
  have replied := scripted_failed arguments failed
  have budget : policy.maxAttempts - 1 = behind + 0 := by omega
  rw [retrying, budget, attemptFrom_scripted earlier delayed, attemptFrom_last replied retried,
    most]
  simp [Prod.map, Retried.behind]

/-- A function whose results up to an attempt are not final, and that has no delay after it, is
called up to that attempt; the attempts end with what kept the delay from being. -/
theorem retrying_undelayed {attempt : Nat} (positive : 0 < attempt)
    (bounded : attempt < policy.maxAttempts) (none : NoneFinal isRetried results attempt)
    {delays : List Double} (delayed : policy.delaysAfter draws (attempt - 1) = delays.map .ok)
    {overrun : Failure} (undelayed : policy.delay (draws attempt) attempt = .error overrun) :
    retrying policy draws isRetried (scripted results) arguments [] =
      (⟨.failed overrun, attempt, delays⟩, List.replicate attempt arguments) := by
  obtain ⟨behind, rfl⟩ := Nat.exists_eq_add_one.mpr positive
  obtain ⟨failure, failed, retried⟩ :=
    exists_of_not_isFinal (none (behind + 1) positive (Nat.le_refl _))
  have earlier : NoneFinal isRetried results behind := fun attempt positive bounded =>
    none attempt positive (Nat.le_succ_of_le bounded)
  have budget : policy.maxAttempts - 1 = behind + ((policy.maxAttempts - (behind + 2)) + 1) := by
    omega
  have replied := scripted_failed arguments failed
  rw [retrying, budget, attemptFrom_scripted earlier delayed,
    attemptFrom_undelayed replied retried undelayed]
  simp [Prod.map, Retried.behind]

/-- A retried function is called up to its first final result, or as often as allowed, with the
same arguments each time. The attempts end with the result of the last call, or exhausted with its
failure. Between the calls are the delays after them, and none follows the last call. -/
theorem retrying_calls (policy : RetryPolicy) (positive : 0 < policy.maxAttempts)
    (draws : Nat → Draw) (isRetried : Failure → Bool) (results : Nat → Except Failure α)
    (arguments : β) :
    (∀ position ≤ policy.maxAttempts, FirstFinal isRetried results position →
      policy.HasDelays draws (position - 1) →
        ∃ delays : List Double, policy.delaysAfter draws (position - 1) = delays.map .ok ∧
          retrying policy draws isRetried (scripted results) arguments [] =
            (⟨.ofResult (results position), position, delays⟩,
              List.replicate position arguments)) ∧
    (NoneFinal isRetried results policy.maxAttempts →
      policy.HasDelays draws (policy.maxAttempts - 1) →
        ∃ (failure : Failure) (delays : List Double),
          results policy.maxAttempts = .error failure ∧
          policy.delaysAfter draws (policy.maxAttempts - 1) = delays.map .ok ∧
          retrying policy draws isRetried (scripted results) arguments [] =
            (⟨.exhausted policy.maxAttempts failure, policy.maxAttempts, delays⟩,
              List.replicate policy.maxAttempts arguments)) := by
  constructor
  · intro position bounded first delayed
    obtain ⟨delays, listed⟩ := delayed.exists_delays
    exact ⟨delays, listed, retrying_final bounded first listed⟩
  · intro none delayed
    obtain ⟨delays, listed⟩ := delayed.exists_delays
    obtain ⟨failure, failed, ended⟩ := retrying_exhausted positive none listed
    exact ⟨failure, delays, failed, listed, ended⟩

/-- Three attempts, with delays of a second and of two in between. -/
def RetryPolicy.sample : RetryPolicy := ⟨3, .ofInt 1, .ofInt 5, false⟩

/-- A query that is reset a number of times before it succeeds. -/
def resetTimes (times call : Nat) : Except Failure String :=
  if call ≤ times then .error (.foreign "reset") else .ok "levels"

/-- Of three attempts, the third one succeeds after two resets, and none does after three. -/
theorem retrying_reset :
    (∃ delays : List Double,
      RetryPolicy.sample.delaysAfter (fun _ => Draw.none) 2 = delays.map .ok ∧
      retrying .sample (fun _ => Draw.none) (fun _ => true) (scripted (resetTimes 2)) "xp" [] =
        (⟨.value "levels", 3, delays⟩, ["xp", "xp", "xp"])) ∧
    (∃ (failure : Failure) (delays : List Double), resetTimes 3 3 = .error failure ∧
      RetryPolicy.sample.delaysAfter (fun _ => Draw.none) 2 = delays.map .ok ∧
      retrying .sample (fun _ => Draw.none) (fun _ => true) (scripted (resetTimes 3)) "xp" [] =
        (⟨.exhausted 3 failure, 3, delays⟩, ["xp", "xp", "xp"])) := by
  have positive : 0 < RetryPolicy.sample.maxAttempts := by decide
  have delayed : RetryPolicy.sample.HasDelays (fun _ => Draw.none) 2 :=
    fun attempt positive bounded => RetryPolicy.delay_of_le _ _ positive (by omega)
  have reset : ∀ times, NoneFinal (fun _ => true) (resetTimes times) times := by
    intro times attempt positive bounded
    simp [resetTimes, bounded, isFinal]
  constructor
  · exact (retrying_calls .sample positive _ _ (resetTimes 2) "xp").1 3 (Nat.le_refl 3)
      ⟨Nat.succ_pos 2, rfl, reset 2⟩ delayed
  · exact (retrying_calls .sample positive _ _ (resetTimes 3) "xp").2 (reset 3) delayed

end Attempts

end Accolade
