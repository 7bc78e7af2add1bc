import Accolade.Failure
import Accolade.Fact.Collaborators

/-!
# Retrying

A call that fails in a way that may pass is made again, up to a number of attempts. The
delay after an attempt doubles from the base delay and is capped; jitter moves it by at
most a tenth. The powers of two are whole numbers before they are doubles, so an attempt
whose power is beyond the range of doubles has no delay at all.

A retried call ends with a value, with a failure that is not retried, or exhausted with
the failure of its last attempt. There is no delay after the last attempt.
-/

namespace Accolade

/-- How often a call is attempted and how long is waited in between. -/
structure RetryPolicy where
  maxAttempts : Nat
  baseDelay : Double
  maxDelay : Double
  jitter : Bool
  deriving Repr

/-- A choice of a number between two bounds. -/
abbrev Draw := Double → Double → Double

namespace Draw

/-- Always the lower bound. -/
def lowest : Draw := fun a b => a.smaller b

/-- Always the upper bound. -/
def highest : Draw := fun a b => a.larger b

/-- Always zero. -/
def none : Draw := fun _ _ => .zero

end Draw

namespace RetryPolicy

/-- The policy with a number of attempts, which must be at least one. -/
def of (maxAttempts : Int) (baseDelay maxDelay : Double) (jitter : Bool) :
    Except Failure RetryPolicy :=
  if maxAttempts < 1 then .error (.belowOne "max_attempts")
  else .ok ⟨maxAttempts.toNat, baseDelay, maxDelay, jitter⟩

/-- The factor of the base delay after an attempt. -/
def factor (attempt : Int) : Except Failure Double :=
  if attempt < 1 then
    if (Double.ofInt (attempt - 1)).isFinite then .ok (Double.powerOfTwo (attempt - 1))
    else .error .overflow
  else
    let power := Double.powerOfTwo (attempt - 1)
    if power.isFinite then .ok power else .error .overflow

/-- A tenth. -/
def tenth : Double := .ofDecimal false 1 (-1)

/-- The capped delay after an attempt, before jitter. -/
def cappedDelay (policy : RetryPolicy) (attempt : Int) : Except Failure Double :=
  (factor attempt).map fun factor => (policy.baseDelay.multiply factor).smaller policy.maxDelay

/-- The delay after an attempt. -/
def delay (policy : RetryPolicy) (draw : Draw) (attempt : Int) : Except Failure Double :=
  (policy.cappedDelay attempt).map fun capped =>
    let moved :=
      if policy.jitter then
        capped.add (draw (capped.negate.multiply tenth) (capped.multiply tenth))
      else capped
    Double.zero.larger moved

end RetryPolicy

/-- How a retried call ends. -/
inductive Ending (α : Type)
  | value (value : α)
  | failed (failure : Failure)
  | exhausted (attempts : Nat) (last : Failure)
  | pending
  deriving Repr

/-- The message of a call whose attempts are exhausted. -/
def exhaustedMessage (call : String) (attempts : Nat) : String :=
  call ++ " failed after " ++ toString attempts ++ " attempts"

/-- A retried call: its ending, the number of calls made and the delays between them. -/
structure Retried (α : Type) where
  ending : Ending α
  calls : Nat
  delays : List Double
  deriving Repr

/-- Attempt a call, with so many attempts left after this one. The delay after each attempt has a
draw of its own. -/
def attemptFrom {σ α : Type} (policy : RetryPolicy) (draws : Nat → Draw)
    (isRetried : Failure → Bool) (call : σ → Reply α × σ) : Nat → Nat → σ → Retried α × σ
  | left, attempt, state =>
    match call state with
    | (.answer value, state) => (⟨.value value, attempt, []⟩, state)
    | (.pending, state) => (⟨.pending, attempt, []⟩, state)
    | (.failed failure, state) =>
      if isRetried failure then
        match left with
        | 0 => (⟨.exhausted attempt failure, attempt, []⟩, state)
        | left + 1 =>
          match policy.delay (draws attempt) attempt with
          | .error failure => (⟨.failed failure, attempt, []⟩, state)
          | .ok delay =>
            let (retried, state) := attemptFrom policy draws isRetried call left (attempt + 1) state
            ({ retried with delays := delay :: retried.delays }, state)
      else (⟨.failed failure, attempt, []⟩, state)

/-- A function under a policy: the function is called with the arguments given, in each attempt. -/
def retrying {σ α β : Type} (policy : RetryPolicy) (draws : Nat → Draw)
    (isRetried : Failure → Bool) (function : β → σ → Reply α × σ) (arguments : β) (state : σ) :
    Retried α × σ :=
  attemptFrom policy draws isRetried (function arguments) (policy.maxAttempts - 1) 1 state

/-- Make a call under a policy, with one draw for all delays. -/
def retry {σ α : Type} (policy : RetryPolicy) (draw : Draw) (isRetried : Failure → Bool)
    (call : σ → Reply α × σ) (state : σ) : Retried α × σ :=
  retrying policy (fun _ => draw) isRetried (fun _ : Unit => call) () state

end Accolade
