import Accolade.Cycle.Process
import Accolade.Proofs.Evaluation

/-!
# What a check tells

A rule is due in a state when its requirement is fulfilled there and the amount awarded is
below its cap. A check that comes out for an award was made in a state in which the rule was
due, under whatever retries. On a calm lookup the converse holds as well: no check hangs or is
retried, nothing changes, and exactly the rules that are due come out for an award. A failure
leaves such a check only where an integer would have to be written that is too long for it.
-/

namespace Accolade

variable {σ : Type}

/-- A failure that lasts is not tried again, since only transient ones are. -/
theorem Failure.Lasts.isTransient_eq_false {brief : Prop} {failure : Failure}
    (lasts : failure.Lasts brief) : failure.isTransient = false := by
  cases lasts with
  | diagnosed lasting => exact lasting
  | tooLong => rfl

section Movement

variable {lookup : Lookup σ} {R : σ → σ → Prop}

/-- Evaluating a rule moves the state only as lookups do. -/
theorem Rule.isFulfilled_moves (moves : lookup.Moves R) (context : Context) (rule : Rule)
    (state : σ) : R state (rule.isFulfilled lookup context state).2 :=
  Requirement.evaluate_moves moves (context.forScope rule.scope) rule.requirement state

/-- The comparison with the cap leads to a related state, since it does no more than look up the
awards of the rule. -/
theorem Rule.canBeAwarded_moves (moves : lookup.Moves R) (context : Context) (rule : Rule)
    (state : σ) : R state (rule.canBeAwarded lookup context state).2 := by
  have told := awardedAmount_moves moves (context.forScope rule.scope) rule.name state
  unfold Rule.canBeAwarded
  split
  · split <;> simp_all
  · simp_all
  · simp_all

/-- A whole check leads to a related state, through the evaluation of the requirement and the
comparison with the cap. -/
theorem Rule.check_moves (moves : lookup.Moves R) (context : Context) (rule : Rule) (state : σ) :
    R state (rule.check lookup context state).2 := by
  have evaluated : R state (rule.isFulfilled lookup context state).2 :=
    rule.isFulfilled_moves moves context state
  unfold Rule.check
  split
  · rename_i later replied
    rw [replied] at evaluated
    have compared : R state (rule.canBeAwarded lookup context later).2 :=
      moves.trans evaluated (rule.canBeAwarded_moves moves context later)
    split <;> simp_all
  all_goals simp_all

variable {α : Type} {policy : RetryPolicy} {draws : Nat → Draw}
  {isRetried : Failure → Bool} {call : σ → Reply α × σ}

/-- Attempts move the state only as the call does. -/
theorem attemptFrom_moves (moves : lookup.Moves R) (called : ∀ state, R state (call state).2)
    (left attempt : Nat) (state : σ) :
    R state (attemptFrom policy draws isRetried call left attempt state).2 := by
  induction left generalizing attempt state with
  | zero =>
    have first : R state (call state).2 := called state
    unfold attemptFrom
    split
    · simp_all
    · simp_all
    · split <;> simp_all
  | succ left inductionHypothesis =>
    have first : R state (call state).2 := called state
    unfold attemptFrom
    split
    · simp_all
    · simp_all
    · rename_i later replied
      rw [replied] at first
      split
      · cases policy.delay (draws attempt) attempt with
        | error failure => exact first
        | ok delay => exact moves.trans first (inductionHypothesis (attempt + 1) later)
      · exact first

/-- A value that attempts end with was answered by the call, in a state that was reached. -/
theorem attemptFrom_value (moves : lookup.Moves R) (called : ∀ state, R state (call state).2)
    {left attempt : Nat} {state : σ} {value : α}
    (ended : (attemptFrom policy draws isRetried call left attempt state).1.ending = .value value) :
    ∃ later, R state later ∧ (call later).1 = .answer value := by
  induction left generalizing attempt state with
  | zero =>
    unfold attemptFrom at ended
    split at ended
    · rename_i answered _ replied
      cases ended
      exact ⟨state, moves.refl state, by rw [replied]⟩
    · contradiction
    · split at ended <;> contradiction
  | succ left inductionHypothesis =>
    have first : R state (call state).2 := called state
    unfold attemptFrom at ended
    split at ended
    · rename_i answered _ replied
      cases ended
      exact ⟨state, moves.refl state, by rw [replied]⟩
    · contradiction
    · rename_i failure next replied
      rw [replied] at first
      split at ended
      · cases delayed : policy.delay (draws attempt) attempt with
        | error failure =>
          simp only [delayed] at ended
          contradiction
        | ok delay =>
          simp only [delayed] at ended
          obtain ⟨later, reached, answered⟩ := inductionHypothesis ended
          exact ⟨later, moves.trans first reached, answered⟩
      · contradiction

/-- A judgement moves the state only as lookups do. -/
theorem Rule.judge_moves (moves : lookup.Moves R) (policy : Option RetryPolicy)
    (context : Context) (rule : Rule) (state : σ) :
    R state (rule.judge lookup policy context state).2 := by
  cases policy with
  | none => exact rule.check_moves moves context state
  | some policy =>
    exact attemptFrom_moves moves (rule.check_moves moves context) (policy.maxAttempts - 1) 1 state

/-- The judgements on all rules lead to a related state, one judgement after the other. -/
theorem Engine.judgeAll_moves (moves : lookup.Moves R) (engine : Engine) (context : Context)
    (rules : List Rule) (state : σ) : R state (engine.judgeAll lookup context rules state).2 := by
  induction rules generalizing state with
  | nil => exact moves.refl state
  | cons rule rest inductionHypothesis =>
    exact moves.trans (rule.judge_moves moves engine.retry context state)
      (inductionHypothesis (rule.judge lookup engine.retry context state).2)

/-- An ending whose verdict has no error is a value: the outcome tells what the check replied. -/
theorem Verdict.ofEnding_checked {rule : String} {ending : Ending (Bool × Bool)}
    {outcome : Outcome} (judged : Verdict.ofEnding rule ending = .judged outcome)
    (flawless : outcome.error = none) :
    ending = .value (outcome.fulfilled, outcome.awardable) ∧
      outcome = .checked rule outcome.fulfilled outcome.awardable := by
  have failing : ∀ failure, Verdict.ofFailure rule failure ≠ .judged outcome := by
    intro failure same
    unfold Verdict.ofFailure at same
    split at same
    · cases same
      contradiction
    · contradiction
  unfold Verdict.ofEnding at judged
  split at judged
  · cases judged
    exact ⟨rfl, rfl⟩
  · exact absurd judged (failing _)
  · exact absurd judged (failing _)
  · contradiction

/-- A verdict on a rule has the outcome of a check of this rule, or of its failure. -/
theorem Verdict.ofEnding_judged {rule : String} {ending : Ending (Bool × Bool)} {outcome : Outcome}
    (judged : Verdict.ofEnding rule ending = .judged outcome) :
    (∃ fulfilled awardable, outcome = .checked rule fulfilled awardable) ∨
      ∃ error, outcome = .failed rule error := by
  have failed : ∀ failure, Verdict.ofFailure rule failure = .judged outcome →
      ∃ error, outcome = .failed rule error := by
    intro failure same
    unfold Verdict.ofFailure at same
    split at same
    · cases same
      exact ⟨_, rfl⟩
    · contradiction
  unfold Verdict.ofEnding at judged
  split at judged
  · cases judged
    exact .inl ⟨_, _, rfl⟩
  · exact .inr (failed _ judged)
  · exact .inr (failed _ judged)
  · contradiction

/-- The verdict on a rule has an outcome with the name of that rule, whatever the ending is. -/
theorem Verdict.ofEnding_rule {rule : String} {ending : Ending (Bool × Bool)} {outcome : Outcome}
    (judged : Verdict.ofEnding rule ending = .judged outcome) : outcome.rule = rule := by
  rcases Verdict.ofEnding_judged judged with ⟨fulfilled, awardable, rfl⟩ | ⟨error, rfl⟩
  · rfl
  · rfl

/-- A rule that is judged without error was checked so in a state that was reached. -/
theorem Rule.judge_checked (moves : lookup.Moves R) {policy : Option RetryPolicy}
    {context : Context} {rule : Rule} {state : σ} {outcome : Outcome}
    (judged : (rule.judge lookup policy context state).1 = .judged outcome)
    (flawless : outcome.error = none) :
    outcome = .checked rule.name outcome.fulfilled outcome.awardable ∧ ∃ later, R state later ∧
      (rule.check lookup context later).1 = .answer (outcome.fulfilled, outcome.awardable) := by
  cases policy with
  | none =>
    obtain ⟨ending, same⟩ := Verdict.ofEnding_checked judged flawless
    refine ⟨same, state, moves.refl state, ?_⟩
    unfold Verdict.endingOf at ending
    split at ending
    · rename_i value answered
      cases ending
      exact answered
    all_goals contradiction
  | some policy =>
    obtain ⟨ending, same⟩ := Verdict.ofEnding_checked judged flawless
    exact ⟨same, attemptFrom_value moves (rule.check_moves moves context) ending⟩

/-- A rule that comes out for an award was found fulfilled and below its cap, in a state that
was reached. -/
theorem Rule.judge_shouldAward (moves : lookup.Moves R) {policy : Option RetryPolicy}
    {context : Context} {rule : Rule} {state : σ} {outcome : Outcome}
    (judged : (rule.judge lookup policy context state).1 = .judged outcome)
    (chosen : outcome.shouldAward = true) :
    ∃ later, R state later ∧ (rule.check lookup context later).1 = .answer (true, true) := by
  simp only [Outcome.shouldAward, Bool.and_eq_true, Option.isNone_iff_eq_none] at chosen
  obtain ⟨⟨fulfilled, awardable⟩, flawless⟩ := chosen
  have checked := (judge_checked moves judged flawless).2
  rwa [fulfilled, awardable] at checked

end Movement

namespace Rule

/-- Whether a rule is due: its requirement is fulfilled within its scope, and the amount
awarded there is below its cap. -/
def IsDue (lookup : Lookup σ) (context : Context) (state : σ) (rule : Rule) : Prop :=
  (rule.isFulfilled lookup context state).1 = .answer true ∧ ∃ total : Int,
    (awardedAmount lookup (context.forScope rule.scope) rule.name state).1 =
      .answer (.integer total) ∧ total < rule.maxAwarded

variable {lookup : Lookup σ} {context : Context} {state : σ}

/-- A check in a state that no lookup changes, by the replies on the requirement and the cap. -/
theorem check_eq (still : lookup.IsStill state) (rule : Rule) :
    (rule.check lookup context state).1 =
      match (rule.isFulfilled lookup context state).1 with
      | .answer true =>
        match (rule.canBeAwarded lookup context state).1 with
        | .answer below => .answer (true, below)
        | .failed failure => .failed failure
        | .pending => .pending
      | .answer false => .answer (false, false)
      | .failed failure => .failed failure
      | .pending => .pending := by
  have kept : (rule.isFulfilled lookup context state).2 = state :=
    rule.isFulfilled_moves still.moves context state rfl
  unfold check
  cases replied : rule.isFulfilled lookup context state with
  | mk reply after =>
    obtain rfl : after = state := by rw [← kept, replied]
    cases reply with
    | answer fulfilled =>
      cases fulfilled with
      | false => rfl
      | true =>
        cases compared : rule.canBeAwarded lookup context after with
        | mk reply later => cases reply <;> simp [compared]
    | failed failure => rfl
    | pending => rfl

/-- Whether a rule can be awarded depends on nothing but the amount awarded. -/
theorem canBeAwarded_congr {rule : Rule} {first second : σ}
    (amounts : (awardedAmount lookup (context.forScope rule.scope) rule.name second).1 =
      (awardedAmount lookup (context.forScope rule.scope) rule.name first).1) :
    (rule.canBeAwarded lookup context second).1 = (rule.canBeAwarded lookup context first).1 := by
  unfold canBeAwarded
  cases here : awardedAmount lookup (context.forScope rule.scope) rule.name first with
  | mk reply state =>
    cases there : awardedAmount lookup (context.forScope rule.scope) rule.name second with
    | mk other later =>
      rw [here, there] at amounts
      obtain rfl : other = reply := amounts
      cases other with
      | answer total =>
        dsimp only
        cases (AmountTest.mk .less rule.maxAwarded).holds total <;> rfl
      | failed failure => rfl
      | pending => rfl

/-- A check that leaves the state comes out for an award exactly when the rule is fulfilled and can
be awarded. -/
theorem check_true (still : lookup.IsStill state) (rule : Rule) :
    (rule.check lookup context state).1 = .answer (true, true) ↔
      (rule.isFulfilled lookup context state).1 = .answer true ∧
        (rule.canBeAwarded lookup context state).1 = .answer true := by
  rw [check_eq still]
  match (rule.isFulfilled lookup context state).1 with
  | .answer true => cases (rule.canBeAwarded lookup context state).1 <;> simp
  | .answer false => simp
  | .failed failure => simp
  | .pending => simp

/-- Whether everything can be written that a check of a rule may have to write: the thresholds for
events that its requirement notes, and the attributes of the context, which a diagnosis shows. -/
def IsBrief (context : Context) (rule : Rule) : Prop :=
  rule.requirement.isBrief = true ∧ Value.entriesHaveText context.attributes = true

/-- Whether a rule is brief can be seen from its requirement and the attributes. -/
instance (context : Context) (rule : Rule) : Decidable (rule.IsBrief context) :=
  inferInstanceAs (Decidable (_ ∧ _))

/-- On a calm lookup the evaluation of a rule is decided: it answers, or fails with what retries do
not heal. -/
theorem isFulfilled_decided (calm : lookup.IsCalm state)
    (texts : AreTexts (Entries.keys context.attributes)) (rule : Rule) :
    (rule.isFulfilled lookup context state).1.IsDecided (rule.IsBrief context) :=
  Requirement.evaluate_decided calm (context.forScope rule.scope) texts And.right
    rule.requirement And.left

/-- Whether the evaluation of a rule is left because an integer is too long to be written. -/
def Overruns (lookup : Lookup σ) (context : Context) (state : σ) (rule : Rule) : Prop :=
  (rule.isFulfilled lookup context state).1 = .failed .tooLongToWrite

/-- A rule whose evaluation is left by a failure is not due, since due rules are fulfilled. -/
theorem Overruns.not_isDue {rule : Rule} (overruns : rule.Overruns lookup context state) :
    ¬ rule.IsDue lookup context state := by
  rintro ⟨fulfilled, _⟩
  cases overruns.symm.trans fulfilled

/-- On a calm lookup no failure leaves the evaluation of a brief rule, whose thresholds can all be
written. -/
theorem Overruns.not_isBrief {rule : Rule} (overruns : rule.Overruns lookup context state)
    (calm : lookup.IsCalm state) (texts : AreTexts (Entries.keys context.attributes)) :
    ¬ rule.IsBrief context := by
  have evaluated := isFulfilled_decided calm texts rule
  rw [overruns] at evaluated
  cases evaluated with
  | failed lasts =>
    cases lasts with
    | tooLong long => exact long

/-- On a calm lookup the comparison with the cap is made, or it fails with a diagnosis. -/
theorem canBeAwarded_decided (calm : lookup.IsCalm state)
    (texts : AreTexts (Entries.keys context.attributes)) (rule : Rule) :
    (rule.canBeAwarded lookup context state).1.IsDecided True := by
  rcases awardedAmount_cases calm (context.forScope rule.scope) rule.name texts with
    ⟨total, told⟩ | ⟨diagnosis, category, told⟩
  · simp only [canBeAwarded, told, AmountTest.less_holds]
    exact .answer _
  · simp only [canBeAwarded, told]
    exact .failed (.diagnosed (by simp [Diagnosis.isTransient, category]))

/-- On a calm lookup a check fails with a diagnosis that lasts, unless the evaluation is left. -/
theorem check_decided (calm : lookup.IsCalm state)
    (texts : AreTexts (Entries.keys context.attributes)) (rule : Rule) :
    (rule.check lookup context state).1.IsDecided (¬ rule.Overruns lookup context state) := by
  have evaluated := isFulfilled_decided calm texts rule
  have compared := canBeAwarded_decided calm texts rule
  rw [check_eq calm.still]
  cases told : (rule.isFulfilled lookup context state).1 with
  | pending =>
    rw [told] at evaluated
    nomatch evaluated
  | failed failure =>
    rw [told] at evaluated
    cases evaluated with
    | failed lasts =>
      cases lasts with
      | diagnosed lasting => exact .failed (.diagnosed lasting)
      | tooLong => exact .failed (.tooLong fun sound => sound told)
  | answer fulfilled =>
    cases fulfilled with
    | false => exact .answer _
    | true =>
      match (rule.canBeAwarded lookup context state).1, compared with
      | _, .answer _ => exact .answer _
      | _, .failed (.diagnosed lasting) => exact .failed (.diagnosed lasting)
      | _, .failed (.tooLong long) => exact absurd trivial long

/-- On a calm lookup the check comes out for an award exactly when the rule is due. -/
theorem check_true_iff (calm : lookup.IsCalm state)
    (texts : AreTexts (Entries.keys context.attributes)) (rule : Rule) :
    (rule.check lookup context state).1 = .answer (true, true) ↔
      rule.IsDue lookup context state := by
  rw [check_true calm.still]
  refine and_congr_right fun _ => ?_
  rcases awardedAmount_cases calm (context.forScope rule.scope) rule.name texts with
    ⟨total, told⟩ | ⟨diagnosis, _, told⟩
  · simp [canBeAwarded, told, AmountTest.less_holds]
  · simp [canBeAwarded, told]

/-- A check that is decided is not retried, so the verdict on the rule is that of its first ending.
-/
theorem judge_of_decided {brief : Prop} {rule : Rule} (policy : Option RetryPolicy)
    (decided : (rule.check lookup context state).1.IsDecided brief) :
    rule.judge lookup policy context state =
      (.ofEnding rule.name (Verdict.endingOf (rule.check lookup context state).1),
        (rule.check lookup context state).2) := by
  cases policy with
  | none => rfl
  | some policy =>
    cases checked : rule.check lookup context state with
    | mk reply later =>
      rw [checked] at decided
      simp only [judge, retry, retrying]
      unfold attemptFrom
      match reply, decided with
      | _, .answer value =>
        simp only [checked]
        rfl
      | _, .failed lasts =>
        simp only [checked, lasts.isTransient_eq_false, Bool.false_eq_true, if_false]
        rfl

/-- On a calm lookup the judgement is that of a single check, and nothing changes. -/
theorem judge_of_calm (calm : lookup.IsCalm state)
    (texts : AreTexts (Entries.keys context.attributes)) (policy : Option RetryPolicy)
    (rule : Rule) :
    rule.judge lookup policy context state =
      (.ofEnding rule.name (Verdict.endingOf (rule.check lookup context state).1), state) := by
  have kept : (rule.check lookup context state).2 = state :=
    rule.check_moves calm.still.moves context state rfl
  rw [judge_of_decided policy (check_decided calm texts rule), kept]

/-- A judgement on a rule is the verdict on some ending of its check. -/
theorem judge_ofEnding (lookup : Lookup σ) (policy : Option RetryPolicy) (context : Context)
    (rule : Rule) (state : σ) :
    ∃ ending, (rule.judge lookup policy context state).1 = .ofEnding rule.name ending := by
  cases policy with
  | none => exact ⟨_, rfl⟩
  | some policy => exact ⟨_, rfl⟩

/-- A judgement on a rule has an outcome with the name of that rule. -/
theorem judge_rule {policy : Option RetryPolicy} {rule : Rule} {outcome : Outcome}
    (judged : (rule.judge lookup policy context state).1 = .judged outcome) :
    outcome.rule = rule.name := by
  obtain ⟨ending, reached⟩ := judge_ofEnding lookup policy context rule state
  exact Verdict.ofEnding_rule (reached.symm.trans judged)

/-- On a calm lookup nothing changes, and a rule comes out for an award exactly when it is due. No
other failure than that an integer is too long to be written escapes its check. -/
theorem judge_calm (calm : lookup.IsCalm state)
    (texts : AreTexts (Entries.keys context.attributes)) (policy : Option RetryPolicy)
    (rule : Rule) :
    (∃ outcome : Outcome, rule.judge lookup policy context state = (.judged outcome, state) ∧
      (outcome.shouldAward = true ↔ rule.IsDue lookup context state)) ∨
    (rule.judge lookup policy context state = (.escaped .tooLongToWrite, state) ∧
      rule.Overruns lookup context state) := by
  have decided := check_decided calm texts rule
  rw [judge_of_calm calm texts, ← check_true_iff calm texts rule]
  match (rule.check lookup context state).1, decided with
  | _, .answer (fulfilled, awardable) =>
    refine .inl ⟨.checked rule.name fulfilled awardable, rfl, ?_⟩
    simp [Outcome.checked, Outcome.shouldAward]
  | .failed (.diagnosed diagnosis), .failed (.diagnosed _) =>
    refine .inl ⟨.failed rule.name diagnosis, rfl, ?_⟩
    simp [Outcome.failed, Outcome.shouldAward]
  | _, .failed (.tooLong overruns) => exact .inr ⟨rfl, Classical.not_not.mp overruns⟩

/-- On a calm lookup a failure escapes the check of a rule whose evaluation is left. -/
theorem Overruns.judge (calm : lookup.IsCalm state)
    (texts : AreTexts (Entries.keys context.attributes)) (policy : Option RetryPolicy) {rule : Rule}
    (overruns : rule.Overruns lookup context state) :
    rule.judge lookup policy context state = (.escaped .tooLongToWrite, state) := by
  have told : (rule.isFulfilled lookup context state).1 = _ := overruns
  rw [judge_of_calm calm texts, check_eq calm.still, told]
  rfl

end Rule

namespace Engine

/-- Whether a cycle comes to its end, as far as its candidates are brief: no failure leaves it, or
an integer is too long to be written, and then some candidate is not brief. -/
def EndsIfBrief (context : Context) (candidates : List Rule) (escaped : Option Failure) : Prop :=
  escaped = none ∨
    escaped = some .tooLongToWrite ∧ ∃ rule ∈ candidates, ¬ rule.IsBrief context

/-- Where all candidates are brief, no failure leaves the cycle. -/
theorem EndsIfBrief.eq_none {context : Context} {candidates : List Rule}
    {escaped : Option Failure} (ends : EndsIfBrief context candidates escaped)
    (brief : ∀ rule ∈ candidates, rule.IsBrief context) : escaped = none :=
  ends.resolve_right fun ⟨_, rule, member, long⟩ => long (brief rule member)

/-- Rules that each get a verdict, while nothing changes, get it one after the other. -/
theorem judgeAll_eq {lookup : Lookup σ} {context : Context} {state : σ} (engine : Engine)
    {verdictOf : Rule → Verdict} {rules : List Rule}
    (judged : ∀ rule ∈ rules, rule.judge lookup engine.retry context state =
      (verdictOf rule, state)) :
    engine.judgeAll lookup context rules state =
      (rules.map fun rule => (rule, verdictOf rule), state) := by
  induction rules with
  | nil => rfl
  | cons rule rest inductionHypothesis =>
    obtain ⟨here, further⟩ := List.forall_mem_cons.mp judged
    simp only [judgeAll, here, inductionHypothesis further, List.map_cons]

section Judged

variable {α : Type} {things : List α} {ruleOf : α → Rule} {verdictOf : α → Verdict}

/-- Verdicts that are all judged are collected as they stand. -/
theorem collect_judged {outcomeOf : α → Outcome}
    (judged : ∀ thing ∈ things, verdictOf thing = .judged (outcomeOf thing)) :
    collect (things.map fun thing => (ruleOf thing, verdictOf thing)) =
      (none, things.map fun thing => (ruleOf thing, outcomeOf thing), []) := by
  induction things with
  | nil => rfl
  | cons thing rest inductionHypothesis =>
    obtain ⟨here, further⟩ := List.forall_mem_cons.mp judged
    simp only [List.map_cons, here, collect, inductionHypothesis further]

/-- Among verdicts of which each is judged or escaped, all of these with one failure, and some
escaped, this failure is collected. -/
theorem collect_escaped {failure : Failure}
    (each : ∀ thing ∈ things, (∃ outcome, verdictOf thing = .judged outcome) ∨
      verdictOf thing = .escaped failure)
    (left : ∃ thing ∈ things, verdictOf thing = .escaped failure) :
    ∃ items, collect (things.map fun thing => (ruleOf thing, verdictOf thing)) =
      (some failure, items, []) := by
  induction things with
  | nil => simp at left
  | cons thing rest inductionHypothesis =>
    obtain ⟨here, further⟩ := List.forall_mem_cons.mp each
    rcases here with ⟨outcome, judged⟩ | escaped
    · have later : ∃ thing ∈ rest, verdictOf thing = .escaped failure := by
        simpa [judged] using left
      obtain ⟨items, collected⟩ := inductionHypothesis further later
      exact ⟨(ruleOf thing, outcome) :: items, by
        simp only [List.map_cons, judged, collect, collected]⟩
    · exact ⟨[], by simp only [List.map_cons, escaped, collect]⟩

/-- Where no verdict is that a check hung, none did. -/
theorem someHung_eq_false (arrived : ∀ thing ∈ things, verdictOf thing ≠ .hung) :
    someHung (things.map fun thing => (ruleOf thing, verdictOf thing)) = false := by
  simp only [someHung, List.any_eq_false, List.forall_mem_map]
  intro thing member
  have known := arrived thing member
  split <;> simp_all

end Judged

/-- Outcomes that are collected without a failure belong to the rules that were judged. -/
theorem collect_rules {verdicts : List (Rule × Verdict)}
    (complete : (collect verdicts).1 = none) :
    (collect verdicts).2.1.map Prod.fst = verdicts.map Prod.fst := by
  fun_induction collect verdicts with
  | case1 => rfl
  | case2 rule outcome rest escaped outcomes late collected inductionHypothesis =>
    rw [collected] at inductionHypothesis
    simp only [List.map_cons, inductionHypothesis complete]
  | case3 rule rest escaped outcomes late collected inductionHypothesis =>
    rw [collected] at inductionHypothesis
    simp only [List.map_cons, inductionHypothesis complete]
  | case4 => contradiction

/-- Where a failure escapes some check, collecting the verdicts hands on a failure, the first of
those that escape. -/
theorem exists_collect_of_escaped {verdicts : List (Rule × Verdict)} {rule : Rule}
    {failure : Failure} (escaped : (rule, .escaped failure) ∈ verdicts) :
    ∃ failure, (collect verdicts).1 = some failure := by
  fun_induction collect verdicts with
  | case1 => contradiction
  | case2 first judged rest cause outcomes late collected inductionHypothesis =>
    rw [collected] at inductionHypothesis
    exact inductionHypothesis ((List.mem_cons.mp escaped).resolve_left (by simp))
  | case3 first rest cause outcomes late collected inductionHypothesis =>
    rw [collected] at inductionHypothesis
    exact inductionHypothesis ((List.mem_cons.mp escaped).resolve_left (by simp))
  | case4 => exact ⟨_, rfl⟩

/-- A collected outcome was judged, or it is that of a rule whose check hung. -/
theorem collect_member {verdicts : List (Rule × Verdict)} {rule : Rule} {outcome : Outcome}
    (member : (rule, outcome) ∈ (collect verdicts).2.1) :
    (rule, .judged outcome) ∈ verdicts ∨
      (rule, .hung) ∈ verdicts ∧ outcome = .late rule.name := by
  fun_induction collect verdicts with
  | case1 => contradiction
  | case2 first judged rest escaped outcomes late collected inductionHypothesis =>
    rw [collected] at inductionHypothesis
    rcases List.mem_cons.mp member with same | later
    · cases same
      exact .inl List.mem_cons_self
    · exact (inductionHypothesis later).imp (List.mem_cons_of_mem _)
        (And.imp_left (List.mem_cons_of_mem _))
  | case3 first rest escaped outcomes late collected inductionHypothesis =>
    rw [collected] at inductionHypothesis
    rcases List.mem_cons.mp member with same | later
    · cases same
      exact .inr ⟨List.mem_cons_self, rfl⟩
    · exact (inductionHypothesis later).imp (List.mem_cons_of_mem _)
        (And.imp_left (List.mem_cons_of_mem _))
  | case4 => contradiction

/-- A collected outcome that is to be awarded was judged, as those of failed checks have an error.
-/
theorem collect_shouldAward {verdicts : List (Rule × Verdict)} {rule : Rule} {outcome : Outcome}
    (member : (rule, outcome) ∈ (collect verdicts).2.1) (chosen : outcome.shouldAward = true) :
    (rule, .judged outcome) ∈ verdicts :=
  (collect_member member).resolve_right fun ⟨_, late⟩ => by
    simp [late, Outcome.late, Outcome.shouldAward] at chosen

/-- The verdicts on some rules stand in the order of the rules, one for each. -/
theorem judgeAll_rules (engine : Engine) (lookup : Lookup σ) (context : Context)
    (rules : List Rule) (state : σ) :
    (engine.judgeAll lookup context rules state).1.map Prod.fst = rules := by
  induction rules generalizing state with
  | nil => rfl
  | cons rule rest inductionHypothesis =>
    simp only [judgeAll, List.map_cons, inductionHypothesis]

/-- Each verdict was reached in a state that lookups led to. -/
theorem judgeAll_member {lookup : Lookup σ} {R : σ → σ → Prop} (moves : lookup.Moves R)
    (engine : Engine) (context : Context) {rules : List Rule} {state : σ} {rule : Rule}
    {verdict : Verdict}
    (member : (rule, verdict) ∈ (engine.judgeAll lookup context rules state).1) :
    ∃ later, R state later ∧ (rule.judge lookup engine.retry context later).1 = verdict := by
  induction rules generalizing state with
  | nil => contradiction
  | cons first rest inductionHypothesis =>
    simp only [judgeAll, List.mem_cons] at member
    rcases member with same | further
    · cases same
      exact ⟨state, moves.refl state, rfl⟩
    · obtain ⟨later, reached, judged⟩ := inductionHypothesis further
      exact ⟨later, moves.trans (first.judge_moves moves engine.retry context state) reached,
        judged⟩

end Engine

end Accolade
