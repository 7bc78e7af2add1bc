import Accolade.Proofs.Cycle.Passes

/-!
# What a finished cycle leaves

A cycle over calm stores that stops because a pass awarded nothing leaves nothing to be done. Every
candidate that it did not retract, and whose replaced rules can all be retracted in the context,
rests: its requirement fails, its cap is reached, or its check raises a diagnosis. Where the cycle
retracted nothing at all, another one on the same candidates makes a single pass, awards nothing and
leaves the stores as they are. A failure can leave that pass only where some candidate is not brief.

A pass that awards nothing changes nothing, so what was due at its start is what is due at its end.
A due rule that it passed over was settled, and a rule that can be written is settled only by an
award that replaces it, which is then among those retracted.
-/

namespace Accolade

variable {σ : Type}

/-- Whether there is nothing to award a rule for in a state: it is unfulfilled, at its cap, or its
check raises a diagnosis. -/
inductive Rule.Rests (lookup : Lookup σ) (context : Context) (state : σ) (rule : Rule) : Prop
  | unfulfilled (refuted : (rule.isFulfilled lookup context state).1 = .answer false)
  | capped (total : Int)
      (told : (awardedAmount lookup (context.forScope rule.scope) rule.name state).1 =
        .answer (.integer total))
      (reached : rule.maxAwarded ≤ total)
  | failing (diagnosis : Diagnosis)
      (raised : (rule.check lookup context state).1 = .failed (.diagnosed diagnosis))

/-- On a calm lookup a rule rests that gets an outcome and is not due.

Proof: a rule without a failing check was answered, so its requirement and its room are known. As it
is not due, one of them is missing, and this is why it rests. -/
theorem Rule.rests_of_judged {lookup : Lookup σ} {context : Context} {state later : σ}
    (calm : lookup.IsCalm state) (texts : AreTexts (Entries.keys context.attributes))
    {policy : Option RetryPolicy} {rule : Rule} {outcome : Outcome}
    (judged : rule.judge lookup policy context state = (.judged outcome, later))
    (idle : ¬ rule.IsDue lookup context state) : rule.Rests lookup context state := by
  rw [judge_of_calm calm texts] at judged
  cases checked : (rule.check lookup context state).1 with
  | failed failure =>
    cases failure with
    | diagnosed diagnosis => exact .failing diagnosis checked
    | _ =>
      rw [checked] at judged
      cases congrArg Prod.fst judged
  | pending =>
    rw [checked] at judged
    cases congrArg Prod.fst judged
  | answer both =>
    have evaluated := @check_eq _ lookup context state calm.still rule
    rw [checked] at evaluated
    cases fulfilled : (rule.isFulfilled lookup context state).1 with
    | answer holds =>
      cases holds with
      | false => exact .unfulfilled fulfilled
      | true =>
        rcases awardedAmount_cases calm (context.forScope rule.scope) rule.name texts with
          ⟨total, told⟩ | ⟨diagnosis, _, told⟩
        · have amount := congrArg Prod.fst told
          refine .capped total amount (Int.not_lt.mp fun below => ?_)
          exact idle ⟨fulfilled, total, amount, below⟩
        · simp only [fulfilled, canBeAwarded, told] at evaluated
          contradiction
    | failed failure =>
      rw [fulfilled] at evaluated
      contradiction
    | pending =>
      rw [fulfilled] at evaluated
      contradiction

namespace Engine

variable {engine : Engine} (runs : Bool) {context : Context} {candidates : List Rule}

/-- Over calm stores a pass changes nothing if none of its awards goes through. -/
theorem pass_idle {progress : Progress Stores} (calm : progress.state.IsCalm)
    (idle : (engine.pass (Stores.collaborators runs) context candidates progress).1 = .ok 0) :
    (engine.pass (Stores.collaborators runs) context candidates progress).2.state =
      progress.state := by
  have unmoved := checks_state runs context engine candidates calm
  unfold pass at idle ⊢
  cases checked : engine.checks (Stores.collaborators runs) context candidates progress with
  | mk escaped found =>
    cases escaped with
    | some failure =>
      rw [checked] at idle
      contradiction
    | none =>
      rw [checked] at idle unmoved
      refine Engine.awardEach_idle engine (Stores.collaborators runs) context
        (I := fun later => later.state = progress.state) ?_ (Except.ok.inj idle) unmoved
      intro rule current error later failed kept
      obtain ⟨_, _, attempted, tried⟩ := attempt_calm runs context rule engine (kept ▸ calm)
      rw [failed] at attempted
      cases attempted
      cases tried
      exact kept

/-- Whether a cycle makes a single pass, in which nothing happens. It comes to its end, unless some
candidate is not brief and a failure leaves the pass. -/
structure DoesNothing (engine : Engine) (collaborators : Collaborators σ) (context : Context)
    (candidates : List Rule) (state : σ) : Prop where
  ends : EndsIfBrief context candidates (engine.process collaborators context candidates state).1
  awarded : (engine.process collaborators context candidates state).2.awarded = []
  retracted : (engine.process collaborators context candidates state).2.retracted = []
  passes : (engine.process collaborators context candidates state).2.passes = 1
  state : (engine.process collaborators context candidates state).2.state = state

section Loaded

variable (distinct : engine.catalogue.names.Nodup) (least : 0 < engine.maxPasses)
  (inTime : engine.startsExpired = false) (once : candidates.Nodup)
  (known : ∀ rule ∈ candidates, rule ∈ engine.catalogue.rules)
  (texts : AreTexts (Entries.keys context.attributes)) {stores : Stores} (calm : stores.IsCalm)
include distinct least inTime once known texts calm

/-- A cycle over calm stores does nothing if none of its candidates is due and can be written.

Proof: what the first pass would award is due and can be written, and there is no such candidate. So
it awards nothing and is the last one, or the evaluation of some candidate leaves it. -/
theorem process_doesNothing
    (resting : ∀ rule ∈ candidates, rule.IsDue Stores.lookup context stores →
      ¬ engine.TargetsResolve context rule) :
    engine.DoesNothing (Stores.collaborators runs) context candidates stores := by
  have standing : Standing engine context (Progress.start stores engine.startsExpired) [] :=
    ⟨calm, inTime, rfl, rfl, by simp, by simp [Progress.start]⟩
  obtain ⟨left, limit⟩ : ∃ left, engine.maxPasses = left + 1 := ⟨_, (Nat.sub_add_cancel least).symm⟩
  have expired : (Progress.start stores engine.startsExpired).expired = false := inTime
  rcases pass_calm runs distinct once known texts standing with
    ⟨awards, later, passed, selected, stands, passes⟩ |
      ⟨later, passed, ⟨rule, member, overruns⟩, stands, unmoved, passes⟩
  · have none : awards = [] := by
      refine List.eq_nil_iff_forall_not_mem.mpr fun rule member => ?_
      have candidate := selected.ordered.subset member
      obtain ⟨⟨due, targets⟩, _⟩ := (selected.exactly rule candidate).mp member
      exact resting rule candidate due targets
    subst none
    have kept : later.state = stores := by
      have same := pass_idle runs calm (congrArg Prod.fst passed)
      rwa [passed] at same
    have processed : engine.process (Stores.collaborators runs) context candidates stores =
        (none, later.note [.timed, completion later]) := by
      simp only [process, limit, Engine.passes, expired, Bool.false_eq_true, if_false, passed,
        List.length_nil]
    refine ⟨.inl ?_, ?_, ?_, ?_, ?_⟩ <;> rw [processed]
    · exact stands.awarded
    · exact stands.retracted
    · exact passes
    · exact kept
  · have processed : engine.process (Stores.collaborators runs) context candidates stores =
        (some .tooLongToWrite, later.note [.timed]) := by
      simp only [process, limit, Engine.passes, expired, Bool.false_eq_true, if_false, passed]
    have long : ∃ rule ∈ candidates, ¬ rule.IsBrief context :=
      ⟨rule, member, overruns.not_isBrief calm.lookup texts⟩
    refine ⟨.inr ⟨?_, long⟩, ?_, ?_, ?_, ?_⟩ <;> rw [processed]
    · exact stands.awarded
    · exact stands.retracted
    · exact passes
    · exact unmoved

/-- The last pass of a cycle that comes to its end makes the awards that it should, after those that
were made before. -/
theorem process_last
    (returned : (engine.process (Stores.collaborators runs) context candidates stores).1 = none) :
    ∃ before earlier awards later happenings,
      engine.beforeLast (Stores.collaborators runs) context candidates stores = before ∧
      engine.pass (Stores.collaborators runs) context candidates before =
        (.ok awards.length, later) ∧
      engine.process (Stores.collaborators runs) context candidates stores =
        (none, { later with happenings := happenings }) ∧
      engine.AwardsOfPass context candidates before.state earlier awards ∧
      Standing engine context before earlier ∧
      Standing engine context later (earlier ++ awards) := by
  obtain ⟨ended, ends, happenings, processed⟩ :=
    process_after engine (Stores.collaborators runs) context candidates stores
      (after_inTime runs distinct once known texts calm inTime)
  obtain ⟨last, rfl⟩ : ∃ last, ended = last + 1 :=
    ⟨ended - 1, (Nat.sub_add_cancel (ends.moves least)).symm⟩
  have whole : engine.brokenBy (Stores.collaborators runs) context candidates stores (last + 1) =
      none := by
    rw [processed] at returned
    exact returned
  obtain ⟨rounds, _, standing, _⟩ := after_makes runs distinct once known texts calm inTime last
    fun count below =>
      ((ends.stops count (Nat.zero_le _) (by omega)).mp (by omega)).1.brokenBy_eq_none
  rcases pass_calm runs distinct once known texts standing with
    ⟨awards, later, passed, selected, stands, _⟩ | ⟨later, passed, _⟩
  · exact ⟨_, rounds.flatten, awards, later, happenings,
      beforeLast_eq (congrArg Prod.snd processed), passed, by rw [processed, whole, after, passed],
      selected, standing, stands⟩
  · simp only [brokenBy, passed] at whole
    contradiction

end Loaded

/-- A candidate that is not settled gets an outcome in a pass that no failure leaves. -/
theorem exists_judge_of_pass {progress : Progress Stores} (calm : progress.state.IsCalm)
    (texts : AreTexts (Entries.keys context.attributes)) {count : Nat}
    (passed : (engine.pass (Stores.collaborators runs) context candidates progress).1 = .ok count)
    {rule : Rule} (member : rule ∈ candidates) (unsettled : rule.name ∉ progress.settled) :
    ∃ outcome, rule.judge Stores.lookup engine.retry context progress.state =
      (.judged outcome, progress.state) := by
  have listed : rule ∈ eligible candidates progress :=
    List.mem_filter.mpr ⟨member, by simpa [List.contains_iff_mem] using unsettled⟩
  rcases @checks_of_calm Stores (Stores.collaborators runs) context candidates progress engine
    calm.lookup texts with ⟨outcomeOf, _, _, judged, _⟩ | ⟨_, _, _, checked⟩
  · exact ⟨outcomeOf rule, judged rule listed⟩
  · simp only [pass, checked] at passed
    contradiction

end Engine

end Accolade
