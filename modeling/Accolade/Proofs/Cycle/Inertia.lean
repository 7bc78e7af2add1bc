import Accolade.Proofs.Cycle.Calm
import Accolade.Proofs.Cycle.Parallel

/-!
# Rules that are not awarded

A candidate that is not awarded in a cycle might as well not have been one. Its checks read the
facts and change nothing; if it is tried, the attempt breaks off before the first write, and then
it settles no name but its own. So the cycle without it takes the same passes, finds the same
outcomes for the others, and makes the same awards and retractions on the same stores.

One thing stands against it: a failure that escapes the check of such a candidate leaves the cycle,
and with it all other candidates. None does if the candidate is brief, and none has if the cycle has
come to its end.

What makes the two runs comparable is that an attempt looks at the state alone. What settled
names and outcomes a cycle has gathered before does not matter to it.
-/

namespace Accolade

namespace Progress

variable {σ : Type}

/-- Whether two cycles have done the same: their states are equal, and so is what they report of
awards, retractions and actions. -/
structure Agrees (first second : Progress σ) : Prop where
  state : second.state = first.state
  awarded : second.awarded = first.awarded
  retracted : second.retracted = first.retracted
  actionErrors : second.actionErrors = first.actionErrors

/-- Whether a second cycle has come as far as a first one without the rules of a name: it differs
from the first in outcomes of that name, and in whether the name is settled. -/
structure LeavesOut (name : String) (first second : Progress σ) : Prop extends
    first.Agrees second where
  passes : second.passes = first.passes
  expired : second.expired = first.expired
  settled : ∀ other, other ≠ name → (other ∈ second.settled ↔ other ∈ first.settled)
  outcomes : second.outcomes = first.outcomes.filter (·.rule != name)

namespace LeavesOut

variable {name : String} {first second : Progress σ} (leaves : first.LeavesOut name second)
include leaves

/-- Whether a name other than that of the rule left out is settled is the same with and without that
rule. -/
theorem contains {other : String} (different : other ≠ name) :
    second.settled.contains other = first.settled.contains other := by
  rw [Bool.eq_iff_iff, List.contains_iff_mem, List.contains_iff_mem]
  exact leaves.settled other different

/-- One more pass is counted with the rule and without it. -/
theorem next (notes notesToo : List Happening) :
    LeavesOut name
      { first with
        passes := first.passes + 1
        happenings := notes }
      { second with
        passes := second.passes + 1
        happenings := notesToo } :=
  ⟨⟨leaves.state, leaves.awarded, leaves.retracted, leaves.actionErrors⟩,
    congrArg (· + 1) leaves.passes, leaves.expired, leaves.settled, leaves.outcomes⟩

/-- Further outcomes are added with the rule and, apart from its own, without it. -/
theorem add (outcomes : List Outcome) :
    LeavesOut name { first with outcomes := first.outcomes ++ outcomes }
      { second with outcomes := second.outcomes ++ outcomes.filter (·.rule != name) } :=
  ⟨⟨leaves.state, leaves.awarded, leaves.retracted, leaves.actionErrors⟩, leaves.passes,
    leaves.expired, leaves.settled, by simp [leaves.outcomes]⟩

/-- What is noted may differ with and without the rule. -/
theorem noted (notes notesToo : List Happening) :
    LeavesOut name { first with happenings := notes } { second with happenings := notesToo } :=
  ⟨⟨leaves.state, leaves.awarded, leaves.retracted, leaves.actionErrors⟩, leaves.passes,
    leaves.expired, leaves.settled, leaves.outcomes⟩

end LeavesOut

end Progress

namespace Engine

section Agreement

variable {σ : Type} (collaborators : Collaborators σ) (context : Context) (rule : Rule)
  {first second : Progress σ} (agrees : first.Agrees second)
include agrees

/-- Retractions come to the same in cycles that have done the same. -/
theorem retractEach_agrees (retractions : List (String × Entries)) :
    SameBeside Progress.Agrees (retractEach collaborators context rule retractions first)
      (retractEach collaborators context rule retractions second) := by
  induction retractions generalizing first second with
  | nil => exact ⟨rfl, agrees⟩
  | cons entry rest inductionHypothesis =>
    obtain ⟨target, values⟩ := entry
    simp only [retractEach, agrees.state]
    split
    · exact ⟨rfl, rfl, agrees.awarded, agrees.retracted, agrees.actionErrors⟩
    · exact inductionHypothesis
        ⟨rfl, agrees.awarded, congrArg (· ++ [target]) agrees.retracted, agrees.actionErrors⟩

/-- The actions of a rule come to the same in cycles that have done the same. -/
theorem runActions_agrees :
    (runActions collaborators context rule first).Agrees
      (runActions collaborators context rule second) := by
  unfold runActions
  rw [agrees.state, agrees.actionErrors]
  split
  · split
    · exact ⟨rfl, agrees.awarded, agrees.retracted, rfl⟩
    · exact ⟨rfl, agrees.awarded, agrees.retracted, rfl⟩
  · exact agrees

/-- An award comes to the same in cycles that have done the same: it breaks off for the same
failure, if it does, and the cycles have done the same after it. -/
theorem award_agrees (engine : Engine) :
    SameBeside Progress.Agrees (engine.award collaborators context rule first)
      (engine.award collaborators context rule second) := by
  unfold award
  rw [agrees.state]
  split
  · exact ⟨rfl, agrees⟩
  · split
    · exact ⟨rfl, rfl, agrees.awarded, agrees.retracted, agrees.actionErrors⟩
    · rename_i values retractions _ _ fact state _
      have begun : Progress.Agrees
          { first with
            state := state
            awarded := first.awarded ++ [rule.name]
            happenings := first.happenings ++
              [.awarded rule.name fact.amount rule.maxAwarded] }
          { second with
            state := state
            awarded := second.awarded ++ [rule.name]
            happenings := second.happenings ++
              [.awarded rule.name fact.amount rule.maxAwarded] } :=
        ⟨rfl, congrArg (· ++ [rule.name]) agrees.awarded, agrees.retracted, agrees.actionErrors⟩
      obtain ⟨broken, later, laterToo, made, madeToo, next⟩ :=
        (retractEach_agrees collaborators context rule begun retractions).spread
      simp only [made, madeToo]
      cases broken with
      | some failure => exact ⟨rfl, next⟩
      | none => exact ⟨rfl, runActions_agrees collaborators context rule next⟩

/-- An attempt comes to the same in cycles that have done the same: it takes the same error, if any,
and the cycles have done the same after it. -/
theorem attempt_agrees (engine : Engine) :
    SameBeside Progress.Agrees (engine.attempt collaborators context rule first)
      (engine.attempt collaborators context rule second) := by
  obtain ⟨broken, later, laterToo, made, madeToo, next⟩ :=
    (award_agrees collaborators context rule agrees engine).spread
  simp only [attempt, made, madeToo]
  cases broken with
  | some failure => exact ⟨rfl, next.state, next.awarded, next.retracted, next.actionErrors⟩
  | none => exact ⟨rfl, next.state, next.awarded, next.retracted, next.actionErrors⟩

omit agrees in
/-- An attempt fails as its award does, and has done what the award has. -/
theorem attempt_award (engine : Engine) (progress : Progress σ) :
    (engine.attempt collaborators context rule progress).1.isSome =
        (engine.award collaborators context rule progress).1.isSome ∧
      (engine.award collaborators context rule progress).2.Agrees
        (engine.attempt collaborators context rule progress).2 := by
  unfold attempt
  split
  · rename_i made
    rw [made]
    exact ⟨rfl, rfl, rfl, rfl, rfl⟩
  · rename_i made
    rw [made]
    exact ⟨rfl, rfl, rfl, rfl, rfl⟩

end Agreement

section Quiet

variable (engine : Engine) (runs : Bool) (context : Context) (rule : Rule)
  {progress : Progress Stores} (quiet : progress.state.IsQuiet)
include quiet

omit rule in
/-- Dealing with an outcome leaves quiet stores quiet, as an attempt does. -/
theorem awardItem_isQuiet (item : Rule × Outcome) :
    (engine.awardItem (Stores.collaborators runs) context item progress).2.2.state.IsQuiet := by
  have kept := attempt_isQuiet runs context item.1 engine quiet
  rcases awardItem_cases engine (Stores.collaborators runs) context item progress with
    ⟨_, made⟩ | ⟨_, _, ⟨_, _, attempted, made⟩ | ⟨_, attempted, made⟩⟩
  · rwa [made]
  · rw [attempted] at kept
    rwa [made]
  · rw [attempted] at kept
    rwa [made]

/-- Over quiet stores an attempt that does not award its rule changes nothing. -/
theorem attempt_unawarded
    (unawarded : rule.name ∉
      (engine.attempt (Stores.collaborators runs) context rule progress).2.awarded) :
    (engine.attempt (Stores.collaborators runs) context rule progress).1.isSome = true ∧
      progress.Agrees (engine.attempt (Stores.collaborators runs) context rule progress).2 := by
  obtain ⟨failing, agrees⟩ :=
    attempt_award (Stores.collaborators runs) context rule engine progress
  rw [agrees.awarded] at unawarded
  rcases award_frame (Stores.collaborators runs) context rule progress engine with
    ⟨failure, state, made, unmoved | ⟨values, retractions, resolved, refused⟩⟩ |
      ⟨_, _, _, _, made⟩
  · subst unmoved
    rw [made] at failing agrees
    exact ⟨failing, agrees.state, agrees.awarded, agrees.retracted, agrees.actionErrors⟩
  · obtain ⟨written, later, recorded, _⟩ :=
      Ledger.recordAward_awarded quiet.awards context.subject (.text rule.name) values
    have called : (Stores.collaborators runs).recordAward context.subject rule.name values
        progress.state = _ := Stores.recordAward_of_faultless quiet.faultless recorded
    rw [called] at refused
    cases refused
  · rw [made] at unawarded
    simp at unawarded

end Quiet

section Reports

variable {σ : Type} (engine : Engine) (collaborators : Collaborators σ) (context : Context)
  {name : String}

/-- What a cycle has reported as awarded, it does not take back in the awards of a pass. -/
theorem awardEach_awarded {items : List (Rule × Outcome)} {progress : Progress σ}
    (awarded : name ∈ progress.awarded) :
    name ∈ (engine.awardEach collaborators context items progress).2.2.awarded := by
  refine awardEach_induction (P := fun _ later => name ∈ later.awarded) (fun _ _ _ => id) ?_
    awarded
  intro rule _ _ later _ _ reported
  obtain ⟨_, awards, _, _, _, _, made⟩ := attempt_frame collaborators context rule later engine
  rw [made]
  exact List.mem_append_left _ reported

/-- What a cycle has reported as awarded, it does not take back in a pass. -/
theorem pass_awarded {candidates : List Rule} {progress : Progress σ}
    (awarded : name ∈ progress.awarded) :
    name ∈ (engine.pass collaborators context candidates progress).2.awarded := by
  unfold pass
  split
  · rename_i checked
    have kept : _ = _ := congrArg (·.2.2.awarded) checked
    exact kept ▸ awarded
  · rename_i items later checked
    have kept : _ = _ := congrArg (·.2.2.awarded) checked
    exact awardEach_awarded engine collaborators context (kept ▸ awarded)

/-- What a cycle has reported as awarded, it does not take back in any number of passes. -/
theorem passes_awarded {candidates : List Rule} {left : Nat} {progress : Progress σ}
    (awarded : name ∈ progress.awarded) :
    name ∈ (engine.passes collaborators context candidates left progress).2.awarded :=
  passes_induction (I := fun later => name ∈ later.awarded)
    (fun _ reported => pass_awarded engine collaborators context reported) (fun _ _ _ => id) awarded

end Reports

/-- An attempt does the same in a cycle that has left out the rules of a name. -/
theorem attempt_leavesOut {σ : Type} (engine : Engine) (collaborators : Collaborators σ)
    (context : Context) (rule : Rule) {name : String} {first second : Progress σ}
    (leaves : first.LeavesOut name second) :
    SameBeside (Progress.LeavesOut name) (engine.attempt collaborators context rule first)
      (engine.attempt collaborators context rule second) := by
  obtain ⟨same, agrees⟩ := attempt_agrees collaborators context rule leaves.toAgrees engine
  obtain ⟨_, _, _, _, _, _, made⟩ := attempt_frame collaborators context rule first engine
  obtain ⟨_, _, _, _, _, _, madeToo⟩ := attempt_frame collaborators context rule second engine
  refine ⟨same, agrees, ?_, ?_, fun other different => ?_, ?_⟩
  · rw [made, madeToo]
    exact leaves.passes
  · rw [made, madeToo]
    exact leaves.expired
  · rw [made, madeToo, same]
    simp only [List.mem_append, leaves.settled other different]
  · rw [made, madeToo]
    exact leaves.outcomes

section LeavingOut

variable (engine : Engine) (runs : Bool) (context : Context) {name : String}
  {first second : Progress Stores} (leaves : first.LeavesOut name second)
  (quiet : first.state.IsQuiet)
include leaves quiet

/-- An attempt that does not award its rule leaves the cycle where the one without it is. -/
theorem attempt_unawarded_leavesOut {rule : Rule} (own : rule.name = name)
    (unawarded : name ∉
      (engine.attempt (Stores.collaborators runs) context rule first).2.awarded) :
    (engine.attempt (Stores.collaborators runs) context rule first).1.isSome = true ∧
      (engine.attempt (Stores.collaborators runs) context rule first).2.LeavesOut name second := by
  subst own
  obtain ⟨failed, agrees⟩ := attempt_unawarded engine runs context rule quiet unawarded
  obtain ⟨_, _, _, _, _, _, made⟩ :=
    attempt_frame (Stores.collaborators runs) context rule first engine
  refine ⟨failed, ⟨?_, ?_, ?_, ?_⟩, ?_, ?_, fun other different => ?_, ?_⟩
  · rw [agrees.state, leaves.state]
  · rw [agrees.awarded, leaves.awarded]
  · rw [agrees.retracted, leaves.retracted]
  · rw [agrees.actionErrors, leaves.actionErrors]
  · rw [made, leaves.passes]
  · rw [made, leaves.expired]
  · rw [made, failed, leaves.settled other different]
    simp [different]
  · rw [made, leaves.outcomes]

/-- Dealing with an outcome of a rule of that name counts no award and leaves the cycle where the
one without it is, if it does not award the rule. -/
theorem awardItem_unawarded_leavesOut (item : Rule × Outcome) (own : item.1.name = name)
    (unawarded : name ∉
      (engine.awardItem (Stores.collaborators runs) context item first).2.2.awarded) :
    ∃ outcome next,
      engine.awardItem (Stores.collaborators runs) context item first = (outcome, 0, next) ∧
      next.LeavesOut name second ∧ next.state.IsQuiet := by
  have tried := attempt_unawarded_leavesOut engine runs context leaves quiet own
  have kept := attempt_isQuiet runs context item.1 engine quiet
  rcases awardItem_cases engine (Stores.collaborators runs) context item first with
    ⟨_, made⟩ | ⟨_, _, ⟨error, later, attempted, made⟩ | ⟨later, attempted, made⟩⟩
  · exact ⟨_, _, made, leaves, quiet⟩
  · rw [made] at unawarded
    rw [attempted] at tried kept
    exact ⟨_, _, made, (tried unawarded).2, kept⟩
  · rw [made] at unawarded
    rw [attempted] at tried
    exact absurd (tried unawarded).1 (by simp)

omit quiet in
/-- Dealing with an outcome of another rule comes to the same with the rule left out and without. -/
theorem awardItem_leavesOut (item : Rule × Outcome) (other : item.1.name ≠ name) :
    ∃ outcome count next nextToo,
      engine.awardItem (Stores.collaborators runs) context item first = (outcome, count, next) ∧
      engine.awardItem (Stores.collaborators runs) context item second =
        (outcome, count, nextToo) ∧
      next.LeavesOut name nextToo := by
  obtain ⟨error, next, nextToo, tried, triedToo, further⟩ := (attempt_leavesOut engine
    (Stores.collaborators runs) context item.1 leaves).spread
  unfold awardItem
  rw [leaves.contains other, tried, triedToo]
  split
  · exact ⟨_, _, _, _, rfl, rfl, leaves⟩
  · cases error with
    | some error => exact ⟨_, _, _, _, rfl, rfl, further⟩
    | none => exact ⟨_, _, _, _, rfl, rfl, further⟩

/-- Awarding the outcomes of all rules and those of the rules of other names does the same, if no
rule of the name is awarded.

Proof: induction on the rules. A rule of the name is missing from the second list; it is not
awarded, so what it does to the first run is nothing that the second would have to follow. Any other
rule has its attempt in both. -/
theorem awardEach_leavesOut {outcomeOf : Rule → Outcome}
    {rules : List Rule} (named : ∀ rule ∈ rules, (outcomeOf rule).rule = rule.name)
    (unawarded : name ∉ (engine.awardEach (Stores.collaborators runs) context
      (rules.map fun rule => (rule, outcomeOf rule)) first).2.2.awarded) :
    ∃ outcomes count later laterToo,
      engine.awardEach (Stores.collaborators runs) context
        (rules.map fun rule => (rule, outcomeOf rule)) first = (outcomes, count, later) ∧
      engine.awardEach (Stores.collaborators runs) context
        ((rules.filter (·.name != name)).map fun rule => (rule, outcomeOf rule)) second =
          (outcomes.filter (·.rule != name), count, laterToo) ∧
      later.LeavesOut name laterToo ∧ later.state.IsQuiet := by
  induction rules generalizing first second with
  | nil => exact ⟨[], 0, first, second, rfl, rfl, leaves, quiet⟩
  | cons rule rest inductionHypothesis =>
    rw [List.map_cons, awardEach_cons] at unawarded
    simp only [List.map_cons, awardEach_cons]
    obtain ⟨here, namedRest⟩ := List.forall_mem_cons.mp named
    have outcomeNamed := (awardItem_rule engine (Stores.collaborators runs) context
      (rule, outcomeOf rule) first).trans here
    by_cases own : rule.name = name
    -- the run without the rule does not know of its outcome
    · have absent : (rule :: rest).filter (·.name != name) = rest.filter (·.name != name) := by
        simp [own]
      obtain ⟨outcome, next, made, nextLeaves, nextQuiet⟩ :=
        awardItem_unawarded_leavesOut engine runs context leaves quiet (rule, outcomeOf rule) own
          fun reported => unawarded (awardEach_awarded engine _ context reported)
      rw [made] at unawarded outcomeNamed ⊢
      obtain ⟨outcomes, count, later, laterToo, ended, endedToo, further⟩ :=
        inductionHypothesis nextLeaves nextQuiet namedRest unawarded
      refine ⟨outcome :: outcomes, count, later, laterToo, by simp only [ended, Nat.add_zero], ?_,
        further⟩
      have called : outcome.rule = rule.name := outcomeNamed
      simp [absent, endedToo, called, own]
    · have present : (rule :: rest).filter (·.name != name) =
          rule :: rest.filter (·.name != name) := by simp [own]
      obtain ⟨outcome, counted, next, nextToo, made, madeToo, nextLeaves⟩ :=
        awardItem_leavesOut engine runs context leaves (rule, outcomeOf rule) own
      have nextQuiet := awardItem_isQuiet engine runs context quiet (rule, outcomeOf rule)
      rw [made] at unawarded outcomeNamed nextQuiet ⊢
      obtain ⟨outcomes, count, later, laterToo, ended, endedToo, further⟩ :=
        inductionHypothesis nextLeaves nextQuiet namedRest unawarded
      refine ⟨outcome :: outcomes, count + counted, later, laterToo, by rw [ended], ?_, further⟩
      have called : outcome.rule = rule.name := outcomeNamed
      simp [present, awardEach_cons, madeToo, endedToo, called, own]

omit quiet in
/-- The candidates that are not settled are the same in both, apart from those of the name. -/
theorem eligible_leavesOut (candidates : List Rule) :
    eligible (candidates.filter (·.name != name)) second =
      (eligible candidates first).filter (·.name != name) := by
  simp only [eligible, List.filter_filter]
  refine List.filter_congr fun rule _ => ?_
  by_cases own : rule.name = name
  · simp [own]
  · rw [leaves.contains own, Bool.and_comm]

/-- A pass over all candidates and one over the candidates of other names come to the same, if no
rule of the name is awarded, and no failure leaves the first or the rules of the name are brief.

Proof: both passes check the same rules in the same stores, apart from those of the name. If all
checks come to outcomes, awarding them comes to the same. A failure in the first pass is that of a
rule of another name, so it leaves the second as well. -/
theorem pass_leavesOut (texts : AreTexts (Entries.keys context.attributes))
    {candidates : List Rule}
    (inert : (∃ count, (engine.pass (Stores.collaborators runs) context candidates first).1 =
        .ok count) ∨ ∀ rule ∈ candidates, rule.name = name → rule.IsBrief context)
    (unawarded : name ∉
      (engine.pass (Stores.collaborators runs) context candidates first).2.awarded) :
    SameBeside (fun later laterToo => later.LeavesOut name laterToo ∧ later.state.IsQuiet)
      (engine.pass (Stores.collaborators runs) context candidates first)
      (engine.pass (Stores.collaborators runs) context (candidates.filter (·.name != name))
        second) := by
  have calmToo : Stores.lookup.IsCalm second.state := leaves.state ▸ quiet.lookup
  have listed := eligible_leavesOut leaves candidates
  rcases @checks_of_calm Stores (Stores.collaborators runs) context candidates first engine
      quiet.lookup texts with
    ⟨outcomeOf, notes, _, judged, checked⟩ | ⟨items, notes, ⟨rule, among, overruns⟩, checked⟩
  · have named : ∀ rule ∈ eligible candidates first, (outcomeOf rule).rule = rule.name :=
      fun rule among => Rule.judge_rule (congrArg Prod.fst (judged rule among))
    obtain ⟨notesToo, checkedToo⟩ : ∃ notes, engine.checks (Stores.collaborators runs) context
        (candidates.filter (·.name != name)) second = _ := checks_judged fun rule among =>
      leaves.state ▸ judged rule (List.mem_filter.mp (listed ▸ among)).1
    rw [listed] at checkedToo
    unfold pass at unawarded ⊢
    simp only [checked] at unawarded
    obtain ⟨outcomes, count, later, laterToo, made, madeToo, further, still⟩ :=
      awardEach_leavesOut engine runs context (leaves.next notes notesToo) quiet named unawarded
    simp only [checked, checkedToo, made, madeToo]
    exact ⟨rfl, further.add outcomes, still⟩
  · -- The failure is that of a rule of another name, so it leaves the other pass as well.
    have brief : ∀ rule ∈ candidates, rule.name = name → rule.IsBrief context := by
      refine inert.resolve_left ?_
      simp [pass, checked]
    have other : rule.name ≠ name := fun own =>
      overruns.not_isBrief quiet.lookup texts (brief rule (List.mem_filter.mp among).1 own)
    have amongToo : rule ∈ eligible (candidates.filter (·.name != name)) second :=
      listed ▸ List.mem_filter.mpr ⟨among, by simpa using other⟩
    have overrunsToo : rule.Overruns Stores.lookup context second.state := leaves.state ▸ overruns
    rcases @checks_of_calm Stores (Stores.collaborators runs) context
        (candidates.filter (·.name != name)) second engine calmToo texts with
      ⟨_, _, _, judgedToo, _⟩ | ⟨itemsToo, notesToo, _, checkedToo⟩
    · cases (judgedToo rule amongToo).symm.trans (overrunsToo.judge calmToo texts engine.retry)
    · simp only [pass, checked, checkedToo]
      exact ⟨rfl, leaves.next notes notesToo, quiet⟩

/-- Passes over all candidates and over the candidates of other names come to the same, if no rule
of the name is awarded, and no failure leaves the first or the rules of the name are brief.

Proof: induction on the passes left. As awards are never taken back from the report, the name is not
reported after this pass either, and what this pass comes to in both decides alike whether another
one follows. -/
theorem passes_leavesOut (texts : AreTexts (Entries.keys context.attributes))
    {candidates : List Rule} (left : Nat)
    (inert : (engine.passes (Stores.collaborators runs) context candidates left first).1 = none ∨
      ∀ rule ∈ candidates, rule.name = name → rule.IsBrief context)
    (unawarded : name ∉
      (engine.passes (Stores.collaborators runs) context candidates left first).2.awarded) :
    SameBeside (Progress.LeavesOut name)
      (engine.passes (Stores.collaborators runs) context candidates left first)
      (engine.passes (Stores.collaborators runs) context (candidates.filter (·.name != name)) left
        second) := by
  induction left generalizing first second with
  | zero => exact ⟨rfl, leaves.noted _ _⟩
  | succ left inductionHypothesis =>
    unfold passes at inert unawarded ⊢
    rw [leaves.expired]
    split
    · exact ⟨rfl, leaves.noted _ _⟩
    · rename_i inTime
      simp only [inTime, Bool.false_eq_true, if_false] at inert unawarded
      cases made : engine.pass (Stores.collaborators runs) context candidates first with
      | mk result later =>
        rw [made] at inert unawarded
        have inertNow : (∃ count, (engine.pass (Stores.collaborators runs) context candidates
            first).1 = .ok count) ∨
              ∀ rule ∈ candidates, rule.name = name → rule.IsBrief context := by
          refine inert.imp_left fun returned => ?_
          rw [made]
          match result with
          | .error failure => contradiction
          | .ok count => exact ⟨count, rfl⟩
        have unreported : name ∉
            (engine.pass (Stores.collaborators runs) context candidates first).2.awarded := by
          intro reported
          refine unawarded ?_
          rw [made] at reported
          match result with
          | .error failure => exact reported
          | .ok 0 => exact reported
          | .ok (count + 1) => exact passes_awarded engine _ context reported
        obtain ⟨_, _, laterToo, same, madeToo, further, still⟩ :=
          (pass_leavesOut engine runs context leaves quiet texts inertNow unreported).spread
        obtain ⟨rfl, rfl⟩ := Prod.mk.inj (made.symm.trans same)
        rw [madeToo]
        match result with
        | .error failure => exact ⟨rfl, further⟩
        | .ok 0 => exact ⟨rfl, further⟩
        | .ok (count + 1) => exact inductionHypothesis further still inert unawarded

end LeavingOut

/-- Leaving the rules of a name out of the candidates changes nothing but their own outcomes, if
none of them is awarded, and either the cycle comes to its end or the rules left out are brief. The
cycle does come to its end, as far as the candidates are brief. -/
theorem process_leavesOut (engine : Engine) (runs : Bool) {context : Context}
    (texts : AreTexts (Entries.keys context.attributes)) (candidates : List Rule) {name : String}
    {stores : Stores} (quiet : stores.IsQuiet)
    (unawarded : name ∉
      (engine.process (Stores.collaborators runs) context candidates stores).2.awarded) :
    let whole := engine.process (Stores.collaborators runs) context candidates stores
    let rest := engine.process (Stores.collaborators runs) context
      (candidates.filter (·.name != name)) stores
    EndsIfBrief context candidates whole.1 ∧
      ((whole.1 = none ∨ ∀ rule ∈ candidates, rule.name = name → rule.IsBrief context) →
        SameBeside (Progress.LeavesOut name) whole rest) := by
  refine ⟨process_ends runs context engine candidates quiet texts, fun inert => ?_⟩
  have started : (Progress.start stores engine.startsExpired).LeavesOut name
      (Progress.start stores engine.startsExpired) :=
    ⟨⟨rfl, rfl, rfl, rfl⟩, rfl, rfl, fun _ _ => Iff.rfl, rfl⟩
  obtain ⟨_, made⟩ :=
    process_passes engine (Stores.collaborators runs) context candidates stores
  obtain ⟨_, madeToo⟩ := process_passes engine (Stores.collaborators runs) context
    (candidates.filter (·.name != name)) stores
  rw [made] at inert unawarded
  obtain ⟨same, leaves⟩ :=
    passes_leavesOut engine runs context started quiet texts engine.maxPasses inert unawarded
  rw [made, madeToo]
  exact ⟨same, leaves.noted _ _⟩

/-- Two rules, of which the first asks for a scope key that contexts need not have. -/
def scopedCatalogue : Catalogue :=
  ⟨[⟨"Team", .allOf [], ["Solo"], 1, ["team"], [], false⟩,
    ⟨"Solo", .allOf [], [], 1, ["user_id"], [], false⟩]⟩

/-- Without the key that its scope asks for, the rule of the team might as well not be there: the
cycle comes to the same without it. -/
theorem team_leavesOut :
    let engine := Engine.mk scopedCatalogue 10 none none
    let context := Context.of (.text "u") [] defaultScope
    let whole := engine.process (Stores.collaborators true) context scopedCatalogue.rules
      (Stores.of [] [] [])
    let rest := engine.process (Stores.collaborators true) context
      (scopedCatalogue.rules.filter (·.name != "Team")) (Stores.of [] [] [])
    "Team" ∉ whole.2.awarded ∧ whole.1 = none ∧
      SameBeside (Progress.LeavesOut "Team") whole rest := by
  intro engine context
  have awarded : (engine.process (Stores.collaborators true) context scopedCatalogue.rules
      (Stores.of [] [] [])).2.awarded = ["Solo"] := by decide +kernel
  have unawarded : "Team" ∉ (engine.process (Stores.collaborators true) context
      scopedCatalogue.rules (Stores.of [] [] [])).2.awarded := by
    rw [awarded]
    decide
  have quiet : (Stores.of [] [] []).IsQuiet := by
    refine ⟨rfl, ?_, ?_, ?_⟩ <;> exact fun _ member => by contradiction
  have texts : AreTexts (Entries.keys context.attributes) :=
    fun key member => ⟨subjectKey, List.mem_singleton.mp member⟩
  obtain ⟨ends, inert⟩ :=
    process_leavesOut engine true texts scopedCatalogue.rules quiet unawarded
  have returned := ends.eq_none (by decide)
  exact ⟨unawarded, returned, inert (.inl returned)⟩

/-- A rule that asks for too many visits is not awarded, and without it another one is. -/
theorem busy_holdsBack :
    let engine := Engine.mk Catalogue.busy 10 none none
    let context := Context.of (.text "u") [] defaultScope
    let whole := engine.process (Stores.collaborators true) context Catalogue.busy.rules
      (Stores.of [] [] [])
    let rest := engine.process (Stores.collaborators true) context
      (Catalogue.busy.rules.filter (·.name != "Busy")) (Stores.of [] [] [])
    Catalogue.load .strict Catalogue.busyDocument = .ok ⟨Catalogue.busy, []⟩ ∧
      "Busy" ∉ whole.2.awarded ∧ (∃ failure, whole.1 = some failure) ∧ whole.2.awarded = [] ∧
      rest.1 = none ∧ rest.2.awarded = ["Free"] := by
  have broken := @process_of_busy Stores ⟨Catalogue.busy, 10, none, none⟩
    (Stores.collaborators true) (Context.of (.text "u") [] defaultScope) (Stores.of [] [] []) _ _ _
    [Catalogue.freeRule] (by decide) rfl rfl rfl
  have others : Catalogue.busy.rules.filter (·.name != "Busy") = [Catalogue.freeRule] := rfl
  refine ⟨Catalogue.load_busy, ?_, broken.1, broken.2.1, ?_⟩
  · exact broken.2.1 ▸ List.not_mem_nil
  · rw [others]
    exact ⟨by decide +kernel, by decide +kernel⟩

end Engine

end Accolade
