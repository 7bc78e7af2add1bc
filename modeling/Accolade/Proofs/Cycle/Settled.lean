import Accolade.Proofs.Cycle.Steps

/-!
# What is settled stays so

A rule that is settled stays settled for the rest of the cycle. No later pass checks it, so it gets
no outcome there, and no step tries to award it. The outcomes of the pass under way are told in the
order of its checks, whatever comes of them.
-/

namespace Accolade

variable {σ : Type}

namespace Engine

variable {engine : Engine} {collaborators : Collaborators σ} {context : Context}
  {candidates : List Rule}

/-- Outcomes that are collected from verdicts on rules are those of the rules. -/
theorem collect_named {verdicts : List (Rule × Verdict)}
    (named : ∀ entry ∈ verdicts, ∀ outcome, entry.2 = .judged outcome →
      outcome.rule = entry.1.name) :
    ∀ item ∈ (collect verdicts).2.1, item.2.rule = item.1.name := by
  fun_induction collect verdicts with
  | case1 => simp
  | case2 rule outcome rest escaped outcomes late collected inductionHypothesis =>
    obtain ⟨own, further⟩ := List.forall_mem_cons.mp named
    rw [collected] at inductionHypothesis
    exact List.forall_mem_cons.mpr ⟨own outcome rfl, inductionHypothesis further⟩
  | case3 rule rest escaped outcomes late collected inductionHypothesis =>
    rw [collected] at inductionHypothesis
    exact List.forall_mem_cons.mpr
      ⟨rfl, inductionHypothesis (List.forall_mem_cons.mp named).2⟩
  | case4 => simp

/-- Each outcome of the checks of a pass has the name of the rule it was made for. -/
theorem checks_named (progress : Progress σ) :
    ∀ item ∈ (engine.checks collaborators context candidates progress).2.1,
      item.2.rule = item.1.name := by
  refine collect_named ?_
  rintro ⟨rule, verdict⟩ member outcome rfl
  have anywhere : collaborators.lookup.Moves fun _ _ => True :=
    ⟨fun _ => trivial, fun _ _ => trivial, fun _ _ _ => trivial⟩
  obtain ⟨_, _, judged⟩ := judgeAll_member anywhere engine context member
  exact Rule.judge_rule judged

/-- Outcomes come back from the awards of a pass under the names under which they went in. -/
theorem awardEach_names (items : List (Rule × Outcome)) (progress : Progress σ) :
    (engine.awardEach collaborators context items progress).1.map (·.rule) =
      items.map (·.2.rule) := by
  induction items generalizing progress with
  | nil => rfl
  | cons item rest inductionHypothesis =>
    rw [awardEach_cons, List.map_cons, List.map_cons, awardItem_rule, inductionHypothesis]

/-- A rule that is settled stays settled in an attempt, on whatever rule. -/
theorem attempt_settled {name : String} (rule : Rule) {progress : Progress σ}
    (settled : name ∈ progress.settled) :
    name ∈ (engine.attempt collaborators context rule progress).2.settled := by
  obtain ⟨_, _, _, _, _, _, made⟩ := attempt_frame collaborators context rule progress engine
  rw [made]
  exact List.mem_append_left _ settled

/-- A rule that is settled stays settled while the outcomes of a pass are dealt with. -/
theorem awardEach_settled {name : String} (items : List (Rule × Outcome)) {progress : Progress σ}
    (settled : name ∈ progress.settled) :
    name ∈ (engine.awardEach collaborators context items progress).2.2.settled :=
  awardEach_induction (P := fun _ later => name ∈ later.settled) (fun _ _ _ => id)
    (fun rule _ _ _ _ _ => attempt_settled rule) settled

/-- A rule that is settled stays settled in a pass, so no later pass takes it up again. -/
theorem pass_settled {name : String} {progress : Progress σ} (settled : name ∈ progress.settled) :
    name ∈ (engine.pass collaborators context candidates progress).2.settled :=
  pass_induction (I := fun later => name ∈ later.settled)
    (P := fun _ later => name ∈ later.settled) (fun _ => id) (fun _ so _ => so)
    (fun _ _ _ => id) (fun rule _ _ _ _ _ => attempt_settled rule) (fun _ _ => id) settled

/-- The outcomes that a pass adds are those of candidates that were not settled before. -/
theorem pass_outcomes (progress : Progress σ) :
    ∃ outcomes,
      (engine.pass collaborators context candidates progress).2.outcomes =
        progress.outcomes ++ outcomes ∧
      ∀ outcome ∈ outcomes, outcome.rule ∉ progress.settled := by
  have kept : (engine.checks collaborators context candidates progress).2.2.outcomes =
      progress.outcomes := rfl
  have named := @checks_named σ engine collaborators context candidates progress
  have rules := @checks_rules σ engine collaborators context candidates progress
  unfold pass
  split
  · rename_i failure items later made
    rw [made] at kept
    exact ⟨[], by rw [kept, List.append_nil], by simp⟩
  · rename_i items later made
    rw [made] at kept named rules
    refine ⟨(engine.awardEach collaborators context items later).1, ?_, fun outcome told => ?_⟩
    · dsimp only
      rw [(awardEach_frame items later).1, kept]
    · have among : outcome.rule ∈ items.map (·.2.rule) :=
        awardEach_names items later ▸ List.mem_map_of_mem told
      obtain ⟨item, inside, same⟩ := List.mem_map.mp among
      have listed : item.1 ∈ eligible candidates progress :=
        rules rfl ▸ List.mem_map_of_mem inside
      rw [← same, named item inside]
      simpa using (List.mem_filter.mp listed).2

/-- The passes to come add no outcome of a rule that is settled, since its checks are over. -/
theorem passes_outcomes {name : String} (left : Nat) {progress : Progress σ}
    (settled : name ∈ progress.settled) :
    ∃ outcomes,
      (engine.passes collaborators context candidates left progress).2.outcomes =
        progress.outcomes ++ outcomes ∧ ∀ outcome ∈ outcomes, outcome.rule ≠ name := by
  induction left generalizing progress with
  | zero => exact ⟨[], by simp [passes, Progress.note], by simp⟩
  | succ left inductionHypothesis =>
    obtain ⟨outcomes, added, unsettled⟩ :=
      @pass_outcomes σ engine collaborators context candidates progress
    have still : name ∈ (engine.pass collaborators context candidates progress).2.settled :=
      pass_settled settled
    have others : ∀ outcome ∈ outcomes, outcome.rule ≠ name :=
      fun outcome told same => unsettled outcome told (same ▸ settled)
    unfold passes
    split
    · exact ⟨[], by simp [Progress.note], by simp⟩
    · split
      · rename_i failure later passed
        exact ⟨outcomes, by rw [← added, passed], others⟩
      · rename_i later passed
        exact ⟨outcomes, by rw [← added, passed], others⟩
      · rename_i count later _ passed
        rw [passed] at added still
        obtain ⟨further, ended, othersToo⟩ := inductionHypothesis still
        exact ⟨outcomes ++ further, by rw [ended, added, List.append_assoc],
          List.forall_mem_append.mpr ⟨others, othersToo⟩⟩

end Engine

namespace CycleRequest

variable {collaborators : Collaborators σ} {request : CycleRequest}

/-- A rule that is settled stays settled in a step of the cycle. -/
theorem step_settled {name : String} {run : Run σ} (settled : name ∈ run.progress.settled) :
    name ∈ (request.step collaborators run).progress.settled := by
  obtain ⟨phase, progress⟩ := run
  match phase with
  | .ended _ => exact settled
  | .checking 0 => exact settled
  | .checking (left + 1) =>
    have kept : (request.engine.checks collaborators request.context request.candidates
        progress).2.2.settled = progress.settled := rfl
    simp only [step]
    split
    · exact settled
    · split
      · rename_i failure items later made
        rw [made] at kept
        exact kept ▸ settled
      · rename_i items later made
        rw [made] at kept
        exact kept ▸ settled
  | .awarding left [] outcomes count =>
    simp only [step]
    split
    · exact settled
    · exact settled
  | .awarding left ((rule, outcome) :: rest) outcomes count =>
    have next : name ∈ (request.engine.attempt collaborators request.context rule
        progress).2.settled := Engine.attempt_settled rule settled
    simp only [step]
    split
    · exact settled
    · split
      · rename_i error later made
        rw [made] at next
        exact next
      · rename_i later made
        rw [made] at next
        exact next

/-- A rule that is settled stays settled through any number of steps. -/
theorem advance_settled {name : String} (steps : Nat) {run : Run σ}
    (settled : name ∈ run.progress.settled) :
    name ∈ (request.advance collaborators steps run).progress.settled := by
  induction steps generalizing run with
  | zero => exact settled
  | succ steps inductionHypothesis => exact inductionHypothesis (step_settled settled)

/-- What a run has come to when it has ended is what the cycle comes to, but for the last notes. -/
theorem process_of_ended {state : σ} {escaped : Option Failure} {last : Progress σ}
    (reached : request.Reaches collaborators (request.start state) ⟨.ended escaped, last⟩) :
    ∃ happenings,
      request.engine.process collaborators request.context request.candidates state =
        (escaped, last.note happenings) := by
  obtain ⟨steps, whole⟩ := reached
  obtain ⟨_, ⟨total, rfl⟩, told⟩ := @start_reaches σ collaborators request state
  have ended : (request.advance collaborators steps (request.start state)).hasEnded = true :=
    whole ▸ rfl
  rw [← advance_unique ended (Run.state_of_result? told).1, whole] at told
  cases escaped with
  | some failure => exact ⟨_, (Option.some.inj told).symm⟩
  | none => exact ⟨_, (Option.some.inj told).symm⟩

section Outcomes

variable {left count : Nat} {dealt : List Outcome} {progress : Progress σ} {name : String}
  (settled : name ∈ progress.settled)
include settled

/-- When all outcomes of a pass are dealt with they are told, and later passes add none of a rule
that is settled. -/
theorem dealt_ends :
    ∃ escaped last later,
      request.Reaches collaborators ⟨.awarding left [] dealt count, progress⟩
        ⟨.ended escaped, last⟩ ∧
      last.outcomes = progress.outcomes ++ dealt ++ later ∧
      ∀ outcome ∈ later, outcome.rule ≠ name := by
  by_cases idle : count = 0
  · have next : request.step collaborators ⟨.awarding left [] dealt count, progress⟩ =
        ⟨.ended none, { progress with outcomes := progress.outcomes ++ dealt }⟩ := by
      simp only [step, idle, if_true]
    exact ⟨_, _, [], .step next, (List.append_nil _).symm, by simp⟩
  · have next : request.step collaborators ⟨.awarding left [] dealt count, progress⟩ =
        ⟨.checking left, { progress with outcomes := progress.outcomes ++ dealt }⟩ := by
      simp only [step, idle, if_false]
    obtain ⟨later, added, others⟩ := @Engine.passes_outcomes σ request.engine collaborators
      request.context request.candidates name left
      { progress with outcomes := progress.outcomes ++ dealt } settled
    exact ⟨_, _, later, (Reaches.step next).trans (checking_reaches left _), added, others⟩

/-- Before that there is one more outcome of the pass for each that is left. -/
theorem awarding_ends (items : List (Rule × Outcome)) :
    ∃ escaped last others later,
      request.Reaches collaborators ⟨.awarding left items dealt count, progress⟩
        ⟨.ended escaped, last⟩ ∧
      last.outcomes = progress.outcomes ++ dealt ++ (others ++ later) ∧
      others.length = items.length ∧ ∀ outcome ∈ later, outcome.rule ≠ name := by
  have awarding : request.Reaches collaborators ⟨.awarding left items dealt count, progress⟩ _ :=
    awarding_reaches left items dealt count progress
  cases dealing : request.engine.awardEach collaborators request.context items progress with
  | mk others rest =>
    obtain ⟨further, next⟩ := rest
    have kept : next.outcomes = progress.outcomes :=
      (congrArg (·.2.2.outcomes) dealing).symm.trans (Engine.awardEach_frame items progress).1
    have still : name ∈ next.settled :=
      (congrArg (·.2.2.settled) dealing) ▸ Engine.awardEach_settled items settled
    have names : others.map (·.rule) = items.map (·.2.rule) :=
      (congrArg (·.1.map (·.rule)) dealing).symm.trans (Engine.awardEach_names items progress)
    simp only [dealing] at awarding
    obtain ⟨escaped, last, later, ended, told, unlike⟩ := @dealt_ends σ collaborators request left
      (count + further) (dealt ++ others) next name still
    refine ⟨escaped, last, others, later, awarding.trans ended, ?_, ?_, unlike⟩
    · rw [told, kept]
      simp only [List.append_assoc]
    · simpa using congrArg List.length names

end Outcomes

end CycleRequest

end Accolade
