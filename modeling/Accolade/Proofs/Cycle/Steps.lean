import Accolade.Cycle.Steps
import Accolade.Proofs.Cycle.Parallel

/-!
# Reasoning about steps

A cycle that takes one step after the other without giving way comes to what the whole cycle comes
to. What the checks of a pass and attempts preserve of the state, each step does. And if every
check and every attempt comes to the same in related states, so does each step.
-/

namespace Accolade

variable {σ : Type}

namespace Side

/-- The other side of two is not the side itself. -/
@[simp] theorem other_ne (side : Side) : side.other ≠ side := by
  cases side <;> decide

/-- The other side of the other is the side itself. -/
@[simp] theorem other_other (side : Side) : side.other.other = side := by
  cases side <;> rfl

/-- What holds of one side and of the other holds of both. -/
theorem forall_of {P : Side → Prop} (side : Side) (own : P side) (others : P side.other) :
    ∀ either, P either := by
  intro either
  match side, either with
  | .first, .first | .second, .second => exact own
  | .first, .second | .second, .first => exact others

end Side

namespace Run

/-- The outcomes that are still to be dealt with. -/
def items (run : Run σ) : List (Rule × Outcome) :=
  match run.phase with
  | .awarding _ items _ _ => items
  | _ => []

end Run

namespace CycleRequest

variable {collaborators : Collaborators σ} {request : CycleRequest}

section Orbit

/-- Some steps and then some more are as many steps as both together. -/
theorem advance_add (early late : Nat) (run : Run σ) :
    request.advance collaborators (early + late) run =
      request.advance collaborators late (request.advance collaborators early run) := by
  induction early generalizing run with
  | zero => rw [Nat.zero_add, advance]
  | succ early inductionHypothesis =>
    rw [Nat.add_right_comm, advance, inductionHypothesis, advance]

/-- A run that has ended does not move, however often it is asked to. -/
theorem step_of_hasEnded {run : Run σ} (ended : run.hasEnded = true) :
    request.step collaborators run = run := by
  obtain ⟨phase, progress⟩ := run
  cases phase with
  | ended => rfl
  | _ => contradiction

/-- A cycle that has ended takes no more steps: any number of them leave it as it is. -/
theorem advance_of_hasEnded {run : Run σ} (ended : run.hasEnded = true) (steps : Nat) :
    request.advance collaborators steps run = run := by
  induction steps with
  | zero => rfl
  | succ steps inductionHypothesis => rw [advance, step_of_hasEnded ended, inductionHypothesis]

/-- Whenever a cycle has ended, it has ended in the same way. -/
theorem advance_unique {run : Run σ} {early late : Nat}
    (ended : (request.advance collaborators early run).hasEnded = true)
    (endedToo : (request.advance collaborators late run).hasEnded = true) :
    request.advance collaborators early run = request.advance collaborators late run := by
  rcases Nat.le_total early late with before | after
  · obtain ⟨more, rfl⟩ := Nat.exists_eq_add_of_le before
    rw [advance_add, advance_of_hasEnded ended]
  · obtain ⟨more, rfl⟩ := Nat.exists_eq_add_of_le after
    rw [advance_add, advance_of_hasEnded endedToo]

end Orbit

section Alone

/-- Whether a run comes to be another after some steps. -/
def Reaches (collaborators : Collaborators σ) (request : CycleRequest) (run later : Run σ) : Prop :=
  ∃ steps, request.advance collaborators steps run = later

namespace Reaches

variable {run next later : Run σ}

/-- What one step of a run comes to is reached. -/
theorem step (same : request.step collaborators run = next) :
    request.Reaches collaborators run next := ⟨1, same⟩

/-- What is reached from something reached is reached, by the steps of both. -/
theorem trans (early : request.Reaches collaborators run next)
    (late : request.Reaches collaborators next later) :
    request.Reaches collaborators run later := by
  obtain ⟨steps, rfl⟩ := early
  obtain ⟨more, rfl⟩ := late
  exact ⟨steps + more, advance_add steps more run⟩

end Reaches

/-- Step by step, a cycle deals with the outcomes of a pass as in one go. -/
theorem awarding_reaches (left : Nat) (items : List (Rule × Outcome)) (outcomes : List Outcome)
    (count : Nat) (progress : Progress σ) :
    let awarded := request.engine.awardEach collaborators request.context items progress
    request.Reaches collaborators ⟨.awarding left items outcomes count, progress⟩
      ⟨.awarding left [] (outcomes ++ awarded.1) (count + awarded.2.1), awarded.2.2⟩ := by
  induction items generalizing outcomes count progress with
  | nil => exact ⟨0, by simp [advance, Engine.awardEach]⟩
  | cons item rest inductionHypothesis =>
    obtain ⟨rule, outcome⟩ := item
    by_cases skipped : (!outcome.shouldAward || progress.settled.contains rule.name) = true
    · have next := inductionHypothesis (outcomes ++ [outcome]) count progress
      simp only [Engine.awardEach, skipped, if_true]
      simp only [List.append_assoc, List.singleton_append] at next
      exact (Reaches.step (by simp only [step, skipped, if_true])).trans next
    · cases made : request.engine.attempt collaborators request.context rule progress with
      | mk error later =>
        cases error with
        | some error =>
          have next := inductionHypothesis (outcomes ++ [{ outcome with error := some error }])
            count later
          simp only [Engine.awardEach, skipped, made, Bool.false_eq_true, if_false]
          simp only [List.append_assoc, List.singleton_append] at next
          exact (Reaches.step (by simp only [step, skipped, made, Bool.false_eq_true,
            if_false])).trans next
        | none =>
          have next := inductionHypothesis (outcomes ++ [outcome]) (count + 1) later
          simp only [Engine.awardEach, skipped, made, Bool.false_eq_true, if_false]
          simp only [List.append_assoc, List.singleton_append, Nat.add_assoc,
            Nat.add_comm 1] at next
          exact (Reaches.step (by simp only [step, skipped, made, Bool.false_eq_true,
            if_false])).trans next

/-- Step by step, a cycle makes the same passes as when it is run as a whole. -/
theorem checking_reaches (left : Nat) (progress : Progress σ) :
    let passed :=
      request.engine.passes collaborators request.context request.candidates left progress
    request.Reaches collaborators ⟨.checking left, progress⟩ ⟨.ended passed.1, passed.2⟩ := by
  induction left generalizing progress with
  | zero => exact .step rfl
  | succ left inductionHypothesis =>
    by_cases late : progress.expired = true
    · exact .step (by simp only [step, Engine.passes, late, if_true])
    · cases checked : request.engine.checks collaborators request.context request.candidates
          progress with
      | mk escaped found =>
        obtain ⟨items, ready⟩ := found
        cases escaped with
        | some failure =>
          refine .step ?_
          simp only [step, Engine.passes, Engine.pass, late, checked, Bool.false_eq_true, if_false]
        | none =>
          have begun : request.Reaches collaborators ⟨.checking (left + 1), progress⟩
              ⟨.awarding left items [] 0, ready⟩ :=
            .step (by simp only [step, late, checked, Bool.false_eq_true, if_false])
          have awarded : request.Reaches collaborators ⟨.awarding left items [] 0, ready⟩ _ :=
            awarding_reaches left items [] 0 ready
          cases dealt : request.engine.awardEach collaborators request.context items ready with
          | mk outcomes rest =>
            obtain ⟨count, later⟩ := rest
            simp only [dealt, List.nil_append, Nat.zero_add] at awarded
            simp only [Engine.passes, Engine.pass, late, checked, dealt, Bool.false_eq_true,
              if_false]
            refine (begun.trans awarded).trans ?_
            cases count with
            | zero => exact .step rfl
            | succ count => exact (Reaches.step rfl).trans (inductionHypothesis _)

/-- Step by step, a cycle comes to what the whole cycle comes to. -/
theorem start_reaches (state : σ) :
    ∃ ended : Run σ, request.Reaches collaborators (request.start state) ended ∧
      ended.result? =
        some (request.engine.process collaborators request.context request.candidates state) := by
  refine ⟨_, checking_reaches request.engine.maxPasses _, ?_⟩
  unfold Engine.process Run.result?
  cases request.engine.passes collaborators request.context request.candidates
      request.engine.maxPasses (Progress.start state request.engine.startsExpired) with
  | mk escaped later =>
    cases escaped with
    | some failure => rfl
    | none => rfl

end Alone

section Steps

/-- What a step does to the state and to the outcomes that are still to be dealt with. -/
inductive Stepped (collaborators : Collaborators σ) (request : CycleRequest) (run next : Run σ) :
    Prop
  | idle (same : next.progress.state = run.progress.state) (fewer : next.items.Sublist run.items)
  | escaped (none : next.items = [])
      (state : next.progress.state = (request.engine.checks collaborators request.context
        request.candidates run.progress).2.2.state)
  | checked (complete : (request.engine.checks collaborators request.context request.candidates
        run.progress).1 = none)
      (found : next.items = (request.engine.checks collaborators request.context
        request.candidates run.progress).2.1)
      (state : next.progress.state = (request.engine.checks collaborators request.context
        request.candidates run.progress).2.2.state)
  | attempted (rule : Rule) (outcome : Outcome) (listed : run.items = (rule, outcome) :: next.items)
      (chosen : outcome.shouldAward = true) (unsettled : rule.name ∉ run.progress.settled)
      (state : next.progress.state = (request.engine.attempt collaborators request.context rule
        run.progress).2.state)

/-- A step leaves the state, checks all candidates, or tries to award the next rule. -/
theorem step_cases (collaborators : Collaborators σ) (request : CycleRequest) (run : Run σ) :
    request.Stepped collaborators run (request.step collaborators run) := by
  obtain ⟨phase, progress⟩ := run
  match phase with
  | .ended _ => exact .idle rfl (List.Sublist.refl _)
  | .checking 0 => exact .idle rfl (List.Sublist.refl _)
  | .checking (left + 1) =>
    by_cases late : progress.expired = true
    · simp only [step, late, if_true]
      exact .idle rfl (List.Sublist.refl _)
    · simp only [step, late, Bool.false_eq_true, if_false]
      cases made : request.engine.checks collaborators request.context request.candidates
          progress with
      | mk escaped found =>
        cases escaped with
        | some failure => exact .escaped rfl (by rw [made])
        | none => exact .checked (by rw [made]) (by rw [made]; rfl) (by rw [made])
  | .awarding left [] outcomes count =>
    simp only [step]
    split
    · exact .idle rfl (List.Sublist.refl _)
    · exact .idle rfl (List.Sublist.refl _)
  | .awarding left ((rule, outcome) :: rest) outcomes count =>
    by_cases skipped : (!outcome.shouldAward || progress.settled.contains rule.name) = true
    · simp only [step, skipped, if_true]
      exact .idle rfl (List.sublist_cons_self _ _)
    · have chosen : outcome.shouldAward = true ∧ rule.name ∉ progress.settled := by
        simpa using skipped
      simp only [step, skipped, Bool.false_eq_true, if_false]
      cases made : request.engine.attempt collaborators request.context rule progress with
      | mk error later =>
        cases error with
        | some error => exact .attempted rule outcome rfl chosen.1 chosen.2 (by rw [made])
        | none => exact .attempted rule outcome rfl chosen.1 chosen.2 (by rw [made])

/-- Whether the outcomes that are still to be dealt with are of candidates, in their order. -/
def IsOrderly (request : CycleRequest) (run : Run σ) : Prop :=
  (run.items.map Prod.fst).Sublist request.candidates

/-- A cycle that has not begun has no outcomes to deal with, which are in order. -/
theorem start_isOrderly (state : σ) : request.IsOrderly (request.start state) :=
  List.nil_sublist _

/-- After a step, the outcomes that are still to be dealt with are of candidates, in their order. -/
theorem step_isOrderly {run : Run σ} (orderly : request.IsOrderly run) :
    request.IsOrderly (request.step collaborators run) := by
  unfold IsOrderly
  cases step_cases collaborators request run with
  | idle _ fewer => exact (fewer.map Prod.fst).trans orderly
  | escaped none _ =>
    rw [none]
    exact List.nil_sublist _
  | checked complete found _ =>
    rw [found, Engine.checks_rules complete]
    exact List.filter_sublist
  | attempted rule outcome listed _ _ _ =>
    rw [IsOrderly, listed] at orderly
    exact (List.sublist_cons_self _ _).trans orderly

/-- After any steps, the outcomes that are still to be dealt with are of candidates, in their order.
-/
theorem advance_isOrderly {run : Run σ} (orderly : request.IsOrderly run) (steps : Nat) :
    request.IsOrderly (request.advance collaborators steps run) := by
  induction steps generalizing run with
  | zero => exact orderly
  | succ steps inductionHypothesis => exact inductionHypothesis (step_isOrderly orderly)

/-- The rule of an outcome that is still to be dealt with is a candidate. -/
theorem IsOrderly.mem {run : Run σ} (orderly : request.IsOrderly run) {item : Rule × Outcome}
    (member : item ∈ run.items) : item.1 ∈ request.candidates :=
  orderly.subset (List.mem_map_of_mem member)

/-- What the checks of a pass and attempts preserve of the state, a step does. -/
theorem step_state {I : σ → Prop}
    (checked : ∀ progress : Progress σ, I progress.state →
      I (request.engine.checks collaborators request.context request.candidates
        progress).2.2.state)
    (attempted : ∀ rule ∈ request.candidates, ∀ progress : Progress σ, I progress.state →
      I (request.engine.attempt collaborators request.context rule progress).2.state)
    {run : Run σ} (orderly : request.IsOrderly run) (holding : I run.progress.state) :
    I (request.step collaborators run).progress.state := by
  cases step_cases collaborators request run with
  | idle same _ => exact same ▸ holding
  | escaped _ state => exact state ▸ checked _ holding
  | checked _ _ state => exact state ▸ checked _ holding
  | attempted rule outcome listed _ _ state =>
    have member : (rule, outcome) ∈ run.items := listed ▸ List.mem_cons_self
    exact state ▸ attempted rule (orderly.mem member) _ holding

/-- What each check and each attempt on a candidate keeps of the state, any steps of an orderly
cycle keep. -/
theorem advance_state {I : σ → Prop}
    (checked : ∀ progress : Progress σ, I progress.state →
      I (request.engine.checks collaborators request.context request.candidates
        progress).2.2.state)
    (attempted : ∀ rule ∈ request.candidates, ∀ progress : Progress σ, I progress.state →
      I (request.engine.attempt collaborators request.context rule progress).2.state)
    {run : Run σ} (orderly : request.IsOrderly run) (holding : I run.progress.state)
    (steps : Nat) : I (request.advance collaborators steps run).progress.state := by
  induction steps generalizing run with
  | zero => exact holding
  | succ steps inductionHypothesis =>
    exact inductionHypothesis (step_isOrderly orderly)
      (step_state checked attempted orderly holding)

end Steps

end CycleRequest

/-- Whether two runs have come equally far, in related states. -/
def Run.Alike (R : σ → σ → Prop) (first second : Run σ) : Prop :=
  ∃ state, R first.progress.state state ∧ second = first.within state

/-- Runs in one phase are alike when their progress is. -/
theorem Progress.Alike.run {R : σ → σ → Prop} {first second : Progress σ}
    (alike : first.Alike R second) (phase : Phase) :
    Run.Alike R ⟨phase, first⟩ ⟨phase, second⟩ := by
  obtain ⟨state, related, rfl⟩ := alike
  exact ⟨state, related, rfl⟩

/-- A step of an orderly cycle comes to the same in runs that are alike, and leaves them alike. -/
theorem Engine.StepsAlike.step {collaborators : Collaborators σ} {request : CycleRequest}
    {R : σ → σ → Prop}
    (steps : StepsAlike request.engine collaborators request.context request.candidates R)
    {first second : Run σ} (orderly : request.IsOrderly first) (alike : first.Alike R second) :
    (request.step collaborators first).Alike R (request.step collaborators second) := by
  obtain ⟨phase, progress⟩ := first
  obtain ⟨state, related, rfl⟩ := alike
  have same : Progress.Alike R progress { progress with state := state } := ⟨state, related, rfl⟩
  match phase with
  | .ended _ => exact ⟨state, related, rfl⟩
  | .checking 0 => exact ⟨state, related, rfl⟩
  | .checking (left + 1) =>
    obtain ⟨escaped, ⟨items, ready⟩, ⟨_, readyToo⟩, made, madeToo, rfl, next⟩ :=
      (steps.checks same).spread
    simp only [CycleRequest.step, Run.within, made, madeToo]
    split
    · exact ⟨state, related, rfl⟩
    · cases escaped with
      | some failure => exact next.run _
      | none => exact next.run _
  | .awarding left [] outcomes count =>
    simp only [CycleRequest.step, Run.within]
    split
    · exact ⟨state, related, rfl⟩
    · exact ⟨state, related, rfl⟩
  | .awarding left ((rule, outcome) :: rest) outcomes count =>
    have member : rule ∈ request.candidates := orderly.subset List.mem_cons_self
    obtain ⟨error, later, laterToo, made, madeToo, next⟩ := (steps.attempt member same).spread
    simp only [CycleRequest.step, Run.within, made, madeToo]
    split
    · exact ⟨state, related, rfl⟩
    · cases error with
      | some error => exact next.run _
      | none => exact next.run _

namespace Run

/-- A run goes on in the last state it is put in. -/
@[simp] theorem within_within (run : Run σ) (state other : σ) :
    (run.within state).within other = run.within other := rfl

/-- A run that is put in a state has that state. -/
@[simp] theorem within_state (run : Run σ) (state : σ) :
    (run.within state).progress.state = state := rfl

/-- What a run comes to, it comes to when it has ended, and in the state it has then. -/
theorem state_of_result? {run : Run σ} {result : Option Failure × Progress σ}
    (told : run.result? = some result) :
    run.hasEnded = true ∧ run.progress.state = result.2.state := by
  obtain ⟨phase, progress⟩ := run
  match phase with
  | .ended (some failure) =>
    cases told
    exact ⟨rfl, rfl⟩
  | .ended none =>
    cases told
    exact ⟨rfl, rfl⟩
  | .checking _ | .awarding _ _ _ _ => contradiction

end Run

namespace Crossing

variable {collaborators : Collaborators σ} {requests : Side → CycleRequest} {crossing : Crossing σ}

/-- Whether both runs are orderly. -/
def IsOrderly (requests : Side → CycleRequest) (crossing : Crossing σ) : Prop :=
  ∀ side, (requests side).IsOrderly (crossing.run side)

/-- The runs of cycles that have not begun are orderly on both sides. -/
theorem start_isOrderly (requests : Side → CycleRequest) (state : σ) :
    (start requests state).IsOrderly requests :=
  fun _ => CycleRequest.start_isOrderly state

/-- The run of the side that takes its turn makes a step. -/
theorem turn_current (crossing : Crossing σ) (side : Side) :
    (crossing.turn collaborators requests side).current side =
      (requests side).step collaborators (crossing.current side) := by
  simp only [current, turn, if_true]
  rfl

/-- The run of the other side waits while a side takes its turn. -/
theorem turn_other (crossing : Crossing σ) (side : Side) :
    (crossing.turn collaborators requests side).run side.other = crossing.run side.other := by
  simp only [turn, Side.other_ne, if_false]

/-- A turn leaves both runs orderly. -/
theorem turn_isOrderly (orderly : crossing.IsOrderly requests) (side : Side) :
    (crossing.turn collaborators requests side).IsOrderly requests := by
  refine side.forall_of ?_ ?_
  · have current : (requests side).IsOrderly (crossing.current side) := orderly side
    simpa only [turn, if_true] using CycleRequest.step_isOrderly current
  · rw [turn_other]
    exact orderly side.other

/-- Some turns and then some more are the turns of both lists, one after the other. -/
theorem turns_append (early late : List Side) :
    crossing.turns collaborators requests (early ++ late) =
      (crossing.turns collaborators requests early).turns collaborators requests late :=
  List.foldl_append

/-- Both cycles have ended when each has. -/
theorem hasEnded_iff (crossing : Crossing σ) :
    crossing.hasEnded = true ↔ ∀ side, (crossing.run side).hasEnded = true := by
  simp only [hasEnded, Bool.and_eq_true]
  exact ⟨fun both => Side.first.forall_of both.1 both.2, fun all => ⟨all .first, all .second⟩⟩

/-- What a turn preserves of crossings, any turns do. -/
theorem turns_induction {I : Crossing σ → Prop}
    (taken : ∀ crossing side, I crossing → I (crossing.turn collaborators requests side))
    (holding : I crossing) (sides : List Side) :
    I (crossing.turns collaborators requests sides) := by
  induction sides generalizing crossing with
  | nil => exact holding
  | cons side rest inductionHypothesis => exact inductionHypothesis (taken crossing side holding)

/-- What the checks and attempts of both cycles preserve of the state, any turns do. -/
theorem turns_state {I : σ → Prop}
    (checked : ∀ side, ∀ progress : Progress σ, I progress.state →
      I ((requests side).engine.checks collaborators (requests side).context
        (requests side).candidates progress).2.2.state)
    (attempted : ∀ side, ∀ rule ∈ (requests side).candidates, ∀ progress : Progress σ,
      I progress.state → I ((requests side).engine.attempt collaborators (requests side).context
        rule progress).2.state)
    (orderly : crossing.IsOrderly requests) (holding : I crossing.state) (sides : List Side) :
    I (crossing.turns collaborators requests sides).state := by
  refine (turns_induction (I := fun crossing => crossing.IsOrderly requests ∧ I crossing.state)
    ?_ ⟨orderly, holding⟩ sides).2
  rintro crossing side ⟨orderly, holding⟩
  have current : (requests side).IsOrderly (crossing.current side) := orderly side
  exact ⟨turn_isOrderly orderly side,
    CycleRequest.step_state (checked side) (attempted side) current holding⟩

/-- A side that takes some turns takes as many steps, and the run of the other side waits. -/
theorem turns_replicate (side : Side) (steps : Nat) :
    let later := crossing.turns collaborators requests (List.replicate steps side)
    later.current side = (requests side).advance collaborators steps (crossing.current side) ∧
      later.run side.other = crossing.run side.other := by
  induction steps generalizing crossing with
  | zero => exact ⟨rfl, rfl⟩
  | succ steps inductionHypothesis =>
    obtain ⟨own, others⟩ := @inductionHypothesis (crossing.turn collaborators requests side)
    rw [turn_current] at own
    exact ⟨own, others.trans (turn_other crossing side)⟩

/-- Two cycles, one after the other, are a way of taking turns: all turns of the one, and then all
of the other. -/
theorem turns_serial (collaborators : Collaborators σ) (requests : Side → CycleRequest)
    (side : Side) (state : σ) :
    ∃ sides, ((start requests state).turns collaborators requests sides).hasEnded = true ∧
      ((start requests state).turns collaborators requests sides).state =
        runHistory collaborators [requests side, requests side.other] state := by
  obtain ⟨_, ⟨steps, rfl⟩, told⟩ :=
    @CycleRequest.start_reaches σ collaborators (requests side) state
  obtain ⟨ended, reached⟩ := Run.state_of_result? told
  obtain ⟨_, ⟨more, rfl⟩, toldToo⟩ := @CycleRequest.start_reaches σ collaborators
    (requests side.other) ((requests side).engine.process collaborators (requests side).context
      (requests side).candidates state).2.state
  obtain ⟨endedToo, reachedToo⟩ := Run.state_of_result? toldToo
  refine ⟨List.replicate steps side ++ List.replicate more side.other, ?_⟩
  obtain ⟨own, others⟩ :=
    @turns_replicate σ collaborators requests (start requests state) side steps
  rw [turns_append]
  generalize (start requests state).turns collaborators requests (List.replicate steps side) =
    between at own others ⊢
  obtain ⟨ownToo, othersToo⟩ := @turns_replicate σ collaborators requests between side.other more
  generalize between.turns collaborators requests (List.replicate more side.other) =
    last at ownToo othersToo ⊢
  -- The second cycle starts in the state in which the first has ended.
  have shared : between.state = ((requests side).engine.process collaborators
      (requests side).context (requests side).candidates state).2.state :=
    (congrArg (fun run : Run σ => run.progress.state) own).trans reached
  have begun : between.current side.other = (requests side.other).start between.state := by
    rw [current, others]
    rfl
  rw [begun, shared] at ownToo
  rw [Side.other_other] at othersToo
  constructor
  · refine (hasEnded_iff last).mpr (side.forall_of ?_ ?_)
    · rw [othersToo]
      exact (congrArg Run.hasEnded own).trans ended
    · exact (congrArg Run.hasEnded ownToo).trans endedToo
  · exact (congrArg (fun run : Run σ => run.progress.state) ownToo).trans reachedToo

end Crossing

end Accolade
