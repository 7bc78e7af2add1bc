import Accolade.Proofs.Cycle.Balance
import Accolade.Proofs.Cycle.Caps
import Accolade.Proofs.Cycle.Scopes
import Accolade.Proofs.Cycle.Steps

/-!
# How far two cycles overshoot a cap

A check compares with the cap what was awarded when it was made, and the award comes some steps
later. If another cycle takes its turn in between, both may find room for the same award. But a
cycle deals with each rule once after its checks, so it has at most one award of the rule pending
that it has found room for, and it can only plan one while the total is below the cap. The total
and what both cycles have pending therefore never come to more than one above the cap.

A cycle has an award pending only for contexts that share the records of the rule with its own.
Where one of the two cycles is apart, the total stays within the cap.
-/

namespace Accolade

/-- Whether a rule has the same records in a context that resolves its scope as in another. -/
def Rule.Shares (rule : Rule) (observer context : Context) : Prop :=
  (context.forScope rule.scope).Resolves ∧
    ¬ (observer.forScope rule.scope).ApartFrom (context.forScope rule.scope)

/-- Contexts that share the records of a rule have the same total of it. -/
theorem Rule.Shares.awardedTo_eq {rule : Rule} {observer context : Context}
    (shares : rule.Shares observer context) (resolves : (observer.forScope rule.scope).Resolves)
    (proper : Value.entriesProper observer.attributes = true) (ledger : Ledger) :
    ledger.awardedTo rule observer = ledger.awardedTo rule context := by
  refine Ledger.total_congr (fun fact => ?_) ledger
  rw [fact.isMatch_iff (observer.forScope rule.scope),
    fact.isMatch_iff (context.forScope rule.scope)]
  exact and_congr_right fun _ =>
    Fact.liesIn_iff_of_not_apart rfl resolves shares.1 proper shares.2

/-- Whether a rule is still to be awarded in a pass. -/
def Run.Awaits {σ : Type} (run : Run σ) (rule : Rule) : Prop :=
  ∃ outcome : Outcome, (rule, outcome) ∈ run.items ∧ outcome.shouldAward = true

namespace Engine

variable {engine : Engine} {context : Context} (runs : Bool)
  (distinct : engine.catalogue.names.Nodup)
  (keyed : ∀ rule ∈ engine.catalogue.rules, rule.scope ≠ [])
  (proper : Value.entriesProper context.attributes = true)
include distinct keyed proper

omit distinct in
/-- An attempt on a rule in force leaves stores sound: the amounts stay whole, and the scopes
proper. -/
theorem attempt_isSound {rule : Rule} (member : rule ∈ engine.catalogue.rules)
    {progress : Progress Stores} (sound : progress.state.IsSound) :
    (engine.attempt (Stores.collaborators runs) context rule progress).2.state.IsSound := by
  have kept := attempt_calm_state runs context rule engine (I := fun state : Stores =>
    ∀ fact ∈ state.achievements, Value.entriesProper fact.scope = true) sound.toIsCalm ?_ ?_ ?_
    sound.proper
  · exact ⟨kept.1, kept.2⟩
  · intro resolves written later _ awarded
    rw [Ledger.awardScope_of_ne_nil context.subject
      (Context.boundValues_ne_nil resolves (keyed rule member))] at awarded
    exact awarded.scopes (P := fun scope => Value.entriesProper scope = true) sound.proper
      (Context.boundValues_proper proper)
  · exact fun target _ state _ held => Ledger.retractAward_scopes _ _ _
      (P := fun scope => Value.entriesProper scope = true) held
  · exact fun state held _ => held

omit distinct keyed proper in
/-- The retractions of an attempt leave the totals of the rules that are not replaced. -/
theorem awardedTo_boundRetractions {rule awarded : Rule} (kept : rule.name ∉ awarded.replaces)
    (observer : Context) (ledger : Ledger) :
    (ledger.retractEach context.subject (engine.boundRetractions context awarded)).awardedTo rule
      observer = ledger.awardedTo rule observer := by
  rw [← boundRetractions_targets engine context awarded] at kept
  unfold Ledger.awardedTo
  rw [Ledger.total_retractEach context.subject, if_neg kept]
  exact fun entry among named => absurd (List.mem_map.mpr ⟨entry, among, named⟩) kept

/-- An attempt leaves the total of a rule that a context apart sees. -/
theorem attempt_awardedTo_of_apart {rule awarded : Rule} (member : rule ∈ engine.catalogue.rules)
    (inForce : awarded ∈ engine.catalogue.rules) {observer : Context}
    (apart : (observer.forScope rule.scope).ApartFrom (context.forScope rule.scope))
    {progress : Progress Stores} (sound : progress.state.IsSound) :
    (engine.attempt (Stores.collaborators runs) context awarded
        progress).2.state.achievements.awardedTo rule observer =
      progress.state.achievements.awardedTo rule observer := by
  have holding : StillFinds Stores.IsPlain Stores.achievements rule observer _ progress.state :=
    ⟨sound.toIsPlain, sound.proper, rfl⟩
  have found := (attempt_stillFinds (Stores.collaborators_keepLedger runs) distinct keyed member
    (apart.symm proper) proper inForce holding).finds
  simp only [Ledger.awardedTo, Ledger.total_eq_foldr, found]

/-- What an attempt does to the total of a rule in some context: nothing, unless that context
shares the records of the rule. Then it clears them, or adds one if the award is of the rule.

Proof: an award in a context kept apart reaches no record of the rule. Otherwise the retractions
decide if the rule is among those replaced, for they come last and leave nothing; if it is not, only
an award of the rule itself counts. -/
theorem attempt_awardedTo {rule awarded : Rule} (member : rule ∈ engine.catalogue.rules)
    (inForce : awarded ∈ engine.catalogue.rules) {observer : Context}
    (resolves : (observer.forScope rule.scope).Resolves)
    (properToo : Value.entriesProper observer.attributes = true) {progress : Progress Stores}
    (sound : progress.state.IsSound) :
    let before := progress.state.achievements.awardedTo rule observer
    let after := (engine.attempt (Stores.collaborators runs) context awarded
      progress).2.state.achievements.awardedTo rule observer
    after = before ∨
      rule.Shares observer context ∧ (after = 0 ∨ awarded = rule ∧ after = before + 1) := by
  intro before after
  by_cases apart : (observer.forScope rule.scope).ApartFrom (context.forScope rule.scope)
  · exact .inl (attempt_awardedTo_of_apart runs distinct keyed proper member inForce apart sound)
  · obtain ⟨error, later, made, tried⟩ := attempt_calm runs context awarded engine sound.toIsCalm
    simp only [before, after, made]
    cases tried with
    | unresolved => exact .inl rfl
    | wentThrough resolved written ledger recorded invocations happenings =>
      rw [Ledger.awardScope_of_ne_nil context.subject
        (Context.boundValues_ne_nil resolved.1 (keyed awarded inForce))] at recorded
      have shared : (context.forScope rule.scope).Resolves → rule.Shares observer context :=
        fun own => ⟨own, apart⟩
      by_cases replaced : rule.name ∈ awarded.replaces
      · have own : (context.forScope rule.scope).Resolves :=
          retractionScope_of_mem distinct member awarded ▸ resolved.2 rule.name replaced
        refine .inr ⟨shared own, .inl ?_⟩
        rw [(shared own).awardedTo_eq resolves properToo,
          awardedTo_retractions distinct keyed member own, if_pos replaced]
      · -- The retractions are of other rules, so only the award counts.
        rw [awardedTo_boundRetractions replaced]
        by_cases same : rule.name = awarded.name
        · obtain rfl := Catalogue.eq_of_name distinct member inForce same
          have raised := recorded.total (Ledger.queryOf (.text rule.name)
            (observer.forScope rule.scope).boundValues)
          split at raised
          · exact .inr ⟨shared resolved.1, .inr ⟨rfl, raised⟩⟩
          · exact .inl (raised.trans (Int.add_zero _))
        · exact .inl (recorded.awardedTo_other same observer)

omit distinct keyed proper in
/-- A rule that the checks of a pass let through has room in every context that shares its
records, and its scope resolves. -/
theorem checks_room {candidates : List Rule} {rule : Rule} {observer : Context}
    (resolves : (observer.forScope rule.scope).Resolves)
    (properToo : Value.entriesProper observer.attributes = true)
    (texts : AreTexts (Entries.keys context.attributes)) {progress : Progress Stores}
    (calm : progress.state.IsCalm) {outcome : Outcome}
    (found : (rule, outcome) ∈ (engine.checks (Stores.collaborators runs) context candidates
      progress).2.1)
    (chosen : outcome.shouldAward = true) (shares : rule.Shares observer context) :
    progress.state.achievements.awardedTo rule observer < rule.maxAwarded := by
  have calmly : (Stores.collaborators runs).lookup.IsCalm progress.state := calm.lookup
  obtain ⟨_, total, told, below⟩ := checks_due calmly texts found chosen
  change (awardedAmount Stores.lookup _ _ _).1 = _ at told
  rw [awardedAmount_eq calm.achievements (fun query => calm.toIsPlain.lookup .achievement query)
    shares.1] at told
  cases told
  rw [shares.awardedTo_eq resolves properToo]
  exact below

end Engine

namespace CycleRequest

open Classical in
/-- How many awards of a rule a cycle has pending that a context would see: one, if it is still to
deal with the rule, for which it has found room, and the context shares the records of the rule. -/
noncomputable def pending (rule : Rule) (observer : Context) (request : CycleRequest)
    (run : Run Stores) : Int :=
  if rule.Shares observer request.context ∧ run.Awaits rule then 1 else 0

variable {rule : Rule} {observer : Context} {request : CycleRequest} {run : Run Stores}

/-- A cycle has no award of a rule pending, or exactly one. In the second case it shares the records
of the rule with the observer and is still to deal with the rule. -/
theorem pending_cases : request.pending rule observer run = 0 ∨
    request.pending rule observer run = 1 ∧ rule.Shares observer request.context ∧
      run.Awaits rule := by
  unfold pending
  split
  · rename_i both
    exact .inr ⟨rfl, both⟩
  · exact .inl rfl

/-- The number of awards that a cycle has pending is not negative. -/
theorem pending_nonnegative : 0 ≤ request.pending rule observer run := by
  rcases @pending_cases rule observer request run with none | ⟨one, _⟩
  · omega
  · omega

/-- A cycle has at most one award of a rule pending, since a pass checks each rule once. -/
theorem pending_le_one : request.pending rule observer run ≤ 1 := by
  rcases @pending_cases rule observer request run with none | ⟨one, _⟩
  · omega
  · omega

/-- No more awards are pending with fewer outcomes to deal with. -/
theorem pending_mono {next : Run Stores} (fewer : ∀ item ∈ next.items, item ∈ run.items) :
    request.pending rule observer next ≤ request.pending rule observer run := by
  unfold pending
  split
  · rename_i both
    obtain ⟨shares, outcome, member, chosen⟩ := both
    exact Int.le_of_eq (if_pos ⟨shares, outcome, fewer _ member, chosen⟩).symm
  · split <;> decide

/-- What a step does to the total of a rule that a context sees, and to what is pending. -/
inductive PendingStep (rule : Rule) (observer : Context) (request : CycleRequest)
    (run next : Run Stores) : Prop
  | lapsed
      (total : next.progress.state.achievements.awardedTo rule observer =
        run.progress.state.achievements.awardedTo rule observer)
      (fewer : request.pending rule observer next ≤ request.pending rule observer run)
  | planned (shares : rule.Shares observer request.context)
      (total : next.progress.state.achievements.awardedTo rule observer =
        run.progress.state.achievements.awardedTo rule observer)
      (room : run.progress.state.achievements.awardedTo rule observer < rule.maxAwarded)
  | made (planned : request.pending rule observer run = 1)
      (done : request.pending rule observer next = 0)
      (total : next.progress.state.achievements.awardedTo rule observer =
        run.progress.state.achievements.awardedTo rule observer + 1)
  | cleared (shares : rule.Shares observer request.context)
      (total : next.progress.state.achievements.awardedTo rule observer = 0)

/-- A step keeps the total within an allowance beside what the cycle and another have pending, if
the allowance covers the other wherever the cycle can have an award pending. -/
theorem PendingStep.bound {next : Run Stores}
    (made : request.PendingStep rule observer run next)
    (cap : 1 ≤ rule.maxAwarded) {other allowance : Int}
    (covered : rule.Shares observer request.context → other ≤ allowance)
    (before : run.progress.state.achievements.awardedTo rule observer +
      (request.pending rule observer run + other) ≤ rule.maxAwarded + allowance) :
    next.progress.state.achievements.awardedTo rule observer +
      (request.pending rule observer next + other) ≤ rule.maxAwarded + allowance := by
  have single : request.pending rule observer next ≤ 1 := pending_le_one
  cases made with
  | lapsed total fewer => omega
  | planned shares total room =>
    have spare := covered shares
    omega
  | made planned done total => omega
  | cleared shares total =>
    have spare := covered shares
    omega

section Step

variable (runs : Bool) {catalogue : Catalogue} (inForce : request.engine.catalogue = catalogue)
  (distinct : catalogue.names.Nodup) (keyed : ∀ rule ∈ catalogue.rules, rule.scope ≠ [])
  (fits : request.Fits catalogue.rules)
include inForce keyed fits

/-- A step of an orderly cycle leaves stores sound, be it the checks of a pass or one attempt. -/
theorem step_isSound (orderly : request.IsOrderly run) (sound : run.progress.state.IsSound) :
    (request.step (Stores.collaborators runs) run).progress.state.IsSound := by
  subst inForce
  refine step_state (I := Stores.IsSound) ?_ ?_ orderly sound
  · intro progress sound
    rwa [Engine.checks_state runs _ _ _ sound.toIsCalm]
  · exact fun rule member progress sound =>
      Engine.attempt_isSound runs keyed fits.proper (fits.known rule member) sound

include distinct

/-- A step lets what is pending lapse, plans an award where there is room, makes one, or clears the
total.

Proof: a step that only checks leaves the total and may find room, which plans an award. An attempt
leaves the total, clears it, or makes the award that was planned; as no rule stands twice among the
items left, nothing is pending after it. -/
theorem step_pending (texts : AreTexts (Entries.keys request.context.attributes))
    (member : rule ∈ catalogue.rules)
    (resolves : (observer.forScope rule.scope).Resolves)
    (properToo : Value.entriesProper observer.attributes = true)
    (orderly : request.IsOrderly run) (sound : run.progress.state.IsSound) :
    request.PendingStep rule observer run (request.step (Stores.collaborators runs) run) := by
  subst inForce
  have unmoved := Engine.checks_state runs request.context request.engine request.candidates
    sound.toIsCalm
  cases step_cases (Stores.collaborators runs) request run with
  | idle same fewer =>
    exact .lapsed (by rw [same]) (pending_mono fun _ inside => fewer.subset inside)
  | escaped none state =>
    refine .lapsed (by rw [state, unmoved]) (pending_mono fun item inside => ?_)
    rw [none] at inside
    contradiction
  | checked complete found state =>
    have total :
        (request.step (Stores.collaborators runs) run).progress.state.achievements.awardedTo rule
          observer = run.progress.state.achievements.awardedTo rule observer := by
      rw [state, unmoved]
    rcases @pending_cases rule observer request (request.step (Stores.collaborators runs) run) with
      none | ⟨_, shares, outcome, inside, chosen⟩
    · exact .lapsed total (none ▸ pending_nonnegative)
    · rw [found] at inside
      exact .planned shares total (Engine.checks_room runs resolves properToo texts
        sound.toIsCalm inside chosen shares)
  | attempted awarded outcome listed chosen _ state =>
    have known : awarded ∈ request.engine.catalogue.rules := by
      have inside : (awarded, outcome) ∈ run.items := listed ▸ List.mem_cons_self
      exact fits.known awarded (orderly.mem inside)
    rcases Engine.attempt_awardedTo runs distinct keyed fits.proper member known resolves properToo
        sound with same | ⟨shares, cleared | ⟨rfl, raised⟩⟩
    · refine .lapsed (by rw [state, same]) (pending_mono fun item inside => ?_)
      rw [listed]
      exact List.mem_cons_of_mem _ inside
    · exact .cleared shares (by rw [state, cleared])
    · refine .made ?_ ?_ (by rw [state, raised])
      · exact if_pos ⟨shares, outcome, listed ▸ List.mem_cons_self, chosen⟩
      · refine if_neg ?_
        rintro ⟨_, later, inside, _⟩
        have once : (run.items.map Prod.fst).Nodup := orderly.nodup fits.distinct
        rw [listed, List.map_cons] at once
        exact (List.nodup_cons.mp once).1 (List.mem_map.mpr ⟨_, inside, rfl⟩)

end Step

end CycleRequest

namespace Crossing

/-- Whether the runs of a crossing are orderly, its stores sound, and its total of a rule beside
what both cycles have pending no more than an allowance above the cap. -/
structure Overshoots (requests : Side → CycleRequest) (rule : Rule) (observer : Context)
    (allowance : Int) (crossing : Crossing Stores) : Prop where
  orderly : crossing.IsOrderly requests
  sound : crossing.state.IsSound
  bound : crossing.state.achievements.awardedTo rule observer +
    ((requests .first).pending rule observer (crossing.run .first) +
      (requests .second).pending rule observer (crossing.run .second)) ≤ rule.maxAwarded + allowance

namespace Overshoots

variable {requests : Side → CycleRequest} {rule : Rule} {observer : Context} {allowance : Int}

/-- Cycles that have not begun have nothing pending, so totals within the cap meet the bound. -/
theorem start {stores : Stores} (sound : stores.IsSound)
    (within : stores.achievements.awardedTo rule observer ≤ rule.maxAwarded)
    (nonnegative : 0 ≤ allowance) :
    Overshoots requests rule observer allowance (Crossing.start requests stores) := by
  have none : ∀ side, (requests side).pending rule observer
      ((requests side).start stores) = 0 := by
    intro side
    refine if_neg ?_
    rintro ⟨_, _, inside, _⟩
    contradiction
  refine ⟨start_isOrderly requests stores, sound, ?_⟩
  change _ + ((requests .first).pending rule observer ((requests .first).start stores) +
    (requests .second).pending rule observer ((requests .second).start stores)) ≤ _
  rw [none, none]
  change stores.achievements.awardedTo rule observer + (0 + 0) ≤ _
  omega

/-- The total alone is no more than the allowance above the cap, as what is pending is not negative.
-/
theorem total_le {crossing : Crossing Stores}
    (bounded : Overshoots requests rule observer allowance crossing) :
    crossing.state.achievements.awardedTo rule observer ≤ rule.maxAwarded + allowance := by
  have one :=
    @CycleRequest.pending_nonnegative rule observer (requests .first) (crossing.run .first)
  have other :=
    @CycleRequest.pending_nonnegative rule observer (requests .second) (crossing.run .second)
  have bound := bounded.bound
  omega

end Overshoots

section Turns

variable (runs : Bool) {requests : Side → CycleRequest} {rule : Rule} {observer : Context}
  {catalogue : Catalogue} (inForce : ∀ side, (requests side).engine.catalogue = catalogue)
  (distinct : catalogue.names.Nodup) (keyed : ∀ rule ∈ catalogue.rules, rule.scope ≠ [])
  (capped : ∀ rule ∈ catalogue.rules, 1 ≤ rule.maxAwarded)
  (fits : ∀ side, (requests side).Fits catalogue.rules)
  (texts : ∀ side, AreTexts (Entries.keys (requests side).context.attributes))
  (member : rule ∈ catalogue.rules) (resolves : (observer.forScope rule.scope).Resolves)
  (properToo : Value.entriesProper observer.attributes = true) {allowance : Int}
  (nonnegative : 0 ≤ allowance)
  (both : (∀ side, rule.Shares observer (requests side).context) → 1 ≤ allowance)

include inForce keyed fits in
/-- Any turns of two cycles leave stores sound, whichever of them takes each turn. -/
theorem turns_isSound {stores : Stores} (sound : stores.IsSound) (sides : List Side) :
    ((start requests stores).turns (Stores.collaborators runs) requests sides).state.IsSound := by
  refine turns_state ?_ ?_ (start_isOrderly requests stores) sound sides
  · intro side progress sound
    rwa [Engine.checks_state runs _ _ _ sound.toIsCalm]
  · intro side candidate listed progress sound
    have held := inForce side
    subst held
    exact Engine.attempt_isSound runs keyed (fits side).proper ((fits side).known candidate listed)
      sound

/-- What both cycles have pending may be added up from either side. -/
theorem pending_comm (runs : Side → Run Stores) (side : Side) :
    (requests .first).pending rule observer (runs .first) +
        (requests .second).pending rule observer (runs .second) =
      (requests side).pending rule observer (runs side) +
        (requests side.other).pending rule observer (runs side.other) := by
  cases side with
  | first => rfl
  | second => exact Int.add_comm _ _

include inForce distinct keyed capped fits texts member resolves properToo nonnegative both

/-- A turn keeps the total and what is pending within the allowance. -/
theorem Overshoots.turn {crossing : Crossing Stores}
    (bounded : Overshoots requests rule observer allowance crossing) (side : Side) :
    Overshoots requests rule observer allowance
      (crossing.turn (Stores.collaborators runs) requests side) := by
  have orderly : (requests side).IsOrderly (crossing.current side) := bounded.orderly side
  have made := CycleRequest.step_pending runs (inForce side) distinct keyed (fits side)
    (texts side) member resolves properToo orderly bounded.sound
  refine ⟨turn_isOrderly bounded.orderly side, ?_, ?_⟩
  · exact CycleRequest.step_isSound runs (inForce side) keyed (fits side) orderly
      bounded.sound
  · -- Only what the side has pending that takes its turn can change.
    have before := bounded.bound
    rw [pending_comm crossing.run side] at before
    rw [pending_comm _ side]
    simp only [Crossing.turn, if_true, Side.other_ne, if_false]
    have shared : rule.Shares observer (requests side).context →
        (requests side.other).pending rule observer (crossing.run side.other) ≤ allowance := by
      intro shares
      rcases @CycleRequest.pending_cases rule observer (requests side.other)
        (crossing.run side.other) with none | ⟨one, sharesToo, _⟩
      · rw [none]
        exact nonnegative
      · rw [one]
        exact both (Side.forall_of side shares sharesToo)
    exact made.bound (capped rule member) shared before

/-- Any turns keep the bound: whichever cycle takes the next one, what is awarded and what is
pending stay within the cap and the allowance. -/
theorem Overshoots.turns {crossing : Crossing Stores}
    (bounded : Overshoots requests rule observer allowance crossing) (sides : List Side) :
    Overshoots requests rule observer allowance
      (crossing.turns (Stores.collaborators runs) requests sides) :=
  turns_induction (fun _ side bounded => bounded.turn runs inForce distinct keyed capped fits texts
    member resolves properToo nonnegative both side) bounded sides

end Turns

end Crossing

end Accolade
