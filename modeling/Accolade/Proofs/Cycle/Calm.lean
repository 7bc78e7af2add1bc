import Accolade.Proofs.Cycle.Process
import Accolade.Proofs.Fact.Stores
import Accolade.Proofs.Fact.Totals

/-!
# Cycles over calm stores

Over calm stores no call of a collaborator fails, so only one thing can keep an attempt from
going through: a scope that does not resolve, its own or that of a rule to be replaced. Then
the attempt writes nothing. Otherwise it writes the award, retracts every replaced rule under
its scope values, in order, and settles them.

The checks of a pass change nothing, whatever they find.
-/

namespace Accolade

namespace Engine

variable (runs : Bool) (context : Context) (rule : Rule)

/-- Whether the scopes of all writes resolve that awarding a rule brings about. -/
def WritesResolve (engine : Engine) (context : Context) (rule : Rule) : Prop :=
  (context.forScope rule.scope).Resolves ∧
    ∀ target ∈ rule.replaces, (context.forScope (engine.retractionScope rule target)).Resolves

/-- The scope values of the retractions that awarding a rule brings about. -/
def boundRetractions (engine : Engine) (context : Context) (rule : Rule) :
    List (String × Entries) :=
  rule.replaces.map fun target =>
    (target, (context.forScope (engine.retractionScope rule target)).boundValues)

/-- The retractions of an award are of the rules that the rule replaces, in their order. -/
@[simp] theorem boundRetractions_targets (engine : Engine) (context : Context) (rule : Rule) :
    (engine.boundRetractions context rule).map Prod.fst = rule.replaces := by
  simp [boundRetractions, Function.comp_def]

/-- The scope values of all writes are those of the rule and of the rules replaced. They exist
exactly when all the scopes resolve. -/
theorem writes_eq_ok_iff_bound (engine : Engine) (context : Context) (rule : Rule)
    (both : Entries × List (String × Entries)) :
    engine.writes context rule = .ok both ↔ engine.WritesResolve context rule ∧
      both = ((context.forScope rule.scope).boundValues, engine.boundRetractions context rule) := by
  obtain ⟨values, retractions⟩ := both
  rw [writes_eq_ok_iff]
  constructor
  · rintro ⟨own, rfl, targets, rfl⟩
    exact ⟨⟨own, targets⟩, rfl⟩
  · rintro ⟨⟨own, targets⟩, same⟩
    obtain ⟨rfl, rfl⟩ := Prod.mk.inj same
    exact ⟨own, rfl, targets, rfl⟩

/-- Where the writes of an award do not exist, some scope among them does not resolve. -/
theorem not_writesResolve {engine : Engine} {context : Context} {rule : Rule} {failure : Failure}
    (failed : engine.writes context rule = .error failure) :
    ¬ engine.WritesResolve context rule := by
  intro resolves
  rw [(writes_eq_ok_iff_bound engine context rule _).mpr ⟨resolves, rfl⟩] at failed
  contradiction

/-- Over plain stores all retractions go through: the awards are those after all of them, and each
is reported. -/
theorem retractEach_plain (retractions : List (String × Entries)) (progress : Progress Stores)
    (plain : progress.state.IsPlain) :
    ∃ happenings, retractEach (Stores.collaborators runs) context rule retractions progress =
      (none, { progress with
        state := progress.state.withAchievements
          (progress.state.achievements.retractEach context.subject retractions)
        retracted := progress.retracted ++ retractions.map Prod.fst
        happenings := happenings }) := by
  induction retractions generalizing progress with
  | nil => exact ⟨progress.happenings, by simp [retractEach, Ledger.retractEach]; rfl⟩
  | cons first rest inductionHypothesis =>
    obtain ⟨target, values⟩ := first
    have called : (Stores.collaborators runs).retractAward context.subject target values
        progress.state = _ := plain.retractAward context.subject target values
    obtain ⟨happenings, made⟩ := inductionHypothesis
      { progress with
        state := progress.state.withAchievements
          (progress.state.achievements.retractAward context.subject (.text target) values)
        retracted := progress.retracted ++ [target]
        happenings := progress.happenings ++ [.replaced target rule.name] }
      (plain.withAchievements _)
    refine ⟨happenings, ?_⟩
    simp only [retractEach, called, made, List.map_cons, Ledger.retractEach, List.append_assoc,
      List.singleton_append]
    rfl

/-- Where no faults are planned, actions are noted and change nothing else. -/
theorem runActions_of_faultless (progress : Progress Stores)
    (faultless : progress.state.faults = []) :
    ∃ invocations, runActions (Stores.collaborators runs) context rule progress =
      { progress with state := { progress.state with invocations := invocations } } := by
  unfold runActions
  split
  · rename_i first rest run given present
    obtain ⟨invocations, invoked⟩ :=
      Stores.invoked_of_faultless faultless present rule.actions (context.forScope rule.scope)
    exact ⟨invocations, by simp only [invoked]⟩
  · exact ⟨progress.state.invocations, rfl⟩

/-- What an attempt over calm stores makes of the progress. -/
inductive Tried (engine : Engine) (context : Context) (rule : Rule) (progress : Progress Stores) :
    Option Diagnosis → Progress Stores → Prop
  | unresolved (unresolved : ¬ engine.WritesResolve context rule) (error : Diagnosis)
      (happenings : List Happening) :
      Tried engine context rule progress (some error)
        { progress with
          settled := progress.settled ++ [rule.name]
          happenings := happenings }
  | wentThrough (resolved : engine.WritesResolve context rule) (written : Fact) (later : Ledger)
      (awarded : Ledger.Awarded (.text rule.name)
        (Ledger.awardScope context.subject (context.forScope rule.scope).boundValues)
        progress.state.achievements written later)
      (invocations : List Invocation) (happenings : List Happening) :
      Tried engine context rule progress none
        { progress with
          state := { progress.state with
            achievements :=
              later.retractEach context.subject (engine.boundRetractions context rule)
            invocations := invocations }
          settled := progress.settled ++ rule.replaces
          awarded := progress.awarded ++ [rule.name]
          retracted := progress.retracted ++ rule.replaces
          happenings := happenings }

/-- Over calm stores an attempt goes through unless some scope does not resolve.

Proof: the attempt is worked out write by write: on calm stores the award is recorded, each
retraction goes through, and actions fail only where faults are planned. -/
theorem attempt_calm (engine : Engine) {progress : Progress Stores}
    (calm : progress.state.IsCalm) :
    ∃ error later,
      engine.attempt (Stores.collaborators runs) context rule progress = (error, later) ∧
        Tried engine context rule progress error later := by
  cases resolving : engine.writes context rule with
  | error failure =>
    refine ⟨_, _, ?_, .unresolved (not_writesResolve resolving)
      (awardDiagnosis rule.name failure)
      (progress.happenings ++ [.awardFailed rule.name (awardDiagnosis rule.name failure)])⟩
    simp only [attempt, award, resolving]
  | ok both =>
    obtain ⟨resolves, rfl⟩ := (writes_eq_ok_iff_bound engine context rule both).mp resolving
    obtain ⟨written, ledger, recorded, awarded⟩ := Ledger.recordAward_awarded calm.achievements
      context.subject (.text rule.name) (context.forScope rule.scope).boundValues
    have called : (Stores.collaborators runs).recordAward context.subject rule.name
        (context.forScope rule.scope).boundValues progress.state = _ :=
      calm.toIsPlain.recordAward recorded
    obtain ⟨happenings, retracted⟩ := retractEach_plain runs context rule
      (engine.boundRetractions context rule)
      { progress with
        state := progress.state.withAchievements ledger
        awarded := progress.awarded ++ [rule.name]
        happenings := progress.happenings ++
          [.awarded rule.name written.amount rule.maxAwarded] }
      (calm.toIsPlain.withAchievements ledger)
    obtain ⟨invocations, ran⟩ := runActions_of_faultless runs context rule
      { progress with
        state := progress.state.withAchievements
          (ledger.retractEach context.subject (engine.boundRetractions context rule))
        awarded := progress.awarded ++ [rule.name]
        retracted := progress.retracted ++ rule.replaces
        happenings := happenings }
      calm.faultless
    refine ⟨none, _, ?_, .wentThrough resolves written ledger awarded invocations happenings⟩
    rw [boundRetractions_targets] at retracted
    change retractEach _ context rule _ _ = (none, Progress.mk _ _ _ _ _ _ _ _ _) at retracted
    simp only [attempt, award, resolving, called, retracted]
    simp only [Stores.withAchievements] at ran ⊢
    rw [ran]

/-- What an award over calm stores brings about, and retractions and invocations preserve, holds
after an attempt, and the stores are still calm. -/
theorem attempt_calm_state (engine : Engine) {I : Stores → Prop} {progress : Progress Stores}
    (calm : progress.state.IsCalm)
    (awarded : (context.forScope rule.scope).Resolves → ∀ written later,
      progress.state.achievements.recordAward context.subject (.text rule.name)
        (context.forScope rule.scope).boundValues = .ok (written, later) →
      Ledger.Awarded (.text rule.name)
        (Ledger.awardScope context.subject (context.forScope rule.scope).boundValues)
        progress.state.achievements written later →
      I (progress.state.withAchievements later))
    (retracted : ∀ target ∈ rule.replaces, ∀ state : Stores, state.IsCalm → I state →
      I (state.withAchievements (state.achievements.retractAward context.subject (.text target)
        (context.forScope (engine.retractionScope rule target)).boundValues)))
    (invoked : ∀ state : Stores, I state → ∀ invocations,
      I { state with invocations := invocations })
    (holding : I progress.state) :
    let ended := (engine.attempt (Stores.collaborators runs) context rule progress).2.state
    ended.IsCalm ∧ I ended := by
  refine attempt_state (I := fun state : Stores => state.IsCalm ∧ I state) ?_ ?_ ?_ ⟨calm, holding⟩
  · intro resolves
    obtain ⟨written, later, recorded, wrote⟩ := Ledger.recordAward_awarded calm.achievements
      context.subject (.text rule.name) (context.forScope rule.scope).boundValues
    have called : (Stores.collaborators runs).recordAward context.subject rule.name
        (context.forScope rule.scope).boundValues progress.state = _ :=
      calm.toIsPlain.recordAward recorded
    rw [called]
    exact ⟨calm.withAchievements (wrote.counted calm.achievements),
      awarded resolves written later recorded wrote⟩
  · rintro target replaced _ state ⟨calm, held⟩
    have called : (Stores.collaborators runs).retractAward context.subject target
        (context.forScope (engine.retractionScope rule target)).boundValues state = _ :=
      calm.toIsPlain.retractAward _ _ _
    rw [called]
    exact ⟨calm.withAchievements (Ledger.retractAward_counted _ _ _ calm.achievements),
      retracted target replaced state calm held⟩
  · rintro run given actions within state ⟨calm, held⟩
    obtain ⟨invocations, called⟩ :=
      Stores.invoked_of_faultless calm.faultless given actions within
    rw [called]
    exact ⟨calm.withInvocations invocations, invoked state held invocations⟩

namespace Tried

variable {runs context rule} {engine : Engine} {progress later : Progress Stores}
  {error : Option Diagnosis}

/-- An attempt that was made in calm stores leaves calm stores, since it adds whole amounts to whole
amounts. -/
theorem calm (tried : Tried engine context rule progress error later)
    (calm : progress.state.IsCalm) : later.state.IsCalm := by
  cases tried with
  | unresolved => exact calm
  | wentThrough _ written ledger awarded invocations happenings =>
    exact (calm.withAchievements (Ledger.retractEach_counted context.subject
      (engine.boundRetractions context rule)
      (awarded.counted calm.achievements))).withInvocations invocations

/-- An attempt leaves experience and events alone, and neither the deadline nor the number of
passes moves. -/
theorem frame (tried : Tried engine context rule progress error later) :
    later.state.experience = progress.state.experience ∧
      later.state.events = progress.state.events ∧ later.expired = progress.expired ∧
      later.passes = progress.passes := by
  cases tried with
  | unresolved => exact ⟨rfl, rfl, rfl, rfl⟩
  | wentThrough => exact ⟨rfl, rfl, rfl, rfl⟩

end Tried

/-- Over calm stores the checks of a pass leave the state, since lookups there use up no faults. -/
theorem checks_state (engine : Engine) (candidates : List Rule) {progress : Progress Stores}
    (calm : progress.state.IsCalm) :
    (engine.checks (Stores.collaborators runs) context candidates progress).2.2.state =
      progress.state := by
  have still : (Stores.collaborators runs).lookup.IsStill progress.state := calm.lookup.still
  exact checks_moves still.moves rfl

/-- An attempt leaves quiet stores quiet, whether it goes through or breaks off. -/
theorem attempt_isQuiet (engine : Engine) {progress : Progress Stores}
    (quiet : progress.state.IsQuiet) :
    (engine.attempt (Stores.collaborators runs) context rule progress).2.state.IsQuiet :=
  attempt_state (I := Stores.IsQuiet) (fun _ => quiet.recordAward _ _ _)
    (fun _ _ _ _ held => held.retractAward _ _ _)
    (fun _ given actions within _ held => held.invoked given actions within) quiet

/-- Over quiet stores a cycle comes to its end, as far as the candidates are brief. -/
theorem process_ends (engine : Engine) (candidates : List Rule) {stores : Stores}
    (quiet : stores.IsQuiet) (texts : AreTexts (Entries.keys context.attributes)) :
    EndsIfBrief context candidates
      (engine.process (Stores.collaborators runs) context candidates stores).1 :=
  process_endsIfBrief (I := Stores.IsQuiet) (fun _ quiet => quiet.lookup) texts
    (fun rule _ _ quiet => attempt_isQuiet runs context rule engine quiet) quiet

end Engine

end Accolade
