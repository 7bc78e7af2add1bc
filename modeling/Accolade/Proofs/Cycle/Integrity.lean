import Accolade.Proofs.Breach
import Accolade.Proofs.Cycle.Calm
import Accolade.Proofs.Fact.Cells

/-!
# Awards of a cycle and the integrity of its ledger

A ledger that only cycles over a catalogue have written holds one record for each rule and scope
values. An outcome can still speak of a breach of integrity: a rule may require an award that is
made for each of several values within its own scope, and then finds several records where it
expects one. There is no other way, and a cycle leaves the ledger as it should be.
-/

namespace Accolade

namespace Rule

instance (rule : Rule) (scope : List String) : Decidable (rule.SplitsWithin scope) :=
  inferInstanceAs (Decidable ((∀ key ∈ scope, _) ∧ ∃ key ∈ rule.scope, _))

/-- Whether a rule requires an award of a catalogue that is split within its scope. -/
def RequiresSplit (catalogue : Catalogue) (rule : Rule) : Prop :=
  ∃ awarded ∈ catalogue.rules, awarded.name ∈ rule.requirement.leafNames .achievement ∧
    awarded.SplitsWithin rule.scope

instance (catalogue : Catalogue) (rule : Rule) : Decidable (rule.RequiresSplit catalogue) :=
  inferInstanceAs (Decidable (∃ awarded ∈ catalogue.rules, _))

end Rule

/-- Whether an outcome speaks of a breach of integrity only for a rule that requires an award that
is split within its scope. -/
def Outcome.IsExplained (catalogue : Catalogue) (outcome : Outcome) : Prop :=
  ∀ error, outcome.error = some error → error.category = .integrity →
    ∃ rule ∈ catalogue.rules, rule.name = outcome.rule ∧ rule.RequiresSplit catalogue

/-- Whether stores are calm, hold no experience, and only awards that the rules of a catalogue have
written. -/
structure Stores.IsWrittenFor (catalogue : Catalogue) (stores : Stores) : Prop where
  calm : stores.IsCalm
  inexperienced : stores.experience = []
  achievements : stores.achievements.IsWrittenFor catalogue

namespace Stores.IsWrittenFor

variable {catalogue : Catalogue} {stores : Stores}

/-- Empty stores are written for any catalogue, since nothing has been written to them. -/
theorem empty (catalogue : Catalogue) : (Stores.of [] [] []).IsWrittenFor catalogue :=
  ⟨⟨⟨rfl, rfl⟩, by simp [Stores.of, Ledger.IsCounted], by simp [Stores.of, Ledger.IsCounted]⟩, rfl,
    .nil catalogue⟩

/-- Stores are written for a catalogue whatever their events, which no rule writes. -/
theorem withEvents (written : stores.IsWrittenFor catalogue) {events : Ledger} :
    { stores with events := events }.IsWrittenFor catalogue :=
  ⟨⟨⟨written.calm.faultless, written.calm.shared⟩, written.calm.achievements,
    written.calm.experience⟩, written.inexperienced, written.achievements⟩

end Stores.IsWrittenFor

namespace Engine

section Writes

variable {engine : Engine} {context : Context} {rule : Rule} {failure : Failure}

/-- The scope values of some retractions are missing only where those of some scope are. -/
theorem retractions_failed {targets : List String}
    (failed : engine.retractions context rule targets = .error failure) :
    ∃ scope, (context.forScope scope).scopeValues = .error failure := by
  induction targets with
  | nil => simp [retractions] at failed
  | cons target rest inductionHypothesis =>
    cases found : (context.forScope (engine.retractionScope rule target)).scopeValues with
    | error missing =>
      simp only [retractions, found, bind, Except.bind, Except.error.injEq] at failed
      exact ⟨_, failed ▸ found⟩
    | ok values =>
      cases others : engine.retractions context rule rest with
      | error missing =>
        simp only [retractions, found, others, bind, Except.bind, Except.error.injEq] at failed
        exact inductionHypothesis (failed ▸ others)
      | ok listed =>
        simp [retractions, found, others, bind, Except.bind, pure, Except.pure] at failed

/-- A failure to resolve the writes of an award is one to resolve some scope, that of the rule or of
a retraction. -/
theorem writes_failed (failed : engine.writes context rule = .error failure) :
    ∃ scope, (context.forScope scope).scopeValues = .error failure := by
  cases found : (context.forScope rule.scope).scopeValues with
  | error missing =>
    simp only [writes, found, bind, Except.bind, Except.error.injEq] at failed
    exact ⟨_, failed ▸ found⟩
  | ok values =>
    cases others : engine.retractions context rule rule.replaces with
    | error missing =>
      simp only [writes, found, others, bind, Except.bind, Except.error.injEq] at failed
      exact retractions_failed (failed ▸ others)
    | ok listed => simp [writes, found, others, bind, Except.bind, pure, Except.pure] at failed

/-- In a context with textual attributes that is a diagnosis of the configuration. -/
theorem writes_diagnosed (texts : AreTexts (Entries.keys context.attributes))
    (failed : engine.writes context rule = .error failure) :
    ∃ diagnosis : Diagnosis, diagnosis.category = .configuration ∧
      failure = .diagnosed diagnosis := by
  obtain ⟨scope, missing⟩ := writes_failed failed
  have unresolved : ¬ (context.forScope scope).Resolves := by
    intro resolves
    rw [Context.scopeValues_of_resolves resolves] at missing
    contradiction
  have textsWithin : AreTexts (Entries.keys (context.forScope scope).attributes) := texts
  obtain ⟨diagnosis, category, stopped⟩ :=
    Context.scopeValues_of_not_resolves textsWithin unresolved
  rw [stopped] at missing
  exact ⟨diagnosis, category, (Except.error.inj missing).symm⟩

/-- Over calm stores, in a context with textual attributes, an attempt fails for its configuration
only. -/
theorem attempt_error (runs : Bool) (texts : AreTexts (Entries.keys context.attributes))
    {progress later : Progress Stores} (calm : progress.state.IsCalm) {error : Diagnosis}
    (failed : engine.attempt (Stores.collaborators runs) context rule progress =
      (some error, later)) : error.category = .configuration := by
  obtain ⟨_, _, made, tried⟩ := attempt_calm runs context rule engine calm
  rw [failed] at made
  obtain ⟨rfl, rfl⟩ := Prod.mk.inj made
  cases resolving : engine.writes context rule with
  | ok both =>
    have resolves := ((writes_eq_ok_iff_bound engine context rule both).mp resolving).1
    cases tried with
    | unresolved unresolved => exact absurd resolves unresolved
  | error failure =>
    obtain ⟨diagnosis, category, rfl⟩ := writes_diagnosed texts resolving
    simp only [attempt, award, resolving, Prod.mk.injEq, Option.some.injEq] at failed
    rw [← failed.1]
    exact category

end Writes

section Cycle

variable {engine : Engine} {context : Context}
  (distinct : engine.catalogue.names.Nodup)
  (keyed : ∀ rule ∈ engine.catalogue.rules, rule.scope ≠ [])
  (texts : AreTexts (Entries.keys context.attributes))
  (proper : Value.entriesProper context.attributes = true) (runs : Bool)

include distinct texts in
/-- The outcome that a rule in force gets over stores written for the catalogue is explained: it
breaks the integrity only for a rule that requires an award split within its scope. -/
theorem judge_isExplained {stores : Stores} (written : stores.IsWrittenFor engine.catalogue)
    {rule : Rule} (member : rule ∈ engine.catalogue.rules) {outcome : Outcome}
    (verdict : (rule.judge Stores.lookup engine.retry context stores).1 = .judged outcome) :
    outcome.IsExplained engine.catalogue := by
  intro error erred category
  obtain ⟨kind, name, found, expected, reads, resolves, replied, several⟩ :=
    Rule.judge_breach written.calm.lookup texts verdict erred category
  rw [written.calm.toIsPlain.lookup] at replied
  cases replied
  refine ⟨rule, member, ?_, ?_⟩
  · exact (Rule.judge_rule verdict).symm
  · match kind with
    | .achievement =>
      obtain ⟨awarded, inForce, named, split⟩ :=
        written.achievements.splitsWithin distinct resolves several
      exact ⟨awarded, inForce, named ▸ reads, split⟩
    | .experience => simp [Stores.ledger, written.inexperienced, Ledger.find] at several
    | .event => contradiction

include keyed proper in
/-- An attempt to award a rule in force leaves a ledger that rules in force have written. -/
theorem attempt_isWrittenFor {rule : Rule} (member : rule ∈ engine.catalogue.rules)
    {progress : Progress Stores} (written : progress.state.IsWrittenFor engine.catalogue) :
    (engine.attempt (Stores.collaborators runs) context rule progress).2.state.IsWrittenFor
      engine.catalogue := by
  have kept := attempt_calm_state runs context rule engine (I := fun state : Stores =>
    state.experience = [] ∧ state.achievements.IsWrittenFor engine.catalogue) written.calm
    ?_ ?_ ?_ ⟨written.inexperienced, written.achievements⟩
  · exact ⟨kept.1, kept.2.1, kept.2.2⟩
  · intro resolves fact later recorded _
    have told := Ledger.recordAward_recorded recorded
    rw [Ledger.awardScope_of_ne_nil _ (Context.boundValues_ne_nil resolves (keyed rule member))]
      at told
    exact ⟨written.inexperienced, written.achievements.recorded member proper resolves told⟩
  · rintro target _ state _ ⟨inexperienced, achievements⟩
    exact ⟨inexperienced, achievements.of_cells (Ledger.retractAward_cells _ _ _ _)⟩
  · exact fun state held _ => held

include distinct keyed texts proper in
/-- A cycle leaves a ledger that rules in force have written, and all its outcomes are explained. -/
theorem process_isExplained {stores : Stores} (written : stores.IsWrittenFor engine.catalogue) :
    let ended :=
      (engine.process (Stores.collaborators runs) context engine.catalogue.rules stores).2
    ended.state.IsWrittenFor engine.catalogue ∧
      ∀ outcome ∈ ended.outcomes, outcome.IsExplained engine.catalogue := by
  refine process_outcomes (S := fun stores : Stores => stores.IsWrittenFor engine.catalogue)
    (fun kind query stores written => (written.calm.lookup.still kind query).symm ▸ written)
    (fun rule member stores written outcome judged =>
      judge_isExplained distinct texts written member judged)
    (fun rule _ error erred => absurd erred (by simp [Outcome.late])) ?_ written
  intro rule member progress written
  refine ⟨attempt_isWrittenFor keyed proper runs member written, fun error failed outcome => ?_⟩
  intro same erred breach
  cases erred
  rw [attempt_error runs texts written.calm (Prod.ext failed rfl)] at breach
  contradiction

end Cycle

end Engine

end Accolade
