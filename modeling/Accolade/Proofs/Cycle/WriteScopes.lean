import Accolade.Proofs.Catalogue.WellFormed
import Accolade.Proofs.Cycle.Tracing
import Accolade.Proofs.Fact.Stores

/-!
# The scopes of writes

A cycle over a well-formed catalogue writes within the scopes of rules in force. The award writer is
asked to award a rule, or to retract one, with the values of the keys of this very rule's scope. A
scope has a key, so there is always a value: no write is ever asked for without one.

A rule may be retracted under the scope of the rule that replaces it, but only if it is not in
force. Where the catalogue is well formed this never comes to pass.
-/

namespace Accolade

/-- Whether a posting is an award or a retraction of a rule in force, with the values of its scope,
of which there are some. -/
inductive Posting.IsScoped (catalogue : Catalogue) (context : Context) : Posting → Prop
  | award {rule : Rule} {values : Entries} (inForce : rule ∈ catalogue.rules)
      (resolved : (context.forScope rule.scope).scopeValues = .ok values) (some : values ≠ []) :
      IsScoped catalogue context (.award context.subject rule.name values)
  | retraction {rule : Rule} {values : Entries} (inForce : rule ∈ catalogue.rules)
      (resolved : (context.forScope rule.scope).scopeValues = .ok values) (some : values ≠ []) :
      IsScoped catalogue context (.retraction context.subject rule.name values)

namespace Engine

variable {σ : Type} {collaborators : Collaborators σ} {engine : Engine} {context : Context}

/-- A rule that is replaced is in force, and is retracted under its own scope. -/
theorem retractionScope_replaced (wellFormed : engine.catalogue.IsWellFormed) {rule : Rule}
    (member : rule ∈ engine.catalogue.rules) {target : String} (replaced : target ∈ rule.replaces) :
    ∃ held ∈ engine.catalogue.rules, held.name = target ∧
      engine.catalogue.find? target = some held ∧
      engine.retractionScope rule target = held.scope := by
  obtain ⟨_, held, found⟩ := wellFormed.replaces rule member target replaced
  refine ⟨held, List.mem_of_find?_eq_some found, by simpa using List.find?_some found, found, ?_⟩
  rw [retractionScope, found, Option.map_some, Option.getD_some]

section Cycle

variable (wellFormed : engine.catalogue.IsWellFormed)
include wellFormed

/-- An attempt to award a rule in force asks for postings within the scopes of rules in force. -/
theorem attempt_isScoped {rule : Rule} (member : rule ∈ engine.catalogue.rules)
    {progress : Progress (σ × List Posting)}
    (earlier : ∀ posting ∈ progress.state.2, posting.IsScoped engine.catalogue context) :
    ∀ posting ∈ (engine.attempt collaborators.posted context rule progress).2.state.2,
      posting.IsScoped engine.catalogue context := by
  have valued : ∀ held ∈ engine.catalogue.rules, (context.forScope held.scope).Resolves →
      (context.forScope held.scope).boundValues ≠ [] := fun held inForce resolves =>
    Context.boundValues_ne_nil resolves (wellFormed.sound held inForce).keyed
  refine attempt_state
    (I := fun state : σ × List Posting =>
      ∀ posting ∈ state.2, posting.IsScoped engine.catalogue context)
    ?_ ?_ ?_ earlier
  · intro resolves
    exact List.forall_mem_append.mpr ⟨earlier, List.forall_mem_singleton.mpr
      (.award member (Context.scopeValues_of_resolves resolves) (valued rule member resolves))⟩
  · intro target replaced resolves state before
    obtain ⟨held, inForce, rfl, _, own⟩ := retractionScope_replaced wellFormed member replaced
    rw [own] at resolves ⊢
    exact List.forall_mem_append.mpr ⟨before, List.forall_mem_singleton.mpr
      (.retraction inForce (Context.scopeValues_of_resolves resolves)
        (valued held inForce resolves))⟩
  · intro run given actions within state before
    simp only [Collaborators.posted, Option.map_eq_some_iff] at given
    obtain ⟨inner, _, rfl⟩ := given
    exact before

/-- Every posting of a cycle whose candidates are in force is scoped: it goes to the records of a
rule in force, within the scope of the context. -/
theorem process_isScoped {candidates : List Rule}
    (known : ∀ rule ∈ candidates, rule ∈ engine.catalogue.rules) (state : σ) :
    ∀ posting ∈ (engine.process collaborators.posted context candidates (state, [])).2.state.2,
      posting.IsScoped engine.catalogue context :=
  process_state
    (I := fun state : σ × List Posting =>
      ∀ posting ∈ state.2, posting.IsScoped engine.catalogue context)
    (fun _ _ _ before => before)
    (fun rule listed _ before => attempt_isScoped wellFormed (known rule listed) before)
    (by simp)

end Cycle

end Engine

namespace Catalogue

/-- A loaded catalogue is well formed. Over it, a rule that is replaced is in force and retracted
under its own scope, and a cycle whose candidates are in force asks for postings within the scopes
of rules in force only. The cycle is the same if its postings are not kept. -/
theorem load_wellFormed {strictness : Strictness} {document : Value} {loaded : Loaded}
    (loading : load strictness document = .ok loaded) :
    loaded.catalogue.IsWellFormed ∧
    ∀ engine : Engine, engine.catalogue = loaded.catalogue →
      (∀ rule ∈ loaded.catalogue.rules, ∀ target ∈ rule.replaces,
        ∃ held ∈ loaded.catalogue.rules, held.name = target ∧
          engine.catalogue.find? target = some held ∧
          engine.retractionScope rule target = held.scope) ∧
      ∀ {σ : Type} (collaborators : Collaborators σ) (context : Context) (candidates : List Rule),
        (∀ rule ∈ candidates, rule ∈ loaded.catalogue.rules) → ∀ state : σ,
        let posted := engine.process collaborators.posted context candidates (state, [])
        SameBeside (Progress.IsCopy Prod.fst)
          (engine.process collaborators context candidates state) posted ∧
        ∀ posting ∈ posted.2.state.2, posting.IsScoped loaded.catalogue context := by
  have wellFormed := load_isWellFormed loading
  refine ⟨wellFormed, fun engine same => ?_⟩
  rw [← same] at wellFormed ⊢
  refine ⟨fun rule member target => Engine.retractionScope_replaced wellFormed member,
    fun collaborators context candidates known state => ⟨?_, ?_⟩⟩
  · exact Engine.process_copy engine context collaborators.posted_isCopy candidates (state, [])
  · exact Engine.process_isScoped wellFormed known state

/-- Over the sample catalogue a cycle for the first subject asks for postings, one of which
retracts the rule that is replaced, and all are within the scopes of the two rules. -/
theorem sample_wellFormed :
    let engine := Engine.mk sample 10 none none
    let context := Context.of (.integer 1) [] defaultScope
    let posted := engine.process (Stores.collaborators true).posted context sample.rules
      (Stores.sample, [])
    sample.IsWellFormed ∧ posted.2.retracted = ["Beginner"] ∧ posted.2.state.2.length = 4 ∧
      ∀ posting ∈ posted.2.state.2, posting.IsScoped sample context := by
  have inForce : (Engine.mk sample 10 none none).catalogue = sample := rfl
  obtain ⟨wellFormed, cycles⟩ := load_wellFormed load_sample
  have run := (cycles _ inForce).2 (Stores.collaborators true)
    (Context.of (.integer 1) [] defaultScope) sample.rules (fun _ => id) Stores.sample
  exact ⟨wellFormed, by decide +kernel, by decide +kernel, run.2⟩

end Catalogue

end Accolade
