import Accolade.Cycle.History
import Accolade.Proofs.Catalogue.Loader
import Accolade.Proofs.Cycle.Process
import Accolade.Proofs.Fact.Scopes
import Accolade.Proofs.Fact.Stores

/-!
# Awards within one scope

A cycle in one context leaves what was awarded of a rule in another context alone, if the two
contexts are apart within the scope of the rule. Awards of the rule write a record that does not
lie in the other context, retractions of the rule clear only records that do not lie there, and
all other awards and retractions are of other names. So it is whatever the amounts are and
whichever writes fail.

The key of the name cannot set contexts apart. A rule that has it in its scope gets a record for
each value under it, but is counted and retracted across all of them.
-/

namespace Accolade

section Cycle

variable {σ : Type} {collaborators : Collaborators σ} {ready : σ → Prop} {ledger : σ → Ledger}
  {engine : Engine} {context other : Context} {candidates : List Rule} {rule : Rule}

/-- Whether a state is ready, holds records with proper scopes only, and finds certain records of
a rule in a context. -/
structure StillFinds (ready : σ → Prop) (ledger : σ → Ledger) (rule : Rule) (other : Context)
    (found : List Fact) (state : σ) : Prop where
  ready : ready state
  proper : ∀ fact ∈ ledger state, Value.entriesProper fact.scope = true
  finds : (ledger state).find
    (Ledger.queryOf (.text rule.name) (other.forScope rule.scope).boundValues) = found

/-- A state with the same ledger finds the same of a rule within the other scope. -/
theorem StillFinds.same {found : List Fact} {state next : σ}
    (holding : StillFinds ready ledger rule other found state) (prepared : ready next)
    (kept : ledger next = ledger state) : StillFinds ready ledger rule other found next :=
  ⟨prepared, kept ▸ holding.proper, kept ▸ holding.finds⟩

variable (keeps : collaborators.KeepsLedger ready ledger)
  (distinct : engine.catalogue.names.Nodup)
  (keyed : ∀ rule ∈ engine.catalogue.rules, rule.scope ≠ [])
  (member : rule ∈ engine.catalogue.rules)
  (apart : (context.forScope rule.scope).ApartFrom (other.forScope rule.scope))
  (proper : Value.entriesProper context.attributes = true)
include keeps distinct keyed member apart proper

/-- An attempt to award any rule in force leaves what is found of a rule in a context apart.

Proof: go through the writes of an attempt. The record of an award of the rule itself lies within a
scope that is kept apart, that of an award of another rule has another name, and the same holds of
what a retraction clears. -/
theorem attempt_stillFinds {awarded : Rule} (inForce : awarded ∈ engine.catalogue.rules)
    {found : List Fact} {progress : Progress σ}
    (holding : StillFinds ready ledger rule other found progress.state) :
    StillFinds ready ledger rule other found
      (engine.attempt collaborators context awarded progress).2.state := by
  refine Engine.attempt_state ?_ ?_ ?_ holding
  · intro resolves
    obtain ⟨result, next, called, prepared, done⟩ := keeps.records context.subject awarded.name
      (context.forScope awarded.scope).boundValues progress.state holding.ready
    rw [called]
    rcases done with ⟨_, _, same⟩ | ⟨fact, _, written⟩
    · exact holding.same prepared same
    · have recorded := Ledger.recordAward_recorded written
      rw [Ledger.awardScope_of_ne_nil context.subject
        (Context.boundValues_ne_nil resolves (keyed awarded inForce))] at recorded
      refine ⟨prepared, recorded.scopes (P := fun scope => Value.entriesProper scope = true)
        holding.proper (Context.boundValues_proper proper), ?_⟩
      rw [recorded.find_eq, holding.finds]
      by_cases same : rule.name = awarded.name
      · obtain rfl := Catalogue.eq_of_name distinct member inForce same
        exact recorded.apart holding.proper apart rule.name
      · exact recorded.other_name same _
  · intro target _ _ state kept
    obtain ⟨result, next, called, prepared, done⟩ := keeps.retracts context.subject target
      (context.forScope (engine.retractionScope awarded target)).boundValues state kept.ready
    rw [called]
    rcases done with ⟨_, _, same⟩ | ⟨_, after⟩
    · exact kept.same prepared same
    · refine ⟨prepared, ?_, ?_⟩
      · rw [after]
        exact Ledger.retractAward_scopes context.subject (.text target) _
          (P := fun scope => Value.entriesProper scope = true) kept.proper
      · rw [after, Ledger.find_retractAward, kept.finds]
        intro fact inside matching
        by_cases same : target = rule.name
        · subst same
          rw [Engine.retractionScope_of_mem distinct member,
            Ledger.awardScope_of_ne_nil context.subject apart.boundValues_ne_nil]
          apply Bool.eq_false_iff.mpr
          intro cleared
          have missed := Fact.isMatch_apart cleared (kept.proper fact inside) apart rule.name
          rw [matching] at missed
          contradiction
        · exact Ledger.isMatch_other (fun equal => same equal.symm) matching
  · intro run given actions within state kept
    obtain ⟨prepared, same⟩ := keeps.invokes run given actions within state kept.ready
    exact kept.same prepared same

/-- A whole cycle leaves what is found of a rule within a scope apart from that of its context: no
write of its attempts reaches it. -/
theorem process_stillFinds (known : ∀ rule ∈ candidates, rule ∈ engine.catalogue.rules)
    {found : List Fact} {state : σ} (holding : StillFinds ready ledger rule other found state) :
    StillFinds ready ledger rule other found
      (engine.process collaborators context candidates state).2.state := by
  refine Engine.process_state (I := StillFinds ready ledger rule other found) ?_ ?_ holding
  · intro kind query state kept
    exact (keeps.still state kept.ready kind query).symm ▸ kept
  · intro awarded listed progress kept
    exact attempt_stillFinds keeps distinct keyed member apart proper (known awarded listed) kept

end Cycle

namespace Stores

/-- A cycle leaves the amount awarded of a rule in force in a context that is apart within the
scope of the rule, and with it whether the rule can be awarded there, in whatever way calls of
the award writer fail. -/
theorem process_isolates {strictness : Strictness} {document : Value} {loaded : Loaded}
    (loading : Catalogue.load strictness document = .ok loaded) {engine : Engine}
    (inForce : engine.catalogue = loaded.catalogue) {candidates : List Rule}
    (known : ∀ rule ∈ candidates, rule ∈ loaded.catalogue.rules) {rule : Rule}
    (member : rule ∈ loaded.catalogue.rules) {context other : Context}
    (apart : (context.forScope rule.scope).ApartFrom (other.forScope rule.scope))
    (proper : Value.entriesProper context.attributes = true) {stores : Stores}
    (plain : stores.IsPlain)
    (scopes : ∀ fact ∈ stores.achievements, Value.entriesProper fact.scope = true)
    (runsActions : Bool) (pattern : Nat → Option Failure) :
    let ended := (engine.process ((collaborators runsActions).failing pattern) context candidates
      (stores, 0)).2.state.1
    (awardedAmount lookup (other.forScope rule.scope) rule.name ended).1 =
        (awardedAmount lookup (other.forScope rule.scope) rule.name stores).1 ∧
      (rule.canBeAwarded lookup other ended).1 = (rule.canBeAwarded lookup other stores).1 := by
  intro ended
  have start : StillFinds (fun state : Stores × Nat => state.1.IsPlain)
      (fun state => state.1.achievements) rule other _ (stores, 0) := ⟨plain, scopes, rfl⟩
  have kept := process_stillFinds ((collaborators_keepLedger runsActions).failing pattern)
    (inForce ▸ Catalogue.load_names_nodup loading) (inForce ▸ Catalogue.load_keyed loading)
    (inForce ▸ member) apart proper (inForce ▸ known) start
  have amounts := plain.awardedAmount_congr kept.ready kept.finds
  exact ⟨amounts, Rule.canBeAwarded_congr amounts⟩

/-- A cycle for the first subject over the sample catalogue, in which the second write fails,
leaves the second subject its one award. -/
theorem sample_isolates :
    let engine := Engine.mk Catalogue.sample 10 none none
    let rule : Rule := ⟨"Beginner", .allOf [], [], 2, ["user_id"], [], false⟩
    let context := Context.of (.integer 1) [] defaultScope
    let other := Context.of (.integer 2) [] defaultScope
    let pattern : Nat → Option Failure :=
      fun call => if call = 1 then some (.foreign "lost") else none
    rule ∈ Catalogue.sample.rules ∧
      (context.forScope rule.scope).ApartFrom (other.forScope rule.scope) ∧
      (awardedAmount lookup (other.forScope rule.scope) rule.name
        (engine.process ((collaborators true).failing pattern) context Catalogue.sample.rules
          (sample, 0)).2.state.1).1 = .answer (.integer 1) := by
  intro engine rule context other pattern
  have member : rule ∈ Catalogue.sample.rules := List.mem_cons_self
  have known : ∀ rule ∈ Catalogue.sample.rules, rule ∈ Catalogue.sample.rules := fun _ => id
  have apart : (context.forScope rule.scope).ApartFrom (other.forScope rule.scope) :=
    ⟨subjectKey, List.mem_cons_self, List.mem_cons_self, by decide, .integer 1, .integer 2, rfl,
      rfl, rfl⟩
  have scopes : ∀ fact ∈ sample.achievements, Value.entriesProper fact.scope = true := by
    intro fact inside
    rw [List.mem_singleton.mp inside]
    rfl
  have inForce : engine.catalogue = Catalogue.sample := rfl
  have before : (awardedAmount lookup (other.forScope rule.scope) rule.name sample).1 =
      .answer (.integer 1) := rfl
  have isolated := process_isolates Catalogue.load_sample inForce known member apart rfl
    sample_calm.toIsPlain scopes true pattern
  exact ⟨member, apart, isolated.1.trans before⟩

end Stores

/-- A document with a rule that is awarded once for each value of the key of the name. -/
def namedDocument : Value :=
  .mapping [(.text "achievements", .mapping [
    (.text "Team", .mapping [(.text "scope", .list [.text nameKey])])])]

/-- The catalogue of that rule. -/
def namedCatalogue : Catalogue := ⟨[⟨"Team", .allOf [], [], 1, [nameKey], [], false⟩]⟩

/-- Contexts that differ under the key of the name only are not kept apart: an award in one of
them counts in the other. -/
theorem name_shares_awards :
    let red := Context.of (.text "u") [(.text nameKey, .text "red")] [nameKey]
    let blue := Context.of (.text "u") [(.text nameKey, .text "blue")] [nameKey]
    let before := Stores.of [] [] []
    Catalogue.load .strict namedDocument = .ok ⟨namedCatalogue, []⟩ ∧
      red.Resolves ∧ blue.Resolves ∧
      Entries.field? red.attributes nameKey = some (.text "red") ∧
      Entries.field? blue.attributes nameKey = some (.text "blue") ∧
      (Value.text "red").equals (.text "blue") = false ∧
      (awardedAmount Stores.lookup blue "Team" before).1 = .answer (.integer 0) ∧
      (awardedAmount Stores.lookup blue "Team"
        ((Engine.mk namedCatalogue 10 none none).process (Stores.collaborators true) red
          namedCatalogue.rules before).2.state).1 = .answer (.integer 1) := by
  intro red blue before
  exact ⟨rfl, by decide, by decide, rfl, rfl, by decide, rfl,
    Reply.eq_of_whole? (by decide +kernel)⟩

end Accolade
