import Accolade.Proofs.Catalogue.Loader
import Accolade.Proofs.Fact.Ledger
import Accolade.Proofs.Context

/-!
# One record for each rule and scope

A ledger that only awards of a catalogue have written holds one record for each rule and each
scope values of that rule: a record is appended only where none holds the total already, and
nothing else changes names or scopes.

A query under another scope may still find several of these records. It does so only if the
rule is split within that scope: its own scope has every key of the other one, and one more.
-/

namespace Accolade

/-- What tells records of a ledger apart: the name and the scope. -/
def Fact.cell (fact : Fact) : Value × Entries := (fact.name, fact.scope)

/-- Whether a record is an award of a rule: it has the name of the rule, and for its scope the
values of the scope of the rule in some context. -/
def Fact.IsAwardOf (fact : Fact) (rule : Rule) : Prop :=
  fact.name = .text rule.name ∧ ∃ context : Context,
    Value.entriesProper context.attributes = true ∧ (context.forScope rule.scope).Resolves ∧
      fact.scope = (context.forScope rule.scope).boundValues

/-- Whether a rule may have several records within a scope: every key of that scope but the one of
the name is a key of the rule, and the rule has another key, or that of the name. -/
def Rule.SplitsWithin (rule : Rule) (scope : List String) : Prop :=
  (∀ key ∈ scope, key = nameKey ∨ key ∈ rule.scope) ∧
    ∃ key ∈ rule.scope, key = nameKey ∨ key ∉ scope

namespace Ledger

/-- Whether a ledger holds awards of the rules of a catalogue only, and no record that holds the
total of a later one. -/
structure IsWrittenFor (catalogue : Catalogue) (ledger : Ledger) : Prop where
  awards : ∀ fact ∈ ledger, ∃ rule ∈ catalogue.rules, fact.IsAwardOf rule
  single : (List.map Fact.cell ledger).Pairwise fun first second =>
    holdsTotal second.1 second.2 ⟨first.1, .null, first.2, [], none⟩ = false

/-- An award changes the cells of a ledger only by adding its own where none holds the total. -/
theorem Recorded.cells {name : Value} {scope : Entries} {ledger later : Ledger} {written : Fact}
    (recorded : Recorded name scope ledger written later) :
    List.map Fact.cell later = List.map Fact.cell ledger ∨
      List.map Fact.cell later = List.map Fact.cell ledger ++ [(name, scope)] ∧
        ∀ fact ∈ ledger, holdsTotal name scope fact = false := by
  cases recorded with
  | changed before after old total holding =>
    left
    simp [Fact.cell]
  | appended ledger none =>
    right
    exact ⟨by simp [Fact.cell, newFact], none⟩

/-- A retraction does not change the cells of the records, which are their names and scopes. -/
theorem retractAward_cells (ledger : Ledger) (subject name : Value) (scope : Entries) :
    List.map Fact.cell (ledger.retractAward subject name scope) = List.map Fact.cell ledger :=
  map_retractAward ledger subject name scope Fact.cell fun _ => rfl

namespace IsWrittenFor

variable {catalogue : Catalogue} {ledger later : Ledger}

/-- An empty ledger is written for any catalogue, since nothing has been written to it. -/
theorem nil (catalogue : Catalogue) : IsWrittenFor catalogue [] := ⟨by simp, .nil⟩

/-- Whether a ledger is written for a catalogue depends on the cells of its records alone. -/
theorem of_cells (written : ledger.IsWrittenFor catalogue)
    (same : List.map Fact.cell later = List.map Fact.cell ledger) :
    later.IsWrittenFor catalogue where
  awards fact member := by
    have inside : fact.cell ∈ List.map Fact.cell ledger := same ▸ List.mem_map_of_mem member
    obtain ⟨old, among, equal⟩ := List.mem_map.mp inside
    obtain ⟨names, scopes⟩ := Prod.mk.inj equal
    obtain ⟨rule, inForce, called, within⟩ := written.awards old among
    exact ⟨rule, inForce, names ▸ called, scopes ▸ within⟩
  single := same ▸ written.single

/-- An award of a rule in force keeps the ledger written for the catalogue: it writes to the cell of
the rule. -/
theorem recorded (written : ledger.IsWrittenFor catalogue) {rule : Rule}
    (member : rule ∈ catalogue.rules) {context : Context}
    (proper : Value.entriesProper context.attributes = true)
    (resolves : (context.forScope rule.scope).Resolves) {fact : Fact}
    (recorded : Recorded (.text rule.name) (context.forScope rule.scope).boundValues ledger fact
      later) : later.IsWrittenFor catalogue where
  awards := by
    refine recorded.forall_mem ?_ written.awards
      ⟨rule, member, rfl, context, proper, resolves, rfl⟩
    rintro fact amount ⟨awarding, inForce, called, within⟩
    exact ⟨awarding, inForce, called, within⟩
  single := by
    rcases recorded.cells with same | ⟨added, none⟩
    · exact same ▸ written.single
    · rw [added]
      refine List.pairwise_append.mpr ⟨written.single, List.pairwise_singleton _ _, ?_⟩
      intro cell inside new equal
      obtain rfl := List.mem_singleton.mp equal
      obtain ⟨old, among, rfl⟩ := List.mem_map.mp inside
      exact none old among

end IsWrittenFor

end Ledger

namespace Fact

variable {first second : Fact} {rule : Rule} {context : Context}

/-- Two awards of a rule that lie in one context have equal values under each key of both scopes,
since both equal the attribute of the context. -/
theorem IsAwardOf.field?_equals (awardToo : second.IsAwardOf rule) (resolves : context.Resolves)
    (within : first.LiesIn context) (withinToo : second.LiesIn context) {key : String}
    (different : key ≠ nameKey) (inside : key ∈ context.scope) :
    ∃ value theirs, Entries.field? first.scope key = some value ∧
      Entries.field? second.scope key = some theirs ∧ value.equals theirs = true := by
  obtain ⟨_, other, proper, _, bound⟩ := awardToo
  obtain ⟨common, given⟩ := Option.isSome_iff_exists.mp (resolves key inside)
  obtain ⟨value, here, same⟩ := within key inside different common given
  obtain ⟨theirs, there, sameToo⟩ := withinToo key inside different common given
  have properScope : Value.entriesProper (other.forScope rule.scope).boundValues = true :=
    Context.boundValues_proper proper
  have properToo : theirs.isProper = true := by
    obtain ⟨place, member, _⟩ := Entries.mem_of_find there
    exact (Value.entriesProper_iff _).mp properScope _ (bound ▸ member)
  exact ⟨value, theirs, here, there, Value.equals_trans same (Value.equals_symm properToo sameToo)⟩

/-- Awards of a rule whose scopes have equal values hold each other's total. -/
theorem IsAwardOf.holdsTotal (award : first.IsAwardOf rule) (awardToo : second.IsAwardOf rule)
    (equal : ∀ key ∈ rule.scope, ∃ value theirs, Entries.field? first.scope key = some value ∧
      Entries.field? second.scope key = some theirs ∧ value.equals theirs = true) :
    Ledger.holdsTotal second.name second.scope first = true := by
  obtain ⟨called, own, _, ownResolves, bound⟩ := award
  obtain ⟨calledToo, other, _, otherResolves, boundToo⟩ := awardToo
  have matching : first.isMatch (Ledger.queryOf second.name second.scope) = true := by
    rw [calledToo, boundToo]
    refine (first.isMatch_iff _ _).mpr ⟨called, fun key inside different value given => ?_⟩
    obtain ⟨held, theirs, found, there, same⟩ := equal key inside
    rw [boundToo, Context.field?_boundValues_of_mem inside given] at there
    exact ⟨held, found, Option.some.inj there ▸ same⟩
  have same : Entries.same first.scope second.scope = true := by
    have keys : Entries.keys first.scope = Entries.keys second.scope := by
      rw [bound, boundToo]
      exact Context.keys_boundValues ownResolves otherResolves rfl
    have lengths : first.scope.length = second.scope.length := by
      simpa [Entries.keys] using congrArg List.length keys
    simp only [Entries.same, Value.same, lengths, beq_self_eq_true, Bool.true_and]
    refine (Value.sameEntries_iff _ _).mpr fun entry member => ?_
    rw [bound] at member
    obtain ⟨key, inside, value, given, rfl⟩ :=
      ((own.forScope rule.scope).boundValues_entries.2 entry).mp member
    obtain ⟨held, theirs, found, there, alike⟩ := equal key inside
    obtain rfl : value = held := by
      rw [bound, Context.field?_boundValues_of_mem inside given] at found
      exact Option.some.inj found
    exact ⟨theirs, there, ((Value.equals_iff _ _).mp alike).2⟩
  simp only [Ledger.holdsTotal, matching, same, Bool.and_self]

/-- An award of a rule lies in no context that resolves and has a key, other than that of the
name, that the rule has not. -/
theorem IsAwardOf.not_liesIn (award : first.IsAwardOf rule) (resolves : context.Resolves)
    {key : String} (inside : key ∈ context.scope) (different : key ≠ nameKey)
    (absent : key ∉ rule.scope) : ¬ first.LiesIn context := by
  intro within
  obtain ⟨_, own, _, _, bound⟩ := award
  obtain ⟨value, given⟩ := Option.isSome_iff_exists.mp (resolves key inside)
  obtain ⟨held, found, _⟩ := within key inside different value given
  rw [bound] at found
  exact absent (((own.forScope rule.scope).field?_boundValues_iff key held).mp found).1

end Fact

namespace Ledger

/-- A query that finds several records finds two that stand in the ledger one after the other. -/
theorem exists_pair_of_find {query : Entries} {ledger : Ledger}
    (several : 2 ≤ (ledger.find query).length) :
    ∃ first second, [first, second].Sublist ledger ∧
      ∀ fact ∈ [first, second], fact ∈ ledger ∧ fact.isMatch query = true := by
  obtain ⟨first, second, rest, found⟩ : ∃ first second rest,
      ledger.find query = first :: second :: rest := by
    match shape : ledger.find query with
    | [] => simp [shape] at several
    | [_] => simp [shape] at several
    | first :: second :: rest => exact ⟨first, second, rest, rfl⟩
  have listed : [first, second].Sublist (ledger.find query) :=
    found ▸ ((List.nil_sublist rest).cons_cons second).cons_cons first
  exact ⟨first, second, listed.trans List.filter_sublist,
    fun fact member => List.mem_filter.mp (listed.subset member)⟩

/-- A query finds two awards only of a rule that is split within its scope.

Proof: both records are awards of one rule, as names are distinct. A key of its scope that the query
leaves open must exist, or the records would agree on every key, and the first would hold the total
of the second. -/
theorem IsWrittenFor.splitsWithin {catalogue : Catalogue} {ledger : Ledger}
    (written : ledger.IsWrittenFor catalogue) (distinct : catalogue.names.Nodup) {context : Context}
    (resolves : context.Resolves) {name : String}
    (several : 2 ≤ (ledger.find (queryOf (.text name) context.boundValues)).length) :
    ∃ rule ∈ catalogue.rules, rule.name = name ∧ rule.SplitsWithin context.scope := by
  obtain ⟨first, second, ordered, found⟩ := exists_pair_of_find several
  have among : ∀ fact ∈ [first, second], fact.LiesIn context ∧
      ∃ rule ∈ catalogue.rules, rule.name = name ∧ fact.IsAwardOf rule := by
    intro fact member
    obtain ⟨inside, matching⟩ := found fact member
    obtain ⟨called, within⟩ := (fact.isMatch_iff context name).mp matching
    obtain ⟨rule, inForce, award⟩ := written.awards fact inside
    have named : rule.name = name :=
      Scalar.text.inj (Value.scalar.inj (award.1.symm.trans called))
    exact ⟨within, rule, inForce, named, award⟩
  obtain ⟨within, rule, inForce, named, award⟩ := among first List.mem_cons_self
  obtain ⟨withinToo, other, inForceToo, namedToo, awardToo⟩ :=
    among second (List.mem_cons_of_mem _ List.mem_cons_self)
  obtain rfl : other = rule :=
    Catalogue.eq_of_name distinct inForceToo inForce (namedToo.trans named.symm)
  refine ⟨other, inForce, named, ?_⟩
  constructor
  · intro key member
    by_cases different : key = nameKey
    · exact .inl different
    · by_cases listed : key ∈ other.scope
      · exact .inr listed
      · exact absurd within (award.not_liesIn resolves member different listed)
  · -- Were every key covered, the first record would hold the total of the second.
    by_cases covered : ∃ key ∈ other.scope, key = nameKey ∨ key ∉ context.scope
    · exact covered
    · have all : ∀ key ∈ other.scope, key ≠ nameKey ∧ key ∈ context.scope := by
        intro key member
        have neither := not_or.mp fun either => covered ⟨key, member, either⟩
        exact ⟨neither.1, Classical.not_not.mp neither.2⟩
      have holding := award.holdsTotal awardToo fun key listed =>
        awardToo.field?_equals resolves within withinToo (all key listed).1 (all key listed).2
      have apart := (List.pairwise_map.mp written.single).sublist ordered
      have none := (List.pairwise_cons.mp apart).1 second List.mem_cons_self
      exact absurd holding (Bool.eq_false_iff.mp none)

end Ledger

end Accolade
