import Accolade.Journal.LoadLines
import Accolade.Proofs.Catalogue.Loader
import Accolade.Proofs.Rule.Walk

/-!
# Warnings of loading

A rule may require an achievement that no rule awards. Such a rule stays in force, and loading warns
of it. What counts is the catalogue in the end, so an achievement whose rule was rejected is missed
however late it was dropped, and a rule that was dropped is not warned of at all.

The achievements that a rule requires are gathered by a walk over its requirement, which ends and
finds what a traversal finds. So there is one warning for each rule and each achievement it misses.
The rules come in the order of the catalogue, and the achievements of one rule in the order in which
its requirement first names them.
-/

namespace Accolade

namespace Catalogue

/-- Whether a rule in force requires an achievement that no rule in force awards. -/
def Lacks (catalogue : Catalogue) (rule achievement : String) : Prop :=
  ∃ asking ∈ catalogue.rules, asking.name = rule ∧
    achievement ∈ asking.requirement.leafNames .achievement ∧
      ∀ other ∈ catalogue.rules, other.name ≠ achievement

/-- Whether one missing achievement comes before another: the rule that requires it does, or it is
the same rule and its requirement names the one before the other. -/
def ComesBefore (catalogue : Catalogue) (first second : String × String) : Prop :=
  catalogue.names.idxOf first.1 < catalogue.names.idxOf second.1 ∨
    ∃ asking ∈ catalogue.rules, asking.name = first.1 ∧ asking.name = second.1 ∧
      (asking.requirement.leafNames .achievement).idxOf first.2 <
        (asking.requirement.leafNames .achievement).idxOf second.2

/-- There is no rule of a name when all rules have other names. -/
theorem has_eq_false_iff (catalogue : Catalogue) (name : String) :
    catalogue.has name = false ↔ ∀ other ∈ catalogue.rules, other.name ≠ name := by
  simp [has]

/-- The achievements that are unawardable are those that some rule lacks. -/
theorem mem_unawardable (catalogue : Catalogue) (rule achievement : String) :
    (rule, achievement) ∈ catalogue.unawardable ↔ catalogue.Lacks rule achievement := by
  unfold unawardable Lacks
  simp only [List.mem_flatMap, List.mem_map, List.mem_filter, Bool.not_eq_true', has_eq_false_iff,
    Requirement.referencedNames_eq, Requirement.mem_firstOccurrences, Prod.mk.injEq]
  constructor
  · rintro ⟨asking, member, name, ⟨asked, missing⟩, rfl, rfl⟩
    exact ⟨asking, member, rfl, asked, missing⟩
  · rintro ⟨asking, member, rfl, asked, missing⟩
    exact ⟨asking, member, achievement, ⟨asked, missing⟩, rfl, rfl⟩

/-- Under distinct names, rules stand in the order of their names. -/
theorem rules_ordered {catalogue : Catalogue} (distinct : catalogue.names.Nodup) :
    catalogue.rules.Pairwise fun a b =>
      catalogue.names.idxOf a.name < catalogue.names.idxOf b.name := by
  have place : ∀ (index : Nat) (bound : index < catalogue.rules.length),
      catalogue.names.idxOf catalogue.rules[index].name = index := by
    intro index bound
    have found := distinct.idxOf_getElem index (by simpa [names] using bound)
    simpa [names] using found
  refine List.pairwise_iff_getElem.mpr fun i j boundI boundJ before => ?_
  rwa [place i boundI, place j boundJ]

/-- The unawardable achievements come by rule, and then as its requirement names them. -/
theorem unawardable_ordered {catalogue : Catalogue} (distinct : catalogue.names.Nodup) :
    catalogue.unawardable.Pairwise catalogue.ComesBefore := by
  refine List.pairwise_flatMap.mpr ⟨?_, ?_⟩
  · intro asking member
    rw [Requirement.referencedNames_eq]
    refine List.pairwise_map.mpr (List.Pairwise.filter _ ?_)
    refine (Requirement.firstOccurrences_ordered _).imp fun before => ?_
    exact .inr ⟨asking, member, rfl, rfl, before⟩
  · refine (rules_ordered distinct).imp fun before first inFirst second inSecond => .inl ?_
    obtain ⟨_, _, rfl⟩ := List.mem_map.mp inFirst
    obtain ⟨_, _, rfl⟩ := List.mem_map.mp inSecond
    exact before

/-- Nothing comes before itself in the order of warnings. -/
theorem ComesBefore.ne {catalogue : Catalogue} {first second : String × String}
    (before : catalogue.ComesBefore first second) : first ≠ second := by
  rintro rfl
  rcases before with impossible | ⟨_, _, _, _, impossible⟩
  · exact Nat.lt_irrefl _ impossible
  · exact Nat.lt_irrefl _ impossible

/-- The warnings that loading writes are those of the unawardable achievements. -/
theorem warnings_eq (loaded : Loaded) :
    (loaded.lines.filter fun line => line.1 == .warning) =
      loaded.catalogue.unawardable.map fun (rule, achievement) =>
        Loaded.unawardableLine rule achievement := by
  have rejected : ((loaded.rejections.map Rejection.line).filter fun line =>
      line.1 == .warning) = [] := by
    refine List.filter_eq_nil_iff.mpr fun line member => ?_
    obtain ⟨rejection, _, rfl⟩ := List.mem_map.mp member
    simp [Rejection.line]
  have warned : ∀ line ∈ loaded.catalogue.unawardable.map (fun (rule, achievement) =>
      Loaded.unawardableLine rule achievement), (line.1 == .warning) = true := by
    intro line member
    obtain ⟨_, _, rfl⟩ := List.mem_map.mp member
    rfl
  rw [Loaded.lines, List.filter_append, List.filter_append, rejected,
    List.filter_eq_self.mpr warned]
  simp

/-- What it means that the warnings of loading are those of some missing achievements, and that
these are all there are. -/
structure WarnsOf (loaded : Loaded) (missing : List (String × String)) : Prop where
  written : (loaded.lines.filter fun line => line.1 == .warning) =
    missing.map fun (rule, achievement) => Loaded.unawardableLine rule achievement
  exactly : ∀ rule achievement,
    (rule, achievement) ∈ missing ↔ loaded.catalogue.Lacks rule achievement
  once : missing.Nodup
  ordered : missing.Pairwise loaded.catalogue.ComesBefore

/-- The walk over a requirement ends after as many rounds as there are nodes and no sooner, and
what it refers to are the names of its leaves from left to right, each where it occurs first.
Whenever a catalogue comes out of loading, the warnings are those of the achievements that some rule
in force lacks: each of them once, by rule and then by first occurrence. -/
theorem load_warns :
    (∀ requirement : Requirement,
      (∀ rounds, (Requirement.Walk.advance rounds (.start requirement)).hasEnded = true ↔
        requirement.size ≤ rounds) ∧
      ∀ kind, requirement.referencedNames kind =
        Requirement.firstOccurrences (requirement.leafNames kind)) ∧
    ∀ strictness document loaded, load strictness document = .ok loaded →
      ∃ missing, WarnsOf loaded missing := by
  refine ⟨fun requirement => ⟨Requirement.Walk.hasEnded_advance_iff requirement,
    fun kind => requirement.referencedNames_eq kind⟩, ?_⟩
  intro strictness document loaded loading
  have ordered := unawardable_ordered (load_names_nodup loading)
  exact ⟨loaded.catalogue.unawardable, warnings_eq loaded, mem_unawardable loaded.catalogue,
    ordered.imp ComesBefore.ne, ordered⟩

/-- A document with a rule that requires an achievement nobody defines, twice, one whose rule is
dropped, and one that is awarded. -/
def wantingDocument : Value :=
  .mapping [(.text definitionsKey, .mapping [
    (.text "Collector", .mapping [(.text "requirements", .list [
      .mapping [(.text "achievement", .text "Legend")],
      .mapping [(.text "AnyOf", .list [.mapping [(.text "achievement", .text "Veteran")],
        .mapping [(.text "achievement", .text "Beginner")],
        .mapping [(.text "achievement", .text "Legend")]])]])]),
    (.text "Beginner", .mapping []),
    (.text "Veteran", .mapping [(.text "replaces", .list [.text "Recruit"])])])]

/-- Loading it warns of the two achievements that are not awarded. -/
theorem load_wanting :
    ∃ loaded, load .lenient wantingDocument = .ok loaded ∧
      loaded.catalogue.names = ["Collector", "Beginner"] ∧
      (loaded.lines.filter fun line => line.1 == .warning) =
        [Loaded.unawardableLine "Collector" "Legend",
          Loaded.unawardableLine "Collector" "Veteran"] ∧
      ∃ missing, WarnsOf loaded missing :=
  ⟨_, rfl, rfl, rfl, load_warns.2 .lenient wantingDocument _ rfl⟩

end Catalogue

end Accolade
