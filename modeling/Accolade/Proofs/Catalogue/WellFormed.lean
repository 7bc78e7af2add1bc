import Accolade.Proofs.Catalogue.Strictness
import Accolade.Proofs.Rule.Writing

/-!
# Well-formed catalogues

Every catalogue that is loaded is well formed, whichever way it is loaded. Its rules are stored
under their own names. A rule may be awarded at least once, within a scope that has a key. It
replaces other rules that are in force, and asks for all of some requirements that can be written.

The parts come from different stages. The fields of a body are checked before anything else, a rule
that replaces itself is refused before its requirements are read, and the targets of a rule are
looked up only when all rules have been read. That they stay in force is no matter of the last
lookup alone: a rule that is dropped may have been a target, and so the rounds go on until what is
left is closed.
-/

namespace Accolade

namespace Requirement

/-- Requirements that were read ask for all of some that can be written. -/
theorem readAll_requires {definitions : Value} {requirement : Requirement}
    (reading : readAll definitions = .ok requirement) :
    ∃ children, requirement = .allOf children ∧ ∀ child ∈ children, child.IsWritable := by
  unfold readAll at reading
  split at reading
  · cases reading
    exact ⟨[], rfl, by simp⟩
  · rename_i items
    obtain ⟨children, read, made⟩ := bind_ok_iff.mp reading
    cases made
    rw [readItems_eq] at read
    have written : List.Forall₂ Written items children :=
      (mapM_ok_iff fun item _ child => read_ok_iff item child).mp read
    refine ⟨children, rfl, fun child member => ?_⟩
    obtain ⟨item, _, here⟩ := exists_of_forall₂ written member
    exact isWritable_of_written item child here
  · contradiction

end Requirement

namespace Rule

/-- Whether a rule is well formed by itself. -/
structure IsSound (rule : Rule) : Prop where
  capped : 1 ≤ rule.maxAwarded
  keyed : rule.scope ≠ []
  replacesOthers : rule.name ∉ rule.replaces
  requires : ∃ children, rule.requirement = .allOf children ∧
    ∀ child ∈ children, child.IsWritable

/-- A rule whose body was read is well formed by itself. -/
theorem readBody_isSound {name : String} {entries : Entries} {rule : Rule}
    (reading : readBody name entries = .ok rule) : rule.IsSound := by
  obtain ⟨_, keyed, capped⟩ := readBody_spec reading
  unfold readBody at reading
  split at reading
  · contradiction
  · split at reading
    · contradiction
    · rename_i body _ others
      split at reading
      · contradiction
      · rename_i requirement read
        cases reading
        exact ⟨capped, keyed, by simpa using others, Requirement.readAll_requires read⟩

/-- A rule that was read from a definition of any shape is sound. -/
theorem read_isSound {name : String} {definition : Value} {rule : Rule}
    (reading : Rule.read name definition = .ok rule) : rule.IsSound := by
  unfold Rule.read at reading
  split at reading
  · exact readBody_isSound reading
  · exact readBody_isSound reading
  · contradiction

end Rule

namespace Catalogue

/-- Whether a catalogue is well formed: each of its rules is stored under its own name and no other
one is, it is well formed by itself, and what it replaces is another rule in force. -/
structure IsWellFormed (catalogue : Catalogue) : Prop where
  distinct : catalogue.names.Nodup
  stored : ∀ rule ∈ catalogue.rules, catalogue.find? rule.name = some rule
  sound : ∀ rule ∈ catalogue.rules, rule.IsSound
  replaces : ∀ rule ∈ catalogue.rules, ∀ target ∈ rule.replaces,
    target ≠ rule.name ∧ ∃ held, catalogue.find? target = some held

/-- A loaded catalogue is well formed: its names are distinct, its rules are sound by themselves,
and what they replace is in force. -/
theorem load_isWellFormed {strictness : Strictness} {document : Value} {loaded : Loaded}
    (loading : load strictness document = .ok loaded) : loaded.catalogue.IsWellFormed := by
  have distinct := load_names_nodup loading
  have stored : ∀ rule ∈ loaded.catalogue.rules, loaded.catalogue.find? rule.name = some rule :=
    fun _ => find?_of_mem distinct
  obtain ⟨entries, _, reported, rfl⟩ := load_entries loading
  have sound : ∀ rule ∈ (loadedFrom entries).catalogue.rules, rule.IsSound := by
    intro rule member
    obtain ⟨definition, _, reading⟩ := defines_of_mem_loadedFrom rule member
    exact Rule.read_isSound reading
  refine ⟨distinct, stored, sound, fun rule member target replaced => ⟨?_, ?_⟩⟩
  · rintro rfl
    exact (sound rule member).replacesOthers replaced
  · have closed := (settle_rounds (readable_nodup reported)).closed rule member target replaced
    obtain ⟨held, inForce, rfl⟩ := List.mem_map.mp closed
    exact ⟨held, stored held inForce⟩

end Catalogue

end Accolade
