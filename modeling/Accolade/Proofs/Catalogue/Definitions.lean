import Mathlib.Data.List.Induction
import Mathlib.Data.List.Nodup
import Accolade.Proofs.Catalogue.Loader

/-!
# Which definitions count

The definitions of a document go by the texts of their keys. Keys of one text are one name: its
last definition counts, at the place of its first. What is read therefore depends on nothing
but the last definition of each name.

A definition is reported when it is read as a rule or refused with a diagnosis. Lenient loading
gives a catalogue exactly when every definition that counts is reported. The rules are then
those that can be read, less the dangling ones, and beside them stands a rejection of each
definition that cannot.
-/

namespace Accolade

namespace Catalogue

/-- The last definition that some entries give a name. -/
def lastDefinition? (entries : Entries) (name : String) : Option Value :=
  (entries.reverse.find? fun entry => entry.1.plain == name).map Prod.snd

/-- One more entry gives its own name its definition, and no other name one. -/
theorem lastDefinition?_concat (entries : Entries) (entry : Scalar × Value) (name : String) :
    lastDefinition? (entries ++ [entry]) name =
      if entry.1.plain = name then some entry.2 else lastDefinition? entries name := by
  unfold lastDefinition?
  rw [List.reverse_concat, List.find?_cons]
  by_cases same : entry.1.plain = name
  · simp only [same, beq_self_eq_true, if_true, Option.map_some]
  · simp only [same, beq_eq_false_iff_ne.mpr same, if_false]

/-- The names that have a definition are the texts of the keys, of which any number may share one.
-/
theorem lastDefinition?_isSome_iff (entries : Entries) (name : String) :
    (lastDefinition? entries name).isSome = true ↔
      name ∈ entries.map fun entry => entry.1.plain := by
  rw [lastDefinition?, Option.isSome_map, List.find?_isSome, List.mem_map]
  simp only [List.mem_reverse, beq_iff_eq]

/-- Where no two keys have one text, the order of the entries does not matter. -/
theorem lastDefinition?_perm {entries reordered : Entries} (permuted : reordered.Perm entries)
    (distinct : (entries.map fun entry => entry.1.plain).Nodup) (name : String) :
    lastDefinition? reordered name = lastDefinition? entries name := by
  have only : ∀ {first second : Scalar × Value}, first ∈ entries → second ∈ entries →
      first.1.plain = second.1.plain → first = second :=
    fun one other same => List.inj_on_of_nodup_map distinct one other same
  have carried : ∀ one other : Entries, one.Perm entries → other.Perm entries →
      ∀ definition, lastDefinition? one name = some definition →
        lastDefinition? other name = some definition := by
    intro one other onePermuted otherPermuted definition known
    obtain ⟨entry, here, rfl⟩ := Option.map_eq_some_iff.mp known
    have member : entry ∈ entries :=
      onePermuted.mem_iff.mp (List.mem_reverse.mp (List.mem_of_find?_eq_some here))
    have called : entry.1.plain = name := by simpa using List.find?_some here
    have defined : (lastDefinition? other name).isSome = true :=
      (lastDefinition?_isSome_iff other name).mpr
        (List.mem_map.mpr ⟨entry, otherPermuted.mem_iff.mpr member, called⟩)
    obtain ⟨_, again⟩ := Option.isSome_iff_exists.mp defined
    obtain ⟨twin, there, rfl⟩ := Option.map_eq_some_iff.mp again
    have twinMember : twin ∈ entries :=
      otherPermuted.mem_iff.mp (List.mem_reverse.mp (List.mem_of_find?_eq_some there))
    have twinCalled : twin.1.plain = name := by simpa using List.find?_some there
    rw [again, only twinMember member (twinCalled.trans called.symm)]
  apply Option.ext
  intro definition
  exact ⟨carried _ _ permuted (.refl entries) definition,
    carried _ _ (.refl entries) permuted definition⟩

/-- Storing a definition replaces that of its name and leaves the others. -/
theorem mem_putDefinition {definitions : List (String × Value)}
    (distinct : (definitions.map Prod.fst).Nodup) (name : String) (definition : Value)
    (entry : String × Value) :
    entry ∈ putDefinition definitions name definition ↔
      entry = (name, definition) ∨ (entry ∈ definitions ∧ entry.1 ≠ name) := by
  induction definitions with
  | nil => simp [putDefinition]
  | cons first rest inductionHypothesis =>
    obtain ⟨other, existing⟩ := first
    obtain ⟨absent, restDistinct⟩ := List.nodup_cons.mp distinct
    by_cases same : other = name
    · subst same
      have apart : ∀ entry ∈ rest, entry.1 ≠ other :=
        fun entry member named => absent (List.mem_map.mpr ⟨entry, member, named⟩)
      simp only [putDefinition, if_true, List.mem_cons]
      constructor
      · rintro (here | behind)
        · exact .inl here
        · exact .inr ⟨.inr behind, apart entry behind⟩
      · rintro (here | ⟨rfl | behind, different⟩)
        · exact .inl here
        · exact absurd rfl different
        · exact .inr behind
    · simp only [putDefinition, same, if_false, List.mem_cons, inductionHypothesis restDistinct]
      constructor
      · rintro (rfl | here | ⟨behind, different⟩)
        · exact .inr ⟨.inl rfl, same⟩
        · exact .inl here
        · exact .inr ⟨.inr behind, different⟩
      · rintro (here | ⟨first | behind, different⟩)
        · exact .inr (.inl here)
        · exact .inl first
        · exact .inr (.inr ⟨behind, different⟩)

/-- The definitions of one more entry are those before with its own stored. -/
theorem namedDefinitions_concat (entries : Entries) (entry : Scalar × Value) :
    namedDefinitions (entries ++ [entry]) =
      putDefinition (namedDefinitions entries) entry.1.plain entry.2 := by
  simp [namedDefinitions, List.foldl_append]

/-- The definitions by name are the last definitions: an earlier one of the same name is
overwritten. -/
theorem mem_namedDefinitions (entries : Entries) (name : String) (definition : Value) :
    (name, definition) ∈ namedDefinitions entries ↔
      lastDefinition? entries name = some definition := by
  induction entries using List.reverseRecOn with
  | nil => simp [namedDefinitions, lastDefinition?]
  | append_singleton front entry inductionHypothesis =>
    rw [namedDefinitions_concat, mem_putDefinition (namedDefinitions_nodup front),
      inductionHypothesis, lastDefinition?_concat]
    by_cases same : entry.1.plain = name
    · subst same
      simp [eq_comm]
    · have apart : ¬ name = entry.1.plain := fun equal => same equal.symm
      simp [same, apart]

/-- The names stand in the order in which they first occur, since overwriting a definition leaves
its place. -/
theorem namedDefinitions_names (entries : Entries) :
    (namedDefinitions entries).map Prod.fst =
      (entries.map fun entry => entry.1.plain).eraseDups := by
  induction entries using List.reverseRecOn with
  | nil => rfl
  | append_singleton front entry inductionHypothesis =>
    rw [namedDefinitions_concat, putDefinition_names, inductionHypothesis, List.map_append,
      List.eraseDups_append]
    by_cases known : entry.1.plain ∈ front.map fun other => other.1.plain
    · simp [known, List.removeAll]
    · simp [known, List.removeAll, List.eraseDups_cons]

/-- The rule that a definition is read as. -/
def ruleOf? (entry : String × Value) : Option Rule := (Rule.read entry.1 entry.2).toOption

/-- The rejection of a definition that is refused with a diagnosis. -/
def rejectionOf? (entry : String × Value) : Option Rejection :=
  match Rule.read entry.1 entry.2 with
  | .ok _ => none
  | .error error =>
    (error.failure entry.1).diagnosis?.map fun diagnosis => ⟨entry.1, entry.2, diagnosis.message⟩

/-- Whether a definition is read as a rule or refused with a diagnosis. -/
def IsReported (entry : String × Value) : Prop :=
  ∀ error, Rule.read entry.1 entry.2 = .error error →
    ∃ diagnosis, error.failure entry.1 = .diagnosed diagnosis

/-- A reported definition gives either a rule of its name or its rejection. -/
theorem IsReported.cases {entry : String × Value} (reported : IsReported entry) :
    (∃ rule, Rule.read entry.1 entry.2 = .ok rule ∧ ruleOf? entry = some rule ∧
        rejectionOf? entry = none ∧ rule.name = entry.1) ∨
      ∃ rejection, ruleOf? entry = none ∧ rejectionOf? entry = some rejection ∧
        rejection.rule = entry.1 ∧ rejection.definition = entry.2 := by
  cases reading : Rule.read entry.1 entry.2 with
  | ok rule =>
    exact .inl ⟨rule, rfl, by simp [ruleOf?, reading, Except.toOption],
      by simp [rejectionOf?, reading], (Rule.read_spec reading).1⟩
  | error error =>
    obtain ⟨diagnosis, diagnosed⟩ := reported error reading
    refine .inr ⟨⟨entry.1, entry.2, diagnosis.message⟩, ?_, ?_, rfl, rfl⟩
    · simp [ruleOf?, reading, Except.toOption]
    · simp [rejectionOf?, reading, diagnosed, Failure.diagnosis?]

/-- A reported definition adds its rule or its rejection to what the others come to. -/
theorem readRules_lenient_cons {entry : String × Value} (reported : IsReported entry)
    (rest : List (String × Value)) :
    readRules .lenient (entry :: rest) = (readRules .lenient rest).map fun found =>
      ((ruleOf? entry).toList ++ found.1, (rejectionOf? entry).toList ++ found.2) := by
  obtain ⟨name, definition⟩ := entry
  rcases reported.cases with ⟨rule, reading, given, none, _⟩ | ⟨rejection, none, given, _, _⟩
  · simp only [readRules, reading, given, none]
    cases readRules .lenient rest <;> rfl
  · simp only [none, given]
    unfold rejectionOf? at given
    split at given
    · contradiction
    · rename_i error reading
      obtain ⟨diagnosis, diagnosed⟩ := reported error reading
      simp only [diagnosed, Failure.diagnosis?, Option.map_some, Option.some.injEq] at given
      simp only [readRules, reading, diagnosed, given]
      cases readRules .lenient rest <;> rfl

/-- A definition that is not reported ends the reading, strict or lenient, with a failure that has
no diagnosis. -/
theorem readRules_unreported {entry : String × Value} (unreported : ¬ IsReported entry)
    (strictness : Strictness) (rest : List (String × Value)) :
    ∃ error, Rule.read entry.1 entry.2 = .error error ∧
      (∀ diagnosis, error.failure entry.1 ≠ .diagnosed diagnosis) ∧
      readRules strictness (entry :: rest) = .error (error.failure entry.1) := by
  obtain ⟨name, definition⟩ := entry
  simp only [IsReported, not_forall, not_exists] at unreported
  obtain ⟨error, reading, undiagnosed⟩ := unreported
  refine ⟨error, reading, undiagnosed, ?_⟩
  simp only [readRules, reading]

/-- Lenient reading succeeds exactly when every definition is reported. -/
theorem readRules_lenient_iff (definitions : List (String × Value))
    (outcome : List Rule × List Rejection) :
    readRules .lenient definitions = .ok outcome ↔
      (∀ entry ∈ definitions, IsReported entry) ∧
        outcome = (definitions.filterMap ruleOf?, definitions.filterMap rejectionOf?) := by
  induction definitions generalizing outcome with
  | nil => simp [readRules, eq_comm]
  | cons entry rest inductionHypothesis =>
    have whole : ∀ {α : Type} (part? : String × Value → Option α),
        (entry :: rest).filterMap part? = (part? entry).toList ++ rest.filterMap part? := by
      intro α part?
      cases given : part? entry <;> simp [given]
    rw [List.forall_mem_cons, whole, whole]
    by_cases reported : IsReported entry
    · rw [readRules_lenient_cons reported]
      cases later : readRules .lenient rest with
      | ok found =>
        obtain ⟨all, rfl⟩ := (inductionHypothesis found).mp later
        simp only [Except.map, Except.ok.injEq]
        exact ⟨fun same => ⟨⟨reported, all⟩, same.symm⟩, fun both => both.2.symm⟩
      | error failure =>
        have unreported : ¬ ∀ entry ∈ rest, IsReported entry := by
          intro all
          rw [(inductionHypothesis _).mpr ⟨all, rfl⟩] at later
          contradiction
        simp only [Except.map, reduceCtorEq, unreported, and_false, false_and]
    · obtain ⟨error, _, _, stopped⟩ := readRules_unreported reported .lenient rest
      simp only [stopped, reduceCtorEq, reported, false_and]

/-- Reported definitions are parted into rules and rejections: each name stands on one side, once.
-/
theorem reported_perm {definitions : List (String × Value)}
    (reported : ∀ entry ∈ definitions, IsReported entry) :
    ((definitions.filterMap ruleOf?).map (·.name) ++
      (definitions.filterMap rejectionOf?).map (·.rule)).Perm (definitions.map Prod.fst) := by
  induction definitions with
  | nil => exact .nil
  | cons entry rest inductionHypothesis =>
    obtain ⟨here, further⟩ := List.forall_mem_cons.mp reported
    have later := inductionHypothesis further
    rcases here.cases with ⟨rule, _, given, none, named⟩ | ⟨rejection, none, given, named, _⟩
    · simp only [List.filterMap_cons, given, none, List.map_cons, List.cons_append, named]
      exact later.cons entry.1
    · simp only [List.filterMap_cons, given, none, List.map_cons, named]
      exact List.perm_middle.trans (later.cons entry.1)

/-- The rules that can be read of the definitions that count. -/
def readable (entries : Entries) : List Rule := (namedDefinitions entries).filterMap ruleOf?

/-- What lenient loading makes of entries whose definitions are all reported. -/
def loadedFrom (entries : Entries) : Loaded :=
  let definitions := namedDefinitions entries
  let (kept, dropped) := settle (readable entries)
  ⟨⟨kept⟩, definitions.filterMap rejectionOf? ++
    dropped.map fun (rule, unknown) => danglingRejection definitions rule unknown⟩

/-- Lenient loading gives a catalogue exactly when all keys can be put into words and every
definition that counts is reported. -/
theorem load_lenient_iff {top entries : Entries}
    (found : Entries.field? top definitionsKey = some (.mapping entries)) (loaded : Loaded) :
    load .lenient (.mapping top) = .ok loaded ↔
      CanBeNamed entries ∧ (∀ entry ∈ namedDefinitions entries, IsReported entry) ∧
        loaded = loadedFrom entries := by
  by_cases named : CanBeNamed entries
  · have defined := (definitionsOf_mapping found).1 named
    cases reading : readRules .lenient (namedDefinitions entries) with
    | ok outcome =>
      obtain ⟨all, rfl⟩ := (readRules_lenient_iff _ _).mp reading
      simp only [load, defined, reading, bind, Except.bind, Except.ok.injEq]
      exact ⟨fun same => ⟨named, all, same.symm⟩, fun both => both.2.2.symm⟩
    | error failure =>
      have unreported : ¬ ∀ entry ∈ namedDefinitions entries, IsReported entry := by
        intro all
        rw [(readRules_lenient_iff _ _).mpr ⟨all, rfl⟩] at reading
        contradiction
      simp only [load, defined, reading, bind, Except.bind, reduceCtorEq, unreported, false_and,
        and_false]
  · have undefined := (definitionsOf_mapping found).2 named
    simp only [load, undefined, bind, Except.bind, reduceCtorEq, named, false_and]

end Catalogue

end Accolade
