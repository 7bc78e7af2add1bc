import Mathlib.Data.List.Pairwise
import Mathlib.Data.List.Perm.Basic
import Accolade.Proofs.Catalogue.Closure

/-!
# What becomes of each definition

Lenient loading accounts for a definition by the rule that it was read as or by a rejection that
carries it. Every rule and every rejection accounts for one definition, and no definition has two
accounts.

Definitions go by the texts of their keys. If a later key has the same text, the earlier definition
is replaced before anything looks at it, and nothing accounts for it: neither a rule nor a
rejection, even if it is malformed. So all definitions are accounted for exactly when no two keys
have one text.
-/

namespace Accolade

namespace Catalogue

/-- The entries whose keys have texts that no later key has. -/
def lastEntries (entries : Entries) : Entries :=
  entries.pwFilter fun entry later => entry.1.plain ≠ later.1.plain

/-- What loading comes to, piece by piece: the rules in force and the rejections. -/
def Outcomes (loaded : Loaded) : List (Rule ⊕ Rejection) :=
  loaded.catalogue.rules.map .inl ++ loaded.rejections.map .inr

/-- The name that a rule or a rejection goes by. -/
def outcomeName : Rule ⊕ Rejection → String
  | .inl rule => rule.name
  | .inr rejection => rejection.rule

/-- Whether a rule or a rejection accounts for an entry: the rule has its name and was read from
its definition, the rejection carries both. -/
def AccountsFor (entry : Scalar × Value) : Rule ⊕ Rejection → Prop
  | .inl rule => rule.name = entry.1.plain ∧ Rule.read entry.1.plain entry.2 = .ok rule
  | .inr rejection => rejection.rule = entry.1.plain ∧ rejection.definition = entry.2

/-- Whether what loading comes to accounts for entries one by one, each by a rule or a rejection of
its own, and for nothing else. -/
def AreAccountedFor (entries : Entries) (loaded : Loaded) : Prop :=
  ∃ accounts, accounts.Perm (Outcomes loaded) ∧ List.Forall₂ AccountsFor entries accounts

/-- The rule or the rejection that accounts for an entry has the text of its key for a name. -/
theorem AccountsFor.name {entry : Scalar × Value} {outcome : Rule ⊕ Rejection}
    (accounts : AccountsFor entry outcome) : entry.1.plain = outcomeName outcome := by
  cases outcome <;> exact accounts.1.symm

/-- There are as many entries accounted for as rules and rejections. -/
theorem AreAccountedFor.length {entries : Entries} {loaded : Loaded}
    (accounted : AreAccountedFor entries loaded) :
    loaded.catalogue.size + loaded.rejections.length = entries.length := by
  obtain ⟨accounts, permuted, each⟩ := accounted
  rw [each.length_eq, permuted.length_eq, Outcomes, List.length_append, List.length_map,
    List.length_map, size]

/-- Rules and rejections go by the names in the catalogue and those rejected. -/
theorem outcomes_names (loaded : Loaded) :
    (Outcomes loaded).map outcomeName =
      loaded.catalogue.names ++ loaded.rejections.map (·.rule) := by
  simp [Outcomes, names, outcomeName, Function.comp_def]

/-- The last entries have the texts of all entries: each text has a last entry. -/
theorem mem_lastEntries_texts (entries : Entries) (name : String) :
    name ∈ ((lastEntries entries).map fun entry => entry.1.plain) ↔
      name ∈ entries.map fun entry => entry.1.plain := by
  have absent := List.forall_mem_pwFilter
    (R := fun entry later : Scalar × Value => entry.1.plain ≠ later.1.plain)
    (fun {first second third} apart => by
      by_contra both
      simp only [ne_eq, not_or, not_not] at both
      exact apart (both.1.trans both.2)) (.text name, .null) entries
  simpa [lastEntries, Scalar.plain, eq_comm] using not_congr absent

/-- No two of the last entries have keys of one text. -/
theorem lastEntries_nodup (entries : Entries) :
    ((lastEntries entries).map fun entry => entry.1.plain).Nodup :=
  List.pairwise_map.mpr (List.pairwise_pwFilter entries)

/-- All entries are last ones exactly when no two keys have one text. -/
theorem lastEntries_eq_self_iff (entries : Entries) :
    lastEntries entries = entries ↔ (entries.map fun entry => entry.1.plain).Nodup :=
  List.pwFilter_eq_self.trans List.pairwise_map.symm

/-- The definition that an earlier entry gives a name counts if no later one gives it any. -/
theorem lastDefinition?_cons (entry : Scalar × Value) (rest : Entries) (name : String) :
    lastDefinition? (entry :: rest) name =
      (lastDefinition? rest name).or (if entry.1.plain = name then some entry.2 else none) := by
  unfold lastDefinition?
  rw [List.reverse_cons, List.find?_append, Option.map_or, List.find?_singleton]
  by_cases same : entry.1.plain = name <;> simp [same]

/-- The definition of a last entry is the one that counts for the text of its key. -/
theorem lastDefinition?_of_mem {entries : Entries} {entry : Scalar × Value}
    (member : entry ∈ lastEntries entries) :
    lastDefinition? entries entry.1.plain = some entry.2 := by
  induction entries with
  | nil => contradiction
  | cons first rest inductionHypothesis =>
    rw [lastDefinition?_cons]
    unfold lastEntries at member
    by_cases last : ∀ later ∈ lastEntries rest, first.1.plain ≠ later.1.plain
    · rw [List.pwFilter_cons_of_pos last] at member
      rcases List.mem_cons.mp member with rfl | behind
      · have unnamed : lastDefinition? rest entry.1.plain = none := by
          rw [← Option.not_isSome_iff_eq_none, lastDefinition?_isSome_iff,
            ← mem_lastEntries_texts, List.mem_map]
          rintro ⟨later, inside, same⟩
          exact last later inside same.symm
        rw [unnamed, if_pos rfl, Option.none_or]
      · rw [inductionHypothesis behind, Option.some_or]
    · rw [List.pwFilter_cons_of_neg last] at member
      rw [inductionHypothesis member, Option.some_or]

section Reported

variable {entries : Entries} (reported : ∀ entry ∈ namedDefinitions entries, IsReported entry)
include reported

/-- A rule or a rejection accounts for the entry whose definition counts under its name. -/
theorem accountsFor_of_name {outcome : Rule ⊕ Rejection}
    (member : outcome ∈ Outcomes (loadedFrom entries)) {entry : Scalar × Value}
    (named : entry.1.plain = outcomeName outcome)
    (last : lastDefinition? entries entry.1.plain = some entry.2) :
    AccountsFor entry outcome := by
  rcases List.mem_append.mp member with inForce | rejected
  · obtain ⟨rule, inside, rfl⟩ := List.mem_map.mp inForce
    obtain ⟨definition, own, reading⟩ := defines_of_mem_loadedFrom rule inside
    change entry.1.plain = rule.name at named
    rw [← named] at own reading
    obtain rfl := Option.some.inj (own.symm.trans last)
    exact ⟨named.symm, reading⟩
  · obtain ⟨rejection, inside, rfl⟩ := List.mem_map.mp rejected
    have own := loadedFrom_own reported inside
    change entry.1.plain = rejection.rule at named
    rw [← named] at own
    exact ⟨named.symm, Option.some.inj (own.symm.trans last)⟩

/-- The names of rules and rejections are the texts of the last entries. -/
theorem outcomes_perm :
    ((lastEntries entries).map fun entry => entry.1.plain).Perm
      ((Outcomes (loadedFrom entries)).map outcomeName) := by
  have parted := loadedFrom_names reported
  rw [outcomes_names]
  refine (List.perm_ext_iff_of_nodup (lastEntries_nodup entries)
    (parted.nodup_iff.mpr (namedDefinitions_nodup entries))).mpr fun name => ?_
  rw [mem_lastEntries_texts, parted.mem_iff, namedDefinitions_names, List.mem_eraseDups]

/-- The last entries are accounted for one by one: each is a rule in force or a rejection, under the
text of its key. -/
theorem lastEntries_accounted : AreAccountedFor (lastEntries entries) (loadedFrom entries) := by
  have own : List.Forall₂
      (fun name outcome => outcome ∈ Outcomes (loadedFrom entries) ∧ name = outcomeName outcome)
      ((Outcomes (loadedFrom entries)).map outcomeName) (Outcomes (loadedFrom entries)) :=
    List.forall₂_map_left_iff.mpr (List.forall₂_same.mpr fun _ member => ⟨member, rfl⟩)
  obtain ⟨accounts, named, permuted⟩ := List.perm_comp_forall₂ (outcomes_perm reported) own
  have last : ∀ entry ∈ lastEntries entries,
      lastDefinition? entries entry.1.plain = some entry.2 := fun _ => lastDefinition?_of_mem
  refine ⟨accounts, permuted, ?_⟩
  refine ((List.forall₂_and_left _ _).mpr ⟨last, List.forall₂_map_left_iff.mp named⟩).imp ?_
  rintro entry outcome ⟨counts, member, same⟩
  exact accountsFor_of_name reported member same counts

/-- Entries that are all accounted for have keys with distinct texts. -/
theorem texts_nodup_of_accounted (accounted : AreAccountedFor entries (loadedFrom entries)) :
    (entries.map fun entry => entry.1.plain).Nodup := by
  obtain ⟨accounts, permuted, each⟩ := accounted
  have texts : (entries.map fun entry => entry.1.plain) = accounts.map outcomeName :=
    List.forall₂_eq_eq_eq ▸ List.forall₂_map_left_iff.mpr
      (List.forall₂_map_right_iff.mpr (each.imp fun _ _ => AccountsFor.name))
  rw [texts, ((permuted.map outcomeName).trans (outcomes_perm reported).symm).nodup_iff]
  exact lastEntries_nodup entries

end Reported

/-- Lenient loading accounts for the entries whose keys have texts that no later key has, each by a
rule or a rejection of its own, and for no others. So it accounts for all entries of a document
exactly when no two keys have one text. -/
theorem load_accounts {top entries : Entries} {loaded : Loaded}
    (found : Entries.field? top definitionsKey = some (.mapping entries))
    (loading : load .lenient (.mapping top) = .ok loaded) :
    AreAccountedFor (lastEntries entries) loaded ∧
      loaded.catalogue.size + loaded.rejections.length = (lastEntries entries).length ∧
      (AreAccountedFor entries loaded ↔ (entries.map fun entry => entry.1.plain).Nodup) := by
  obtain ⟨_, reported, rfl⟩ := (load_lenient_iff found loaded).mp loading
  have accounted := lastEntries_accounted reported
  refine ⟨accounted, accounted.length, texts_nodup_of_accounted reported, fun distinct => ?_⟩
  rwa [(lastEntries_eq_self_iff entries).mpr distinct] at accounted

/-- Two keys with one text. The definition under the first is malformed. -/
def shadowedEntries : Entries :=
  [(.integer 1, .mapping [(.text "maxAwarded", .integer 0)]), (.text "1", .mapping [])]

/-- The tangled entries are accounted for one by one. Of the two with one text, only the second
is. -/
theorem load_tangled_accounts :
    let document (entries : Entries) : Value := .mapping [(.text definitionsKey, .mapping entries)]
    load .lenient (document tangledEntries) = .ok (loadedFrom tangledEntries) ∧
      AreAccountedFor tangledEntries (loadedFrom tangledEntries) ∧
      load .lenient (document shadowedEntries) = .ok (loadedFrom shadowedEntries) ∧
      AreAccountedFor [(.text "1", .mapping [])] (loadedFrom shadowedEntries) := by
  intro document
  have tangled : load .lenient (document tangledEntries) = .ok (loadedFrom tangledEntries) := rfl
  have shadowed : load .lenient (document shadowedEntries) = .ok (loadedFrom shadowedEntries) := rfl
  have foundTangled : Entries.field? [(.text definitionsKey, .mapping tangledEntries)]
      definitionsKey = some (.mapping tangledEntries) := rfl
  have foundShadowed : Entries.field? [(.text definitionsKey, .mapping shadowedEntries)]
      definitionsKey = some (.mapping shadowedEntries) := rfl
  have last : lastEntries shadowedEntries = [(.text "1", .mapping [])] := by
    rw [lastEntries, shadowedEntries, List.pwFilter_cons_of_neg (by decide)]
    rfl
  have accounted := (load_accounts foundShadowed shadowed).1
  rw [last] at accounted
  exact ⟨tangled, (load_accounts foundTangled tangled).2.2.mpr (by decide), shadowed, accounted⟩

/-- A malformed definition can disappear without a word, though no two keys of the document are the
same: the definition of the number one gives way to that of the text. -/
theorem definition_lost :
    let loaded := loadedFrom shadowedEntries
    KeysDistinct (Entries.keys shadowedEntries) ∧
      load .lenient (.mapping [(.text definitionsKey, .mapping shadowedEntries)]) = .ok loaded ∧
      shadowedEntries.length = 2 ∧ loaded.catalogue.names = ["1"] ∧ loaded.rejections = [] ∧
      ¬ AreAccountedFor shadowedEntries loaded := by
  intro loaded
  refine ⟨by decide, rfl, rfl, rfl, rfl, fun accounted => ?_⟩
  have two : 1 = 2 := accounted.length
  contradiction

end Catalogue

end Accolade
