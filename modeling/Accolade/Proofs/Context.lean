import Accolade.Context
import Accolade.Fact.Ledger
import Accolade.Proofs.Document.KeyOrder
import Accolade.Proofs.Document.Sameness

/-!
# Scope values and queries

The values of a scope are one entry for each of its keys, with the attribute under that
key. A query has these entries too, except that its entry `name` always speaks of the name
asked for. So a fact matches a query when it has that name and its own scope values equal
the attributes under every other key of the scope. Reading, awarding and retracting all
come down to this one condition.

Keys that are texts can always be put in order. A context with textual attributes
therefore fails for want of a scope key with a diagnosis and in no other way.
-/

namespace Accolade

namespace Entries

/-- Storing a value under a text changes the entry of that text and no other.

Proof: induction on the entries. The first entry of the text is replaced, and as keys are distinct
no other has it. -/
theorem mem_put_text {entries : Entries} (distinct : KeysDistinct (keys entries)) (name : String)
    (value : Value) (entry : Scalar × Value) :
    entry ∈ put entries (.text name) value ↔
      entry = (.text name, value) ∨ (entry ∈ entries ∧ entry.1 ≠ .text name) := by
  induction entries with
  | nil => simp [put]
  | cons first rest inductionHypothesis =>
    obtain ⟨held, stored⟩ := first
    obtain ⟨apart, restDistinct⟩ := List.pairwise_cons.mp distinct
    by_cases equal : held.same (.text name) = true
    · have named : held = .text name := (Scalar.same_text_iff held name).mp equal
      subst named
      have absent : ∀ other ∈ rest, other.1 ≠ .text name := by
        intro other member same
        have clash := apart other.1 (List.mem_map.mpr ⟨other, member, rfl⟩)
        simp [same] at clash
      simp only [put, equal, if_true, List.mem_cons]
      constructor
      · rintro (rfl | member)
        · exact .inl rfl
        · exact .inr ⟨.inr member, absent entry member⟩
      · rintro (rfl | ⟨rfl | member, different⟩)
        · exact .inl rfl
        · exact absurd rfl different
        · exact .inr member
    · have different : held ≠ .text name :=
        fun named => equal ((Scalar.same_text_iff held name).mpr named)
      simp only [put, equal, Bool.false_eq_true, if_false, List.mem_cons,
        inductionHypothesis restDistinct]
      constructor
      · rintro (rfl | rfl | ⟨member, other⟩)
        · exact .inr ⟨.inl rfl, different⟩
        · exact .inl rfl
        · exact .inr ⟨.inr member, other⟩
      · rintro (rfl | ⟨rfl | member, other⟩)
        · exact .inr (.inl rfl)
        · exact .inl rfl
        · exact .inr (.inr ⟨member, other⟩)

/-- Storing a value keeps the keys distinct. -/
theorem put_distinct {entries : Entries} (distinct : KeysDistinct (keys entries)) (key : Scalar)
    (value : Value) : KeysDistinct (keys (put entries key value)) := by
  induction entries with
  | nil => simp [put, keys, KeysDistinct]
  | cons first rest inductionHypothesis =>
    obtain ⟨held, stored⟩ := first
    obtain ⟨apart, restDistinct⟩ := List.pairwise_cons.mp distinct
    by_cases equal : held.same key = true
    · have unchanged : keys (put ((held, stored) :: rest) key value) =
          keys ((held, stored) :: rest) := by simp [put, equal, keys]
      exact unchanged ▸ distinct
    · have among : ∀ other ∈ keys (put rest key value), other = key ∨ other ∈ keys rest := by
        clear inductionHypothesis restDistinct apart distinct
        induction rest with
        | nil => simp [put, keys]
        | cons next further deeper =>
          intro other member
          by_cases here : next.1.same key = true
          · exact .inr (by simpa [put, here, keys] using member)
          · simp only [put, here, Bool.false_eq_true, if_false, keys, List.map_cons,
              List.mem_cons] at member ⊢
            rcases member with rfl | later
            · exact .inr (.inl rfl)
            · exact (deeper other later).imp id .inr
      simp only [put, equal, Bool.false_eq_true, if_false]
      refine List.pairwise_cons.mpr ⟨?_, inductionHypothesis restDistinct⟩
      intro other member
      rcases among other member with rfl | old
      · simpa using equal
      · exact apart other old

/-- What holds of all keys and values holds of them after storing a value. -/
theorem forall_put {K : Scalar → Prop} {V : Value → Prop} {entries : Entries}
    (each : ∀ entry ∈ entries, K entry.1 ∧ V entry.2) {key : Scalar} {value : Value}
    (ofKey : K key) (ofValue : V value) :
    ∀ entry ∈ put entries key value, K entry.1 ∧ V entry.2 := by
  induction entries with
  | nil => simp [put, ofKey, ofValue]
  | cons first rest inductionHypothesis =>
    obtain ⟨here, further⟩ := List.forall_mem_cons.mp each
    by_cases equal : first.1.same key = true
    · simp only [put, equal, if_true]
      exact List.forall_mem_cons.mpr ⟨⟨here.1, ofValue⟩, further⟩
    · simp only [put, equal, Bool.false_eq_true, if_false]
      exact List.forall_mem_cons.mpr ⟨here, inductionHypothesis further⟩

/-- What holds of the keys and the values of entries, and of those of additions, holds after storing
all of the additions. -/
theorem forall_merge {K : Scalar → Prop} {V : Value → Prop} {entries additions : Entries}
    (each : ∀ entry ∈ entries, K entry.1 ∧ V entry.2)
    (added : ∀ entry ∈ additions, K entry.1 ∧ V entry.2) :
    ∀ entry ∈ merge entries additions, K entry.1 ∧ V entry.2 := by
  induction additions generalizing entries with
  | nil => exact each
  | cons first rest inductionHypothesis =>
    obtain ⟨⟨ofKey, ofValue⟩, further⟩ := List.forall_mem_cons.mp added
    exact inductionHypothesis (forall_put each ofKey ofValue) further

/-- Which keys there are after storing a value depends on nothing but keys. -/
theorem keys_put_congr {first second : Entries} (same : keys first = keys second) (key : Scalar)
    (value other : Value) : keys (put first key value) = keys (put second key other) := by
  induction first generalizing second with
  | nil =>
    obtain rfl : second = [] := List.map_eq_nil_iff.mp same.symm
    rfl
  | cons entry rest inductionHypothesis =>
    obtain ⟨place, stored⟩ := entry
    obtain ⟨⟨held, _⟩, further, rfl, one, restSame⟩ := List.map_eq_cons_iff.mp same.symm
    obtain rfl : held = place := one
    by_cases equal : held.same key = true
    · simp only [put, equal, if_true, keys, List.map_cons] at restSame ⊢
      rw [restSame]
    · have later := inductionHypothesis restSame.symm
      simp only [put, equal, Bool.false_eq_true, if_false, keys, List.map_cons] at later ⊢
      rw [later]

/-- Storing entries with the same keys in entries with the same keys leaves the same keys. -/
theorem keys_merge_congr {first second : Entries} (same : keys first = keys second)
    {pairs others : Entries} (alike : keys pairs = keys others) :
    keys (merge first pairs) = keys (merge second others) := by
  induction pairs generalizing first second others with
  | nil =>
    obtain rfl : others = [] := List.map_eq_nil_iff.mp alike.symm
    exact same
  | cons entry rest inductionHypothesis =>
    obtain ⟨place, stored⟩ := entry
    obtain ⟨⟨held, _⟩, further, rfl, one, restAlike⟩ := List.map_eq_cons_iff.mp alike.symm
    obtain rfl : held = place := one
    exact inductionHypothesis (keys_put_congr same _ _ _) restAlike.symm

/-- Entries stored under texts, each with the value that a function gives its text, are
found again beside the entries there were.

Proof: induction on the texts. Storing the value of the first keeps what was given, for an entry of
the same text had the same value. -/
theorem mem_merge_texts (value? : String → Option Value) (names : List String) {base : Entries}
    (distinct : KeysDistinct (keys base))
    (given : ∀ name value, (Scalar.text name, value) ∈ base → value? name = some value) :
    let merged := merge base
      (names.filterMap fun name => (value? name).map fun value => (Scalar.text name, value))
    KeysDistinct (keys merged) ∧ ∀ entry, entry ∈ merged ↔
      entry ∈ base ∨
        ∃ name ∈ names, ∃ value, value? name = some value ∧ entry = (.text name, value) := by
  induction names generalizing base with
  | nil => exact ⟨distinct, by simp [merge]⟩
  | cons name rest inductionHypothesis =>
    cases known : value? name with
    | none =>
      obtain ⟨kept, members⟩ := inductionHypothesis distinct given
      simp only [List.filterMap_cons, known, Option.map_none]
      refine ⟨kept, fun entry => (members entry).trans ?_⟩
      simp [known]
    | some value =>
      have next : ∀ other stored, (Scalar.text other, stored) ∈ put base (.text name) value →
          value? other = some stored := by
        intro other stored member
        rcases (mem_put_text distinct name value _).mp member with fresh | ⟨old, _⟩
        · simp only [Prod.mk.injEq, Scalar.text.injEq] at fresh
          obtain ⟨rfl, rfl⟩ := fresh
          exact known
        · exact given other stored old
      obtain ⟨kept, members⟩ := inductionHypothesis (put_distinct distinct (.text name) value) next
      simp only [List.filterMap_cons, known, Option.map_some]
      refine ⟨kept, fun entry => (members entry).trans ?_⟩
      rw [mem_put_text distinct name value entry]
      constructor
      · rintro ((rfl | ⟨old, _⟩) | ⟨other, member, stored, found, rfl⟩)
        · exact .inr ⟨name, List.mem_cons_self, value, known, rfl⟩
        · exact .inl old
        · exact .inr ⟨other, List.mem_cons_of_mem name member, stored, found, rfl⟩
      · rintro (old | ⟨other, member, stored, found, rfl⟩)
        · by_cases same : entry.1 = .text name
          · obtain ⟨held, stored⟩ := entry
            subst same
            have one : stored = value := Option.some.inj ((given name stored old).symm.trans known)
            exact .inl (.inl (by rw [one]))
          · exact .inl (.inr ⟨old, same⟩)
        · rcases List.mem_cons.mp member with rfl | later
          · have one : stored = value := Option.some.inj (found.symm.trans known)
            exact .inl (.inl (by rw [one]))
          · exact .inr ⟨other, later, stored, found, rfl⟩

end Entries

namespace Context

/-- Whether every key of the scope is an attribute. -/
def Resolves (context : Context) : Prop :=
  ∀ key ∈ context.scope, Entries.hasField context.attributes key = true

instance (context : Context) : Decidable context.Resolves :=
  inferInstanceAs (Decidable (∀ key ∈ context.scope, _))

/-- The scope values are one entry for each key of the scope that is an attribute. -/
theorem boundValues_entries (context : Context) :
    KeysDistinct (Entries.keys context.boundValues) ∧ ∀ entry, entry ∈ context.boundValues ↔
      ∃ key ∈ context.scope, ∃ value,
        Entries.field? context.attributes key = some value ∧ entry = (.text key, value) := by
  have empty : KeysDistinct (Entries.keys []) := .nil
  obtain ⟨distinct, members⟩ := Entries.mem_merge_texts (Entries.field? context.attributes)
    context.scope empty (by intro name value member; contradiction)
  refine ⟨distinct, fun entry => (members entry).trans ?_⟩
  simp

/-- The keys of the scope values of two contexts that resolve are the same, if their scopes are. -/
theorem keys_boundValues {context other : Context} (resolves : context.Resolves)
    (resolvesToo : other.Resolves) (scopes : context.scope = other.scope) :
    Entries.keys context.boundValues = Entries.keys other.boundValues := by
  have listed : ∀ attributes : Entries, ∀ scope : List String,
      (∀ key ∈ scope, Entries.hasField attributes key = true) →
      Entries.keys (scope.filterMap fun key =>
        (Entries.field? attributes key).map fun value => (Scalar.text key, value)) =
        scope.map Scalar.text := by
    intro attributes scope present
    induction scope with
    | nil => rfl
    | cons key rest inductionHypothesis =>
      obtain ⟨here, further⟩ := List.forall_mem_cons.mp present
      obtain ⟨value, found⟩ := Option.isSome_iff_exists.mp here
      have given : Entries.field? attributes key = some value := found
      have later := inductionHypothesis further
      simp only [Entries.keys] at later
      simp only [List.filterMap_cons, given, Option.map_some, Entries.keys, List.map_cons, later]
  refine Entries.keys_merge_congr rfl ?_
  rw [listed _ _ resolves, listed _ _ resolvesToo, scopes]

/-- The scope values exist exactly when every key of the scope resolves, and are then the values
bound to the keys. -/
theorem scopeValues_eq_ok_iff (context : Context) (values : Entries) :
    context.scopeValues = .ok values ↔ context.Resolves ∧ values = context.boundValues := by
  have missing : context.missingKeys.isEmpty = true ↔ context.Resolves := by
    simp [missingKeys, Resolves]
  unfold scopeValues
  split
  · rename_i nothing
    simp [missing.mp nothing, eq_comm]
  · rename_i something
    have unresolved : ¬ context.Resolves := fun resolves => something (missing.mpr resolves)
    simp [unresolved]

/-- A scope that resolves has the values bound to its keys. -/
theorem scopeValues_of_resolves {context : Context} (resolves : context.Resolves) :
    context.scopeValues = .ok context.boundValues :=
  (scopeValues_eq_ok_iff context _).mpr ⟨resolves, rfl⟩

/-- The scope values hold the attribute under each key of the scope, and nothing else. -/
theorem field?_boundValues_iff (context : Context) (key : String) (value : Value) :
    Entries.field? context.boundValues key = some value ↔
      key ∈ context.scope ∧ Entries.field? context.attributes key = some value := by
  constructor
  · intro found
    obtain ⟨held, member, same⟩ := Entries.mem_of_find found
    obtain ⟨other, inside, stored, present, equal⟩ :=
      (context.boundValues_entries.2 (held, value)).mp member
    obtain ⟨rfl, rfl⟩ := Prod.mk.inj equal
    have one : other = key := of_decide_eq_true ((Scalar.same_texts other key).symm.trans same)
    exact ⟨one ▸ inside, one ▸ present⟩
  · rintro ⟨inside, found⟩
    exact Entries.find_of_mem context.boundValues_entries.1
      ((context.boundValues_entries.2 _).mpr ⟨key, inside, value, found, rfl⟩) (by simp)

/-- What the scope values hold under a key is the attribute under that key. -/
theorem field?_boundValues {context : Context} {key : String} {value : Value}
    (found : Entries.field? context.boundValues key = some value) :
    Entries.field? context.attributes key = some value :=
  ((context.field?_boundValues_iff key value).mp found).2

/-- The attribute under a key of the scope is among the scope values. -/
theorem field?_boundValues_of_mem {context : Context} {key : String} {value : Value}
    (inside : key ∈ context.scope) (found : Entries.field? context.attributes key = some value) :
    Entries.field? context.boundValues key = some value :=
  (context.field?_boundValues_iff key value).mpr ⟨inside, found⟩

/-- The scope values of proper attributes are proper. -/
theorem boundValues_proper {context : Context}
    (proper : Value.entriesProper context.attributes = true) :
    Value.entriesProper context.boundValues = true := by
  rw [Value.entriesProper_iff] at proper ⊢
  intro entry member
  obtain ⟨key, _, value, found, rfl⟩ := (context.boundValues_entries.2 entry).mp member
  obtain ⟨held, inside, _⟩ := Entries.mem_of_find found
  exact proper (held, value) inside

/-- A context without attributes of its own has the subject as its only one. -/
theorem of_nil_texts (subject : Value) (scope : List String) :
    AreTexts (Entries.keys (of subject [] scope).attributes) :=
  fun _ member => ⟨subjectKey, List.mem_singleton.mp member⟩

/-- With textual attributes, a scope that does not resolve is a configuration error. -/
theorem scopeValues_of_not_resolves {context : Context}
    (texts : AreTexts (Entries.keys context.attributes)) (unresolved : ¬ context.Resolves) :
    ∃ diagnosis : Diagnosis, diagnosis.category = .configuration ∧
      context.scopeValues = .error (.diagnosed diagnosis) := by
  cases found : context.scopeValues with
  | ok values => exact absurd ((scopeValues_eq_ok_iff context values).mp found).1 unresolved
  | error failure =>
    obtain ⟨sorted, ordered⟩ := (sortedKeys_ok_iff _).mpr texts.alike
    unfold scopeValues at found
    split at found
    · contradiction
    · simp only [missingFailure, ordered, Except.error.injEq] at found
      subst found
      exact ⟨_, rfl, rfl⟩

/-- A scope that is not empty has values that are not empty. -/
theorem boundValues_ne_nil {context : Context} (resolves : context.Resolves)
    (keyed : context.scope ≠ []) : context.boundValues ≠ [] := by
  obtain ⟨key, rest, shape⟩ := List.exists_cons_of_ne_nil keyed
  have inside : key ∈ context.scope := shape ▸ List.mem_cons_self
  obtain ⟨value, found⟩ := Option.isSome_iff_exists.mp (resolves key inside)
  exact List.ne_nil_of_mem
    ((context.boundValues_entries.2 (.text key, value)).mpr ⟨key, inside, value, found, rfl⟩)

/-- The query for a name is the one that the ledger forms from the scope values. -/
theorem queryFor_eq (context : Context) (name : String) :
    context.queryFor name = context.scopeValues.map (Ledger.queryOf (.text name)) := rfl

/-- A query that can be formed asks for the name beside the scope values; there is only one such
query. -/
theorem eq_of_queryFor {context : Context} {name : String} {query : Entries}
    (formed : context.queryFor name = .ok query) :
    query = Ledger.queryOf (.text name) context.boundValues := by
  rw [context.queryFor_eq] at formed
  cases found : context.scopeValues with
  | error failure =>
    rw [found] at formed
    contradiction
  | ok values =>
    rw [found] at formed
    obtain rfl := ((context.scopeValues_eq_ok_iff values).mp found).2
    exact (Except.ok.inj formed).symm

/-- A query has the name asked for and the scope values under the other keys. -/
theorem mem_queryOf_boundValues (context : Context) (name : String) (entry : Scalar × Value) :
    entry ∈ Ledger.queryOf (.text name) context.boundValues ↔
      entry = (.text nameKey, .text name) ∨
        ∃ key ∈ context.scope, key ≠ nameKey ∧ ∃ value,
          Entries.field? context.attributes key = some value ∧ entry = (.text key, value) := by
  obtain ⟨distinct, members⟩ := context.boundValues_entries
  refine (Entries.mem_put_text distinct nameKey (.text name) entry).trans (or_congr Iff.rfl ?_)
  rw [members entry]
  constructor
  · rintro ⟨⟨key, inside, value, found, rfl⟩, different⟩
    exact ⟨key, inside, fun same => different (same ▸ rfl), value, found, rfl⟩
  · rintro ⟨key, inside, different, value, found, rfl⟩
    exact ⟨⟨key, inside, value, found, rfl⟩, fun same => different (Scalar.text.inj same)⟩

/-- A query for a name can be written if the attributes can. -/
theorem queryOf_hasText (context : Context) (name : String)
    (written : Value.entriesHaveText context.attributes = true) :
    (Value.mapping (Ledger.queryOf (.text name) context.boundValues)).hasText = true := by
  refine (Value.entriesHaveText_iff _).mpr fun entry member => ?_
  rcases (context.mem_queryOf_boundValues name entry).mp member with
    rfl | ⟨key, _, _, value, found, rfl⟩
  · exact ⟨rfl, rfl⟩
  · obtain ⟨held, inside, _⟩ := Entries.mem_of_find found
    exact ⟨rfl, ((Value.entriesHaveText_iff _).mp written (held, value) inside).2⟩

end Context

namespace Fact

/-- Whether the scope values of a fact equal the attributes of a context under every key of
the scope but that of the name. -/
def LiesIn (fact : Fact) (context : Context) : Prop :=
  ∀ key ∈ context.scope, key ≠ nameKey → ∀ value,
    Entries.field? context.attributes key = some value →
    ∃ held, Entries.field? fact.scope key = some held ∧ held.equals value = true

/-- A fact matches a query when it has the name and lies within the scope. -/
theorem isMatch_iff (fact : Fact) (context : Context) (name : String) :
    fact.isMatch (Ledger.queryOf (.text name) context.boundValues) = true ↔
      fact.name = .text name ∧ fact.LiesIn context := by
  have named : fact.agrees (.text nameKey) (.text name) = true ↔ fact.name = .text name := by
    simp [agrees, Value.equals_text_iff]
  have bound : ∀ key, key ≠ nameKey → ∀ value, fact.agrees (.text key) value = true ↔
      ∃ held, Entries.field? fact.scope key = some held ∧ held.equals value = true := by
    intro key different value
    have own : agrees fact (.text key) value =
        ((Entries.field? fact.scope key).elim false fun held => held.equals value) := by
      simp only [agrees, Scalar.same_texts, different, decide_false, Bool.false_eq_true, if_false]
      unfold Entries.field?
      cases Entries.find? fact.scope (.text key) <;> rfl
    rw [own]
    cases Entries.field? fact.scope key <;> simp
  simp only [isMatch, List.all_eq_true, Context.mem_queryOf_boundValues]
  constructor
  · intro agreeing
    refine ⟨named.mp (agreeing (.text nameKey, .text name) (.inl rfl)), ?_⟩
    intro key inside different value found
    exact (bound key different value).mp
      (agreeing (.text key, value) (.inr ⟨key, inside, different, value, found, rfl⟩))
  · rintro ⟨called, within⟩ entry (rfl | ⟨key, inside, different, value, found, rfl⟩)
    · exact named.mpr called
    · exact (bound key different value).mpr (within key inside different value found)

end Fact

end Accolade
