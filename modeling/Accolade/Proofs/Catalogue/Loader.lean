import Accolade.Catalogue.Loader

/-!
# What loaded catalogues are

A definition stored under a name takes the place of the one before, so no name is given
twice. A rule is read under the name of its definition, and the rounds that drop dangling
rules only ever take rules out. The rules of a loaded catalogue therefore have distinct
names, in the order of the document, and each has at least one scope key and a cap of at least
one.
-/

namespace Accolade

namespace Rule

/-- Scope keys that were checked are not empty. -/
theorem checkScope_ne_nil {value : Option Value} {scope : List String}
    (checked : checkScope value = .ok scope) : scope ≠ [] := by
  have default : defaultScope ≠ [] := by decide
  unfold checkScope at checked
  split at checked
  · cases checked
    exact default
  · cases checked
    exact default
  · split at checked
    · contradiction
    · rintro rfl
      simp_all

/-- A cap that was checked is at least one. -/
theorem checkCap_positive {field : String} {value : Option Value} {cap : Int}
    (checked : checkCap field value = .ok cap) : 1 ≤ cap := by
  unfold checkCap at checked
  split at checked
  · cases checked
    decide
  · split at checked
    · contradiction
    · cases checked
      omega
  · contradiction

/-- The scope of a body that was checked is not empty, and its cap is at least one. -/
theorem checkBody_spec {entries : Entries} {body : Body}
    (checked : checkBody entries = .ok body) : body.scope ≠ [] ∧ 1 ≤ body.maxAwarded := by
  simp only [checkBody] at checked
  split at checked
  · rename_i checkedCap checkedScope _ _ _
    cases checked
    exact ⟨checkScope_ne_nil checkedScope, checkCap_positive checkedCap⟩
  · contradiction

/-- A rule that was read has the name of its definition, a scope and a cap. -/
theorem readBody_spec {name : String} {entries : Entries} {rule : Rule}
    (reading : readBody name entries = .ok rule) :
    rule.name = name ∧ rule.scope ≠ [] ∧ 1 ≤ rule.maxAwarded := by
  unfold readBody at reading
  split at reading
  · contradiction
  · rename_i body checked
    split at reading
    · contradiction
    · split at reading
      · contradiction
      · cases reading
        exact ⟨rfl, checkBody_spec checked⟩

/-- A rule read from a definition of any shape has its name, some scope, and a cap of at least one.
-/
theorem read_spec {name : String} {definition : Value} {rule : Rule}
    (reading : Rule.read name definition = .ok rule) :
    rule.name = name ∧ rule.scope ≠ [] ∧ 1 ≤ rule.maxAwarded := by
  unfold Rule.read at reading
  split at reading
  · exact readBody_spec reading
  · exact readBody_spec reading
  · contradiction

end Rule

namespace Catalogue

/-- Storing a definition adds its name at the end, unless the name is taken. -/
theorem putDefinition_names (definitions : List (String × Value)) (name : String)
    (definition : Value) :
    (putDefinition definitions name definition).map Prod.fst =
      if name ∈ definitions.map Prod.fst then definitions.map Prod.fst
      else definitions.map Prod.fst ++ [name] := by
  induction definitions with
  | nil => rfl
  | cons first rest inductionHypothesis =>
    obtain ⟨other, existing⟩ := first
    by_cases same : other = name
    · simp [putDefinition, same]
    · have apart : ¬ name = other := fun equal => same equal.symm
      simp only [putDefinition, same, if_false, List.map_cons, inductionHypothesis,
        List.mem_cons, apart, false_or]
      split <;> rfl

/-- No name has two definitions after the keys were turned to texts. -/
theorem namedDefinitions_nodup (entries : Entries) :
    ((namedDefinitions entries).map Prod.fst).Nodup := by
  have stored : ∀ (rest : Entries) (definitions : List (String × Value)),
      (definitions.map Prod.fst).Nodup →
      ((rest.foldl (fun definitions entry => putDefinition definitions entry.1.plain entry.2)
        definitions).map Prod.fst).Nodup := by
    intro rest
    induction rest with
    | nil => exact fun _ distinct => distinct
    | cons entry further inductionHypothesis =>
      intro definitions distinct
      refine inductionHypothesis _ ?_
      rw [putDefinition_names]
      split
      · exact distinct
      · rename_i fresh
        exact List.nodup_append.mpr ⟨distinct, by simp, by
          intro name old other new same
          rw [List.mem_singleton] at new
          exact fresh (new ▸ same ▸ old)⟩
  exact stored entries [] List.nodup_nil

/-- Whether all keys of a mapping can be put into words. -/
def CanBeNamed (entries : Entries) : Prop := ∀ key ∈ Entries.keys entries, key.hasText = true

instance (entries : Entries) : Decidable (CanBeNamed entries) :=
  inferInstanceAs (Decidable (∀ key ∈ Entries.keys entries, key.hasText = true))

/-- The definitions under the key for them are taken unless a key cannot be put into words. -/
theorem definitionsOf_mapping {top entries : Entries}
    (found : Entries.field? top definitionsKey = some (.mapping entries)) :
    (CanBeNamed entries → definitionsOf (.mapping top) = .ok (namedDefinitions entries)) ∧
      (¬ CanBeNamed entries → definitionsOf (.mapping top) = .error .tooLongToWrite) := by
  have checked : (Entries.keys entries).all (·.hasText) = true ↔ CanBeNamed entries :=
    List.all_eq_true
  simp only [definitionsOf, found]
  exact ⟨fun named => if_pos (checked.mpr named), fun unnamed => if_neg (mt checked.mp unnamed)⟩

/-- A document has definitions exactly when it holds a mapping under their key, and all keys of
that can be put into words. -/
theorem definitionsOf_ok_iff (document : Value) (definitions : List (String × Value)) :
    definitionsOf document = .ok definitions ↔
      ∃ top entries, document = .mapping top ∧
        Entries.field? top definitionsKey = some (.mapping entries) ∧
        CanBeNamed entries ∧ definitions = namedDefinitions entries := by
  unfold definitionsOf
  split
  · rename_i top
    split
    · rename_i entries found
      by_cases named : CanBeNamed entries
      · have checked : (Entries.keys entries).all (·.hasText) = true := List.all_eq_true.mpr named
        simp [found, checked, named, eq_comm]
      · have unchecked : ¬ (Entries.keys entries).all (·.hasText) = true :=
          fun checked => named (List.all_eq_true.mp checked)
        simp only [unchecked]
        simp [found, named]
    · rename_i other
      refine iff_of_false nofun ?_
      rintro ⟨_, entries, same, found, _⟩
      cases same
      exact other entries found
  · rename_i other
    refine iff_of_false nofun ?_
    rintro ⟨top, _, same, _⟩
    exact other top same

/-- The definitions of a document have distinct names. -/
theorem definitionsOf_nodup {document : Value} {definitions : List (String × Value)}
    (found : definitionsOf document = .ok definitions) : (definitions.map Prod.fst).Nodup := by
  obtain ⟨_, entries, _, _, _, rfl⟩ := (definitionsOf_ok_iff document definitions).mp found
  exact namedDefinitions_nodup entries

/-- The rules read from definitions have their names, in their order, and each has a scope and a
cap. -/
theorem readRules_spec {strictness : Strictness} {definitions : List (String × Value)}
    {rules : List Rule} {rejections : List Rejection}
    (reading : readRules strictness definitions = .ok (rules, rejections)) :
    (rules.map (·.name)).Sublist (definitions.map Prod.fst) ∧
      ∀ rule ∈ rules, rule.scope ≠ [] ∧ 1 ≤ rule.maxAwarded := by
  induction definitions generalizing rules rejections with
  | nil =>
    cases reading
    exact ⟨.slnil, by simp⟩
  | cons first rest inductionHypothesis =>
    obtain ⟨name, definition⟩ := first
    unfold readRules at reading
    split at reading
    · rename_i rule read
      obtain ⟨named, sound⟩ := Rule.read_spec read
      cases later : readRules strictness rest with
      | error failure => simp [later, bind, Except.bind] at reading
      | ok found =>
        simp only [later, bind, Except.bind, pure, Except.pure, Except.ok.injEq,
          Prod.mk.injEq] at reading
        obtain ⟨rfl, rfl⟩ := reading
        obtain ⟨ordered, others⟩ := inductionHypothesis later
        refine ⟨?_, List.forall_mem_cons.mpr ⟨sound, others⟩⟩
        rw [List.map_cons, List.map_cons, named]
        exact ordered.cons_cons name
    · split at reading
      · cases strictness with
        | strict => contradiction
        | lenient =>
          cases later : readRules .lenient rest with
          | error failure => simp [later, bind, Except.bind] at reading
          | ok found =>
            simp only [later, bind, Except.bind, pure, Except.pure, Except.ok.injEq,
              Prod.mk.injEq] at reading
            obtain ⟨rfl, rfl⟩ := reading
            obtain ⟨ordered, others⟩ := inductionHypothesis later
            exact ⟨ordered.cons name, others⟩
      · contradiction

/-- A round keeps some of the rules, in their order. -/
theorem sweep_sublist (kept rules : List Rule) : (sweep kept rules).1.Sublist kept := by
  fun_induction sweep kept rules with
  | case1 kept => exact List.Sublist.refl kept
  | case2 kept rule rest _ inductionHypothesis => exact inductionHypothesis
  | case3 kept rule rest fewer dropped swept _ inductionHypothesis =>
    rw [swept] at inductionHypothesis
    exact inductionHypothesis.trans List.filter_sublist

/-- All rounds together only drop rules: those that are left stand in the order in which they stood.
-/
theorem settleWithin_sublist (rounds : Nat) (rules : List Rule) :
    (settleWithin rounds rules).1.Sublist rules := by
  induction rounds generalizing rules with
  | zero => exact List.Sublist.refl rules
  | succ rounds inductionHypothesis =>
    have swept := sweep_sublist rules rules
    unfold settleWithin
    split
    · rename_i kept round
      rw [round] at swept
      exact swept
    · rename_i kept dropped _ round
      rw [round] at swept
      exact (inductionHypothesis kept).trans swept

variable {strictness : Strictness} {document : Value} {loaded : Loaded}

/-- The rules that a catalogue is loaded with were read from the definitions. -/
theorem load_rules (loading : load strictness document = .ok loaded) :
    ∃ definitions rules rejections, definitionsOf document = .ok definitions ∧
      readRules strictness definitions = .ok (rules, rejections) ∧
      loaded.catalogue.rules.Sublist rules := by
  unfold load at loading
  cases found : definitionsOf document with
  | error failure => simp [found, bind, Except.bind] at loading
  | ok definitions =>
    cases reading : readRules strictness definitions with
    | error failure => simp [found, reading, bind, Except.bind] at loading
    | ok outcome =>
      obtain ⟨rules, rejections⟩ := outcome
      refine ⟨definitions, rules, rejections, rfl, reading, ?_⟩
      have kept := settleWithin_sublist (rules.length + 1) rules
      simp only [found, reading, bind, Except.bind] at loading
      split at loading
      · contradiction
      · cases loading
        exact kept

/-- The rules of a loaded catalogue have distinct names. -/
theorem load_names_nodup (loading : load strictness document = .ok loaded) :
    loaded.catalogue.names.Nodup := by
  obtain ⟨definitions, rules, rejections, found, reading, kept⟩ := load_rules loading
  have ordered : loaded.catalogue.names.Sublist (definitions.map Prod.fst) :=
    (kept.map Rule.name).trans (readRules_spec reading).1
  exact ordered.nodup (definitionsOf_nodup found)

/-- Every rule of a loaded catalogue has a scope key. -/
theorem load_keyed (loading : load strictness document = .ok loaded) :
    ∀ rule ∈ loaded.catalogue.rules, rule.scope ≠ [] := by
  obtain ⟨definitions, rules, rejections, found, reading, kept⟩ := load_rules loading
  exact fun rule member => ((readRules_spec reading).2 rule (kept.subset member)).1

/-- Every rule of a loaded catalogue may be awarded at least once. -/
theorem load_capped (loading : load strictness document = .ok loaded) :
    ∀ rule ∈ loaded.catalogue.rules, 1 ≤ rule.maxAwarded := by
  obtain ⟨definitions, rules, rejections, found, reading, kept⟩ := load_rules loading
  exact fun rule member => ((readRules_spec reading).2 rule (kept.subset member)).2

/-- Where names are distinct, so are the rules. -/
theorem rules_nodup {catalogue : Catalogue} (distinct : catalogue.names.Nodup) :
    catalogue.rules.Nodup :=
  (List.pairwise_map.mp distinct).imp fun different same => different (congrArg Rule.name same)

/-- Where names are distinct, a rule is found by its name. -/
theorem find?_of_mem {catalogue : Catalogue} (distinct : catalogue.names.Nodup) {rule : Rule}
    (member : rule ∈ catalogue.rules) : catalogue.find? rule.name = some rule := by
  unfold find?
  unfold names at distinct
  generalize catalogue.rules = rules at distinct member
  induction rules with
  | nil => contradiction
  | cons first rest inductionHypothesis =>
    obtain ⟨absent, restDistinct⟩ := List.nodup_cons.mp distinct
    rcases List.mem_cons.mp member with rfl | later
    · simp
    · have apart : first.name ≠ rule.name :=
        fun same => absent (List.mem_map.mpr ⟨rule, later, same.symm⟩)
      simp [apart, inductionHypothesis restDistinct later]

/-- Where names are distinct, a name tells the rule. -/
theorem eq_of_name {catalogue : Catalogue} (distinct : catalogue.names.Nodup) {first second : Rule}
    (one : first ∈ catalogue.rules) (other : second ∈ catalogue.rules)
    (same : first.name = second.name) : first = second := by
  have found := find?_of_mem distinct one
  rw [same, find?_of_mem distinct other] at found
  exact (Option.some.inj found).symm

/-- A document with two rules. The second asks for an award of the first and replaces it. -/
def sampleDocument : Value :=
  .mapping [(.text "achievements", .mapping [
    (.text "Beginner", .mapping [(.text "maxAwarded", .integer 2)]),
    (.text "Expert", .mapping [
      (.text "requirements", .list [.mapping [(.text "achievement", .text "Beginner")]]),
      (.text "replaces", .list [.text "Beginner"])])])]

/-- The catalogue of the two rules. -/
def sample : Catalogue :=
  ⟨[⟨"Beginner", .allOf [], [], 2, ["user_id"], [], false⟩,
    ⟨"Expert", .allOf [.achievement "Beginner" (.atLeast 1)], ["Beginner"], 1, ["user_id"], [],
      false⟩]⟩

/-- The document is loaded as that catalogue. -/
theorem load_sample : load .strict sampleDocument = .ok ⟨sample, []⟩ := rfl

/-- A test against a threshold that is too long to be written. -/
def longTest : AmountTest := .atLeast (DecimalText.leastBeyond DecimalText.digitLimit)

/-- A document with a rule that asks for so many visits, and one that asks for nothing. -/
def busyDocument : Value :=
  .mapping [(.text "achievements", .mapping [
    (.text "Busy", .mapping [(.text "requirements", .list [.mapping
      [(.text "event", .text "visit"), (.text "amount", .integer longTest.threshold)]])]),
    (.text "Free", .mapping [])])]

/-- The rule that asks for so many visits. -/
def busyRule : Rule :=
  ⟨"Busy", .allOf [.event "visit" longTest none], [], 1, ["user_id"], [], false⟩

/-- The rule that asks for nothing. -/
def freeRule : Rule := ⟨"Free", .allOf [], [], 1, ["user_id"], [], false⟩

/-- The catalogue of these two rules. -/
def busy : Catalogue := ⟨[busyRule, freeRule]⟩

/-- A threshold that is too long to be written is loaded all the same, since a threshold may be any
integer. -/
theorem load_busy : load .strict busyDocument = .ok ⟨busy, []⟩ := rfl

end Catalogue

end Accolade
