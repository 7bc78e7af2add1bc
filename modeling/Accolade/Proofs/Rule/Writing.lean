import Accolade.Proofs.Rule.AmountText
import Accolade.Proofs.Rule.Grammar

/-!
# Writing definitions

Most trees have a definition. A condition has one if its parameters are named and its combinators
have children; all of some conditions are asked for by a list alone, and only beside an event. A
requirement has one if its facts are named, its amount tests can be written, its combinators have
children, and the conditions of its events are such lists and not empty.

The definition of a tree that can be written is read back as this tree. No reader ever makes
another one.
-/

namespace Accolade

/-- What stands at the end of a relation of lists is related to something in the first. -/
theorem exists_of_forall₂ {α β : Type} {R : α → β → Prop} {items : List α} {results : List β}
    (each : List.Forall₂ R items results) {result : β} (member : result ∈ results) :
    ∃ item ∈ items, R item result := by
  induction each with
  | nil => contradiction
  | cons here _ inductionHypothesis =>
    rcases List.mem_cons.mp member with rfl | later
    · exact ⟨_, List.mem_cons_self, here⟩
    · obtain ⟨item, inside, related⟩ := inductionHypothesis later
      exact ⟨item, List.mem_cons_of_mem _ inside, related⟩

namespace Condition

/-- Whether a condition can be written: its parameters are named, and its combinators have
children. -/
inductive IsWritable : Condition → Prop
  | parameter {name : String} {value : Value} (filled : name ≠ "") :
      IsWritable (.parameter name value)
  | combined {combinator : Combinator} {children : List Condition} (filled : children ≠ [])
      (each : ∀ child ∈ children, IsWritable child) : IsWritable (combine combinator children)

mutual

/-- The definition of a condition. -/
def definition : Condition → Value
  | .parameter name value => .mapping [(.text "parameter", .text name), (.text "value", value)]
  | .anyOf children => .mapping [(.text Combinator.anyOf.key, .list (definitions children))]
  | .oneOf children => .mapping [(.text Combinator.oneOf.key, .list (definitions children))]
  | .allOf children => .list (definitions children)

/-- The definitions of some conditions. -/
def definitions : List Condition → List Value
  | [] => []
  | child :: rest => definition child :: definitions rest

end

/-- Conditions are defined one by one. -/
theorem definitions_eq (children : List Condition) :
    definitions children = children.map definition := by
  induction children with
  | nil => rfl
  | cons child rest inductionHypothesis =>
    simp only [definitions, inductionHypothesis, List.map_cons]

/-- A combinator is defined by a mapping of its key to the definitions of its children. -/
theorem definition_combine (combinator : Combinator) (children : List Condition) :
    (combine combinator children).definition =
      .mapping [(.text combinator.key, .list (children.map definition))] := by
  rw [← definitions_eq]
  cases combinator <;> rfl

/-- The definition of a condition that can be written defines it. -/
theorem written_definition {condition : Condition} (writable : condition.IsWritable) :
    Written condition.definition condition := by
  induction writable with
  | parameter filled =>
    exact .parameter (fun key => by simp [Entries.keys]) (by simp [Entries.field?, Entries.find?])
      filled (by simp [Entries.field?, Entries.find?])
  | @combined combinator children filled each inductionHypothesis =>
    have listed : Entries.field? [(.text combinator.key, .list (children.map definition))]
        combinator.key = some (.list (children.map definition)) := by
      simp [Entries.field?, Entries.find?]
    rw [definition_combine]
    exact .combined (fun key => by simp [Entries.keys]) listed (by simpa using filled)
      (List.forall₂_map_left_iff.mpr (List.forall₂_same.mpr inductionHypothesis))

/-- A condition that is defined can be written. -/
theorem isWritable_of_written (value : Value) :
    ∀ condition, Written value condition → condition.IsWritable := by
  induction value using Value.induction_under with
  | step value inductionHypothesis =>
  intro condition written
  cases written with
  | parameter keys named filled valued => exact .parameter filled
  | @combined entries combinator items children keys listed filled each =>
    refine .combined ?_ fun child member => ?_
    · rintro rfl
      exact filled (List.forall₂_nil_right_iff.mp each)
    · obtain ⟨item, inside, written⟩ := exists_of_forall₂ each member
      exact inductionHypothesis entries _ items rfl listed item inside child written

end Condition

namespace Requirement

/-- Whether the conditions of an event can be written: there are none, or all of some are asked for
that can be written, and at least one. -/
def AreWritable (conditions : Option Condition) : Prop :=
  ∀ condition, conditions = some condition → ∃ children, condition = .allOf children ∧
    children ≠ [] ∧ ∀ child ∈ children, child.IsWritable

/-- Whether a requirement can be written: its facts are named, its amount tests and conditions can
be written, and its combinators have children. -/
inductive IsWritable : Requirement → Prop
  | achievement {name : String} {amount : AmountTest} (filled : name ≠ "")
      (writable : amount.IsWritable) : IsWritable (.achievement name amount)
  | experience {name : String} {amount : AmountTest} (filled : name ≠ "")
      (writable : amount.IsWritable) : IsWritable (.experience name amount)
  | event {name : String} {amount : AmountTest} {conditions : Option Condition}
      (filled : name ≠ "") (writable : amount.IsWritable) (areWritable : AreWritable conditions) :
      IsWritable (.event name amount conditions)
  | combined {combinator : Combinator} {children : List Requirement} (filled : children ≠ [])
      (each : ∀ child ∈ children, IsWritable child) : IsWritable (combine combinator children)

/-- The entries that define a fact and the amount asked for, beside others. -/
def factEntries (kind : FactKind) (name : String) (amount : AmountTest) (beside : Entries) :
    Entries :=
  (.text kind.key, .text name) :: (.text "amount", amount.definition) :: beside

mutual

/-- The definition of a requirement. -/
def definition : Requirement → Value
  | .achievement name amount => .mapping (factEntries .achievement name amount [])
  | .experience name amount => .mapping (factEntries .experience name amount [])
  | .event name amount none => .mapping (factEntries .event name amount [])
  | .event name amount (some condition) =>
    .mapping (factEntries .event name amount [(.text "conditions", condition.definition)])
  | .anyOf children => .mapping [(.text Combinator.anyOf.key, .list (definitions children))]
  | .oneOf children => .mapping [(.text Combinator.oneOf.key, .list (definitions children))]
  | .allOf children => .list (definitions children)

/-- The definitions of some requirements. -/
def definitions : List Requirement → List Value
  | [] => []
  | child :: rest => definition child :: definitions rest

end

/-- Requirements are defined one by one. -/
theorem definitions_eq (children : List Requirement) :
    definitions children = children.map definition := by
  induction children with
  | nil => rfl
  | cons child rest inductionHypothesis =>
    simp only [definitions, inductionHypothesis, List.map_cons]

/-- A combinator is defined by a mapping of its key to the definitions of its children. -/
theorem definition_combine (combinator : Combinator) (children : List Requirement) :
    (combine combinator children).definition =
      .mapping [(.text combinator.key, .list (children.map definition))] := by
  rw [← definitions_eq]
  cases combinator <;> rfl

/-- Entries that define a fact do so, whatever stands beside them that may stand there. -/
theorem factWritten_entries {kind : FactKind} {name : String} {amount : AmountTest}
    (filled : name ≠ "") (writable : amount.IsWritable) {beside : Entries}
    (free : ∀ key ∈ Entries.keys beside, ∃ allowed ∈ leafKeys kind, key = .text allowed) :
    FactWritten kind (factEntries kind name amount beside) name amount where
  keys := by
    intro key member
    simp only [factEntries, Entries.keys, List.map_cons, List.mem_cons] at member
    rcases member with rfl | rfl | other
    · exact ⟨kind.key, by cases kind <;> decide, rfl⟩
    · exact ⟨"amount", by cases kind <;> decide, rfl⟩
    · exact free key other
  named := by simp [factEntries, Entries.field?, Entries.find?]
  filled := filled
  amount := by
    have found : Entries.field? (factEntries kind name amount beside) "amount" =
        some amount.definition := by
      cases kind <;> simp [factEntries, Entries.field?, Entries.find?, FactKind.key]
    rw [found]
    exact .given (AmountTest.read_definition writable)

/-- The definition of a requirement that can be written defines it. -/
theorem written_definition {requirement : Requirement} (writable : requirement.IsWritable) :
    Written requirement.definition requirement := by
  induction writable with
  | achievement filled writable =>
    exact .achievement (factWritten_entries filled writable (by simp [Entries.keys]))
  | experience filled writable =>
    exact .experience (factWritten_entries filled writable (by simp [Entries.keys]))
  | @event name amount conditions filled writable areWritable =>
    cases conditions with
    | none =>
      refine .event (factWritten_entries filled writable (by simp [Entries.keys])) ?_
      simp only [factEntries, Entries.field?, Entries.find?, Scalar.same_texts]
      exact .absent
    | some condition =>
      obtain ⟨children, rfl, something, each⟩ := areWritable condition rfl
      refine .event (factWritten_entries filled writable
        (by simp [Entries.keys, leafKeys])) ?_
      simp only [factEntries, Entries.field?, Entries.find?, Scalar.same_texts, FactKind.key,
        Condition.definition, Condition.definitions_eq]
      refine .listed (by simpa using something) ?_
      exact List.forall₂_map_left_iff.mpr
        (List.forall₂_same.mpr fun child member => Condition.written_definition (each child member))
  | @combined combinator children filled each inductionHypothesis =>
    have listed : Entries.field? [(.text combinator.key, .list (children.map definition))]
        combinator.key = some (.list (children.map definition)) := by
      simp [Entries.field?, Entries.find?]
    rw [definition_combine]
    exact .combined (fun key => by simp [Entries.keys]) listed (by simpa using filled)
      (List.forall₂_map_left_iff.mpr (List.forall₂_same.mpr inductionHypothesis))

/-- A fact that is defined has an amount test that can be written. -/
theorem FactWritten.isWritable {kind : FactKind} {entries : Entries} {name : String}
    {amount : AmountTest} (fact : FactWritten kind entries name amount) : amount.IsWritable := by
  have written := fact.amount
  generalize Entries.field? entries "amount" = given at written
  cases written with
  | absent => exact .inl rfl
  | given reads => exact AmountTest.isWritable_of_read reads

/-- Conditions that are defined can be written. -/
theorem areWritable_of_written {given : Option Value} {conditions : Option Condition}
    (written : ConditionsWritten given conditions) : AreWritable conditions := by
  rintro condition rfl
  cases written with
  | @listed items children filled each =>
    refine ⟨children, rfl, ?_, fun child member => ?_⟩
    · rintro rfl
      exact filled (List.forall₂_nil_right_iff.mp each)
    · obtain ⟨item, _, written⟩ := exists_of_forall₂ each member
      exact Condition.isWritable_of_written item child written

/-- A requirement that is defined can be written. -/
theorem isWritable_of_written (value : Value) :
    ∀ requirement, Written value requirement → requirement.IsWritable := by
  induction value using Value.induction_under with
  | step value inductionHypothesis =>
  intro requirement written
  cases written with
  | achievement fact => exact .achievement fact.filled fact.isWritable
  | experience fact => exact .experience fact.filled fact.isWritable
  | event fact asked => exact .event fact.filled fact.isWritable (areWritable_of_written asked)
  | @combined entries combinator items children keys listed filled each =>
    refine .combined ?_ fun child member => ?_
    · rintro rfl
      exact filled (List.forall₂_nil_right_iff.mp each)
    · obtain ⟨item, inside, written⟩ := exists_of_forall₂ each member
      exact inductionHypothesis entries _ items rfl listed item inside child written

/-- Readers accept exactly the grammar and make the tree that it tells. What they make is exactly
the trees that can be written, each of which is read back from its definition. -/
theorem read_grammar :
    (∀ value condition,
      Condition.read value = .ok condition ↔ Condition.Written value condition) ∧
    (∀ value requirement, read value = .ok requirement ↔ Written value requirement) ∧
    ∀ requirement : Requirement,
      (requirement.IsWritable ↔ ∃ value, read value = .ok requirement) ∧
      (requirement.IsWritable ↔ read requirement.definition = .ok requirement) := by
  refine ⟨Condition.read_ok_iff, read_ok_iff, fun requirement => ?_⟩
  have back : requirement.IsWritable → read requirement.definition = .ok requirement :=
    fun writable => (read_ok_iff _ _).mpr (written_definition writable)
  have made : ∀ value, read value = .ok requirement → requirement.IsWritable :=
    fun value reads => isWritable_of_written value _ ((read_ok_iff _ _).mp reads)
  exact ⟨⟨fun writable => ⟨_, back writable⟩, fun ⟨value, reads⟩ => made value reads⟩,
    back, made _⟩

/-- Amounts may be left out or stand among blanks, and an empty list of conditions is none. -/
example : read (.mapping [(.text "OneOf", .list [
      .mapping [(.text "event", .text "login"), (.text "amount", .text " >=  2 "),
        (.text "conditions", .list [])],
      .mapping [(.text "xp", .text "Chat")]])]) =
    .ok (.oneOf [.event "login" (.atLeast 2) none, .experience "Chat" (.atLeast 1)]) :=
  rfl

end Requirement

end Accolade
