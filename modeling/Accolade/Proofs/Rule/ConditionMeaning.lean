import Accolade.Proofs.Document.Sameness
import Accolade.Rule.Condition

/-!
# What conditions mean and what they read

The meaning of a condition is given by that of its children, node by node: a parameter is there and
strictly the same as the value, some child holds, exactly one child does, all of them do. A child is
a place in the list of children, so a condition that stands there twice holds twice. These laws
have one solution, and it is what evaluation comes to.

A condition reads its parameters only. Attributes that agree on these, in what they hold and in what
they do not, satisfy it alike, and a new attribute makes a difference only if it is one of them.
-/

namespace Accolade

namespace Entries

/-- Storing a value under a key changes nothing about the other keys. -/
theorem find?_put_of_apart (entries : Entries) {key other : Scalar}
    (apart : key.same other = false) (value : Value) :
    find? (put entries key value) other = find? entries other := by
  rw [find?_put, apart, if_neg Bool.false_ne_true]

/-- Storing a value under a name changes nothing about the other names. -/
theorem field?_putField_of_ne (entries : Entries) {name other : String} (different : name ≠ other)
    (value : Value) : field? (putField entries name value) other = field? entries other :=
  find?_put_of_apart entries (by simp [different]) value

end Entries

/-- One member of a list passes a test when it does so at one place and no other does. -/
theorem countP_eq_one_iff {Item : Type} (test : Item → Bool) (items : List Item) :
    items.countP test = 1 ↔
      ∃ before item after, items = before ++ item :: after ∧ test item = true ∧
        ∀ other ∈ before ++ after, ¬ test other = true := by
  rw [List.countP_eq_length_filter, List.length_eq_one_iff]
  simp only [List.filter_eq_cons_iff, List.filter_eq_nil_iff, List.mem_append]
  constructor
  · rintro ⟨item, before, after, split, none, passes, further⟩
    exact ⟨before, item, after, split, passes, fun other member => member.elim (none other)
      (further other)⟩
  · rintro ⟨before, item, after, split, passes, others⟩
    exact ⟨item, before, after, split, fun other member => others other (.inl member), passes,
      fun other member => others other (.inr member)⟩

namespace Condition

/-- The laws of what conditions mean for the attributes of an event. -/
structure IsMeaning (attributes : Entries) (means : Condition → Prop) : Prop where
  parameter : ∀ name value, means (.parameter name value) ↔
    ∃ actual, Entries.field? attributes name = some actual ∧ actual.strictlySame value = true
  anyOf : ∀ children, means (.anyOf children) ↔ ∃ child ∈ children, means child
  oneOf : ∀ children, means (.oneOf children) ↔
    ∃ before child after, children = before ++ child :: after ∧ means child ∧
      ∀ other ∈ before ++ after, ¬ means other
  allOf : ∀ children, means (.allOf children) ↔ ∀ child ∈ children, means child

section Lists

variable (attributes : Entries) (children : List Condition)

/-- Some condition of a list holds when a member does. -/
theorem someHolds_eq_any : someHolds attributes children = children.any (holds attributes) := by
  induction children with
  | nil => rfl
  | cons child rest inductionHypothesis => rw [someHolds, inductionHypothesis, List.any_cons]

/-- All conditions of a list hold when all members do. -/
theorem allHold_eq_all : allHold attributes children = children.all (holds attributes) := by
  induction children with
  | nil => rfl
  | cons child rest inductionHypothesis => rw [allHold, inductionHypothesis, List.all_cons]

/-- The number of conditions of a list that hold is the number of its members that do. -/
theorem countHolding_eq_countP :
    countHolding attributes children = children.countP (holds attributes) := by
  induction children with
  | nil => rfl
  | cons child rest inductionHypothesis =>
    rw [countHolding, inductionHypothesis, List.countP_cons, Nat.add_comm]

/-- The parameters of a list of conditions are those of its members. -/
theorem parametersOf_eq : parametersOf children = children.flatMap parameters := by
  induction children with
  | nil => rfl
  | cons child rest inductionHypothesis => rw [parametersOf, inductionHypothesis, List.flatMap_cons]

end Lists

/-- Evaluation obeys the laws of meaning: it satisfies the equation of every form of condition. -/
theorem holds_isMeaning (attributes : Entries) :
    IsMeaning attributes fun condition => condition.holds attributes = true where
  parameter name value := by
    rw [holds]
    cases Entries.field? attributes name <;> simp
  anyOf children := by rw [holds, someHolds_eq_any, List.any_eq_true]
  oneOf children := by
    rw [holds, countHolding_eq_countP, beq_iff_eq, countP_eq_one_iff]
  allOf children := by rw [holds, allHold_eq_all, List.all_eq_true]

/-- Where two meanings agree on the children of a node, one child alone has the one exactly when one
alone has the other. -/
theorem exactlyOne_congr {first second : Condition → Prop} {children : List Condition}
    (agree : ∀ child ∈ children, first child ↔ second child)
    (one : ∃ before child after, children = before ++ child :: after ∧ first child ∧
      ∀ other ∈ before ++ after, ¬ first other) :
    ∃ before child after, children = before ++ child :: after ∧ second child ∧
      ∀ other ∈ before ++ after, ¬ second other := by
  obtain ⟨before, child, after, rfl, held, others⟩ := one
  refine ⟨before, child, after, rfl, (agree child (by simp)).mp held, ?_⟩
  intro other member holds
  refine others other member ((agree other ?_).mpr holds)
  rcases List.mem_append.mp member with early | late
  · exact List.mem_append_left _ early
  · exact List.mem_append_right _ (List.mem_cons_of_mem _ late)

mutual

/-- The laws have one solution. The induction follows the condition. -/
theorem IsMeaning.unique {attributes : Entries} {first second : Condition → Prop}
    (one : IsMeaning attributes first) (other : IsMeaning attributes second) :
    ∀ condition, first condition ↔ second condition
  | .parameter name value => by rw [one.parameter, other.parameter]
  | .anyOf children => by
    rw [one.anyOf, other.anyOf]
    exact exists_congr fun child => and_congr_right fun member =>
      IsMeaning.unique_all one other children child member
  | .oneOf children => by
    have agree := IsMeaning.unique_all one other children
    rw [one.oneOf, other.oneOf]
    exact ⟨exactlyOne_congr agree, exactlyOne_congr fun child member => (agree child member).symm⟩
  | .allOf children => by
    rw [one.allOf, other.allOf]
    exact forall_congr' fun child => forall_congr' fun member =>
      IsMeaning.unique_all one other children child member

/-- The equations of the meaning have one solution for the members of a list: two meanings agree on
each of them. -/
theorem IsMeaning.unique_all {attributes : Entries} {first second : Condition → Prop}
    (one : IsMeaning attributes first) (other : IsMeaning attributes second) :
    ∀ children : List Condition, ∀ child ∈ children, first child ↔ second child
  | [] => by simp
  | head :: rest =>
    List.forall_mem_cons.mpr
      ⟨IsMeaning.unique one other head, IsMeaning.unique_all one other rest⟩

end

mutual

/-- Attributes that agree on the parameters of a condition satisfy it alike. -/
theorem holds_congr {first second : Entries} : ∀ condition : Condition,
    (∀ name ∈ condition.parameters,
      Entries.field? first name = Entries.field? second name) →
    condition.holds first = condition.holds second
  | .parameter name value => by
    intro agree
    rw [holds, holds, agree name (by simp [parameters])]
  | .anyOf children => by
    intro agree
    have alike := holds_congr_all children agree
    rw [Bool.eq_iff_iff, (holds_isMeaning first).anyOf, (holds_isMeaning second).anyOf]
    exact exists_congr fun child => and_congr_right fun member => by rw [alike child member]
  | .oneOf children => by
    intro agree
    have alike := holds_congr_all children agree
    rw [holds, holds, countHolding_eq_countP, countHolding_eq_countP,
      List.countP_congr fun child member => by rw [alike child member]]
  | .allOf children => by
    intro agree
    have alike := holds_congr_all children agree
    rw [Bool.eq_iff_iff, (holds_isMeaning first).allOf, (holds_isMeaning second).allOf]
    exact forall_congr' fun child => forall_congr' fun member => by rw [alike child member]

/-- Attributes that agree on the parameters of a list of conditions satisfy each of them alike. -/
theorem holds_congr_all {first second : Entries} : ∀ children : List Condition,
    (∀ name ∈ parametersOf children,
      Entries.field? first name = Entries.field? second name) →
    ∀ child ∈ children, child.holds first = child.holds second
  | [] => by simp
  | head :: rest => by
    intro agree
    refine List.forall_mem_cons.mpr ⟨holds_congr head ?_, holds_congr_all rest ?_⟩
    · exact fun name member => agree name (List.mem_append_left _ member)
    · exact fun name member => agree name (List.mem_append_right _ member)

end

/-- Evaluation of a condition reads the parameters of the condition and nothing else. Attributes
that agree on them satisfy it alike. It comes to the meaning that the laws give it, and no other
meaning obeys them. And storing an attribute makes a difference only if the condition reads it,
whether or not it was there before. -/
theorem holds_readsParameters :
    (∀ (condition : Condition) (first second : Entries),
      (∀ name ∈ condition.parameters,
        Entries.field? first name = Entries.field? second name) →
      condition.holds first = condition.holds second) ∧
    (∀ attributes : Entries,
      IsMeaning attributes (fun condition => condition.holds attributes = true) ∧
      ∀ means, IsMeaning attributes means →
        ∀ condition : Condition, condition.holds attributes = true ↔ means condition) ∧
    ∀ (condition : Condition) (attributes : Entries) (name : String) (value : Value),
      condition.holds (Entries.putField attributes name value) ≠ condition.holds attributes →
        name ∈ condition.parameters := by
  refine ⟨fun condition first second => holds_congr condition, fun attributes =>
    ⟨holds_isMeaning attributes, fun means laws => (holds_isMeaning attributes).unique laws⟩, ?_⟩
  intro condition attributes name value differ
  by_cases read : name ∈ condition.parameters
  · exact read
  · refine absurd (holds_congr condition fun other member => ?_) differ
    have different : name ≠ other := fun same => read (same ▸ member)
    exact Entries.field?_putField_of_ne attributes different value

/-- Exactly one of two things: a gold customer, or some customer with a flag set. -/
def goldOrFlagged : Condition :=
  .oneOf [.parameter "tier" (.text "gold"),
    .anyOf [.parameter "vip" (.boolean true), .parameter "staff" .null]]

/-- A customer of that tier with a note and one without satisfy it alike. A flag undoes this, and so
does a null one, which is not the same as none. -/
theorem goldOrFlagged_reads :
    let plain : Entries := [(.text "tier", .text "gold")]
    let noted : Entries := [(.text "note", .integer 7), (.text "tier", .text "gold")]
    goldOrFlagged.holds plain = true ∧ goldOrFlagged.holds noted = goldOrFlagged.holds plain ∧
      goldOrFlagged.holds (Entries.putField plain "staff" .null) = false ∧
      "staff" ∈ goldOrFlagged.parameters := by
  intro plain noted
  refine ⟨rfl, holds_readsParameters.1 _ _ _ ?_, rfl,
    holds_readsParameters.2.2 goldOrFlagged plain "staff" .null (by decide)⟩
  intro name member
  have one : name = "tier" ∨ name = "vip" ∨ name = "staff" := by
    simpa [goldOrFlagged, parameters, parametersOf] using member
  rcases one with rfl | rfl | rfl <;> rfl

end Condition

end Accolade
