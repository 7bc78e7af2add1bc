import Accolade.Proofs.Document.Sameness
import Accolade.Proofs.Rule.Undiagnosed
import Mathlib.Data.List.Forall2
import Mathlib.Data.List.Nodup

/-!
# The grammar of definitions

Which values define a condition or a requirement, and which one, is said here without regard to
the order in which a reader looks at them. A mapping is told by its keys. Those of a parameter, of
its value or of a combinator are all there, and no others; a fact may stand beside an amount, and
an event beside conditions as well. A combinator has children of its own kind, at least one, in
their order.

Readers accept exactly what the grammar allows, and make of it the tree that it defines.
-/

namespace Accolade

namespace Entries

/-- Whether the keys of a mapping are exactly some names. -/
def HasExactly (entries : Entries) (names : List String) : Prop :=
  ∀ key, key ∈ keys entries ↔ ∃ name ∈ names, key = .text name

/-- A mapping has a field when its name is among the keys. -/
theorem hasField_iff (entries : Entries) (name : String) :
    hasField entries name = true ↔ .text name ∈ keys entries := by
  unfold hasField has keys
  induction entries with
  | nil => simp [find?]
  | cons entry rest inductionHypothesis =>
    unfold find?
    by_cases here : entry.1.same (.text name) = true
    · have same : entry.1 = .text name := (Scalar.same_text_iff _ _).mp here
      simp [same]
    · have other : .text name ≠ entry.1 :=
        fun same => here ((Scalar.same_text_iff _ _).mpr same.symm)
      simp [here, inductionHypothesis, other]

/-- There are no keys beyond some names when each key is one of these. -/
theorem keysBeyond_eq_nil_iff (entries : Entries) (allowed : List String) :
    keysBeyond entries allowed = [] ↔ ∀ key ∈ keys entries, ∃ name ∈ allowed, key = .text name := by
  simp [keysBeyond, List.filter_eq_nil_iff, Scalar.same_text_iff]

/-- The keys are exactly some names when all of these are there and no others. -/
theorem hasExactly_iff (entries : Entries) (names : List String) :
    HasExactly entries names ↔
      keysBeyond entries names = [] ∧ ∀ name ∈ names, .text name ∈ keys entries := by
  rw [keysBeyond_eq_nil_iff]
  constructor
  · intro exact
    exact ⟨fun key member => (exact key).mp member,
      fun name member => (exact _).mpr ⟨name, member, rfl⟩⟩
  · rintro ⟨only, all⟩ key
    refine ⟨only key, ?_⟩
    rintro ⟨name, member, rfl⟩
    exact all name member

/-- What is found under a name stands under that name among the keys. -/
theorem mem_keys_of_field {entries : Entries} {name : String} {value : Value}
    (found : field? entries name = some value) : .text name ∈ keys entries := by
  rw [← hasField_iff, hasField, has]
  exact Option.isSome_iff_exists.mpr ⟨value, found⟩

end Entries

/-- Of some forms, each with its key, a mapping has exactly one if it has the key of that form, and
no keys but some that no other form has. -/
theorem filter_forms_eq {Form : Type} {forms : List Form} {keyOf : Form → String}
    {entries : Entries} {form : Form} {allowed : List String} (distinct : forms.Nodup)
    (known : form ∈ forms)
    (keys : ∀ key ∈ Entries.keys entries, ∃ name ∈ allowed, key = .text name)
    (own : .text (keyOf form) ∈ Entries.keys entries)
    (apart : ∀ other ∈ forms, keyOf other ∈ allowed → other = form) :
    (forms.filter fun form => Entries.hasField entries (keyOf form)) = [form] := by
  refine List.perm_singleton.mp ((List.perm_ext_iff_of_nodup (distinct.filter _)
    (List.nodup_singleton form)).mpr fun other => ?_)
  rw [List.mem_filter, Entries.hasField_iff, List.mem_singleton]
  constructor
  · rintro ⟨member, held⟩
    obtain ⟨name, free, same⟩ := keys _ held
    cases same
    exact apart other member free
  · rintro rfl
    exact ⟨known, own⟩

section Reading

variable {α β ε : Type}

/-- Two steps succeed when the first does and the second does after it. -/
theorem bind_ok_iff {first : Except ε α} {second : α → Except ε β} {value : β} :
    (first >>= second) = .ok value ↔ ∃ found, first = .ok found ∧ second found = .ok value := by
  cases first <;> simp [bind, Except.bind]

/-- Things are read one after the other when each is. -/
theorem mapM_ok_iff {read : Value → Except ε α} {R : Value → α → Prop} {items : List Value}
    (each : ∀ item ∈ items, ∀ result, read item = .ok result ↔ R item result) {results : List α} :
    items.mapM read = .ok results ↔ List.Forall₂ R items results := by
  induction items generalizing results with
  | nil => simp [pure, Except.pure, eq_comm]
  | cons first rest inductionHypothesis =>
    obtain ⟨here, further⟩ := List.forall_mem_cons.mp each
    rw [List.mapM_cons, List.forall₂_cons_left_iff]
    simp only [bind_ok_iff, here, inductionHypothesis further, pure, Except.pure, Except.ok.injEq]
    exact ⟨fun ⟨child, reads, others, more, parts⟩ => ⟨child, others, reads, more, parts.symm⟩,
      fun ⟨child, others, reads, more, parts⟩ => ⟨child, reads, others, more, parts.symm⟩⟩

/-- Reading goes on behind keys that are not refused, which is when there are none. -/
theorem refuseKeysBeyond_then_ok_iff {entries : Entries} {allowed : List String}
    {refusal : List Scalar → DefinitionError} {further : Except DefinitionError α} {result : α} :
    (refuseKeysBeyond entries allowed refusal >>= fun _ => further) = .ok result ↔
      Entries.keysBeyond entries allowed = [] ∧ further = .ok result := by
  rw [bind_ok_iff, ← refuseKeysBeyond_ok_iff entries allowed refusal]
  exact ⟨fun ⟨(), both⟩ => both, fun both => ⟨(), both⟩⟩

/-- Children are read when they are a list that is not empty and each of them is read. -/
theorem readListed_ok_iff {read : Value → Except DefinitionError α} {refusal : DefinitionError}
    {children : Option Value} {results : List α} :
    readListed read refusal children = .ok results ↔
      ∃ items, children = some (.list items) ∧ items ≠ [] ∧ items.mapM read = .ok results := by
  unfold readListed
  split
  · simp
  · rename_i other
    refine iff_of_false (by simp) ?_
    rintro ⟨items, rfl, filled, _⟩
    obtain ⟨first, rest, rfl⟩ := List.exists_cons_of_ne_nil filled
    exact other first rest rfl

/-- What a combinator makes of children is read when it stands alone over children that are
read. -/
theorem combined_ok_iff {entries : Entries} {name : String}
    {read : Value → Except DefinitionError α}
    {refusal : List Scalar → DefinitionError} {refusalToo : DefinitionError}
    {combine : List α → α} {result : α} :
    (refuseKeysBeyond entries [name] refusal >>= fun _ => do
        return combine (← readListed read refusalToo (Entries.field? entries name))) = .ok result ↔
      Entries.keysBeyond entries [name] = [] ∧
        ∃ items children, Entries.field? entries name = some (.list items) ∧ items ≠ [] ∧
          items.mapM read = .ok children ∧ result = combine children := by
  rw [refuseKeysBeyond_then_ok_iff, bind_ok_iff]
  simp only [readListed_ok_iff, pure, Except.pure, Except.ok.injEq]
  grind

end Reading

namespace Condition

/-- The conditions that values define. -/
inductive Written : Value → Condition → Prop
  /-- a parameter and its value -/
  | parameter {entries : Entries} {name : String} {value : Value}
      (keys : entries.HasExactly ["parameter", "value"])
      (named : Entries.field? entries "parameter" = some (.text name)) (filled : name ≠ "")
      (valued : Entries.field? entries "value" = some value) :
      Written (.mapping entries) (.parameter name value)
  /-- a combinator over some conditions -/
  | combined {entries : Entries} {combinator : Combinator} {items : List Value}
      {children : List Condition} (keys : entries.HasExactly [combinator.key])
      (listed : Entries.field? entries combinator.key = some (.list items)) (filled : items ≠ [])
      (each : List.Forall₂ Written items children) :
      Written (.mapping entries) (combine combinator children)

/-- A parameter is read when it is named and has a value, and nothing stands beside these. -/
theorem readParameter_ok_iff {entries : Entries} {condition : Condition} :
    readParameter entries = .ok condition ↔
      ∃ name value, Entries.field? entries "parameter" = some (.text name) ∧ name ≠ "" ∧
        Entries.field? entries "value" = some value ∧
        Entries.keysBeyond entries ["parameter", "value"] = [] ∧
        condition = .parameter name value := by
  unfold readParameter
  split
  · rename_i name named
    by_cases empty : name = ""
    · simp [named, empty]
    · cases valued : Entries.field? entries "value" with
      | none => simp [empty]
      | some value =>
        simp only [String.isEmpty_iff, empty, if_false, refuseKeysBeyond_then_ok_iff]
        grind
  · rename_i other
    refine iff_of_false (by simp) ?_
    rintro ⟨name, value, named, _⟩
    exact other name named

/-- A combinator is read when it stands alone over children that are read. -/
theorem read_combined_ok_iff {entries : Entries} {combinator : Combinator}
    (form : ConditionForm.present entries = [.combined combinator]) {condition : Condition} :
    read (.mapping entries) = .ok condition ↔
      Entries.keysBeyond entries [combinator.key] = [] ∧
        ∃ items children, Entries.field? entries combinator.key = some (.list items) ∧
          items ≠ [] ∧ items.mapM read = .ok children ∧
            condition = combine combinator children := by
  rw [read]
  simp only [form, readUnder_eq]
  exact combined_ok_iff

/-- A value is read as a condition exactly when the grammar says so.

Proof: induction on the value: what stands in the lists of a mapping is read as the grammar says.
From the left, the form that the reader settles on is the rule of the grammar that applies. From the
right, the keys that a rule of the grammar asks for are those of one form alone, so the reader
settles on this form. -/
theorem read_ok_iff (value : Value) :
    ∀ condition, read value = .ok condition ↔ Written value condition := by
  induction value using Value.induction_under with
  | step value inductionHypothesis =>
  intro condition
  have each : ∀ entries name items, value = .mapping entries →
      Entries.field? entries name = some (.list items) → ∀ children,
      items.mapM read = .ok children ↔ List.Forall₂ Written items children :=
    fun entries name items shape found _ =>
      mapM_ok_iff (inductionHypothesis entries name items shape found)
  constructor
  · intro reads
    have shape := reads
    unfold read at shape
    split at shape
    · rename_i entries
      split at shape
      · rename_i form
        obtain ⟨name, given, named, filled, valued, only, rfl⟩ := readParameter_ok_iff.mp shape
        refine .parameter ((Entries.hasExactly_iff _ _).mpr ⟨only, ?_⟩) named filled valued
        simp [Entries.mem_keys_of_field named, Entries.mem_keys_of_field valued]
      · rename_i combinator form
        obtain ⟨only, items, children, listed, filled, all, rfl⟩ :=
          (read_combined_ok_iff form).mp reads
        refine .combined ((Entries.hasExactly_iff _ _).mpr ⟨only, ?_⟩) listed filled
          ((each entries _ items rfl listed children).mp all)
        simp [Entries.mem_keys_of_field listed]
      · contradiction
    · contradiction
  · intro written
    cases written with
    | @parameter entries name given keys named filled valued =>
      have form : ConditionForm.present entries = [.parameter] :=
        filter_forms_eq (by decide) (by decide) (fun key => (keys key).mp)
          (Entries.mem_keys_of_field named) (by decide)
      unfold read
      simp only [form]
      exact readParameter_ok_iff.mpr ⟨name, given, named, filled, valued,
        ((Entries.hasExactly_iff _ _).mp keys).1, rfl⟩
    | @combined entries combinator items children keys listed filled all =>
      have form : ConditionForm.present entries = [.combined combinator] :=
        filter_forms_eq (by decide) (by cases combinator <;> decide) (fun key => (keys key).mp)
          (Entries.mem_keys_of_field listed) (by cases combinator <;> decide)
      exact (read_combined_ok_iff form).mpr ⟨((Entries.hasExactly_iff _ _).mp keys).1, items,
        children, listed, filled, (each entries _ items rfl listed children).mpr all, rfl⟩

/-- A list of conditions is read when each of them is. -/
theorem readAll_ok_iff {value : Value} {condition : Condition} :
    readAll value = .ok condition ↔
      ∃ items children, value = .list items ∧ List.Forall₂ Written items children ∧
        condition = .allOf children := by
  unfold readAll
  split
  · rename_i items
    have each : ∀ children,
        items.mapM read = .ok children ↔ List.Forall₂ Written items children :=
      fun _ => mapM_ok_iff fun item _ => read_ok_iff item
    simp only [readItems_eq, bind_ok_iff, each, pure, Except.pure, Except.ok.injEq,
      Value.list.injEq]
    grind
  · rename_i other
    refine iff_of_false (by simp) ?_
    rintro ⟨items, _, rfl, _⟩
    exact other items rfl

end Condition

namespace Requirement

/-- The amount test that a value beside a fact defines: one is asked for if there is none. -/
inductive AmountWritten : Option Value → AmountTest → Prop
  | absent : AmountWritten none (.atLeast 1)
  | given {value : Value} {amount : AmountTest} (reads : AmountTest.read value = .ok amount) :
      AmountWritten (some value) amount

/-- The conditions that a value beside an event defines: none if it is absent or counts as false,
and all of those in a list otherwise. -/
inductive ConditionsWritten : Option Value → Option Condition → Prop
  | absent : ConditionsWritten none none
  | void {value : Value} (falsy : value.isTruthy = false) : ConditionsWritten (some value) none
  | listed {items : List Value} {children : List Condition} (filled : items ≠ [])
      (each : List.Forall₂ Condition.Written items children) :
      ConditionsWritten (some (.list items)) (some (.allOf children))

/-- Whether a mapping names a fact, perhaps beside an amount, and holds nothing that may not stand
beside a fact of this kind. -/
structure FactWritten (kind : FactKind) (entries : Entries) (name : String) (amount : AmountTest) :
    Prop where
  keys : ∀ key ∈ Entries.keys entries, ∃ allowed ∈ leafKeys kind, key = .text allowed
  named : Entries.field? entries kind.key = some (.text name)
  filled : name ≠ ""
  amount : AmountWritten (Entries.field? entries "amount") amount

/-- The requirements that values define. -/
inductive Written : Value → Requirement → Prop
  /-- an achievement -/
  | achievement {entries : Entries} {name : String} {amount : AmountTest}
      (fact : FactWritten .achievement entries name amount) :
      Written (.mapping entries) (.achievement name amount)
  /-- experience -/
  | experience {entries : Entries} {name : String} {amount : AmountTest}
      (fact : FactWritten .experience entries name amount) :
      Written (.mapping entries) (.experience name amount)
  /-- an event, perhaps beside conditions -/
  | event {entries : Entries} {name : String} {amount : AmountTest} {conditions : Option Condition}
      (fact : FactWritten .event entries name amount)
      (asked : ConditionsWritten (Entries.field? entries "conditions") conditions) :
      Written (.mapping entries) (.event name amount conditions)
  /-- a combinator over some requirements -/
  | combined {entries : Entries} {combinator : Combinator} {items : List Value}
      {children : List Requirement} (keys : entries.HasExactly [combinator.key])
      (listed : Entries.field? entries combinator.key = some (.list items)) (filled : items ≠ [])
      (each : List.Forall₂ Written items children) :
      Written (.mapping entries) (combine combinator children)

/-- A fact is read when it is named and its amount, if there is one, is read. -/
theorem readFact_ok_iff {kind : FactKind} {entries : Entries} {name : String}
    {amount : AmountTest} :
    readFact kind entries = .ok (name, amount) ↔
      Entries.field? entries kind.key = some (.text name) ∧ name ≠ "" ∧
        AmountWritten (Entries.field? entries "amount") amount := by
  have written : AmountTest.read ((Entries.field? entries "amount").getD (.integer 1)) =
      .ok amount ↔ AmountWritten (Entries.field? entries "amount") amount := by
    cases Entries.field? entries "amount" with
    | none =>
      refine ⟨fun reads => ?_, ?_⟩
      · cases reads
        exact .absent
      · rintro ⟨⟩
        rfl
    | some value =>
      refine ⟨.given, ?_⟩
      rintro (_ | reads)
      exact reads
  unfold readFact
  split
  · rename_i found named
    by_cases empty : found = ""
    · refine iff_of_false (by simp [empty]) ?_
      rintro ⟨same, filled, _⟩
      rw [named] at same
      cases same
      exact filled empty
    · simp only [String.isEmpty_iff, empty, if_false, bind_ok_iff, pure, Except.pure,
        Except.ok.injEq, Prod.mk.injEq, ← written, named]
      grind
  · rename_i other
    refine iff_of_false (by simp) ?_
    rintro ⟨named, _⟩
    exact other name named

/-- The conditions of an event are read exactly when the grammar derives them from what stands in
their field. -/
theorem readConditions_ok_iff {entries : Entries} {conditions : Option Condition} :
    readConditions entries = .ok conditions ↔
      ConditionsWritten (Entries.field? entries "conditions") conditions := by
  unfold readConditions
  cases Entries.field? entries "conditions" with
  | none =>
    refine ⟨fun reads => ?_, ?_⟩
    · cases reads
      exact .absent
    · rintro ⟨⟩
      rfl
  | some value =>
    cases truthy : value.isTruthy with
    | false =>
      simp only [truthy, Bool.false_eq_true, if_false, Except.ok.injEq]
      refine ⟨?_, ?_⟩
      · rintro rfl
        exact .void truthy
      · rintro (_ | _ | ⟨filled, _⟩)
        · rfl
        · simp [Value.isTruthy, filled] at truthy
    | true =>
      simp only [truthy, if_true, map_eq_pure_bind, bind_ok_iff, Condition.readAll_ok_iff, pure,
        Except.pure, Except.ok.injEq]
      refine ⟨?_, ?_⟩
      · rintro ⟨_, ⟨items, children, rfl, each, rfl⟩, rfl⟩
        refine .listed ?_ each
        rintro rfl
        simp [Value.isTruthy] at truthy
      · rintro (_ | falsy | ⟨filled, each⟩)
        · rw [truthy] at falsy
          contradiction
        · exact ⟨_, ⟨_, _, rfl, each, rfl⟩, rfl⟩

/-- A leaf is read exactly when the grammar derives it: a name, a test, and for events some
conditions. -/
theorem readLeaf_ok_iff {kind : FactKind} {entries : Entries} {requirement : Requirement} :
    readLeaf kind entries = .ok requirement ↔
      ∃ name amount, FactWritten kind entries name amount ∧
        match kind with
        | .achievement => requirement = .achievement name amount
        | .experience => requirement = .experience name amount
        | .event => ∃ conditions,
            ConditionsWritten (Entries.field? entries "conditions") conditions ∧
              requirement = .event name amount conditions := by
  have fact : ∀ name amount, FactWritten kind entries name amount ↔
      readFact kind entries = .ok (name, amount) ∧
        Entries.keysBeyond entries (leafKeys kind) = [] := by
    intro name amount
    rw [readFact_ok_iff, Entries.keysBeyond_eq_nil_iff]
    exact ⟨fun ⟨keys, named, filled, amount⟩ => ⟨⟨named, filled, amount⟩, keys⟩,
      fun ⟨⟨named, filled, amount⟩, keys⟩ => ⟨keys, named, filled, amount⟩⟩
  unfold readLeaf
  rw [bind_ok_iff, Prod.exists]
  refine exists_congr fun name => exists_congr fun amount => ?_
  rw [refuseKeysBeyond_then_ok_iff, fact, and_assoc]
  refine and_congr_right fun _ => and_congr_right fun _ => ?_
  cases kind with
  | achievement => simp [pure, Except.pure, eq_comm]
  | experience => simp [pure, Except.pure, eq_comm]
  | event =>
    simp only [bind_ok_iff, readConditions_ok_iff, pure, Except.pure, Except.ok.injEq]
    exact exists_congr fun _ => and_congr_right fun _ => eq_comm

/-- A mapping that names a fact is a leaf of its kind, and read as such. -/
theorem FactWritten.read_eq {kind : FactKind} {entries : Entries} {name : String}
    {amount : AmountTest} (fact : FactWritten kind entries name amount) :
    read (.mapping entries) = readLeaf kind entries := by
  have form : RequirementForm.present entries = [.leaf kind] :=
    filter_forms_eq (by decide) (by cases kind <;> decide) fact.keys
      (Entries.mem_keys_of_field fact.named) (by cases kind <;> decide)
  rw [read]
  simp only [form]

/-- A combinator is read when it stands alone over children that are read. -/
theorem read_combined_ok_iff {entries : Entries} {combinator : Combinator}
    (form : RequirementForm.present entries = [.combined combinator])
    {requirement : Requirement} :
    read (.mapping entries) = .ok requirement ↔
      Entries.keysBeyond entries [combinator.key] = [] ∧
        ∃ items children, Entries.field? entries combinator.key = some (.list items) ∧
          items ≠ [] ∧ items.mapM read = .ok children ∧
          requirement = combine combinator children := by
  rw [read]
  simp only [form, readUnder_eq]
  exact combined_ok_iff

/-- A value is read as a requirement exactly when the grammar says so.

Proof: induction on the value, as for conditions. The form that the reader settles on is the rule of
the grammar that applies, and the other way round. A leaf asks for its fact, and an event for its
conditions besides; a combination asks for what stands in its list. -/
theorem read_ok_iff (value : Value) :
    ∀ requirement, read value = .ok requirement ↔ Written value requirement := by
  induction value using Value.induction_under with
  | step value inductionHypothesis =>
  intro requirement
  have each : ∀ entries name items, value = .mapping entries →
      Entries.field? entries name = some (.list items) → ∀ children,
      items.mapM read = .ok children ↔ List.Forall₂ Written items children :=
    fun entries name items shape found _ =>
      mapM_ok_iff (inductionHypothesis entries name items shape found)
  constructor
  · intro reads
    have shape := reads
    unfold read at shape
    split at shape
    · rename_i entries
      split at shape
      · contradiction
      · rename_i kind form
        obtain ⟨name, amount, fact, made⟩ := readLeaf_ok_iff.mp shape
        cases kind with
        | achievement => exact made ▸ .achievement fact
        | experience => exact made ▸ .experience fact
        | event =>
          obtain ⟨conditions, asked, rfl⟩ := made
          exact .event fact asked
      · rename_i combinator form
        obtain ⟨only, items, children, listed, filled, all, rfl⟩ :=
          (read_combined_ok_iff form).mp reads
        refine .combined ((Entries.hasExactly_iff _ _).mpr ⟨only, ?_⟩) listed filled
          ((each entries _ items rfl listed children).mp all)
        simp [Entries.mem_keys_of_field listed]
      · contradiction
    · contradiction
  · intro written
    cases written with
    | achievement fact => exact fact.read_eq ▸ readLeaf_ok_iff.mpr ⟨_, _, fact, rfl⟩
    | experience fact => exact fact.read_eq ▸ readLeaf_ok_iff.mpr ⟨_, _, fact, rfl⟩
    | event fact asked => exact fact.read_eq ▸ readLeaf_ok_iff.mpr ⟨_, _, fact, _, asked, rfl⟩
    | @combined entries combinator items children keys listed filled all =>
      have form : RequirementForm.present entries = [.combined combinator] :=
        filter_forms_eq (by decide) (by cases combinator <;> decide) (fun key => (keys key).mp)
          (Entries.mem_keys_of_field listed) (by cases combinator <;> decide)
      exact (read_combined_ok_iff form).mpr ⟨((Entries.hasExactly_iff _ _).mp keys).1, items,
        children, listed, filled, (each entries _ items rfl listed children).mpr all, rfl⟩

end Requirement

end Accolade
