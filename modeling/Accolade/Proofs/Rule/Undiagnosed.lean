import Accolade.Rule.RuleReader
import Accolade.Proofs.Document.KeyOrder

/-!
# Faults without a diagnosis

A definition is read up to its first fault. Three faults cannot be told to anybody: keys that do
not belong where they stand and are not all alike, as they cannot be listed in order, a
threshold of too many digits, and a fault whose message would have to show an integer of too
many digits. Reading then ends without a diagnosis.

For each kind of definition there is a predicate that says when its first fault is one of
these, with one case for each place where the fault can be. A reader fails without a diagnosis
exactly where the predicate of its kind holds; every other failure is a diagnosis. How deep a
definition may be nested before a reader runs out of stack is left out.
-/

namespace Accolade

namespace DefinitionError

/-- Whether what the message of a cause shows cannot be written. -/
def IsUnwritable : DefinitionError → Prop
  | .parameterKeys extra _ | .conditionKeys extra _ _ => ∃ key ∈ extra, key.hasText = false
  | .requirementKeys extra definition =>
    (∃ key ∈ extra, key.hasText = false) ∨ definition.hasText = false
  | .requirementUndecided definition | .requirementAmbiguous _ definition
  | .requirementChildren definition => definition.hasText = false
  | _ => False

/-- Only three causes have no diagnosis: keys without an order, an amount of too many digits, and a
message that cannot be written. -/
theorem diagnosis?_eq_none_iff (error : DefinitionError) :
    error.diagnosis? = none ↔
      (∃ left right, error = .keysUnordered left right) ∨
        (∃ digits, error = .amountTooLong digits) ∨ error.IsUnwritable := by
  cases error <;>
    simp [diagnosis?, IsUnwritable, writtenKeys?, Value.written?, Value.hasText,
      Value.itemsHaveText_eq, Option.bind_eq_none_iff]
  case requirementKeys extra definition =>
    simp only [Classical.or_iff_not_imp_left, not_exists, not_and, Bool.not_eq_false]

/-- A cause fails with a diagnosis exactly when it has one. -/
theorem failure_eq_diagnosed_iff (error : DefinitionError) :
    (∃ diagnosis, error.failure = .diagnosed diagnosis) ↔ error.diagnosis? ≠ none := by
  unfold failure
  cases told : error.diagnosis? with
  | some diagnosis => simp
  | none => cases error <;> simp

variable {α β : Type}

/-- Whether reading ended with a fault that has no diagnosis. -/
def FailsUndiagnosed (outcome : Except DefinitionError α) : Prop :=
  ∃ error, outcome = .error error ∧ error.diagnosis? = none

@[simp] theorem failsUndiagnosed_ok (value : α) : ¬ FailsUndiagnosed (.ok value) :=
  fun ⟨_, same, _⟩ => nomatch same

@[simp] theorem failsUndiagnosed_error (error : DefinitionError) :
    FailsUndiagnosed (.error error : Except DefinitionError α) ↔ error.diagnosis? = none := by
  simp [FailsUndiagnosed]

/-- Two steps fail without a diagnosis when the first does, or the second after the first. -/
theorem failsUndiagnosed_bind (first : Except DefinitionError α)
    (second : α → Except DefinitionError β) :
    FailsUndiagnosed (first >>= second) ↔
      FailsUndiagnosed first ∨ ∃ value, first = .ok value ∧ FailsUndiagnosed (second value) := by
  cases first <;> simp [bind, Except.bind]

/-- Whether reading fails without a diagnosis does not depend on what is made of its result. -/
theorem failsUndiagnosed_map (f : α → β) (outcome : Except DefinitionError α) :
    FailsUndiagnosed (f <$> outcome) ↔ FailsUndiagnosed outcome := by
  cases outcome <;> simp [Functor.map, Except.map]

/-- Of values read one after the other the first that cannot be read decides. -/
theorem failsUndiagnosed_mapM (read : Value → Except DefinitionError α) (items : List Value) :
    FailsUndiagnosed (items.mapM read) ↔
      ∃ before child after, items = before ++ child :: after ∧
        (∀ sibling ∈ before, ∃ result, read sibling = .ok result) ∧
        FailsUndiagnosed (read child) := by
  induction items with
  | nil => simp [pure, Except.pure]
  | cons first rest inductionHypothesis =>
    rw [List.mapM_cons, failsUndiagnosed_bind]
    constructor
    · rintro (here | ⟨result, reading, later⟩)
      · exact ⟨[], first, rest, rfl, by simp, here⟩
      · rw [bind_pure_comp, failsUndiagnosed_map, inductionHypothesis] at later
        obtain ⟨before, child, after, rfl, earlier, undiagnosed⟩ := later
        exact ⟨first :: before, child, after, rfl,
          List.forall_mem_cons.mpr ⟨⟨result, reading⟩, earlier⟩, undiagnosed⟩
    · rintro ⟨before, child, after, parts, earlier, undiagnosed⟩
      cases before with
      | nil =>
        obtain ⟨rfl, rfl⟩ := List.cons.inj parts
        exact .inl undiagnosed
      | cons sibling before =>
        obtain ⟨rfl, rfl⟩ := List.cons.inj parts
        obtain ⟨⟨result, reading⟩, further⟩ := List.forall_mem_cons.mp earlier
        refine .inr ⟨result, reading, ?_⟩
        rw [bind_pure_comp, failsUndiagnosed_map, inductionHypothesis]
        exact ⟨before, child, after, rfl, further, undiagnosed⟩

end DefinitionError

open DefinitionError

/-- Keys are not refused exactly when there are none beyond the allowed ones. -/
theorem refuseKeysBeyond_ok_iff (entries : Entries) (allowed : List String)
    (refusal : List Scalar → DefinitionError) :
    refuseKeysBeyond entries allowed refusal = .ok () ↔
      Entries.keysBeyond entries allowed = [] := by
  unfold refuseKeysBeyond
  split
  · rename_i nothing
    simp [nothing]
  · rename_i something
    refine iff_of_false ?_ something
    split <;> simp

/-- Whether some keys are refused without a diagnosis, where the message can be written unless
something is too long: they are not all alike, or there are some and it is. -/
def AreUntold (keys : List Scalar) (tooLong : Prop) : Prop :=
  ¬ AreAlike keys ∨ keys ≠ [] ∧ tooLong

section Refusals

variable (entries : Entries) (allowed : List String) {refusal : List Scalar → DefinitionError}
  {tooLong : Prop}

/-- Refused keys are told unless they are not all alike or the message cannot be written. -/
theorem refuseKeysBeyond_undiagnosed_iff
    (untold : ∀ extra, extra.Perm (Entries.keysBeyond entries allowed) →
      ((refusal extra).diagnosis? = none ↔ tooLong)) :
    FailsUndiagnosed (refuseKeysBeyond entries allowed refusal) ↔
      AreUntold (Entries.keysBeyond entries allowed) tooLong := by
  unfold refuseKeysBeyond AreUntold
  rw [← sortedKeys_ok_iff]
  split
  · rename_i nothing
    simp [nothing, sortedKeys, firstRun, bind, Except.bind, pure, Except.pure]
  · rename_i something
    cases ordered : sortedKeys (Entries.keysBeyond entries allowed) with
    | ok sorted =>
      have filled : Entries.keysBeyond entries allowed ≠ [] := something
      simp [untold sorted (sortedKeys_perm ordered), filled]
    | error kinds => simp [diagnosis?]

/-- Reading goes on behind keys that were not refused. -/
theorem refuseKeysBeyond_then_undiagnosed_iff {α : Type}
    (untold : ∀ extra, extra.Perm (Entries.keysBeyond entries allowed) →
      ((refusal extra).diagnosis? = none ↔ tooLong))
    (further : Except DefinitionError α) :
    FailsUndiagnosed (refuseKeysBeyond entries allowed refusal >>= fun _ => further) ↔
      AreUntold (Entries.keysBeyond entries allowed) tooLong ∨
        Entries.keysBeyond entries allowed = [] ∧ FailsUndiagnosed further := by
  rw [failsUndiagnosed_bind, refuseKeysBeyond_undiagnosed_iff entries allowed untold,
    ← refuseKeysBeyond_ok_iff entries allowed refusal]
  exact or_congr Iff.rfl ⟨fun ⟨(), both⟩ => both, fun both => ⟨(), both⟩⟩

end Refusals

/-- Whether a value is a written amount test whose number has too many digits. -/
def AmountTest.IsTooLong (value : Value) : Prop :=
  ∃ written parts, value = .text written ∧ split? written.toList = some parts ∧
    DecimalText.digitLimit < parts.2.2.length

/-- An amount test is read without a diagnosis only where it has too many digits. -/
theorem AmountTest.read_undiagnosed_iff (value : Value) :
    FailsUndiagnosed (AmountTest.read value) ↔ IsTooLong value := by
  have written : ∀ text, FailsUndiagnosed (readText text) ↔ IsTooLong (.text text) := by
    intro text
    unfold readText
    cases parts : split? text.toList with
    | none =>
      refine iff_of_false (by simp [diagnosis?]) ?_
      rintro ⟨_, _, ⟨⟩, found, _⟩
      rw [parts] at found
      contradiction
    | some found =>
      obtain ⟨comparison, negative, digits⟩ := found
      by_cases long : digits.length > DecimalText.digitLimit
      · exact iff_of_true (by simp [long, diagnosis?]) ⟨_, _, rfl, parts, long⟩
      · refine iff_of_false (by simp [long]) ?_
        rintro ⟨_, _, ⟨⟩, found, exceeding⟩
        rw [parts] at found
        cases found
        exact long exceeding
  unfold AmountTest.read
  split
  · exact iff_of_false (by simp [diagnosis?]) (by simp [IsTooLong])
  · exact iff_of_false (by simp) (by simp [IsTooLong])
  · exact written _
  · rename_i other
    refine iff_of_false (by simp [diagnosis?]) ?_
    rintro ⟨text, _, same, _⟩
    exact other text same

/-- A value found under a key is smaller than the entries. -/
theorem Entries.sizeOf_find {entries : Entries} {key : Scalar} {value : Value}
    (found : Entries.find? entries key = some value) : sizeOf value < sizeOf entries := by
  induction entries with
  | nil => contradiction
  | cons entry rest inductionHypothesis =>
    obtain ⟨held, stored⟩ := entry
    unfold Entries.find? at found
    split at found
    · cases found
      simp only [List.cons.sizeOf_spec, Prod.mk.sizeOf_spec]
      omega
    · have smaller := inductionHypothesis found
      simp only [List.cons.sizeOf_spec]
      omega

/-- What holds of a mapping whenever it holds of the items of its lists, and of all other
values, holds of every value. -/
theorem Value.induction_under {P : Value → Prop}
    (step : ∀ value, (∀ entries name items, value = .mapping entries →
      Entries.field? entries name = some (.list items) → ∀ item ∈ items, P item) → P value)
    (value : Value) : P value := by
  induction size : sizeOf value using Nat.strongRecOn generalizing value with
  | ind bound inductionHypothesis =>
    refine step value fun entries name items shape found item member => ?_
    refine inductionHypothesis (sizeOf item) ?_ item rfl
    have list := Entries.sizeOf_find found
    have inside := List.sizeOf_lt_of_mem member
    subst shape size
    simp only [Value.list.sizeOf_spec] at list
    simp only [Value.mapping.sizeOf_spec]
    omega

section Children

variable {α : Type} (read : Value → Except DefinitionError α) (refusal : DefinitionError)

/-- The items of a list that is not empty, read one after the other. Everything else is refused. -/
def readListed : Option Value → Except DefinitionError (List α)
  | some (.list (first :: rest)) => (first :: rest).mapM read
  | _ => .error refusal

/-- Reading children fails without a diagnosis when there is no list of some and that cannot be
told, or when the first child that cannot be read does. -/
theorem readListed_undiagnosed_iff (children : Option Value) :
    FailsUndiagnosed (readListed read refusal children) ↔
      (∀ first rest, children ≠ some (.list (first :: rest))) ∧ refusal.diagnosis? = none ∨
      ∃ before child after, children = some (.list (before ++ child :: after)) ∧
        (∀ sibling ∈ before, ∃ result, read sibling = .ok result) ∧
        FailsUndiagnosed (read child) := by
  unfold readListed
  split
  · rename_i first rest
    have listed : ¬ ∀ head tail, some (Value.list (first :: rest)) ≠ some (.list (head :: tail)) :=
      fun none => none first rest rfl
    simp only [listed, false_and, false_or, failsUndiagnosed_mapM, Option.some.injEq,
      Value.list.injEq]
  · rename_i other
    rw [failsUndiagnosed_error, or_iff_left]
    · exact ⟨fun untold => ⟨other, untold⟩, And.right⟩
    · rintro ⟨before, child, after, rfl, _⟩
      cases before with
      | nil => exact other child after rfl
      | cons first before => exact other first (before ++ child :: after) rfl

end Children

namespace Condition

/-- Whether keys beyond those of a condition cannot be told: they are not all alike, or one of them
cannot be written. -/
def HasUntoldKeys (entries : Entries) (allowed : List String) : Prop :=
  AreUntold (Entries.keysBeyond entries allowed)
    (∃ key ∈ Entries.keysBeyond entries allowed, key.hasText = false)

/-- Whether the first fault of a condition has no diagnosis. -/
inductive Undiagnosed : Value → Prop
  /-- Keys that cannot be told stand beside a parameter and its value. -/
  | parameter {entries : Entries} {name : String}
      (form : ConditionForm.present entries = [.parameter])
      (named : Entries.field? entries "parameter" = some (.text name))
      (filled : name ≠ "") (valued : Entries.field? entries "value" ≠ none)
      (untold : HasUntoldKeys entries ["parameter", "value"]) :
      Undiagnosed (.mapping entries)
  /-- Keys that cannot be told stand beside a combinator. -/
  | combinator {entries : Entries} {combinator : Combinator}
      (form : ConditionForm.present entries = [.combined combinator])
      (untold : HasUntoldKeys entries [combinator.key]) :
      Undiagnosed (.mapping entries)
  /-- The first child that cannot be read has such a fault. -/
  | child {entries : Entries} {combinator : Combinator} {before after : List Value} {child : Value}
      (form : ConditionForm.present entries = [.combined combinator])
      (alone : Entries.keysBeyond entries [combinator.key] = [])
      (children : Entries.field? entries combinator.key = some (.list (before ++ child :: after)))
      (earlier : ∀ sibling ∈ before, ∃ condition, read sibling = .ok condition)
      (undiagnosed : Undiagnosed child) :
      Undiagnosed (.mapping entries)

/-- Conditions in a list are read one after the other. -/
theorem readItems_eq (items : List Value) : readItems items = items.mapM read := by
  induction items with
  | nil => rfl
  | cons first rest inductionHypothesis =>
    simp only [readItems, inductionHypothesis, List.mapM_cons]

/-- A value under a combinator is read as its children. -/
theorem readChildren_eq (definition value : Value) :
    readChildren definition value =
      readListed read (.conditionChildren definition) (some value) := by
  match value with
  | .list (first :: rest) => simp only [readChildren, readListed, readItems_eq, List.mapM_cons]
  | .list [] | .scalar _ | .mapping _ | .pair _ _ | .set _ | .enclosing _ => rfl

/-- The children of a combinator are what stands under its key. -/
theorem readUnder_eq (combinator : Combinator) (definition : Value) (entries : Entries) :
    readUnder combinator definition entries =
      readListed read (.conditionChildren definition) (Entries.field? entries combinator.key) := by
  induction entries with
  | nil => rfl
  | cons entry rest inductionHypothesis =>
    unfold readUnder Entries.field? Entries.find?
    split
    · exact readChildren_eq definition entry.2
    · exact inductionHypothesis

/-- A refusal that lists keys in any order cannot be told when one of them cannot be written. -/
theorem exists_hasText_eq_false_perm {extra keys : List Scalar} (same : extra.Perm keys) :
    (∃ key ∈ extra, key.hasText = false) ↔ ∃ key ∈ keys, key.hasText = false := by
  simp only [same.mem_iff]

/-- A parameter is read without a diagnosis when keys that cannot be told stand beside it. -/
theorem readParameter_undiagnosed_iff (entries : Entries) :
    FailsUndiagnosed (readParameter entries) ↔
      ∃ name, Entries.field? entries "parameter" = some (.text name) ∧ name ≠ "" ∧
        Entries.field? entries "value" ≠ none ∧
        HasUntoldKeys entries ["parameter", "value"] := by
  unfold readParameter
  split
  · rename_i name named
    by_cases empty : name = ""
    · simp [named, empty, diagnosis?]
    · cases valued : Entries.field? entries "value" with
      | none => simp [empty, diagnosis?]
      | some value =>
        have untold : ∀ extra : List Scalar,
            extra.Perm (Entries.keysBeyond entries ["parameter", "value"]) →
            ((parameterKeys extra (.mapping entries)).diagnosis? = none ↔
              ∃ key ∈ Entries.keysBeyond entries ["parameter", "value"], key.hasText = false) :=
          fun extra same => by
            simp [diagnosis?_eq_none_iff, IsUnwritable, exists_hasText_eq_false_perm same]
        simp [empty, named, refuseKeysBeyond_then_undiagnosed_iff _ _ untold, HasUntoldKeys]
  · rename_i other
    refine iff_of_false (by simp [diagnosis?]) ?_
    rintro ⟨name, named, _⟩
    exact other name named

/-- A combinator is read without a diagnosis when keys that cannot be told stand beside it, or
the first child that cannot be read has no diagnosis. -/
theorem combined_undiagnosed_iff {entries : Entries} {combinator : Combinator}
    (form : ConditionForm.present entries = [.combined combinator]) :
    FailsUndiagnosed (read (.mapping entries)) ↔
      HasUntoldKeys entries [combinator.key] ∨
        Entries.keysBeyond entries [combinator.key] = [] ∧
        ∃ before child after,
          Entries.field? entries combinator.key = some (.list (before ++ child :: after)) ∧
          (∀ sibling ∈ before, ∃ condition, read sibling = .ok condition) ∧
          FailsUndiagnosed (read child) := by
  have untold : ∀ extra : List Scalar,
      extra.Perm (Entries.keysBeyond entries [combinator.key]) →
      ((conditionKeys extra combinator (.mapping entries)).diagnosis? = none ↔
        ∃ key ∈ Entries.keysBeyond entries [combinator.key], key.hasText = false) :=
    fun extra same => by
      simp [diagnosis?_eq_none_iff, IsUnwritable, exists_hasText_eq_false_perm same]
  have refused : (conditionChildren (.mapping entries)).diagnosis? ≠ none := by simp [diagnosis?]
  have reading : read (.mapping entries) = (do
      refuseKeysBeyond entries [combinator.key] (conditionKeys · combinator (.mapping entries))
      return combine combinator (← readUnder combinator (.mapping entries) entries)) := by
    rw [read]
    simp only [form]
  rw [reading, refuseKeysBeyond_then_undiagnosed_iff _ _ untold, bind_pure_comp,
    failsUndiagnosed_map, readUnder_eq, readListed_undiagnosed_iff]
  simp only [HasUntoldKeys, refused, and_false, false_or]

/-- A condition is read without a diagnosis exactly when its first fault has none. -/
theorem read_undiagnosed_iff (value : Value) :
    FailsUndiagnosed (read value) ↔ Undiagnosed value := by
  constructor
  · induction value using Value.induction_under with
    | step value inductionHypothesis =>
    intro undiagnosed
    have shape := undiagnosed
    unfold read at shape
    split at shape
    · rename_i entries
      split at shape
      · rename_i form
        obtain ⟨name, named, filled, valued, untold⟩ :=
          (readParameter_undiagnosed_iff entries).mp shape
        exact .parameter form named filled valued untold
      · rename_i combinator form
        rcases (combined_undiagnosed_iff form).mp undiagnosed with
          untold | ⟨alone, before, child, after, children, earlier, stuck⟩
        · exact .combinator form untold
        · exact .child form alone children earlier
            (inductionHypothesis entries _ _ rfl children child (by simp) stuck)
      · simp [diagnosis?] at shape
    · simp [diagnosis?] at shape
  · intro undiagnosed
    induction undiagnosed with
    | @parameter entries name form named filled valued untold =>
      unfold read
      simp only [form]
      exact (readParameter_undiagnosed_iff entries).mpr ⟨name, named, filled, valued, untold⟩
    | combinator form untold => exact (combined_undiagnosed_iff form).mpr (.inl untold)
    | child form alone children earlier _ inductionHypothesis =>
      exact (combined_undiagnosed_iff form).mpr
        (.inr ⟨alone, _, _, _, children, earlier, inductionHypothesis⟩)

/-- A list of conditions is read without a diagnosis when the first that cannot be read has
none. -/
theorem readAll_undiagnosed_iff (definitions : Value) :
    FailsUndiagnosed (readAll definitions) ↔
      ∃ before child after, definitions = .list (before ++ child :: after) ∧
        (∀ sibling ∈ before, ∃ condition, read sibling = .ok condition) ∧ Undiagnosed child := by
  unfold readAll
  split
  · simp only [bind_pure_comp, failsUndiagnosed_map, readItems_eq, failsUndiagnosed_mapM,
      read_undiagnosed_iff, Value.list.injEq]
  · rename_i other
    refine iff_of_false (by simp [diagnosis?]) ?_
    rintro ⟨before, child, after, same, _⟩
    exact other _ same

end Condition

namespace Requirement

/-- Whether keys beyond those of a requirement cannot be told: they are not all alike, or there are
some and the whole definition cannot be written. -/
def HasUntoldKeys (entries : Entries) (allowed : List String) : Prop :=
  AreUntold (Entries.keysBeyond entries allowed) ((Value.mapping entries).hasText = false)

/-- Whether the first fault of a requirement has no diagnosis. -/
inductive Undiagnosed : Value → Prop
  /-- None of the forms is there, or more than one, and the definition cannot be written. -/
  | form {entries : Entries} (unclear : (RequirementForm.present entries).length ≠ 1)
      (long : (Value.mapping entries).hasText = false) :
      Undiagnosed (.mapping entries)
  /-- The amount of a named fact has too many digits. -/
  | amount {entries : Entries} {kind : FactKind} {name : String}
      (form : RequirementForm.present entries = [.leaf kind])
      (named : Entries.field? entries kind.key = some (.text name)) (filled : name ≠ "")
      (long : AmountTest.IsTooLong ((Entries.field? entries "amount").getD (.integer 1))) :
      Undiagnosed (.mapping entries)
  /-- Keys that cannot be told stand beside a fact. -/
  | keys {entries : Entries} {kind : FactKind}
      (form : RequirementForm.present entries = [.leaf kind])
      (known : ∃ fact, readFact kind entries = .ok fact)
      (untold : HasUntoldKeys entries (leafKeys kind)) :
      Undiagnosed (.mapping entries)
  /-- The first condition of an event that cannot be read has such a fault. -/
  | condition {entries : Entries} {before after : List Value} {child : Value}
      (form : RequirementForm.present entries = [.leaf .event])
      (known : ∃ fact, readFact .event entries = .ok fact)
      (alone : Entries.keysBeyond entries (leafKeys .event) = [])
      (given : Entries.field? entries "conditions" = some (.list (before ++ child :: after)))
      (earlier : ∀ sibling ∈ before, ∃ condition, Condition.read sibling = .ok condition)
      (undiagnosed : Condition.Undiagnosed child) :
      Undiagnosed (.mapping entries)
  /-- Keys that cannot be told stand beside a combinator. -/
  | combinator {entries : Entries} {combinator : Combinator}
      (form : RequirementForm.present entries = [.combined combinator])
      (untold : HasUntoldKeys entries [combinator.key]) :
      Undiagnosed (.mapping entries)
  /-- There is no list of some children, and the definition cannot be written. -/
  | children {entries : Entries} {combinator : Combinator}
      (form : RequirementForm.present entries = [.combined combinator])
      (alone : Entries.keysBeyond entries [combinator.key] = [])
      (childless : ∀ first rest,
        Entries.field? entries combinator.key ≠ some (.list (first :: rest)))
      (long : (Value.mapping entries).hasText = false) :
      Undiagnosed (.mapping entries)
  /-- The first child that cannot be read has such a fault. -/
  | child {entries : Entries} {combinator : Combinator} {before after : List Value} {child : Value}
      (form : RequirementForm.present entries = [.combined combinator])
      (alone : Entries.keysBeyond entries [combinator.key] = [])
      (children : Entries.field? entries combinator.key = some (.list (before ++ child :: after)))
      (earlier : ∀ sibling ∈ before, ∃ requirement, read sibling = .ok requirement)
      (undiagnosed : Undiagnosed child) :
      Undiagnosed (.mapping entries)

/-- A fact is read without a diagnosis when it is named and its amount has too many digits. -/
theorem readFact_undiagnosed_iff (kind : FactKind) (entries : Entries) :
    FailsUndiagnosed (readFact kind entries) ↔
      ∃ name, Entries.field? entries kind.key = some (.text name) ∧ name ≠ "" ∧
        AmountTest.IsTooLong ((Entries.field? entries "amount").getD (.integer 1)) := by
  unfold readFact
  split
  · rename_i name named
    by_cases empty : name = ""
    · simp [named, empty, diagnosis?]
    · simp [named, empty, failsUndiagnosed_map, AmountTest.read_undiagnosed_iff]
  · rename_i other
    refine iff_of_false (by simp [diagnosis?]) ?_
    rintro ⟨name, named, _⟩
    exact other name named

/-- Conditions are read without a diagnosis when the first that cannot be read has none. -/
theorem readConditions_undiagnosed_iff (entries : Entries) :
    FailsUndiagnosed (readConditions entries) ↔
      ∃ before child after,
        Entries.field? entries "conditions" = some (.list (before ++ child :: after)) ∧
        (∀ sibling ∈ before, ∃ condition, Condition.read sibling = .ok condition) ∧
        Condition.Undiagnosed child := by
  unfold readConditions
  cases given : Entries.field? entries "conditions" with
  | none => simp
  | some definitions =>
    by_cases something : definitions.isTruthy = true
    · simp only [something, if_true, failsUndiagnosed_map, Condition.readAll_undiagnosed_iff,
        Option.some.injEq]
    · refine iff_of_false (by simp [something]) ?_
      rintro ⟨before, child, after, same, _⟩
      simp [Option.some.inj same, Value.isTruthy] at something

/-- A refusal that lists keys beyond the allowed ones and shows the definition cannot be told when
the definition cannot be written: the keys are part of it. -/
theorem requirementKeys_untold_iff (entries : Entries) (allowed : List String)
    (extra : List Scalar) (same : extra.Perm (Entries.keysBeyond entries allowed)) :
    (requirementKeys extra (.mapping entries)).diagnosis? = none ↔
      (Value.mapping entries).hasText = false := by
  have inside : ∀ key ∈ extra, key.hasText = false → (Value.mapping entries).hasText = false := by
    intro key member long
    cases told : (Value.mapping entries).hasText with
    | false => rfl
    | true =>
      obtain ⟨entry, held, rfl⟩ :=
        List.mem_map.mp (List.mem_filter.mp (same.mem_iff.mp member)).1
      rw [((Value.entriesHaveText_iff entries).mp told entry held).1] at long
      contradiction
  simp only [diagnosis?_eq_none_iff, IsUnwritable, reduceCtorEq, exists_false, false_or]
  exact ⟨fun either => either.elim (fun ⟨key, member, long⟩ => inside key member long) id, .inr⟩

/-- A leaf is read without a diagnosis when its fact is, or keys that cannot be told stand
beside it, or it is an event and its conditions are read so. -/
theorem readLeaf_undiagnosed_iff (kind : FactKind) (entries : Entries) :
    FailsUndiagnosed (readLeaf kind entries) ↔
      FailsUndiagnosed (readFact kind entries) ∨
        (∃ fact, readFact kind entries = .ok fact) ∧
          (HasUntoldKeys entries (leafKeys kind) ∨
            Entries.keysBeyond entries (leafKeys kind) = [] ∧ kind = .event ∧
              FailsUndiagnosed (readConditions entries)) := by
  unfold readLeaf
  rw [failsUndiagnosed_bind]
  refine or_congr Iff.rfl ?_
  rw [← exists_and_right]
  refine exists_congr fun fact => and_congr Iff.rfl ?_
  rw [refuseKeysBeyond_then_undiagnosed_iff _ _ (requirementKeys_untold_iff entries _)]
  refine or_congr Iff.rfl (and_congr Iff.rfl ?_)
  cases kind with
  | achievement => simp [pure, Except.pure]
  | experience => simp [pure, Except.pure]
  | event => simp [failsUndiagnosed_map]

/-- Requirements in a list are read one after the other. -/
theorem readItems_eq (items : List Value) : readItems items = items.mapM read := by
  induction items with
  | nil => rfl
  | cons first rest inductionHypothesis =>
    simp only [readItems, inductionHypothesis, List.mapM_cons]

/-- A value under a combinator is read as its children. -/
theorem readChildren_eq (definition value : Value) :
    readChildren definition value =
      readListed read (.requirementChildren definition) (some value) := by
  match value with
  | .list (first :: rest) => simp only [readChildren, readListed, readItems_eq, List.mapM_cons]
  | .list [] | .scalar _ | .mapping _ | .pair _ _ | .set _ | .enclosing _ => rfl

/-- The children of a combinator are what stands under its key. -/
theorem readUnder_eq (combinator : Combinator) (definition : Value) (entries : Entries) :
    readUnder combinator definition entries =
      readListed read (.requirementChildren definition)
        (Entries.field? entries combinator.key) := by
  induction entries with
  | nil => rfl
  | cons entry rest inductionHypothesis =>
    unfold readUnder Entries.field? Entries.find?
    split
    · exact readChildren_eq definition entry.2
    · exact inductionHypothesis

/-- A combinator is read without a diagnosis when keys that cannot be told stand beside it, when
there is no list of some children under it and that cannot be told, or when the first child that
cannot be read has no diagnosis. -/
theorem combined_undiagnosed_iff {entries : Entries} {combinator : Combinator}
    (form : RequirementForm.present entries = [.combined combinator]) :
    FailsUndiagnosed (read (.mapping entries)) ↔
      HasUntoldKeys entries [combinator.key] ∨
        Entries.keysBeyond entries [combinator.key] = [] ∧
        ((∀ first rest, Entries.field? entries combinator.key ≠ some (.list (first :: rest))) ∧
            (Value.mapping entries).hasText = false ∨
          ∃ before child after,
            Entries.field? entries combinator.key = some (.list (before ++ child :: after)) ∧
            (∀ sibling ∈ before, ∃ requirement, read sibling = .ok requirement) ∧
            FailsUndiagnosed (read child)) := by
  have refused : (requirementChildren (.mapping entries)).diagnosis? = none ↔
      (Value.mapping entries).hasText = false := by
    simp [diagnosis?_eq_none_iff, IsUnwritable]
  have reading : read (.mapping entries) = (do
      refuseKeysBeyond entries [combinator.key] (requirementKeys · (.mapping entries))
      return combine combinator (← readUnder combinator (.mapping entries) entries)) := by
    rw [read]
    simp only [form]
  rw [reading, refuseKeysBeyond_then_undiagnosed_iff _ _ (requirementKeys_untold_iff entries _),
    bind_pure_comp, failsUndiagnosed_map, readUnder_eq, readListed_undiagnosed_iff, refused]
  exact Iff.rfl

/-- A mapping that is of no form, or of more than one, is read without a diagnosis when it cannot
be written. -/
theorem unclear_undiagnosed_iff {entries : Entries}
    (unclear : (RequirementForm.present entries).length ≠ 1) :
    FailsUndiagnosed (read (.mapping entries)) ↔ (Value.mapping entries).hasText = false := by
  unfold read
  split
  · simp [diagnosis?_eq_none_iff, IsUnwritable]
  · rename_i form
    simp [form] at unclear
  · rename_i form
    simp [form] at unclear
  · simp [diagnosis?_eq_none_iff, IsUnwritable]

/-- A requirement is read without a diagnosis exactly when its first fault has none.

Proof: from left to right by induction over the items of the lists inside the definition. The
reader splits the definition by the forms it is of, and each form was settled above; a child
that fails is an item, to which the induction hypothesis applies. From right to left by
induction over the predicate, which has one case for each of these faults. -/
theorem read_undiagnosed_iff (value : Value) :
    FailsUndiagnosed (read value) ↔ Undiagnosed value := by
  constructor
  · induction value using Value.induction_under with
    | step value inductionHypothesis =>
    intro undiagnosed
    have shape := undiagnosed
    unfold read at shape
    split at shape
    · rename_i entries
      split at shape
      · rename_i form
        have unclear : (RequirementForm.present entries).length ≠ 1 := by simp [form]
        exact .form unclear ((unclear_undiagnosed_iff unclear).mp undiagnosed)
      · rename_i kind form
        rcases (readLeaf_undiagnosed_iff kind entries).mp shape with
          unread | ⟨known, untold | ⟨alone, rfl, stuck⟩⟩
        · obtain ⟨name, named, filled, long⟩ := (readFact_undiagnosed_iff kind entries).mp unread
          exact .amount form named filled long
        · exact .keys form known untold
        · obtain ⟨before, child, after, given, earlier, deeper⟩ :=
            (readConditions_undiagnosed_iff entries).mp stuck
          exact .condition form known alone given earlier deeper
      · rename_i combinator form
        rcases (combined_undiagnosed_iff form).mp undiagnosed with
          untold | ⟨alone, ⟨childless, long⟩ | ⟨before, child, after, children, earlier, stuck⟩⟩
        · exact .combinator form untold
        · exact .children form alone childless long
        · exact .child form alone children earlier
            (inductionHypothesis entries _ _ rfl children child (by simp) stuck)
      · rename_i none one combined
        have unclear : (RequirementForm.present entries).length ≠ 1 := by
          intro single
          obtain ⟨form, only⟩ := List.length_eq_one_iff.mp single
          cases form with
          | leaf kind => exact one kind only
          | combined combinator => exact combined combinator only
        exact .form unclear ((unclear_undiagnosed_iff unclear).mp undiagnosed)
    · simp [diagnosis?] at shape
  · intro undiagnosed
    have leaf : ∀ {entries kind}, RequirementForm.present entries = [.leaf kind] →
        read (.mapping entries) = readLeaf kind entries := by
      intro entries kind form
      rw [read]
      simp only [form]
    induction undiagnosed with
    | form unclear long => exact (unclear_undiagnosed_iff unclear).mpr long
    | @amount entries kind name form named filled long =>
      rw [leaf form, readLeaf_undiagnosed_iff]
      exact .inl ((readFact_undiagnosed_iff kind entries).mpr ⟨name, named, filled, long⟩)
    | keys form known untold =>
      rw [leaf form, readLeaf_undiagnosed_iff]
      exact .inr ⟨known, .inl untold⟩
    | @condition entries before after child form known alone given earlier deeper =>
      rw [leaf form, readLeaf_undiagnosed_iff]
      exact .inr ⟨known, .inr ⟨alone, rfl, (readConditions_undiagnosed_iff entries).mpr
        ⟨before, child, after, given, earlier, deeper⟩⟩⟩
    | combinator form untold => exact (combined_undiagnosed_iff form).mpr (.inl untold)
    | children form alone childless long =>
      exact (combined_undiagnosed_iff form).mpr (.inr ⟨alone, .inl ⟨childless, long⟩⟩)
    | child form alone children earlier _ inductionHypothesis =>
      exact (combined_undiagnosed_iff form).mpr
        (.inr ⟨alone, .inr ⟨_, _, _, children, earlier, inductionHypothesis⟩⟩)

/-- The requirements of a rule are read without a diagnosis when the first that cannot be read
has none. -/
theorem readAll_undiagnosed_iff (definitions : Value) :
    FailsUndiagnosed (readAll definitions) ↔
      ∃ before child after, definitions = .list (before ++ child :: after) ∧
        (∀ sibling ∈ before, ∃ requirement, read sibling = .ok requirement) ∧
        Undiagnosed child := by
  unfold readAll
  split
  · simp
  · simp only [bind_pure_comp, failsUndiagnosed_map, readItems_eq, failsUndiagnosed_mapM,
      read_undiagnosed_iff, Value.list.injEq]
  · rename_i other
    refine iff_of_false (by simp [diagnosis?]) ?_
    rintro ⟨before, child, after, same, _⟩
    exact other _ same

end Requirement

namespace Rule

/-- Whether the first fault of a rule has no diagnosis: its fields are in order, it does not
replace itself, and the first of its requirements that cannot be read has such a fault. -/
def Undiagnosed (name : String) (definition : Value) : Prop :=
  ∃ entries body before child after, definition = .mapping entries ∧
    checkBody entries = .ok body ∧ name ∉ body.replaces ∧
    body.requirements = before ++ child :: after ∧
    (∀ sibling ∈ before, ∃ requirement, Requirement.read sibling = .ok requirement) ∧
    Requirement.Undiagnosed child

/-- The body of a rule is read without a diagnosis when its requirements are. -/
theorem readBody_undiagnosed_iff (name : String) (entries : Entries) :
    (∃ error, readBody name entries = .error error ∧
        ∀ diagnosis, error.failure name ≠ .diagnosed diagnosis) ↔
      ∃ body, checkBody entries = .ok body ∧ name ∉ body.replaces ∧
        FailsUndiagnosed (Requirement.readAll (.list body.requirements)) := by
  unfold readBody
  cases checked : checkBody entries with
  | error faults => simp [RuleError.failure]
  | ok body =>
    by_cases replaced : name ∈ body.replaces
    · simp [replaced, RuleError.failure]
    · cases reading : Requirement.readAll (.list body.requirements) with
      | ok requirement => simp [replaced, reading]
      | error error =>
        have told := failure_eq_diagnosed_iff error
        simp only [← not_exists, List.contains_eq_mem, replaced, decide_false, Bool.false_eq_true,
          if_false, Except.error.injEq, exists_eq_left', RuleError.failure, told, Except.ok.injEq,
          not_false_eq_true, true_and, reading, failsUndiagnosed_error, ne_eq, Classical.not_not]

/-- A rule is read without a diagnosis exactly when its first fault has none. -/
theorem read_undiagnosed_iff (name : String) (definition : Value) :
    (∃ error, Rule.read name definition = .error error ∧
        ∀ diagnosis, error.failure name ≠ .diagnosed diagnosis) ↔
      Undiagnosed name definition := by
  unfold Rule.read
  split
  · refine (readBody_undiagnosed_iff name []).trans (iff_of_false ?_ (by simp [Undiagnosed]))
    rintro ⟨body, checked, _, stuck⟩
    cases checked
    simp [Requirement.readAll_undiagnosed_iff] at stuck
  · rename_i entries
    rw [readBody_undiagnosed_iff]
    simp [Undiagnosed, Requirement.readAll_undiagnosed_iff]
  · rename_i other
    refine iff_of_false (by simp [RuleError.failure]) ?_
    rintro ⟨entries, _, _, _, _, same, _⟩
    exact other entries same

end Rule

end Accolade
