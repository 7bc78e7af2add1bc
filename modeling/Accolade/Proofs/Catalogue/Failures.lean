import Accolade.Proofs.Catalogue.Definitions
import Accolade.Proofs.Rule.Undiagnosed

/-!
# When loading fails

A malformed rule is rejected and takes no other rule with it, unless its first fault has no
diagnosis. Then the whole document is not loaded. The only other way for lenient loading to fail
on a document with definitions is a key that cannot be put into words. Keys without an order, a
threshold of too many digits, or an integer that cannot be written into a name or a message are
always the reason.
-/

namespace Accolade

/-- Whether a failure is one of those that stop a loading: keys without an order, a threshold of
too many digits, or an integer that cannot be written. -/
def Failure.StopsLoading (failure : Failure) : Prop :=
  (∃ left right, failure = .unordered left right) ∨
    (∃ digits, failure = .tooManyDigits (some digits)) ∨ failure = .tooLongToWrite

/-- A cause without a diagnosis stops the loading, since only a diagnosis can be noted beside a
rule. -/
theorem DefinitionError.failure_stopsLoading {error : DefinitionError}
    (undiagnosed : error.diagnosis? = none) : error.failure.StopsLoading := by
  rcases error.diagnosis?_eq_none_iff.mp undiagnosed with
    ⟨left, right, rfl⟩ | ⟨digits, rfl⟩ | unwritable
  · exact .inl ⟨left, right, rfl⟩
  · exact .inr (.inl ⟨digits, rfl⟩)
  · refine .inr (.inr ?_)
    cases error <;> first
      | exact unwritable.elim
      | simp only [failure, undiagnosed]

/-- A rule that is refused without a diagnosis stops the loading. -/
theorem RuleError.failure_stopsLoading {error : RuleError} {name : String}
    (undiagnosed : ∀ diagnosis, error.failure name ≠ .diagnosed diagnosis) :
    (error.failure name).StopsLoading := by
  cases error with
  | requirement cause =>
    refine DefinitionError.failure_stopsLoading ?_
    by_contra known
    obtain ⟨diagnosis, diagnosed⟩ := cause.failure_eq_diagnosed_iff.mpr known
    exact undiagnosed diagnosis diagnosed
  | notMapping definition => exact absurd rfl (undiagnosed _)
  | fields faults definition => exact absurd rfl (undiagnosed _)
  | replacesItself definition => exact absurd rfl (undiagnosed _)

namespace Catalogue

/-- A definition is reported unless its first fault has no diagnosis. -/
theorem isReported_iff (name : String) (definition : Value) :
    IsReported (name, definition) ↔ ¬ Rule.Undiagnosed name definition := by
  rw [← Rule.read_undiagnosed_iff]
  simp only [IsReported, not_exists, not_and, not_forall, not_not, ne_eq]

/-- Lenient reading fails with the failure of a definition that is not reported. -/
theorem readRules_lenient_failure {definitions : List (String × Value)} {failure : Failure}
    (failing : readRules .lenient definitions = .error failure) : failure.StopsLoading := by
  induction definitions with
  | nil => contradiction
  | cons entry rest inductionHypothesis =>
    by_cases reported : IsReported entry
    · rw [readRules_lenient_cons reported] at failing
      cases later : readRules .lenient rest with
      | ok outcome => simp [later, Except.map] at failing
      | error cause =>
        simp only [later, Except.map, Except.error.injEq] at failing
        exact inductionHypothesis (failing ▸ later)
    · obtain ⟨error, _, undiagnosed, stopped⟩ := readRules_unreported reported .lenient rest
      obtain rfl := Except.error.inj (failing.symm.trans stopped)
      exact RuleError.failure_stopsLoading undiagnosed

/-- A requirement with keys beside its fact that have no order among them. -/
def mixedRequirement : Value :=
  .mapping [(.text "achievement", .text "Good"), (.text "note", .text "x"),
    (.integer 1, .integer 2)]

/-- A sound rule beside a rule with the given requirements. -/
def besideGood (requirements : List Value) : Entries :=
  [(.text "Good", .mapping []),
    (.text "Bad", .mapping [(.text "requirements", .list requirements)])]

/-- A requirement of no known form that holds an integer too long to be written. -/
def longRequirement : Value :=
  .mapping [(.text "unknown", .integer (DecimalText.leastBeyond DecimalText.digitLimit))]

/-- A rule with such a requirement has no diagnosis: its message would have to show the integer. -/
theorem undiagnosed_long :
    Rule.Undiagnosed "Bad" (.mapping [(.text "requirements", .list [longRequirement])]) := by
  refine ⟨_, _, [], longRequirement, [], rfl, rfl, by decide, rfl, by simp, ?_⟩
  exact .form (by decide)
    (by simp [Value.hasText, Value.entriesHaveText, Scalar.hasText])

end Catalogue

end Accolade
