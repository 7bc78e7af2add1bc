import Accolade.Proofs.Cycle.Check
import Accolade.Proofs.Likeness

/-!
# Where breaches of integrity come from

A requirement fails only as one of its leaves does. On a calm lookup, in a context with textual
attributes, a leaf fails for one of two reasons: its scope does not resolve, or it finds two
records where one is expected. Only the second is a breach of integrity. The comparison with the
cap adds all records up and never breaks.

So the outcome of a rule speaks of a breach only if some achievement or experience that its
requirement names has two records within the scope of the rule.
-/

namespace Accolade

variable {σ : Type}

/-- Whether a failure is a breach of the integrity of a store. -/
def Failure.IsBreach (failure : Failure) : Prop :=
  ∃ diagnosis : Diagnosis, failure = .diagnosed diagnosis ∧ diagnosis.category = .integrity

/-- A failure of another category than that of integrity is no breach. -/
theorem Failure.not_isBreach {diagnosis : Diagnosis} (other : diagnosis.category ≠ .integrity) :
    ¬ (Failure.diagnosed diagnosis).IsBreach := by
  rintro ⟨_, same, category⟩
  cases same
  exact other category

namespace Requirement

section Trees

variable {lookup : Lookup σ} {state : σ} {context : Context} {failure : Failure}

mutual

/-- A tree fails as one of its leaves does: no combinator adds a failure of its own. -/
theorem evaluate_failed (still : lookup.IsStill state) : ∀ requirement : Requirement,
    (requirement.evaluate lookup context state).1 = .failed failure →
    ∃ leaf ∈ requirement.leaves, (leaf.evaluate lookup context state).1 = .failed failure
  | .achievement _ _, failed => ⟨_, List.mem_singleton.mpr rfl, failed⟩
  | .experience _ _, failed => ⟨_, List.mem_singleton.mpr rfl, failed⟩
  | .event _ _ _, failed => ⟨_, List.mem_singleton.mpr rfl, failed⟩
  | .anyOf children, failed => evaluateAny_failed still children failed
  | .oneOf children, failed => by
    refine evaluateEach_failed still children (mem_of_firstFailure? ?_)
    have told : exactlyOne (evaluateEach lookup context children state).1 = .failed failure :=
      failed
    unfold exactlyOne at told
    split at told
    · rename_i found
      cases told
      exact found
    · split at told <;> contradiction
  | .allOf children, failed => evaluateAll_failed still children failed

/-- A conjunction fails as one of the leaves in it does, that of the first child that fails. -/
theorem evaluateAll_failed (still : lookup.IsStill state) : ∀ children : List Requirement,
    (evaluateAll lookup context children state).1 = .failed failure →
    ∃ leaf ∈ leavesOf children, (leaf.evaluate lookup context state).1 = .failed failure
  | [], failed => by contradiction
  | child :: rest, failed => by
    rw [evaluateAll_cons still] at failed
    split at failed
    · obtain ⟨leaf, member, told⟩ := evaluateAll_failed still rest failed
      exact ⟨leaf, List.mem_append_right _ member, told⟩
    · obtain ⟨leaf, member, told⟩ := evaluate_failed still child failed
      exact ⟨leaf, List.mem_append_left _ member, told⟩

/-- A choice fails as one of the leaves in it does, that of the first child that fails. -/
theorem evaluateAny_failed (still : lookup.IsStill state) : ∀ children : List Requirement,
    (evaluateAny lookup context children state).1 = .failed failure →
    ∃ leaf ∈ leavesOf children, (leaf.evaluate lookup context state).1 = .failed failure
  | [], failed => by contradiction
  | child :: rest, failed => by
    rw [evaluateAny_cons still] at failed
    split at failed
    · obtain ⟨leaf, member, told⟩ := evaluateAny_failed still rest failed
      exact ⟨leaf, List.mem_append_right _ member, told⟩
    · obtain ⟨leaf, member, told⟩ := evaluate_failed still child failed
      exact ⟨leaf, List.mem_append_left _ member, told⟩

/-- Where all children are asked, each that fails does so as one of its leaves does. -/
theorem evaluateEach_failed (still : lookup.IsStill state) : ∀ children : List Requirement,
    .failed failure ∈ (evaluateEach lookup context children state).1 →
    ∃ leaf ∈ leavesOf children, (leaf.evaluate lookup context state).1 = .failed failure
  | [], failed => by simp [evaluateEach] at failed
  | child :: rest, failed => by
    rw [evaluateEach_cons still] at failed
    rcases List.mem_cons.mp failed with own | later
    · obtain ⟨leaf, member, told⟩ := evaluate_failed still child own.symm
      exact ⟨leaf, List.mem_append_left _ member, told⟩
    · obtain ⟨leaf, member, told⟩ := evaluateEach_failed still rest later
      exact ⟨leaf, List.mem_append_right _ member, told⟩

end

end Trees

/-- The only record with a whole amount breaks nothing; two records do. -/
theorem two_of_holdsOnOnly {kind : FactKind} {query : Entries} {test : AmountTest}
    {found : List Fact} (whole : ∀ fact ∈ found, fact.amount.whole?.isSome = true)
    {failure : Failure} (failed : holdsOnOnly kind query test found = .failed failure) :
    2 ≤ found.length := by
  match found with
  | [] => contradiction
  | [fact] =>
    obtain ⟨passed, tested⟩ := test.holds_of_whole (whole fact List.mem_cons_self)
    simp only [holdsOnOnly, passes_of_whole test (whole fact List.mem_cons_self), tested] at failed
    contradiction
  | _ :: _ :: _ => simp

/-- Judging events is no breach, whatever it fails with: it reads no amounts of records. -/
theorem holdsOnEvents_not_breach {test : AmountTest} {conditions : Option Condition}
    {events : List Fact} {failure : Failure}
    (failed : holdsOnEvents test conditions events = .failed failure) : ¬ failure.IsBreach := by
  unfold holdsOnEvents at failed
  split at failed
  · contradiction
  · cases failed
    rintro ⟨_, same, _⟩
    contradiction

/-- Whether two records are found under a name that a requirement reads, where one is expected. -/
def FindsTwo (lookup : Lookup σ) (state : σ) (context : Context) (requirement : Requirement) :
    Prop :=
  ∃ kind name found, kind ≠ .event ∧ name ∈ requirement.leafNames kind ∧ context.Resolves ∧
    (lookup kind (Ledger.queryOf (.text name) context.boundValues) state).1 = .answer found ∧
      2 ≤ found.length

section Breaches

variable {lookup : Lookup σ} {state : σ} (calm : lookup.IsCalm state) {context : Context}
  (texts : AreTexts (Entries.keys context.attributes)) {failure : Failure}
  (breach : failure.IsBreach)
include calm texts breach

/-- A leaf breaks as its judge does on what is found, within a scope that resolves. -/
theorem evaluateLeaf_breach {kind : FactKind} {name : String}
    {judge : Entries → List Fact → Reply Bool}
    (failed : (evaluateLeaf lookup context kind name judge state).1 = .failed failure) :
    context.Resolves ∧ ∃ found,
      (lookup kind (Ledger.queryOf (.text name) context.boundValues) state).1 = .answer found ∧
      (kind ≠ .event → ∀ fact ∈ found, fact.amount.whole?.isSome = true) ∧
      judge (Ledger.queryOf (.text name) context.boundValues) found = .failed failure := by
  unfold evaluateLeaf at failed
  rw [context.queryFor_eq] at failed
  by_cases resolves : context.Resolves
  · obtain ⟨found, replied, whole⟩ :=
      calm.answers kind (Ledger.queryOf (.text name) context.boundValues)
    rw [Context.scopeValues_of_resolves resolves] at failed
    simp only [Except.map, facts, replied] at failed
    exact ⟨resolves, found, by rw [replied], whole, failed⟩
  · obtain ⟨diagnosis, category, stopped⟩ := Context.scopeValues_of_not_resolves texts resolves
    rw [stopped] at failed
    cases failed
    exact absurd breach (Failure.not_isBreach (by simp [category]))

/-- A leaf breaks the integrity only when it finds two records, since one record or none gives an
amount. -/
theorem leaf_breach : ∀ leaf : Requirement, leaf.isLeaf = true →
    (leaf.evaluate lookup context state).1 = .failed failure → FindsTwo lookup state context leaf
  | .achievement name test, _, failed => by
    obtain ⟨resolves, found, replied, whole, judged⟩ :=
      evaluateLeaf_breach calm texts breach failed
    exact ⟨.achievement, name, found, by decide, by simp [leafNames], resolves, replied,
      two_of_holdsOnOnly (whole (by decide)) judged⟩
  | .experience name test, _, failed => by
    obtain ⟨resolves, found, replied, whole, judged⟩ :=
      evaluateLeaf_breach calm texts breach failed
    exact ⟨.experience, name, found, by decide, by simp [leafNames], resolves, replied,
      two_of_holdsOnOnly (whole (by decide)) judged⟩
  | .event name test conditions, _, failed => by
    obtain ⟨_, _, _, _, judged⟩ := evaluateLeaf_breach calm texts breach failed
    exact absurd breach (holdsOnEvents_not_breach judged)

/-- A requirement breaks only when one of its leaves finds two records. -/
theorem evaluate_breach {requirement : Requirement}
    (failed : (requirement.evaluate lookup context state).1 = .failed failure) :
    FindsTwo lookup state context requirement := by
  obtain ⟨leaf, member, told⟩ := evaluate_failed calm.still requirement failed
  obtain ⟨kind, name, found, expected, reads, rest⟩ :=
    leaf_breach calm texts breach leaf (leaves_isLeaf requirement leaf member) told
  exact ⟨kind, name, found, expected, leafNames_of_leaf kind name requirement leaf member reads,
    rest⟩

end Breaches

end Requirement

namespace Rule

variable {lookup : Lookup σ} {state : σ} (calm : lookup.IsCalm state) {context : Context}
  (texts : AreTexts (Entries.keys context.attributes))
include calm texts

/-- A check breaks only when the requirement finds two records within the scope of the rule. -/
theorem check_breach {rule : Rule} {failure : Failure} (breach : failure.IsBreach)
    (failed : (rule.check lookup context state).1 = .failed failure) :
    rule.requirement.FindsTwo lookup state (context.forScope rule.scope) := by
  have textsWithin : AreTexts (Entries.keys (context.forScope rule.scope).attributes) := texts
  have unbroken : (rule.canBeAwarded lookup context state).1 ≠ .failed failure := by
    rcases awardedAmount_cases calm (context.forScope rule.scope) rule.name textsWithin with
      ⟨total, told⟩ | ⟨diagnosis, category, told⟩
    · simp [canBeAwarded, told, AmountTest.less_holds]
    · simp only [canBeAwarded, told, ne_eq, Reply.failed.injEq]
      rintro rfl
      exact Failure.not_isBreach (by simp [category]) breach
  rw [check_eq calm.still] at failed
  refine Requirement.evaluate_breach calm textsWithin breach ?_
  split at failed
  · split at failed
    · contradiction
    · rename_i other compared
      cases failed
      exact absurd compared unbroken
    · contradiction
  · contradiction
  · rename_i evaluated
    cases failed
    exact evaluated
  · contradiction

/-- The outcome of a rule speaks of a breach only if its requirement finds two records. -/
theorem judge_breach {rule : Rule} {policy : Option RetryPolicy} {outcome : Outcome}
    (judged : (rule.judge lookup policy context state).1 = .judged outcome) {error : Diagnosis}
    (erred : outcome.error = some error) (category : error.category = .integrity) :
    rule.requirement.FindsTwo lookup state (context.forScope rule.scope) := by
  rw [judge_of_calm calm texts] at judged
  have decided := check_decided calm texts rule
  cases checked : (rule.check lookup context state).1 with
  | answer both =>
    rw [checked] at judged
    cases judged
    contradiction
  | failed failure =>
    rw [checked] at judged decided
    cases decided with
    | failed lasts =>
      cases lasts with
      | diagnosed lasting =>
        cases judged
        cases erred
        exact check_breach calm texts ⟨_, rfl, category⟩ checked
      | tooLong => contradiction
  | pending =>
    rw [checked] at judged
    contradiction

end Rule

end Accolade
