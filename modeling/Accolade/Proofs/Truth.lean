import Accolade.Proofs.Evaluation

/-!
# What requirements mean

The meaning of a requirement does not depend on the order in which its leaves are looked at. A
leaf on achievements or experience is true when exactly one record is found and its amount
passes the test; a leaf on events is true when the number of events that satisfy the conditions
does. A leaf has no truth value when the scope does not resolve, when the lookup fails, when more
than one record is found where one is expected, or when the threshold for events is too long to be
written. Inner nodes are true when some child is, exactly one is, or all are.

Evaluation stops early and may never look at a leaf without a truth value. If all leaves have
one, it answers with the truth value of the tree. If not and it answers all the same, the answer
is right whatever the truth values of the leaves without one are taken to be, at each place of
the tree for itself.
-/

namespace Accolade

variable {σ : Type}

/-- A lookup that returns in a state, leaves it as it is and finds whole amounts only, unless it
fails. The amounts of events are never read. -/
structure Lookup.IsSteady (lookup : Lookup σ) (state : σ) : Prop where
  still : lookup.IsStill state
  returns : ∀ kind query, (lookup kind query state).1 ≠ .pending
  whole : ∀ kind query found, kind ≠ .event → (lookup kind query state).1 = .answer found →
    ∀ fact ∈ found, fact.amount.whole?.isSome = true

namespace Condition

mutual

/-- Whether a condition is true of the attributes of an event. -/
def truth (attributes : Entries) : Condition → Bool
  | .parameter name value =>
    (Entries.field? attributes name).any fun actual => actual.strictlySame value
  | .anyOf children => (truths attributes children).any id
  | .oneOf children => (truths attributes children).count true == 1
  | .allOf children => (truths attributes children).all id

/-- Which conditions of a list are true. -/
def truths (attributes : Entries) : List Condition → List Bool
  | [] => []
  | child :: rest => truth attributes child :: truths attributes rest

end

mutual

/-- A condition holds exactly when its truth value is true, by induction over the tree. -/
theorem holds_eq_truth (attributes : Entries) : ∀ condition : Condition,
    condition.holds attributes = condition.truth attributes
  | .parameter name value => by
    unfold holds truth
    cases Entries.field? attributes name <;> rfl
  | .anyOf children => by
    rw [holds, truth, someHolds_eq attributes children]
  | .oneOf children => by
    rw [holds, truth, countHolding_eq attributes children]
  | .allOf children => by
    rw [holds, truth, allHold_eq attributes children]

/-- Some condition of a list holds when one is true. -/
theorem someHolds_eq (attributes : Entries) : ∀ children : List Condition,
    someHolds attributes children = (truths attributes children).any id
  | [] => rfl
  | child :: rest => by
    rw [someHolds, truths, List.any_cons, holds_eq_truth attributes child,
      someHolds_eq attributes rest, id]

/-- All conditions of a list hold when all are true. -/
theorem allHold_eq (attributes : Entries) : ∀ children : List Condition,
    allHold attributes children = (truths attributes children).all id
  | [] => rfl
  | child :: rest => by
    rw [allHold, truths, List.all_cons, holds_eq_truth attributes child,
      allHold_eq attributes rest, id]

/-- The number of conditions of a list that hold is the number of those that are true. -/
theorem countHolding_eq (attributes : Entries) : ∀ children : List Condition,
    countHolding attributes children = (truths attributes children).count true
  | [] => rfl
  | child :: rest => by
    rw [countHolding, truths, List.count_cons, holds_eq_truth attributes child,
      countHolding_eq attributes rest, Nat.add_comm]
    simp

end

/-- Whether an event satisfies conditions that may be missing. -/
def isTrueOf (conditions : Option Condition) (event : Fact) : Bool :=
  conditions.all fun condition => condition.truth event.attributes

end Condition

namespace Requirement

mutual

/-- The leaves of a tree, from left to right. -/
def leaves : Requirement → List Requirement
  | .achievement name amount => [.achievement name amount]
  | .experience name amount => [.experience name amount]
  | .event name amount conditions => [.event name amount conditions]
  | .anyOf children => leavesOf children
  | .oneOf children => leavesOf children
  | .allOf children => leavesOf children

/-- The leaves of the trees of a list. -/
def leavesOf : List Requirement → List Requirement
  | [] => []
  | child :: rest => leaves child ++ leavesOf rest

end

mutual

/-- The truth value of a tree, from those of its leaves. A leaf without one has the value that is
guessed for its place: the numbers of the children on the way to it, the last one first. -/
def truth (known? : Requirement → Option Bool) (guess : List Nat → Bool) (place : List Nat) :
    Requirement → Bool
  | .achievement name amount => (known? (.achievement name amount)).getD (guess place)
  | .experience name amount => (known? (.experience name amount)).getD (guess place)
  | .event name amount conditions => (known? (.event name amount conditions)).getD (guess place)
  | .anyOf children => (truths known? guess place 0 children).any id
  | .oneOf children => (truths known? guess place 0 children).count true == 1
  | .allOf children => (truths known? guess place 0 children).all id

/-- The truth values of the children at a place, numbered from an index on. -/
def truths (known? : Requirement → Option Bool) (guess : List Nat → Bool) (place : List Nat)
    (index : Nat) : List Requirement → List Bool
  | [] => []
  | child :: rest =>
    truth known? guess (index :: place) child :: truths known? guess place (index + 1) rest

end

/-- The facts found under a name within the scope. There are none to speak of when the scope does
not resolve or the lookup fails. -/
def factsFound? (lookup : Lookup σ) (state : σ) (context : Context) (kind : FactKind)
    (name : String) : Option (List Fact) :=
  if context.Resolves then
    match (lookup kind (Ledger.queryOf (.text name) context.boundValues) state).1 with
    | .answer found => some found
    | _ => none
  else none

/-- Whether there is exactly one record and its amount passes a test. Of more than one record
there is nothing to say. -/
def onlyPasses? (test : AmountTest) : List Fact → Option Bool
  | [] => some false
  | [fact] => fact.amount.whole?.map test.isMetBy
  | _ => none

/-- Whether the number of events that satisfy conditions passes a test. Of a threshold that is too
long to be written there is nothing to say. -/
def eventsPass? (test : AmountTest) (conditions : Option Condition) (events : List Fact) :
    Option Bool :=
  if DecimalText.isShort test.threshold then
    some (test.isMetBy (events.countP (Condition.isTrueOf conditions)))
  else none

/-- The truth value of a leaf, if it has one. -/
def leafTruth? (lookup : Lookup σ) (state : σ) (context : Context) : Requirement → Option Bool
  | .achievement name test =>
    (factsFound? lookup state context .achievement name).bind (onlyPasses? test)
  | .experience name test =>
    (factsFound? lookup state context .experience name).bind (onlyPasses? test)
  | .event name test conditions =>
    (factsFound? lookup state context .event name).bind (eventsPass? test conditions)
  | _ => none

/-- Whether a reply is the truth value of a leaf, or a failure where it has none. -/
def Tells (reply : Reply Bool) : Option Bool → Prop
  | some truth => reply = .answer truth
  | none => ∃ failure, reply = .failed failure

/-- Whether a tree is a leaf. -/
def isLeaf : Requirement → Bool
  | .achievement _ _ | .experience _ _ | .event _ _ _ => true
  | _ => false

mutual

/-- The leaves of a tree are leaves, so their truth values are defined. -/
theorem leaves_isLeaf : ∀ requirement : Requirement, ∀ leaf ∈ requirement.leaves, leaf.isLeaf = true
  | .achievement _ _ => by simp [leaves, isLeaf]
  | .experience _ _ => by simp [leaves, isLeaf]
  | .event _ _ _ => by simp [leaves, isLeaf]
  | .anyOf children => leavesOf_isLeaf children
  | .oneOf children => leavesOf_isLeaf children
  | .allOf children => leavesOf_isLeaf children

/-- The leaves of the trees of a list are leaves. -/
theorem leavesOf_isLeaf : ∀ children : List Requirement, ∀ leaf ∈ leavesOf children,
    leaf.isLeaf = true
  | [] => by simp [leavesOf]
  | child :: rest => by
    intro leaf member
    rcases List.mem_append.mp member with own | later
    · exact leaves_isLeaf child leaf own
    · exact leavesOf_isLeaf rest leaf later

end

/-- A test on the only record tells whether there is one and it passes. -/
theorem holdsOnOnly_tells (kind : FactKind) (query : Entries) (test : AmountTest)
    {found : List Fact} (whole : ∀ fact ∈ found, fact.amount.whole?.isSome = true) :
    Tells (holdsOnOnly kind query test found) (onlyPasses? test found) := by
  match found with
  | [] => rfl
  | [fact] =>
    obtain ⟨number, known⟩ := Option.isSome_iff_exists.mp (whole fact List.mem_cons_self)
    simp only [holdsOnOnly, passes_of_whole test (whole fact List.mem_cons_self), onlyPasses?,
      test.holds_eq known, known]
    rfl
  | _ :: _ :: _ => exact ⟨_, rfl⟩

/-- The events that match are those that the conditions are true of. -/
theorem matchingEvents_eq (conditions : Option Condition) (events : List Fact) :
    matchingEvents conditions events = events.countP (Condition.isTrueOf conditions) := by
  cases conditions with
  | none => exact (List.countP_eq_length.mpr fun _ _ => rfl).symm
  | some condition =>
    rw [matchingEvents, ← List.countP_eq_length_filter]
    refine List.countP_congr fun event _ => ?_
    rw [Condition.holds_eq_truth]
    rfl

/-- A test on events tells whether their number passes it. -/
theorem holdsOnEvents_tells (test : AmountTest) (conditions : Option Condition)
    (events : List Fact) :
    Tells (holdsOnEvents test conditions events) (eventsPass? test conditions events) := by
  cases short : DecimalText.isShort test.threshold with
  | true =>
    rw [holdsOnEvents_of_isShort short, test.holdsAt_eq, matchingEvents_eq, eventsPass?,
      if_pos short]
    rfl
  | false =>
    rw [holdsOnEvents_of_not_isShort short, eventsPass?, short]
    exact ⟨_, rfl⟩

section Leaves

variable {lookup : Lookup σ} {state : σ} (steady : lookup.IsSteady state) (context : Context)
include steady

/-- What a leaf replies is up to its judge, where facts are found. Otherwise it fails. -/
theorem evaluateLeaf_tells (kind : FactKind) (name : String)
    {judge : Entries → List Fact → Reply Bool} {value? : List Fact → Option Bool}
    (judged : ∀ query found, (kind ≠ .event → ∀ fact ∈ found, fact.amount.whole?.isSome = true) →
      Tells (judge query found) (value? found)) :
    Tells (evaluateLeaf lookup context kind name judge state).1
      ((factsFound? lookup state context kind name).bind value?) := by
  unfold evaluateLeaf factsFound?
  rw [context.queryFor_eq]
  by_cases resolves : context.Resolves
  · rw [Context.scopeValues_of_resolves resolves]
    simp only [Except.map, resolves, if_true]
    generalize Ledger.queryOf (.text name) context.boundValues = query
    have returns := steady.returns kind query
    have whole := steady.whole kind query
    cases replied : lookup kind query state with
    | mk reply after =>
      rw [replied] at returns whole
      cases reply with
      | answer found =>
        simp only [facts, replied]
        exact judged query found fun eventless => whole found eventless rfl
      | failed failure => cases failure <;> simp [facts, replied, Tells]
      | pending => contradiction
  · simp only [resolves, if_false]
    cases bound : context.scopeValues with
    | ok values => exact absurd ((context.scopeValues_eq_ok_iff values).mp bound).1 resolves
    | error failure => exact ⟨failure, rfl⟩

/-- A leaf replies with its truth value and fails where it has none. -/
theorem evaluate_tells : ∀ leaf : Requirement, leaf.isLeaf = true →
    Tells (leaf.evaluate lookup context state).1 (leafTruth? lookup state context leaf)
  | .achievement name test, _ => evaluateLeaf_tells steady context .achievement name
      fun query _ whole => holdsOnOnly_tells .achievement query test (whole (by decide))
  | .experience name test, _ => evaluateLeaf_tells steady context .experience name
      fun query _ whole => holdsOnOnly_tells .experience query test (whole (by decide))
  | .event name test conditions, _ => evaluateLeaf_tells steady context .event name
      fun _ found _ => holdsOnEvents_tells test conditions found

end Leaves

/-- Where all replies are answers, exactly-one counts those that are true. -/
theorem exactlyOne_answers (answers : List Bool) :
    exactlyOne (answers.map .answer) = .answer (answers.count true == 1) := by
  have unfailed : firstFailure? (answers.map .answer) = none := by
    induction answers with
    | nil => rfl
    | cons first rest inductionHypothesis => exact inductionHypothesis
  have arrived : (answers.map Reply.answer).any isPending = false := by
    simp [isPending]
  have counted : (answers.map Reply.answer).countP isFulfilled = answers.count true := by
    rw [List.countP_map]
    exact List.countP_congr fun answer _ => by simp [isFulfilled]
  unfold exactlyOne
  simp only [unfailed, arrived, counted, Bool.false_eq_true, if_false]

/-- Exactly-one answers only when all replies are answers. -/
theorem answers_of_exactlyOne {replies : List (Reply Bool)} {answer : Bool}
    (told : exactlyOne replies = .answer answer) :
    ∃ answers : List Bool, replies = answers.map .answer := by
  unfold exactlyOne at told
  split at told
  · contradiction
  · rename_i unfailed
    split at told
    · contradiction
    · rename_i arrived
      have each : ∀ reply ∈ replies, reply = .answer (isFulfilled reply) := by
        intro reply member
        cases reply with
        | answer value => rfl
        | failed failure => exact absurd member (not_mem_of_firstFailure? unfailed failure)
        | pending => exact absurd (List.any_eq_true.mpr ⟨_, member, rfl⟩) arrived
      refine ⟨replies.map isFulfilled, ?_⟩
      calc replies = replies.map id := (List.map_id replies).symm
        _ = replies.map fun reply => .answer (isFulfilled reply) := List.map_congr_left each
        _ = (replies.map isFulfilled).map .answer := (List.map_map ..).symm

section Trees

variable {lookup : Lookup σ} {state : σ} (steady : lookup.IsSteady state) (context : Context)
include steady

/-- The answer of a leaf is its truth value, whatever is guessed. -/
theorem truth_of_leaf {leaf : Requirement} (form : leaf.isLeaf = true) {answer : Bool}
    (told : (leaf.evaluate lookup context state).1 = .answer answer) (guess : Bool) :
    (leafTruth? lookup state context leaf).getD guess = answer := by
  have tells := evaluate_tells steady context leaf form
  cases known : leafTruth? lookup state context leaf with
  | none =>
    rw [known] at tells
    obtain ⟨failure, failed⟩ := tells
    rw [failed] at told
    contradiction
  | some value =>
    rw [known] at tells
    exact Reply.answer.inj (tells.symm.trans told)

/-- A leaf with a truth value answers, since it has one only where its lookup does not fail. -/
theorem answers_of_leaf {leaf : Requirement} (form : leaf.isLeaf = true)
    (known : leafTruth? lookup state context leaf ≠ none) :
    ∃ answer, (leaf.evaluate lookup context state).1 = .answer answer := by
  have tells := evaluate_tells steady context leaf form
  obtain ⟨value, given⟩ := Option.ne_none_iff_exists'.mp known
  rw [given] at tells
  exact ⟨value, tells⟩

mutual

/-- An answer is the truth value of the tree, whatever is guessed. -/
theorem evaluate_right (guess : List Nat → Bool) : ∀ (requirement : Requirement)
    (place : List Nat) (answer : Bool),
    (requirement.evaluate lookup context state).1 = .answer answer →
    requirement.truth (leafTruth? lookup state context) guess place = answer
  | .achievement _ _, place, _, told => truth_of_leaf steady context rfl told (guess place)
  | .experience _ _, place, _, told => truth_of_leaf steady context rfl told (guess place)
  | .event _ _ _, place, _, told => truth_of_leaf steady context rfl told (guess place)
  | .anyOf children, place, answer, told => evaluateAny_right guess children place 0 answer told
  | .oneOf children, place, answer, told => by
    obtain ⟨answers, replied⟩ := answers_of_exactlyOne told
    have counted : exactlyOne (answers.map .answer) = .answer answer := replied ▸ told
    rw [exactlyOne_answers] at counted
    rw [truth, evaluateEach_right guess children place 0 answers replied]
    exact Reply.answer.inj counted
  | .allOf children, place, answer, told => evaluateAll_right guess children place 0 answer told

/-- The answer of a conjunction is its truth value: a child that is not true decides. -/
theorem evaluateAll_right (guess : List Nat → Bool) : ∀ (children : List Requirement)
    (place : List Nat) (index : Nat) (answer : Bool),
    (evaluateAll lookup context children state).1 = .answer answer →
    (truths (leafTruth? lookup state context) guess place index children).all id = answer
  | [], _, _, _, told => Reply.answer.inj told
  | child :: rest, place, index, answer, told => by
    rw [evaluateAll_cons steady.still] at told
    rw [truths, List.all_cons, id]
    split at told
    · rename_i fulfilled
      rw [evaluate_right guess child (index :: place) true fulfilled, Bool.true_and]
      exact evaluateAll_right guess rest place (index + 1) answer told
    · rename_i other
      cases answer with
      | true => exact absurd told other
      | false => rw [evaluate_right guess child (index :: place) false told, Bool.false_and]

/-- The answer of a choice is its truth value: a child that is true decides. -/
theorem evaluateAny_right (guess : List Nat → Bool) : ∀ (children : List Requirement)
    (place : List Nat) (index : Nat) (answer : Bool),
    (evaluateAny lookup context children state).1 = .answer answer →
    (truths (leafTruth? lookup state context) guess place index children).any id = answer
  | [], _, _, _, told => Reply.answer.inj told
  | child :: rest, place, index, answer, told => by
    rw [evaluateAny_cons steady.still] at told
    rw [truths, List.any_cons, id]
    split at told
    · rename_i refused
      rw [evaluate_right guess child (index :: place) false refused, Bool.false_or]
      exact evaluateAny_right guess rest place (index + 1) answer told
    · rename_i other
      cases answer with
      | false => exact absurd told other
      | true => rw [evaluate_right guess child (index :: place) true told, Bool.true_or]

/-- When all children answer, their answers are their truth values. -/
theorem evaluateEach_right (guess : List Nat → Bool) : ∀ (children : List Requirement)
    (place : List Nat) (index : Nat) (answers : List Bool),
    (evaluateEach lookup context children state).1 = answers.map .answer →
    truths (leafTruth? lookup state context) guess place index children = answers
  | [], _, _, answers, told => (List.map_eq_nil_iff.mp told.symm).symm
  | child :: rest, place, index, answers, told => by
    rw [evaluateEach_cons steady.still] at told
    obtain ⟨first, others, rfl, own, later⟩ := List.map_eq_cons_iff.mp told.symm
    rw [truths, evaluate_right guess child (index :: place) first own.symm,
      evaluateEach_right guess rest place (index + 1) others later.symm]

end

mutual

/-- A tree whose leaves all have truth values is answered, as no combinator fails by itself. -/
theorem evaluate_answers : ∀ requirement : Requirement,
    (∀ leaf ∈ requirement.leaves, leafTruth? lookup state context leaf ≠ none) →
    ∃ answer, (requirement.evaluate lookup context state).1 = .answer answer
  | .achievement _ _, known => answers_of_leaf steady context rfl (known _ List.mem_cons_self)
  | .experience _ _, known => answers_of_leaf steady context rfl (known _ List.mem_cons_self)
  | .event _ _ _, known => answers_of_leaf steady context rfl (known _ List.mem_cons_self)
  | .anyOf children, known => evaluateAny_answers children known
  | .oneOf children, known => by
    obtain ⟨answers, replied⟩ := evaluateEach_answers children known
    exact ⟨_, (congrArg exactlyOne replied).trans (exactlyOne_answers answers)⟩
  | .allOf children, known => evaluateAll_answers children known

/-- A conjunction of trees whose leaves all have truth values is answered. -/
theorem evaluateAll_answers : ∀ children : List Requirement,
    (∀ leaf ∈ leavesOf children, leafTruth? lookup state context leaf ≠ none) →
    ∃ answer, (evaluateAll lookup context children state).1 = .answer answer
  | [], _ => ⟨true, rfl⟩
  | child :: rest, known => by
    obtain ⟨own, later⟩ := List.forall_mem_append.mp known
    obtain ⟨answer, told⟩ := evaluate_answers child own
    rw [evaluateAll_cons steady.still, told]
    cases answer with
    | true => exact evaluateAll_answers rest later
    | false => exact ⟨false, rfl⟩

/-- A choice between trees whose leaves all have truth values is answered. -/
theorem evaluateAny_answers : ∀ children : List Requirement,
    (∀ leaf ∈ leavesOf children, leafTruth? lookup state context leaf ≠ none) →
    ∃ answer, (evaluateAny lookup context children state).1 = .answer answer
  | [], _ => ⟨false, rfl⟩
  | child :: rest, known => by
    obtain ⟨own, later⟩ := List.forall_mem_append.mp known
    obtain ⟨answer, told⟩ := evaluate_answers child own
    rw [evaluateAny_cons steady.still, told]
    cases answer with
    | true => exact ⟨true, rfl⟩
    | false => exact evaluateAny_answers rest later

/-- Each of several trees whose leaves all have truth values is answered, when all are asked. -/
theorem evaluateEach_answers : ∀ children : List Requirement,
    (∀ leaf ∈ leavesOf children, leafTruth? lookup state context leaf ≠ none) →
    ∃ answers : List Bool, (evaluateEach lookup context children state).1 = answers.map .answer
  | [], _ => ⟨[], rfl⟩
  | child :: rest, known => by
    obtain ⟨own, later⟩ := List.forall_mem_append.mp known
    obtain ⟨answer, told⟩ := evaluate_answers child own
    obtain ⟨answers, replied⟩ := evaluateEach_answers rest later
    refine ⟨answer :: answers, ?_⟩
    rw [evaluateEach_cons steady.still, told, replied, List.map_cons]

end

end Trees

/-- Evaluation never changes the truth value of a requirement. Each leaf replies with its truth
value and fails where it has none. If all leaves have truth values, the tree is answered with its
own; if some have not and it is answered, the answer is its truth value whatever is guessed for
them. -/
theorem evaluate_truth {lookup : Lookup σ} {state : σ} (steady : lookup.IsSteady state)
    (context : Context) (requirement : Requirement) :
    let known? := leafTruth? lookup state context
    let reply := (requirement.evaluate lookup context state).1
    (∀ leaf ∈ requirement.leaves, Tells (leaf.evaluate lookup context state).1 (known? leaf)) ∧
      ((∀ leaf ∈ requirement.leaves, known? leaf ≠ none) →
        ∀ guess, reply = .answer (requirement.truth known? guess [])) ∧
      ∀ answer, reply = .answer answer → ∀ guess, requirement.truth known? guess [] = answer := by
  intro known? reply
  refine ⟨?_, ?_, ?_⟩
  · intro leaf member
    exact evaluate_tells steady context leaf (leaves_isLeaf requirement leaf member)
  · intro known guess
    obtain ⟨answer, told⟩ := evaluate_answers steady context requirement known
    rw [evaluate_right steady context guess requirement [] answer told]
    exact told
  · intro answer told guess
    exact evaluate_right steady context guess requirement [] answer told

/-- A lookup in one ledger of awards and events, while experience cannot be queried. -/
def withoutExperience : Lookup Ledger := fun kind query ledger =>
  match kind with
  | .experience => (.failed (.foreign "down"), ledger)
  | _ => (.answer (ledger.find query), ledger)

/-- Behind a choice that an award decides, experience may be anything. -/
theorem award_decides :
    let ledger : Ledger :=
      [⟨.text "Beginner", .integer 1, [(.text subjectKey, .integer 2)], [], none⟩]
    let context := Context.of (.integer 2) [] defaultScope
    let experience : Requirement := .experience "points" (.atLeast 5)
    let choice : Requirement := .anyOf [.achievement "Beginner" (.atLeast 1), experience]
    let known? := leafTruth? withoutExperience ledger context
    withoutExperience.IsSteady ledger ∧ known? experience = none ∧
      (choice.evaluate withoutExperience context ledger).1 = .answer true ∧
      ∀ guess, choice.truth known? guess [] = true := by
  intro ledger context experience choice known?
  have steady : withoutExperience.IsSteady ledger := by
    refine ⟨?_, ?_, ?_⟩
    · intro kind query
      cases kind <;> rfl
    · intro kind query
      cases kind <;> simp [withoutExperience]
    · intro kind query found eventless answered fact member
      cases kind with
      | achievement =>
        cases answered
        rw [List.mem_singleton.mp (List.mem_filter.mp member).1]
        rfl
      | experience => contradiction
      | event => contradiction
  have told : (choice.evaluate withoutExperience context ledger).1 = .answer true := rfl
  exact ⟨steady, rfl, told, (evaluate_truth steady context choice).2.2 true told⟩

end Requirement

end Accolade
