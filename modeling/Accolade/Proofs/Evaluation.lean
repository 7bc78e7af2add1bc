import Accolade.Evaluation
import Accolade.Proofs.Context
import Accolade.Proofs.Rule.Amount

/-!
# What evaluation does to the state, and when it answers

Evaluation touches the collaborators through lookups only. Whatever every lookup does to the
state, and may be done again and again, evaluation does as well. In particular it leaves a
state alone that no lookup changes.

A lookup is calm in a state when it answers every query there, leaves the state as it is and
finds whole amounts only, events excepted. On a calm lookup, in a context with textual
attributes, evaluation is decided: it answers, or it stops with a diagnosis that no other
attempt can mend, or an integer would have to be written that is too long for it. The last
cannot happen where everything is brief: the thresholds for events, which evaluation notes,
and the attributes, which a diagnosis may have to show.
-/

namespace Accolade

variable {σ : Type}

/-- A relation between states that every lookup keeps to, and that may be followed again
and again. -/
structure Lookup.Moves (lookup : Lookup σ) (R : σ → σ → Prop) : Prop where
  refl : ∀ state, R state state
  trans : ∀ {first second third}, R first second → R second third → R first third
  step : ∀ kind query state, R state (lookup kind query state).2

/-- Whether no lookup changes a state. -/
def Lookup.IsStill (lookup : Lookup σ) (state : σ) : Prop :=
  ∀ kind query, (lookup kind query state).2 = state

/-- What does not change a still state is a relation that lookups keep to. -/
theorem Lookup.IsStill.moves {lookup : Lookup σ} {state : σ} (still : lookup.IsStill state) :
    lookup.Moves fun before after => before = state → after = state where
  refl _ := id
  trans early late := late ∘ early
  step kind query _ := by
    rintro rfl
    exact still kind query

namespace Requirement

section Movement

variable {lookup : Lookup σ} {R : σ → σ → Prop} (moves : lookup.Moves R) (context : Context)
include moves

/-- Wrapping the failures of a lookup changes nothing about the state that it leaves. -/
theorem facts_moves (kind : FactKind) (query : Entries) (state : σ) :
    R state (facts lookup kind query state).2 := by
  have stepped : R state (lookup kind query state).2 := moves.step kind query state
  have same : (facts lookup kind query state).2 = (lookup kind query state).2 := by
    unfold facts
    split <;> simp_all
  exact same ▸ stepped

/-- A leaf makes at most one lookup, so it moves the state as that lookup does, or not at all. -/
theorem evaluateLeaf_moves (kind : FactKind) (name : String)
    (judge : Entries → List Fact → Reply Bool) (state : σ) :
    R state (evaluateLeaf lookup context kind name judge state).2 := by
  unfold evaluateLeaf
  split
  · exact moves.refl state
  · rename_i query _
    have looked : R state (facts lookup kind query state).2 := facts_moves moves kind query state
    split <;> simp_all

mutual

/-- Evaluation moves the state only as lookups do, one after the other. -/
theorem evaluate_moves : ∀ (requirement : Requirement) (state : σ),
    R state (requirement.evaluate lookup context state).2
  | .achievement _ _, state => evaluateLeaf_moves moves context _ _ _ state
  | .experience _ _, state => evaluateLeaf_moves moves context _ _ _ state
  | .event _ _ _, state => evaluateLeaf_moves moves context _ _ _ state
  | .anyOf children, state => evaluateAny_moves children state
  | .oneOf children, state => evaluateEach_moves children state
  | .allOf children, state => evaluateAll_moves children state

/-- A conjunction moves the state only as lookups do, as far as it goes. -/
theorem evaluateAll_moves : ∀ (children : List Requirement) (state : σ),
    R state (evaluateAll lookup context children state).2
  | [], state => moves.refl state
  | child :: rest, state => by
    have first : R state (child.evaluate lookup context state).2 := evaluate_moves child state
    unfold evaluateAll
    split
    · rename_i later replied
      rw [replied] at first
      exact moves.trans first (evaluateAll_moves rest later)
    · exact first

/-- A choice moves the state only as lookups do, as far as it goes. -/
theorem evaluateAny_moves : ∀ (children : List Requirement) (state : σ),
    R state (evaluateAny lookup context children state).2
  | [], state => moves.refl state
  | child :: rest, state => by
    have first : R state (child.evaluate lookup context state).2 := evaluate_moves child state
    unfold evaluateAny
    split
    · rename_i later replied
      rw [replied] at first
      exact moves.trans first (evaluateAny_moves rest later)
    · exact first

/-- Asking every child moves the state only as lookups do. -/
theorem evaluateEach_moves : ∀ (children : List Requirement) (state : σ),
    R state (evaluateEach lookup context children state).2
  | [], state => moves.refl state
  | child :: rest, state =>
    moves.trans (evaluate_moves child state)
      (evaluateEach_moves rest (child.evaluate lookup context state).2)

end

end Movement

section Stillness

variable {lookup : Lookup σ} {state : σ} (still : lookup.IsStill state) (context : Context)
include still

/-- Evaluation leaves a state alone that no lookup changes. -/
theorem evaluate_still (requirement : Requirement) :
    (requirement.evaluate lookup context state).2 = state :=
  evaluate_moves still.moves context requirement state rfl

/-- A conjunction goes on behind a child that is fulfilled, in the same state. -/
theorem evaluateAll_cons (child : Requirement) (rest : List Requirement) :
    (evaluateAll lookup context (child :: rest) state).1 =
      match (child.evaluate lookup context state).1 with
      | .answer true => (evaluateAll lookup context rest state).1
      | reply => reply := by
  have kept := evaluate_still still context child
  rw [evaluateAll]
  cases replied : child.evaluate lookup context state with
  | mk reply after =>
    obtain rfl : after = state := by rw [← kept, replied]
    cases reply with
    | answer fulfilled => cases fulfilled <;> rfl
    | failed failure => rfl
    | pending => rfl

/-- A choice goes on behind a child that is not fulfilled, in the same state. -/
theorem evaluateAny_cons (child : Requirement) (rest : List Requirement) :
    (evaluateAny lookup context (child :: rest) state).1 =
      match (child.evaluate lookup context state).1 with
      | .answer false => (evaluateAny lookup context rest state).1
      | reply => reply := by
  have kept := evaluate_still still context child
  rw [evaluateAny]
  cases replied : child.evaluate lookup context state with
  | mk reply after =>
    obtain rfl : after = state := by rw [← kept, replied]
    cases reply with
    | answer fulfilled => cases fulfilled <;> rfl
    | failed failure => rfl
    | pending => rfl

/-- All children are asked in the same state. -/
theorem evaluateEach_cons (child : Requirement) (rest : List Requirement) :
    (evaluateEach lookup context (child :: rest) state).1 =
      (child.evaluate lookup context state).1 :: (evaluateEach lookup context rest state).1 := by
  simp only [evaluateEach, evaluate_still still context child]

end Stillness

end Requirement

/-- Adding up what was awarded moves the state only as lookups do. -/
theorem awardedAmount_moves {lookup : Lookup σ} {R : σ → σ → Prop} (moves : lookup.Moves R)
    (context : Context) (name : String) (state : σ) :
    R state (awardedAmount lookup context name state).2 := by
  unfold awardedAmount
  split
  · exact moves.refl state
  · rename_i query _
    have looked : R state (Requirement.facts lookup .achievement query state).2 :=
      Requirement.facts_moves moves .achievement query state
    split
    · split <;> simp_all
    · simp_all
    · simp_all

/-- Whether a failure lasts, however often it is tried again: a diagnosis that is not transient, or,
unless everything is brief, an integer that is too long to be written. -/
inductive Failure.Lasts (brief : Prop) : Failure → Prop
  | diagnosed {diagnosis : Diagnosis} (lasting : diagnosis.isTransient = false) :
    Lasts brief (.diagnosed diagnosis)
  | tooLong (long : ¬ brief) : Lasts brief .tooLongToWrite

/-- Whether a reply is an answer, or a failure that lasts. -/
inductive Reply.IsDecided {α : Type} (brief : Prop) : Reply α → Prop
  | answer (value : α) : IsDecided brief (.answer value)
  | failed {failure : Failure} (lasts : failure.Lasts brief) : IsDecided brief (.failed failure)

/-- A lookup that answers in a state, leaves it as it is and finds whole amounts only. The
amounts of events are never read. -/
structure Lookup.IsCalm (lookup : Lookup σ) (state : σ) : Prop where
  answers : ∀ kind query, ∃ found, lookup kind query state = (.answer found, state) ∧
    (kind ≠ .event → ∀ fact ∈ found, fact.amount.whole?.isSome = true)

namespace Lookup.IsCalm

variable {lookup : Lookup σ} {state : σ}

/-- A calm lookup leaves the state as it is, since it answers without a trace. -/
theorem still (calm : lookup.IsCalm state) : lookup.IsStill state := by
  intro kind query
  obtain ⟨found, replied, _⟩ := calm.answers kind query
  rw [replied]

/-- A calm lookup finds records, and those of awards and experience have whole amounts. -/
theorem facts (calm : lookup.IsCalm state) (kind : FactKind) (query : Entries) :
    ∃ found, Requirement.facts lookup kind query state = (.answer found, state) ∧
      (kind ≠ .event → ∀ fact ∈ found, fact.amount.whole?.isSome = true) := by
  obtain ⟨found, replied, whole⟩ := calm.answers kind query
  refine ⟨found, ?_, whole⟩
  simp only [Requirement.facts, replied]

end Lookup.IsCalm

namespace Requirement

variable {lookup : Lookup σ} {state : σ} {context : Context}

mutual

/-- Whether every threshold for events can be written. -/
def isBrief : Requirement → Bool
  | .achievement _ _ => true
  | .experience _ _ => true
  | .event _ amount _ => DecimalText.isShort amount.threshold
  | .anyOf children => areBrief children
  | .oneOf children => areBrief children
  | .allOf children => areBrief children

/-- Whether every threshold for events in a list of requirements can be written. -/
def areBrief : List Requirement → Bool
  | [] => true
  | child :: rest => isBrief child && areBrief rest

end

/-- A record with a whole amount passes a test exactly when the amount does. -/
theorem passes_of_whole (test : AmountTest) {amount : Value} (whole : amount.whole?.isSome = true) :
    passes test amount = test.holds amount := by
  cases amount with
  | scalar value => cases value <;> first | rfl | contradiction
  | _ => rfl

/-- Two records for a query are a failure that lasts: a diagnosis where the query can be written. -/
theorem duplicates_lasts {brief : Prop} (kind : FactKind) {query : Entries} (count : Nat)
    (written : brief → (Value.mapping query).hasText = true) :
    (duplicates kind query count).Lasts brief := by
  unfold duplicates
  cases told : (Value.mapping query).written? with
  | some text => exact .diagnosed rfl
  | none =>
    refine .tooLong fun isBrief => ?_
    rw [Value.written?_eq_none_iff, written isBrief] at told
    contradiction

/-- No record, a record that is the only one with a whole amount, and too many records: each of
them decides an amount leaf. -/
theorem holdsOnOnly_decided {brief : Prop} (kind : FactKind) {query : Entries} (test : AmountTest)
    {found : List Fact} (whole : ∀ fact ∈ found, fact.amount.whole?.isSome = true)
    (written : brief → (Value.mapping query).hasText = true) :
    (holdsOnOnly kind query test found).IsDecided brief := by
  match found with
  | [] => exact .answer false
  | [fact] =>
    have only := whole fact List.mem_cons_self
    obtain ⟨passed, tested⟩ := test.holds_of_whole only
    simp only [holdsOnOnly, passes_of_whole test only, tested]
    exact .answer passed
  | _ :: _ :: _ => exact .failed (duplicates_lasts kind _ written)

/-- An event leaf is judged unless its threshold is too long to be written. -/
theorem holdsOnEvents_of_isShort {test : AmountTest}
    (short : DecimalText.isShort test.threshold = true) (conditions : Option Condition)
    (events : List Fact) :
    holdsOnEvents test conditions events =
      .answer (test.holdsAt (matchingEvents conditions events)) := by
  simp only [holdsOnEvents, AmountTest.text?, short, if_true]

/-- An event leaf whose threshold is too long to be written fails, whatever events there are. -/
theorem holdsOnEvents_of_not_isShort {test : AmountTest}
    (long : DecimalText.isShort test.threshold = false) (conditions : Option Condition)
    (events : List Fact) : holdsOnEvents test conditions events = .failed .tooLongToWrite := by
  simp only [holdsOnEvents, AmountTest.text?, long, Bool.false_eq_true, if_false]

/-- An event leaf with a threshold too long to be written looks the events up, and fails when it
writes down what it compares them with. -/
theorem evaluate_event_of_not_isShort {test : AmountTest}
    (long : DecimalText.isShort test.threshold = false) {conditions : Option Condition}
    {name : String} {query : Entries} {found : List Fact} {later : σ}
    (formed : context.queryFor name = .ok query)
    (looked : facts lookup .event query state = (.answer found, later)) :
    (event name test conditions).evaluate lookup context state =
      (.failed .tooLongToWrite, later) := by
  simp only [evaluate, evaluateLeaf, formed, looked, holdsOnEvents_of_not_isShort long]

/-- Any events decide an event leaf: it answers, or its conditions or its threshold fail for good.
-/
theorem holdsOnEvents_decided {brief : Prop} (test : AmountTest)
    (noted : brief → DecimalText.isShort test.threshold = true) (conditions : Option Condition)
    (events : List Fact) : (holdsOnEvents test conditions events).IsDecided brief := by
  cases short : DecimalText.isShort test.threshold with
  | true =>
    rw [holdsOnEvents_of_isShort short]
    exact .answer _
  | false =>
    rw [holdsOnEvents_of_not_isShort short]
    refine .failed (.tooLong fun isBrief => ?_)
    rw [noted isBrief] at short
    contradiction

/-- A leaf is decided and changes nothing, if its judge decides what is found. -/
theorem evaluateLeaf_decided {brief : Prop} (calm : lookup.IsCalm state)
    (texts : AreTexts (Entries.keys context.attributes))
    (written : brief → Value.entriesHaveText context.attributes = true)
    (kind : FactKind) (name : String) {judge : Entries → List Fact → Reply Bool}
    (judged : ∀ query found, (brief → (Value.mapping query).hasText = true) →
      (kind ≠ .event → ∀ fact ∈ found, fact.amount.whole?.isSome = true) →
      (judge query found).IsDecided brief) :
    (evaluateLeaf lookup context kind name judge state).1.IsDecided brief := by
  unfold evaluateLeaf
  rw [context.queryFor_eq]
  by_cases resolves : context.Resolves
  · rw [Context.scopeValues_of_resolves resolves]
    obtain ⟨found, looked, whole⟩ :=
      calm.facts kind (Ledger.queryOf (.text name) context.boundValues)
    simp only [Except.map, looked]
    exact judged _ found (fun isBrief => context.queryOf_hasText name (written isBrief)) whole
  · obtain ⟨diagnosis, category, failed⟩ := Context.scopeValues_of_not_resolves texts resolves
    rw [failed]
    exact .failed (.diagnosed (by simp [Diagnosis.isTransient, category]))

/-- The first failure is among the replies. -/
theorem mem_of_firstFailure? {replies : List (Reply Bool)} {failure : Failure}
    (found : firstFailure? replies = some failure) : .failed failure ∈ replies := by
  fun_induction firstFailure? replies with
  | case1 => contradiction
  | case2 failed rest =>
    cases found
    exact List.mem_cons_self
  | case3 reply rest answered inductionHypothesis =>
    exact List.mem_cons_of_mem _ (inductionHypothesis found)

/-- Replies without a first failure have none at all. -/
theorem not_mem_of_firstFailure? {replies : List (Reply Bool)}
    (unfound : firstFailure? replies = none) (failure : Failure) : .failed failure ∉ replies := by
  fun_induction firstFailure? replies with
  | case1 => exact List.not_mem_nil
  | case2 => contradiction
  | case3 reply rest answered inductionHypothesis =>
    intro failed
    rcases List.mem_cons.mp failed with own | later
    · exact answered failure own.symm
    · exact inductionHypothesis unfound later

/-- Exactly-one over decided replies is decided: it hands on a failure that lasts, or counts the
answers. -/
theorem exactlyOne_decided {brief : Prop} {replies : List (Reply Bool)}
    (decided : ∀ reply ∈ replies, reply.IsDecided brief) :
    (exactlyOne replies).IsDecided brief := by
  have arrived : replies.any isPending = false := by
    rw [List.any_eq_false]
    intro reply member pending
    cases decided reply member <;> contradiction
  unfold exactlyOne
  split
  · rename_i failure found
    exact decided _ (mem_of_firstFailure? found)
  · rw [arrived]
    exact .answer _

mutual

/-- On a calm lookup with textual attributes, evaluation is decided. -/
theorem evaluate_decided {brief : Prop} (calm : lookup.IsCalm state) (context : Context)
    (texts : AreTexts (Entries.keys context.attributes))
    (written : brief → Value.entriesHaveText context.attributes = true) :
    ∀ requirement : Requirement, (brief → requirement.isBrief = true) →
    (requirement.evaluate lookup context state).1.IsDecided brief
  | .achievement _ amount, _ => evaluateLeaf_decided calm texts written .achievement _
      fun _ _ shown whole => holdsOnOnly_decided .achievement amount (whole (by decide)) shown
  | .experience _ amount, _ => evaluateLeaf_decided calm texts written .experience _
      fun _ _ shown whole => holdsOnOnly_decided .experience amount (whole (by decide)) shown
  | .event _ amount conditions, noted => evaluateLeaf_decided calm texts written .event _
      fun _ found _ _ => holdsOnEvents_decided amount noted conditions found
  | .anyOf children, noted => evaluateAny_decided calm context texts written children noted
  | .oneOf children, noted =>
    exactlyOne_decided (evaluateEach_decided calm context texts written children noted)
  | .allOf children, noted => evaluateAll_decided calm context texts written children noted

/-- On a calm lookup with textual attributes, a conjunction is decided. -/
theorem evaluateAll_decided {brief : Prop} (calm : lookup.IsCalm state) (context : Context)
    (texts : AreTexts (Entries.keys context.attributes))
    (written : brief → Value.entriesHaveText context.attributes = true) :
    ∀ children : List Requirement, (brief → areBrief children = true) →
    (evaluateAll lookup context children state).1.IsDecided brief
  | [], _ => .answer true
  | child :: rest, noted => by
    have each := fun isBrief => Bool.and_eq_true_iff.mp (noted isBrief)
    have first := evaluate_decided calm context texts written child fun isBrief => (each isBrief).1
    rw [evaluateAll_cons calm.still]
    split
    · exact evaluateAll_decided calm context texts written rest fun isBrief => (each isBrief).2
    · exact first

/-- On a calm lookup with textual attributes, a choice is decided. -/
theorem evaluateAny_decided {brief : Prop} (calm : lookup.IsCalm state) (context : Context)
    (texts : AreTexts (Entries.keys context.attributes))
    (written : brief → Value.entriesHaveText context.attributes = true) :
    ∀ children : List Requirement, (brief → areBrief children = true) →
    (evaluateAny lookup context children state).1.IsDecided brief
  | [], _ => .answer false
  | child :: rest, noted => by
    have each := fun isBrief => Bool.and_eq_true_iff.mp (noted isBrief)
    have first := evaluate_decided calm context texts written child fun isBrief => (each isBrief).1
    rw [evaluateAny_cons calm.still]
    split
    · exact evaluateAny_decided calm context texts written rest fun isBrief => (each isBrief).2
    · exact first

/-- On a calm lookup with textual attributes, every reply is decided when all children are asked. -/
theorem evaluateEach_decided {brief : Prop} (calm : lookup.IsCalm state) (context : Context)
    (texts : AreTexts (Entries.keys context.attributes))
    (written : brief → Value.entriesHaveText context.attributes = true) :
    ∀ children : List Requirement, (brief → areBrief children = true) →
    ∀ reply ∈ (evaluateEach lookup context children state).1, reply.IsDecided brief
  | [], _ => by simp [evaluateEach]
  | child :: rest, noted => by
    have each := fun isBrief => Bool.and_eq_true_iff.mp (noted isBrief)
    have later := evaluateEach_decided calm context texts written rest fun isBrief =>
      (each isBrief).2
    rw [evaluateEach_cons calm.still]
    exact List.forall_mem_cons.mpr
      ⟨evaluate_decided calm context texts written child fun isBrief => (each isBrief).1, later⟩

end

end Requirement

/-- Records with whole amounts have a whole sum, however many they are. -/
theorem totalAmount_of_whole {found : List Fact}
    (whole : ∀ fact ∈ found, fact.amount.whole?.isSome = true) :
    ∃ sum : Int, totalAmount (found.map (·.amount)) = .ok (.integer sum) := by
  have everything : Ledger.find found [] = found := by simp [Ledger.find, Fact.isMatch]
  have counted : Ledger.IsCounted found := whole
  have summed := Ledger.totalAmount_find counted []
  exact ⟨_, everything ▸ summed⟩

/-- The whole number that is answered, if one is. -/
def Reply.whole? : Reply Value → Option Int
  | .answer (.integer number) => some number
  | _ => none

/-- A reply with a whole number is the answer of that number, since failures have none. -/
theorem Reply.eq_of_whole? {reply : Reply Value} {number : Int}
    (told : reply.whole? = some number) : reply = .answer (.integer number) := by
  unfold whole? at told
  split at told
  · cases told
    rfl
  · contradiction

section Awarded

variable {lookup : Lookup σ} {state : σ} {context : Context} {name : String}

/-- An amount awarded is only ever told within a scope that resolves. -/
theorem resolves_of_awardedAmount {total : Value}
    (told : (awardedAmount lookup context name state).1 = .answer total) : context.Resolves := by
  unfold awardedAmount at told
  rw [context.queryFor_eq] at told
  cases found : context.scopeValues with
  | ok values => exact ((context.scopeValues_eq_ok_iff values).mp found).1
  | error failure =>
    rw [found] at told
    contradiction

/-- A lookup that finds what a counted ledger holds tells its total. -/
theorem awardedAmount_eq {ledger : Ledger} (counted : ledger.IsCounted)
    (reads : ∀ query, lookup .achievement query state = (.answer (ledger.find query), state))
    (resolves : context.Resolves) :
    awardedAmount lookup context name state =
      (.answer (.integer (ledger.total (Ledger.queryOf (.text name) context.boundValues))),
        state) := by
  unfold awardedAmount
  rw [context.queryFor_eq, Context.scopeValues_of_resolves resolves]
  simp only [Except.map, Requirement.facts, reads, Ledger.totalAmount_find counted]

/-- On a calm lookup the amount awarded is a whole number, or the scope does not resolve. -/
theorem awardedAmount_cases (calm : lookup.IsCalm state) (context : Context) (name : String)
    (texts : AreTexts (Entries.keys context.attributes)) :
    (∃ total : Int, awardedAmount lookup context name state = (.answer (.integer total), state)) ∨
      ∃ diagnosis : Diagnosis, diagnosis.category = .configuration ∧
        awardedAmount lookup context name state = (.failed (.diagnosed diagnosis), state) := by
  unfold awardedAmount
  rw [context.queryFor_eq]
  by_cases resolves : context.Resolves
  · rw [Context.scopeValues_of_resolves resolves]
    obtain ⟨found, looked, whole⟩ :=
      calm.facts .achievement (Ledger.queryOf (.text name) context.boundValues)
    obtain ⟨sum, summed⟩ := totalAmount_of_whole (whole (by decide))
    refine .inl ⟨sum, ?_⟩
    simp only [Except.map, looked, summed]
  · obtain ⟨diagnosis, category, failed⟩ := Context.scopeValues_of_not_resolves texts resolves
    refine .inr ⟨diagnosis, category, ?_⟩
    rw [failed]
    rfl

end Awarded

end Accolade
