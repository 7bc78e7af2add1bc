import Accolade.Fact.Calls
import Accolade.Proofs.Cycle.Check
import Accolade.Proofs.Retry

/-!
# Where the errors of checks come from

Lookups may fail at any point of an evaluation. Where they respond, that is, come to an answer with
whole amounts or to a failure of any kind, a check responds as well, and it fails with a diagnosis
only, unless it has to write an integer that is too long for it. The lookups that it made explain
the diagnosis: one of them raised it, or raised another failure that is now a failed query of the
store, or found several records where one is expected. If no lookup is to blame, the scope of the
rule does not resolve. A check that answers made no lookup that failed.

Under retries this is so of the last attempt, and all attempts before it came to a failed query, as
long as there is a delay after each of them.
-/

namespace Accolade

variable {σ : Type}

/-- The diagnosis that a failure of a store becomes: a diagnosis stays as it is, and any other
failure becomes a failed query of the store. -/
def Failure.seenAs (store : String) (details : Fields) (failure : Failure) : Diagnosis :=
  failure.diagnosis?.getD (.query store failure.message details)

/-- Whether lookups that were made within a context explain an error. -/
inductive Context.Explains (context : Context) (calls : List Call) : Diagnosis → Prop
  | unresolved {error : Diagnosis} (missing : context.scopeValues = .error (.diagnosed error)) :
      Explains context calls error
  | duplicates (kind : FactKind) (name : String) {count : Nat} {error : Diagnosis}
      (several : 1 < count)
      (found : .lookup kind (Ledger.queryOf (.text name) context.boundValues) (.ok count) ∈ calls)
      (told : Requirement.duplicates kind (Ledger.queryOf (.text name) context.boundValues) count =
        .diagnosed error) :
      Explains context calls error
  | raised {kind : FactKind} {query : Entries} {failure : Failure}
      (made : .lookup kind query (.error failure) ∈ calls) :
      Explains context calls (failure.seenAs kind.store [("query", .mapping query)])

/-- More calls explain more: what some of them explain needs no others. -/
theorem Context.Explains.mono {context : Context} {calls more : List Call} {error : Diagnosis}
    (explained : context.Explains calls error) (further : calls ⊆ more) :
    context.Explains more error := by
  cases explained with
  | unresolved missing => exact .unresolved missing
  | duplicates kind name several found told =>
    exact .duplicates kind name several (further found) told
  | raised made => exact .raised (further made)

/-- Whether lookups that were made within a context account for a failure: it is an error that they
explain, or, unless everything is brief, an integer that is too long to be written. -/
inductive Context.AccountsFor (context : Context) (brief : Prop) (calls : List Call) :
    Failure → Prop
  | explained {error : Diagnosis} (explained : context.Explains calls error) :
      AccountsFor context brief calls (.diagnosed error)
  | tooLong (long : ¬ brief) : AccountsFor context brief calls .tooLongToWrite

/-- More calls account for more: a failure that some of them account for needs no others. -/
theorem Context.AccountsFor.mono {context : Context} {brief : Prop} {calls more : List Call}
    {failure : Failure} (accounted : context.AccountsFor brief calls failure)
    (further : calls ⊆ more) : context.AccountsFor brief more failure := by
  cases accounted with
  | explained explained => exact .explained (explained.mono further)
  | tooLong long => exact .tooLong long

/-- Whether lookups in certain states come to a failure, or to an answer with whole amounts, and
lead to such states. The amounts of events are never read. -/
structure Lookup.Responds (lookup : Lookup σ) (ready : σ → Prop) : Prop where
  kept : ∀ kind query state, ready state → ready (lookup kind query state).2
  replies : ∀ kind query state, ready state →
    (∃ failure, (lookup kind query state).1 = .failed failure) ∨
    ∃ found, (lookup kind query state).1 = .answer found ∧
      (kind ≠ .event → ∀ fact ∈ found, fact.amount.whole?.isSome = true)

/-- Whether replies stem from lookups. All have arrived, the lookups account for each failure, and
none of them failed where nothing else did. -/
structure Reply.StemFrom {α : Type} (context : Context) (brief : Prop) (calls : List Call)
    (replies : List (Reply α)) : Prop where
  lookups : ∀ call ∈ calls, call.isLookup = true
  arrived : .pending ∉ replies
  explained : ∀ failure, .failed failure ∈ replies → context.AccountsFor brief calls failure
  heeded : (∀ failure, .failed failure ∉ replies) → ∀ call ∈ calls, call.raised? = none

namespace Reply.StemFrom

variable {α β : Type} {context : Context} {brief : Prop} {calls further : List Call}

/-- An answer that needs no lookup stems from no calls. -/
theorem answer (value : α) : StemFrom context brief [] [.answer value] :=
  ⟨by simp, by simp, by simp, by simp⟩

/-- An answer may come from a lookup that did not fail, whatever it was asked for and however many
records it found. -/
theorem found (kind : FactKind) (query : Entries) (count : Nat) (value : α) :
    StemFrom context brief [.lookup kind query (.ok count)] [.answer value] :=
  ⟨by simp [Call.isLookup], by simp, by simp, by simp [Call.raised?, Call.failureOf]⟩

/-- A failure stems from any lookups that account for it, whether or not each of them failed. -/
theorem failed {failure : Failure} (lookups : ∀ call ∈ calls, call.isLookup = true)
    (accounted : context.AccountsFor brief calls failure) :
    StemFrom context brief calls [(.failed failure : Reply α)] := by
  refine ⟨lookups, by simp, fun other failed => ?_, by simp⟩
  cases List.mem_singleton.mp failed
  exact accounted

/-- Replies that fail as others do stem from the same lookups, whatever the answers among them are.
-/
theorem congr {replies : List (Reply α)} {others : List (Reply β)}
    (stem : StemFrom context brief calls replies) (arrived : .pending ∉ others)
    (same : ∀ failure, .failed failure ∈ others ↔ .failed failure ∈ replies) :
    StemFrom context brief calls others where
  lookups := stem.lookups
  arrived := arrived
  explained failure failed := stem.explained failure ((same failure).mp failed)
  heeded unfailed := stem.heeded fun failure failed => unfailed failure ((same failure).mpr failed)

/-- Replies one after the other stem from the lookups one after the other. -/
theorem append {replies others : List (Reply α)} (early : StemFrom context brief calls replies)
    (late : StemFrom context brief further others) :
    StemFrom context brief (calls ++ further) (replies ++ others) where
  lookups := List.forall_mem_append.mpr ⟨early.lookups, late.lookups⟩
  arrived := by simp [early.arrived, late.arrived]
  explained failure failed := by
    rcases List.mem_append.mp failed with before | behind
    · exact (early.explained failure before).mono (List.subset_append_left _ _)
    · exact (late.explained failure behind).mono (List.subset_append_right _ _)
  heeded unfailed := List.forall_mem_append.mpr
    ⟨early.heeded fun failure failed => unfailed failure (List.mem_append_left _ failed),
      late.heeded fun failure failed => unfailed failure (List.mem_append_right _ failed)⟩

/-- Behind an answer, what follows decides: a reply stems from the calls of the answer and from its
own. -/
theorem behind {value : α} {reply : Reply β} (early : StemFrom context brief calls [.answer value])
    (late : StemFrom context brief further [reply]) :
    StemFrom context brief (calls ++ further) [reply] := by
  have first : StemFrom context brief calls ([] : List (Reply β)) := early.congr (by simp) (by simp)
  exact first.append late

end Reply.StemFrom

/-- Whether replies stem from the lookups that have been made since, and the state is as it should
be. -/
structure Reply.Stem {α : Type} (ready : σ → Prop) (context : Context) (brief : Prop)
    (before : List Call)
    (replies : List (Reply α)) (after : σ × List Call) : Prop where
  kept : ready after.1
  made : ∃ calls, after.2 = before ++ calls ∧ Reply.StemFrom context brief calls replies

namespace Reply.Stem

variable {α β : Type} {ready : σ → Prop} {context : Context} {brief : Prop} {before : List Call}
  {value : α}
  {between after : σ × List Call}

/-- A reply that stems from lookups has arrived, as each lookup has. -/
theorem arrived {reply : Reply α} (stem : Stem ready context brief before [reply] after) :
    reply ≠ .pending := by
  obtain ⟨_, _, _, stem⟩ := stem
  rintro rfl
  exact stem.arrived (List.mem_singleton.mpr rfl)

/-- A failure stems from its lookups whatever the type of the answers that it stands in for. -/
theorem failed {failure : Failure}
    (stem : Stem ready context brief before [(.failed failure : Reply α)] after) :
    Stem ready context brief before [(.failed failure : Reply β)] after := by
  obtain ⟨kept, calls, made, stem⟩ := stem
  exact ⟨kept, calls, made, stem.congr (by simp) (by simp)⟩

/-- An answer may be replaced by another one, of another type as well: the lookups behind it stay
what they were. -/
theorem answered (stem : Stem ready context brief before [.answer value] after) (other : β) :
    Stem ready context brief before [.answer other] after := by
  obtain ⟨kept, calls, made, stem⟩ := stem
  exact ⟨kept, calls, made, stem.congr (by simp) (by simp)⟩

/-- A reply that goes on from the state an answer left stems from the lookups of both. -/
theorem behind {reply : Reply β} (early : Stem ready context brief before [.answer value] between)
    (late : Stem ready context brief between.2 [reply] after) :
    Stem ready context brief before [reply] after := by
  obtain ⟨_, calls, made, stem⟩ := early
  obtain ⟨kept, further, madeToo, stemToo⟩ := late
  exact ⟨kept, calls ++ further, by rw [madeToo, made, List.append_assoc], stem.behind stemToo⟩

end Reply.Stem

namespace Requirement

variable {lookup : Lookup σ} {ready : σ → Prop} (responds : lookup.Responds ready)
  {context : Context} {brief : Prop} {state : σ × List Call}

section Lookups

variable (holding : ready state.1)
include responds holding

/-- A lookup of facts finds whole amounts, or it fails with the diagnosis that its failure
becomes. -/
theorem facts_responds (kind : FactKind) (query : Entries) :
    (∃ found later, facts lookup.traced kind query state =
        (.answer found, later, state.2 ++ [.lookup kind query (.ok found.length)]) ∧ ready later ∧
        (kind ≠ .event → ∀ fact ∈ found, fact.amount.whole?.isSome = true)) ∨
      ∃ failure later, facts lookup.traced kind query state =
        (.failed (.diagnosed (failure.seenAs kind.store [("query", .mapping query)])), later,
          state.2 ++ [.lookup kind query (.error failure)]) ∧ ready later := by
  have kept := responds.kept kind query state.1 holding
  rcases responds.replies kind query state.1 holding with ⟨failure, failed⟩ | ⟨found, told, whole⟩
  · have called : lookup.traced kind query state = (.failed failure,
        (lookup kind query state.1).2, state.2 ++ [.lookup kind query (.error failure)]) := by
      simp only [Lookup.traced, failed, Call.countOf]
    refine .inr ⟨failure, (lookup kind query state.1).2, ?_, kept⟩
    cases failure <;> simp only [facts, called] <;> rfl
  · have called : lookup.traced kind query state = (.answer found,
        (lookup kind query state.1).2, state.2 ++ [.lookup kind query (.ok found.length)]) := by
      simp only [Lookup.traced, told, Call.countOf]
    exact .inl ⟨found, (lookup kind query state.1).2, by simp only [facts, called], kept, whole⟩

variable (texts : AreTexts (Entries.keys context.attributes))
include texts

/-- The reply of a leaf stems from its lookup, if what its judge says of the facts found does. -/
theorem evaluateLeaf_stem (kind : FactKind) (name : String)
    {judge : Entries → List Fact → Reply Bool}
    (judged : ∀ found, (kind ≠ .event → ∀ fact ∈ found, fact.amount.whole?.isSome = true) →
      Reply.StemFrom context brief
        [.lookup kind (Ledger.queryOf (.text name) context.boundValues) (.ok found.length)]
        [judge (Ledger.queryOf (.text name) context.boundValues) found]) :
    Reply.Stem ready context brief state.2
      [(evaluateLeaf lookup.traced context kind name judge state).1]
      (evaluateLeaf lookup.traced context kind name judge state).2 := by
  unfold evaluateLeaf
  rw [context.queryFor_eq]
  by_cases resolves : context.Resolves
  · rw [Context.scopeValues_of_resolves resolves]
    dsimp only [Except.map]
    rcases facts_responds responds holding kind
        (Ledger.queryOf (.text name) context.boundValues) with
      ⟨found, later, looked, kept, whole⟩ | ⟨failure, later, looked, kept⟩
    · rw [looked]
      exact ⟨kept, _, rfl, judged found whole⟩
    · rw [looked]
      exact ⟨kept, _, rfl,
        .failed (by simp [Call.isLookup]) (.explained (.raised List.mem_cons_self))⟩
  · obtain ⟨error, _, missing⟩ := Context.scopeValues_of_not_resolves texts resolves
    rw [missing]
    exact ⟨holding, [], by simp [Except.map], .failed (by simp) (.explained (.unresolved missing))⟩

end Lookups

omit responds in
/-- A whole amount is tested; that there are several records is an error that the lookup explains,
where the query can be written. -/
theorem holdsOnOnly_stem (written : brief → Value.entriesHaveText context.attributes = true)
    (kind : FactKind) (name : String) (test : AmountTest)
    {found : List Fact} (whole : ∀ fact ∈ found, fact.amount.whole?.isSome = true) :
    Reply.StemFrom context brief
      [.lookup kind (Ledger.queryOf (.text name) context.boundValues) (.ok found.length)]
      [holdsOnOnly kind (Ledger.queryOf (.text name) context.boundValues) test found] := by
  match found with
  | [] => exact .found kind _ _ false
  | [fact] =>
    obtain ⟨passed, tested⟩ := test.holds_of_whole (whole fact List.mem_cons_self)
    simp only [holdsOnOnly, passes_of_whole test (whole fact List.mem_cons_self), tested]
    exact .found kind _ _ passed
  | first :: second :: rest =>
    refine .failed (by simp [Call.isLookup]) ?_
    have lasting := duplicates_lasts kind (first :: second :: rest).length
      fun isBrief => context.queryOf_hasText name (written isBrief)
    cases told : duplicates kind (Ledger.queryOf (.text name) context.boundValues)
      (first :: second :: rest).length with
    | diagnosed error =>
      exact .explained (.duplicates kind name (by simp) List.mem_cons_self told)
    | tooManyDigits count =>
      rw [told] at lasting
      cases lasting with
      | tooLong long => exact .tooLong long
    | _ =>
      rw [told] at lasting
      cases lasting

omit responds in
/-- The number of events is tested, where the threshold can be written. -/
theorem holdsOnEvents_stem (kind : FactKind) (query : Entries) {test : AmountTest}
    (noted : brief → DecimalText.isShort test.threshold = true) (conditions : Option Condition)
    (events : List Fact) (count : Nat) :
    Reply.StemFrom context brief [.lookup kind query (.ok count)]
      [holdsOnEvents test conditions events] := by
  cases short : DecimalText.isShort test.threshold with
  | true =>
    rw [holdsOnEvents_of_isShort short]
    exact .found kind query count _
  | false =>
    rw [holdsOnEvents_of_not_isShort short]
    refine .failed (by simp [Call.isLookup]) (.tooLong fun isBrief => ?_)
    rw [noted isBrief] at short
    contradiction

omit responds in
/-- Exactly-one fails as the first of its children that fails, so its reply stems from the lookups
that theirs stem from. -/
theorem exactlyOne_stem {calls : List Call} {replies : List (Reply Bool)}
    (stem : Reply.StemFrom context brief calls replies) :
    Reply.StemFrom context brief calls [exactlyOne replies] := by
  have arrived : replies.any isPending = false := by
    rw [List.any_eq_false]
    intro reply member pending
    cases reply with
    | pending => exact stem.arrived member
    | _ => contradiction
  unfold exactlyOne
  split
  · rename_i failure found
    refine ⟨stem.lookups, by simp, fun other failed => ?_, fun unfailed => ?_⟩
    · cases List.mem_singleton.mp failed
      exact stem.explained failure (mem_of_firstFailure? found)
    · exact absurd (List.mem_singleton.mpr rfl) (unfailed failure)
  · rename_i unfound
    rw [arrived]
    refine ⟨stem.lookups, by simp, by simp, fun _ => stem.heeded ?_⟩
    exact not_mem_of_firstFailure? unfound

mutual

/-- What a requirement replies stems from the lookups of its leaves. -/
theorem evaluate_stem (responds : lookup.Responds ready)
    (texts : AreTexts (Entries.keys context.attributes))
    (written : brief → Value.entriesHaveText context.attributes = true) :
    ∀ (requirement : Requirement) (state : σ × List Call), (brief → requirement.isBrief = true) →
      ready state.1 →
      Reply.Stem ready context brief state.2
        [(requirement.evaluate lookup.traced context state).1]
        (requirement.evaluate lookup.traced context state).2
  | .achievement name test, _, _, holding =>
    evaluateLeaf_stem responds holding texts .achievement name
      fun _ whole => holdsOnOnly_stem written .achievement name test (whole (by decide))
  | .experience name test, _, _, holding =>
    evaluateLeaf_stem responds holding texts .experience name
      fun _ whole => holdsOnOnly_stem written .experience name test (whole (by decide))
  | .event name _ conditions, _, noted, holding =>
    evaluateLeaf_stem responds holding texts .event name
      fun found _ => holdsOnEvents_stem .event _ noted conditions found found.length
  | .anyOf children, state, noted, holding =>
    evaluateAny_stem responds texts written children state noted holding
  | .oneOf children, state, noted, holding => by
    obtain ⟨kept, calls, made, stem⟩ :=
      evaluateEach_stem responds texts written children state noted holding
    exact ⟨kept, calls, made, exactlyOne_stem stem⟩
  | .allOf children, state, noted, holding =>
    evaluateAll_stem responds texts written children state noted holding

/-- What a conjunction replies stems from the lookups of its children. -/
theorem evaluateAll_stem (responds : lookup.Responds ready)
    (texts : AreTexts (Entries.keys context.attributes))
    (written : brief → Value.entriesHaveText context.attributes = true) :
    ∀ (children : List Requirement) (state : σ × List Call), (brief → areBrief children = true) →
      ready state.1 →
      Reply.Stem ready context brief state.2
        [(evaluateAll lookup.traced context children state).1]
        (evaluateAll lookup.traced context children state).2
  | [], state, _, holding => ⟨holding, [], by simp [evaluateAll], .answer true⟩
  | child :: rest, state, noted, holding => by
    have each := fun isBrief => Bool.and_eq_true_iff.mp (noted isBrief)
    have first := evaluate_stem responds texts written child state
      (fun isBrief => (each isBrief).1) holding
    unfold evaluateAll
    split
    · rename_i later replied
      rw [replied] at first
      exact first.behind (evaluateAll_stem responds texts written rest later
        (fun isBrief => (each isBrief).2) first.kept)
    · exact first

/-- What a choice replies stems from the lookups of its children. -/
theorem evaluateAny_stem (responds : lookup.Responds ready)
    (texts : AreTexts (Entries.keys context.attributes))
    (written : brief → Value.entriesHaveText context.attributes = true) :
    ∀ (children : List Requirement) (state : σ × List Call), (brief → areBrief children = true) →
      ready state.1 →
      Reply.Stem ready context brief state.2
        [(evaluateAny lookup.traced context children state).1]
        (evaluateAny lookup.traced context children state).2
  | [], state, _, holding => ⟨holding, [], by simp [evaluateAny], .answer false⟩
  | child :: rest, state, noted, holding => by
    have each := fun isBrief => Bool.and_eq_true_iff.mp (noted isBrief)
    have first := evaluate_stem responds texts written child state
      (fun isBrief => (each isBrief).1) holding
    unfold evaluateAny
    split
    · rename_i later replied
      rw [replied] at first
      exact first.behind (evaluateAny_stem responds texts written rest later
        (fun isBrief => (each isBrief).2) first.kept)
    · exact first

/-- What all children reply, one after the other, stems from their lookups. -/
theorem evaluateEach_stem (responds : lookup.Responds ready)
    (texts : AreTexts (Entries.keys context.attributes))
    (written : brief → Value.entriesHaveText context.attributes = true) :
    ∀ (children : List Requirement) (state : σ × List Call), (brief → areBrief children = true) →
      ready state.1 →
      Reply.Stem ready context brief state.2
        (evaluateEach lookup.traced context children state).1
        (evaluateEach lookup.traced context children state).2
  | [], state, _, holding =>
    ⟨holding, [], by simp [evaluateEach], by simp, by simp [evaluateEach], by simp [evaluateEach],
      by simp⟩
  | child :: rest, state, noted, holding => by
    have each := fun isBrief => Bool.and_eq_true_iff.mp (noted isBrief)
    obtain ⟨between, calls, made, stem⟩ := evaluate_stem responds texts written child state
      (fun isBrief => (each isBrief).1) holding
    obtain ⟨kept, further, madeToo, stemToo⟩ :=
      evaluateEach_stem responds texts written rest (child.evaluate lookup.traced context state).2
        (fun isBrief => (each isBrief).2) between
    refine ⟨kept, calls ++ further, ?_, stem.append stemToo⟩
    rw [evaluateEach, madeToo, made, List.append_assoc]

end

end Requirement

/-- The amount awarded is a whole number, or there is a failure that stems from its lookup. -/
theorem awardedAmount_stem {lookup : Lookup σ} {ready : σ → Prop}
    (responds : lookup.Responds ready) {context : Context} {brief : Prop}
    (texts : AreTexts (Entries.keys context.attributes)) (name : String)
    {state : σ × List Call} (holding : ready state.1) :
    Reply.Stem ready context brief state.2
        [(awardedAmount lookup.traced context name state).1]
        (awardedAmount lookup.traced context name state).2 ∧
      ∀ total, (awardedAmount lookup.traced context name state).1 = .answer total →
        ∃ number : Int, total = .integer number := by
  unfold awardedAmount
  rw [context.queryFor_eq]
  by_cases resolves : context.Resolves
  · rw [Context.scopeValues_of_resolves resolves]
    dsimp only [Except.map]
    rcases Requirement.facts_responds responds holding .achievement
        (Ledger.queryOf (.text name) context.boundValues) with
      ⟨found, later, looked, kept, whole⟩ | ⟨failure, later, looked, kept⟩
    · obtain ⟨sum, summed⟩ := totalAmount_of_whole (whole (by decide))
      simp only [looked, summed]
      refine ⟨⟨kept, _, rfl, .found .achievement _ _ _⟩, ?_⟩
      intro total same
      cases same
      exact ⟨sum, rfl⟩
    · simp only [looked]
      exact ⟨⟨kept, _, rfl,
        .failed (by simp [Call.isLookup]) (.explained (.raised List.mem_cons_self))⟩, nofun⟩
  · obtain ⟨error, _, missing⟩ := Context.scopeValues_of_not_resolves texts resolves
    rw [missing]
    exact ⟨⟨holding, [], by simp [Except.map],
      .failed (by simp) (.explained (.unresolved missing))⟩, nofun⟩

namespace Rule

variable {lookup : Lookup σ} {ready : σ → Prop} (responds : lookup.Responds ready)
  {context : Context} (texts : AreTexts (Entries.keys context.attributes)) (rule : Rule)
include responds texts

/-- What the comparison with the cap replies stems from its lookup. -/
theorem canBeAwarded_stem {state : σ × List Call} (holding : ready state.1) :
    Reply.Stem ready (context.forScope rule.scope) (rule.IsBrief context) state.2
      [(rule.canBeAwarded lookup.traced context state).1]
      (rule.canBeAwarded lookup.traced context state).2 := by
  have textsWithin : AreTexts (Entries.keys (context.forScope rule.scope).attributes) := texts
  obtain ⟨stem, whole⟩ := awardedAmount_stem responds textsWithin rule.name holding
  unfold canBeAwarded
  split
  · rename_i total later told
    rw [told] at stem whole
    obtain ⟨number, rfl⟩ := whole _ rfl
    rw [AmountTest.less_holds]
    exact stem.answered _
  · rename_i failure later told
    rw [told] at stem
    exact stem.failed
  · rename_i later told
    rw [told] at stem
    exact absurd rfl stem.arrived

/-- What a check replies stems from its lookups, those of the requirement and that of the awards.

Proof: the requirement is asked first. Only where it holds is the amount compared, and then the
lookups of both stand behind what is replied; in any other case those of the requirement do. -/
theorem check_stem {state : σ × List Call} (holding : ready state.1) :
    Reply.Stem ready (context.forScope rule.scope) (rule.IsBrief context) state.2
      [(rule.check lookup.traced context state).1] (rule.check lookup.traced context state).2 := by
  have textsWithin : AreTexts (Entries.keys (context.forScope rule.scope).attributes) := texts
  have evaluated : Reply.Stem ready _ (rule.IsBrief context) state.2
      [(rule.isFulfilled lookup.traced context state).1]
      (rule.isFulfilled lookup.traced context state).2 :=
    Requirement.evaluate_stem responds textsWithin And.right rule.requirement state And.left holding
  unfold check
  split
  · rename_i between told
    rw [told] at evaluated
    have compared := evaluated.behind (canBeAwarded_stem responds texts rule evaluated.kept)
    split
    · rename_i below later answered
      rw [answered] at compared
      exact compared.answered _
    · rename_i failure later failed
      rw [failed] at compared
      exact compared.failed
    · rename_i later pending
      rw [pending] at compared
      exact absurd rfl compared.arrived
  · rename_i later told
    rw [told] at evaluated
    exact evaluated.answered _
  · rename_i failure later told
    rw [told] at evaluated
    exact evaluated.failed
  · rename_i later told
    rw [told] at evaluated
    exact absurd rfl evaluated.arrived

end Rule

/-- The reply that an ending amounts to. -/
def Ending.reply {α : Type} : Ending α → Reply α
  | .value result => .answer result
  | .failed failure => .failed failure
  | .exhausted _ last => .failed last
  | .pending => .pending

/-- A reply that is not tried again amounts to itself when it is read as the ending of attempts. -/
theorem Verdict.reply_endingOf {α : Type} (reply : Reply α) : (endingOf reply).reply = reply := by
  cases reply <;> rfl

/-- The lookups of attempts, of those that failed and of the last one. -/
structure Attempts where
  failed : List (List Call)
  last : List Call

/-- All of these lookups. -/
def Attempts.calls (attempts : Attempts) : List Call := attempts.failed.flatten ++ attempts.last

/-- Whether attempts lead to a reply: the last one comes to it, and each of the others to a failure
that is retried. -/
structure Attempts.LeadTo {α : Type} (context : Context) (brief : Prop)
    (isRetried : Failure → Bool) (attempts : Attempts) (reply : Reply α) : Prop where
  retried : ∀ calls ∈ attempts.failed, ∃ failure, isRetried failure = true ∧
    Reply.StemFrom context brief calls [(.failed failure : Reply α)]
  last : Reply.StemFrom context brief attempts.last [reply]

/-- A reply that is not tried again comes of a single attempt. -/
theorem Reply.Stem.leads {α : Type} {ready : σ → Prop} {context : Context} {brief : Prop}
    {before : List Call} {reply : Reply α} {after : σ × List Call}
    (stem : Reply.Stem ready context brief before [reply] after) (isRetried : Failure → Bool)
    (left : Nat) :
    ∃ attempts : Attempts, attempts.failed.length ≤ left ∧ ready after.1 ∧
      after.2 = before ++ attempts.calls ∧ attempts.LeadTo context brief isRetried reply := by
  obtain ⟨kept, calls, made, stem⟩ := stem
  exact ⟨⟨[], calls⟩, Nat.zero_le _, kept, made, by simp, stem⟩

/-- Calls that stem from their lookups do so in each attempt, if there is a delay after it.

Proof: induction on the attempts left. A failure that is retried puts the lookups of its attempt
before those of the later ones, and any other reply stems from the lookups of this attempt alone. -/
theorem attemptFrom_stem {α : Type} {ready : σ → Prop} {context : Context} {brief : Prop}
    {policy : RetryPolicy} {draws : Nat → Draw} {isRetried : Failure → Bool}
    {call : σ × List Call → Reply α × (σ × List Call)}
    (called : ∀ state, ready state.1 →
      Reply.Stem ready context brief state.2 [(call state).1] (call state).2)
    {left attempt : Nat} (positive : 0 < attempt) (few : attempt + left ≤ 1024)
    {state : σ × List Call} (holding : ready state.1) :
    ∃ attempts : Attempts, attempts.failed.length ≤ left ∧
      ready (attemptFrom policy draws isRetried call left attempt state).2.1 ∧
      (attemptFrom policy draws isRetried call left attempt state).2.2 =
        state.2 ++ attempts.calls ∧
      attempts.LeadTo context brief isRetried
        (attemptFrom policy draws isRetried call left attempt state).1.ending.reply := by
  induction left generalizing attempt state with
  | zero =>
    have first := called state holding
    unfold attemptFrom
    cases replied : call state with
    | mk reply later =>
      rw [replied] at first
      cases reply with
      | failed failure =>
        dsimp only
        split
        · exact first.leads _ _
        · exact first.leads _ _
      | answer value => exact first.leads _ _
      | pending => exact first.leads _ _
  | succ left inductionHypothesis =>
    have first := called state holding
    unfold attemptFrom
    cases replied : call state with
    | mk reply later =>
      rw [replied] at first
      cases reply with
      | failed failure =>
        dsimp only
        split
        · rename_i retried
          obtain ⟨delay, delayed⟩ := policy.delay_of_le (draws attempt) positive (by omega)
          obtain ⟨kept, calls, made, stem⟩ := first
          obtain ⟨attempts, most, held, madeToo, leads⟩ :=
            inductionHypothesis (Nat.succ_pos attempt) (by omega) kept
          simp only [delayed]
          refine ⟨⟨calls :: attempts.failed, attempts.last⟩, Nat.succ_le_succ most, held, ?_,
            List.forall_mem_cons.mpr ⟨⟨failure, retried, stem⟩, leads.retried⟩, leads.last⟩
          rw [madeToo, made]
          simp [Attempts.calls]
        · exact first.leads _ _
      | answer value => exact first.leads _ _
      | pending => exact first.leads _ _

/-- Whether what a check came to stems from the lookups of its attempts. Each attempt but the last
failed with a failed query. The last one explains the error, and no lookup of it failed if there is
none. -/
structure Outcome.StemFrom (context : Context) (attempts : Attempts) (outcome : Outcome) :
    Prop where
  lookups : ∀ call ∈ attempts.calls, call.isLookup = true
  retried : ∀ calls ∈ attempts.failed,
    ∃ error : Diagnosis, error.isTransient = true ∧ context.Explains calls error
  explained : ∀ error, outcome.error = some error → context.Explains attempts.last error
  heeded : outcome.error = none → ∀ call ∈ attempts.last, call.raised? = none

/-- Attempts are judged by the ending that they lead to, and the outcome stems from them; or an
integer is too long to be written.

Proof: the reply of the last attempt is the one that is judged, and those before it failed with
errors that are retried. A failure whose lookups explain it becomes the error of the outcome; the
only other failure is that of an integer too long to be written. -/
theorem Verdict.ofEnding_stem {context : Context} {brief : Prop} {attempts : Attempts}
    {ending : Ending (Bool × Bool)} (rule : String)
    (leads : attempts.LeadTo context brief Failure.isTransient ending.reply) :
    (∃ outcome, Verdict.ofEnding rule ending = .judged outcome ∧
      outcome.StemFrom context attempts) ∨
    Verdict.ofEnding rule ending = .escaped .tooLongToWrite ∧ ¬ brief := by
  obtain ⟨retried, last⟩ := leads
  have lookups : ∀ call ∈ attempts.calls, call.isLookup = true := by
    refine List.forall_mem_append.mpr ⟨fun call member => ?_, last.lookups⟩
    obtain ⟨calls, among, made⟩ := List.mem_flatten.mp member
    obtain ⟨_, _, stem⟩ := retried calls among
    exact stem.lookups call made
  have transient : ∀ calls ∈ attempts.failed,
      ∃ error : Diagnosis, error.isTransient = true ∧ context.Explains calls error := by
    intro calls among
    obtain ⟨failure, isTransient, stem⟩ := retried calls among
    cases stem.explained failure (List.mem_singleton.mpr rfl) with
    | explained explained => exact ⟨_, isTransient, explained⟩
    | tooLong => contradiction
  have failing : ∀ failure, ending.reply = .failed failure →
      (∃ outcome, Verdict.ofFailure rule failure = .judged outcome ∧
        outcome.StemFrom context attempts) ∨
      Verdict.ofFailure rule failure = .escaped .tooLongToWrite ∧ ¬ brief := by
    intro failure same
    cases last.explained failure (List.mem_singleton.mpr same.symm) with
    | explained explained =>
      refine .inl ⟨_, rfl, lookups, transient, fun other erred => ?_, nofun⟩
      cases erred
      exact explained
    | tooLong long => exact .inr ⟨rfl, long⟩
  cases ending with
  | value both =>
    exact .inl ⟨_, rfl, lookups, transient, nofun,
      fun _ => last.heeded (by simp [Ending.reply])⟩
  | failed failure => exact failing failure rfl
  | exhausted attempts failure => exact failing failure rfl
  | pending => exact absurd (List.mem_singleton.mpr rfl) last.arrived

/-- How often a check is repeated at most. -/
def RetryPolicy.mostRepeats : Option RetryPolicy → Nat
  | none => 0
  | some policy => policy.maxAttempts - 1

namespace Rule

variable {lookup : Lookup σ} {ready : σ → Prop} (responds : lookup.Responds ready)
  {context : Context} (texts : AreTexts (Entries.keys context.attributes)) (rule : Rule)
include responds texts

/-- A rule is judged by the ending that some attempts lead to, no more of them than the policy
allows, and the state has kept their lookups. -/
theorem judge_ending {policy : Option RetryPolicy}
    (few : ∀ retrying, policy = some retrying → retrying.maxAttempts ≤ 1024)
    {state : σ × List Call} (holding : ready state.1) :
    ∃ ending later, ∃ attempts : Attempts,
      rule.judge lookup.traced policy context state =
        (.ofEnding rule.name ending, later, state.2 ++ attempts.calls) ∧
      ready later ∧ attempts.failed.length ≤ RetryPolicy.mostRepeats policy ∧
      attempts.LeadTo (context.forScope rule.scope) (rule.IsBrief context) Failure.isTransient
        ending.reply := by
  cases policy with
  | none =>
    obtain ⟨attempts, most, kept, made, leads⟩ :=
      (check_stem responds texts rule holding).leads Failure.isTransient 0
    rw [← Verdict.reply_endingOf (rule.check lookup.traced context state).1] at leads
    exact ⟨_, _, attempts, Prod.ext rfl (Prod.ext rfl made), kept, most, leads⟩
  | some policy =>
    have within : 1 + (policy.maxAttempts - 1) ≤ 1024 := by
      have most := few policy rfl
      omega
    obtain ⟨attempts, most, kept, made, leads⟩ :=
      @attemptFrom_stem σ _ ready _ _ policy (fun _ => Draw.none) Failure.isTransient
        (rule.check lookup.traced context) (fun _ => check_stem responds texts rule) _ _
        Nat.one_pos within state holding
    exact ⟨_, _, attempts, Prod.ext rfl (Prod.ext rfl made), kept, most, leads⟩

/-- A rule gets an outcome that stems from some attempts. Only where the rule is not brief can it
happen that its check is left by a failure. -/
theorem judge_stem {policy : Option RetryPolicy}
    (few : ∀ retrying, policy = some retrying → retrying.maxAttempts ≤ 1024)
    {state : σ × List Call} (holding : ready state.1) :
    (∃ outcome later, ∃ attempts : Attempts,
      rule.judge lookup.traced policy context state =
        (.judged outcome, later, state.2 ++ attempts.calls) ∧
      ready later ∧ attempts.failed.length ≤ RetryPolicy.mostRepeats policy ∧
      outcome.StemFrom (context.forScope rule.scope) attempts) ∨
    (rule.judge lookup.traced policy context state).1 = .escaped .tooLongToWrite ∧
      ¬ rule.IsBrief context := by
  obtain ⟨ending, later, attempts, judged, kept, most, leads⟩ :=
    judge_ending responds texts rule few holding
  rcases Verdict.ofEnding_stem rule.name leads with ⟨outcome, verdict, stems⟩ | ⟨escaped, long⟩
  · exact .inl ⟨outcome, later, attempts, by rw [judged, verdict], kept, most, stems⟩
  · exact .inr ⟨by rw [judged, escaped], long⟩

end Rule

end Accolade
