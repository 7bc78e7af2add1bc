import Accolade.Proofs.Calls
import Accolade.Proofs.Cycle.Integrity
import Accolade.Proofs.Cycle.Projection

/-!
# Failures stay inside a cycle

Whatever calls of its collaborators fail, and however they do, no such failure leaves a cycle. It
comes to its end, unless the check of a candidate has to write an integer that is too long for it:
with brief candidates it always does. Each pass deals with its candidates one by one: it makes the
lookups of all checks, and then the calls of the awards. The lookups of a check explain its error,
and no further call follows a check with an error. An award goes through, or the call at which it
breaks off is its last one and the reason of the error that the outcome takes. A failure of actions
is no error: apart from being reported, it changes nothing about the cycle.
-/

namespace Accolade

variable {σ : Type}

/-- Whether collaborators respond in certain states: no lookup hangs or finds other than whole
amounts, and every call leads to such states, failing or not. -/
structure Collaborators.Respond (collaborators : Collaborators σ) (ready : σ → Prop) : Prop where
  lookup : collaborators.lookup.Responds ready
  records : ∀ subject rule scope state, ready state →
    ready (collaborators.recordAward subject rule scope state).2
  retracts : ∀ subject rule scope state, ready state →
    ready (collaborators.retractAward subject rule scope state).2
  invokes : ∀ run, collaborators.invoke = some run → ∀ actions context state, ready state →
    ready (run actions context state).2

/-- Collaborators respond whatever pattern they are disturbed by. -/
theorem Collaborators.Respond.disturbed {collaborators : Collaborators σ} {ready : σ → Prop}
    (respond : collaborators.Respond ready) (pattern : Nat → Option Failure) :
    (collaborators.disturbed pattern).Respond fun state => ready state.1 where
  lookup :=
    { kept := by
        intro kind query state holding
        cases struck : pattern state.2 with
        | some failure => simpa [Collaborators.disturbed, struck] using holding
        | none =>
          simpa [Collaborators.disturbed, struck] using
            respond.lookup.kept kind query state.1 holding
      replies := by
        intro kind query state holding
        cases struck : pattern state.2 with
        | some failure => exact .inl ⟨failure, by simp [Collaborators.disturbed, struck]⟩
        | none =>
          simpa [Collaborators.disturbed, struck] using
            respond.lookup.replies kind query state.1 holding }
  records subject rule scope state holding := by
    cases struck : pattern state.2 with
    | some failure => simpa [Collaborators.disturbed, struck] using holding
    | none =>
      simpa [Collaborators.disturbed, struck] using
        respond.records subject rule scope state.1 holding
  retracts subject rule scope state holding := by
    cases struck : pattern state.2 with
    | some failure => simpa [Collaborators.disturbed, struck] using holding
    | none =>
      simpa [Collaborators.disturbed, struck] using
        respond.retracts subject rule scope state.1 holding
  invokes run given actions context state holding := by
    simp only [Collaborators.disturbed, Option.map_eq_some_iff] at given
    obtain ⟨inner, present, rfl⟩ := given
    cases struck : pattern state.2 with
    | some failure => simpa [struck] using holding
    | none =>
      simpa [struck] using respond.invokes inner present actions context state.1 holding

/-- Stores in memory respond as long as they are quiet: every call returns, and leaves them quiet.
-/
theorem Stores.collaborators_respond (runsActions : Bool) :
    (Stores.collaborators runsActions).Respond Stores.IsQuiet where
  lookup :=
    { kept := by
        intro kind query stores quiet
        change (Stores.lookup kind query stores).2.IsQuiet
        rw [Stores.lookup_of_faultless quiet.faultless]
        exact quiet
      replies := by
        intro kind query stores quiet
        obtain ⟨found, told, whole⟩ := quiet.lookup.answers kind query
        exact .inr ⟨found, congrArg Prod.fst told, whole⟩ }
  records subject rule scope _ quiet := quiet.recordAward subject rule scope
  retracts subject rule scope _ quiet := quiet.retractAward subject rule scope
  invokes _ given actions context _ quiet := quiet.invoked given actions context

/-- The error that the award of a rule takes from a call. A failure of actions is no error. -/
def Call.error? (rule : String) : Call → Option Diagnosis
  | .award _ (some failure) => some (failure.seenAs "achievements" [("rule", .text rule)])
  | .retraction _ (some failure) => some (failure.seenAs "achievements" [("rule", .text rule)])
  | _ => none

/-- Whether a call is one that the award of a rule may make. -/
def Call.Serves (rule : Rule) : Call → Prop
  | .lookup _ _ _ => False
  | .award name _ => name = rule.name
  | .retraction name _ => name ∈ rule.replaces
  | .actions _ => True

/-- Whether the calls of an award come to an error, or to none. No call before the one that breaks
it off is an error. -/
inductive Call.ComeTo (rule : Rule) : List Call → Option Diagnosis → Prop
  | through (calls : List Call)
      (unfailed : ∀ call ∈ calls, call.Serves rule ∧ call.error? rule.name = none) :
      ComeTo rule calls none
  | broken (early : List Call) (last : Call) (error : Diagnosis)
      (unfailed : ∀ call ∈ early, call.Serves rule ∧ call.error? rule.name = none)
      (serves : last.Serves rule) (raised : last.error? rule.name = some error) :
      ComeTo rule (early ++ [last]) (some error)

/-- Calls that come to no error serve the rule and have no errors among them. -/
theorem Call.ComeTo.unfailed {rule : Rule} {calls : List Call} (through : ComeTo rule calls none) :
    ∀ call ∈ calls, call.Serves rule ∧ call.error? rule.name = none := by
  cases through with
  | through _ unfailed => exact unfailed

/-- Calls without errors may come before those that come to something, and the whole comes to the
same. -/
theorem Call.ComeTo.behind {rule : Rule} {calls further : List Call} {error : Option Diagnosis}
    (late : ComeTo rule further error)
    (early : ∀ call ∈ calls, call.Serves rule ∧ call.error? rule.name = none) :
    ComeTo rule (calls ++ further) error := by
  cases late with
  | through _ unfailed => exact .through _ (List.forall_mem_append.mpr ⟨early, unfailed⟩)
  | broken rest last error unfailed serves raised =>
    rw [← List.append_assoc]
    exact .broken _ last error (List.forall_mem_append.mpr ⟨early, unfailed⟩) serves raised

/-- What a check of a candidate came to, after some attempts. -/
structure Inspection where
  rule : Rule
  outcome : Outcome
  attempts : Attempts

/-- Whether the outcome of a check is that of its rule and stems from its attempts. -/
structure Inspection.IsSound (engine : Engine) (context : Context) (inspection : Inspection) :
    Prop where
  own : inspection.outcome.rule = inspection.rule.name
  allowed : inspection.attempts.failed.length ≤ RetryPolicy.mostRepeats engine.retry
  stems : inspection.outcome.StemFrom (context.forScope inspection.rule.scope) inspection.attempts

/-- What became of the outcome of a check, after some further calls. -/
structure Handling where
  inspection : Inspection
  outcome : Outcome
  calls : List Call

namespace Handling

/-- How dealing with an outcome ends: it is left as it is, or it takes the error that its award came
to, or the error that the scope of some write does not resolve. -/
inductive Ended (engine : Engine) (context : Context) (handling : Handling) : Prop
  | kept (through : Call.ComeTo handling.inspection.rule handling.calls none)
      (same : handling.outcome = handling.inspection.outcome)
  | broken (error : Diagnosis)
      (raised : Call.ComeTo handling.inspection.rule handling.calls (some error))
      (erred : handling.outcome = { handling.inspection.outcome with error := some error })
  | unresolved (error : Diagnosis)
      (missing : engine.writes context handling.inspection.rule = .error (.diagnosed error))
      (uncalled : handling.calls = [])
      (erred : handling.outcome = { handling.inspection.outcome with error := some error })

/-- Whether all failures that a candidate met stay with its outcome. -/
structure IsContained (engine : Engine) (context : Context) (handling : Handling) : Prop where
  inspected : handling.inspection.IsSound engine context
  /-- a check that failed leads to no calls -/
  idle : handling.inspection.outcome.error.isSome = true →
    handling.calls = [] ∧ handling.outcome = handling.inspection.outcome
  ended : handling.Ended engine context

/-- The calls of a pass: the lookups of all checks, and then those of the awards. -/
def callsOf (handlings : List Handling) : List Call :=
  handlings.flatMap (·.inspection.attempts.calls) ++ handlings.flatMap (·.calls)

end Handling

/-- Whether passes are an account of a cycle over candidates: of all its calls and outcomes, in
order, with the failures that were met contained. -/
structure Progress.IsAccounted (engine : Engine) (context : Context) (candidates : List Rule)
    (progress : Progress (σ × List Call)) (passes : List (List Handling)) : Prop where
  counted : passes.length = progress.passes
  calls : progress.state.2 = passes.flatMap Handling.callsOf
  outcomes : progress.outcomes = passes.flatMap fun handlings => handlings.map (·.outcome)
  checked : ∀ handlings ∈ passes, (handlings.map (·.inspection.rule)).Sublist candidates
  contained : ∀ handlings ∈ passes, ∀ handling ∈ handlings, handling.IsContained engine context

/-- Whether a cycle has come so far, with the state as it should be and passes that account for what
was done. -/
def Progress.IsContained (ready : σ → Prop) (engine : Engine) (context : Context)
    (candidates : List Rule) (progress : Progress (σ × List Call)) : Prop :=
  ready progress.state.1 ∧ ∃ passes, progress.IsAccounted engine context candidates passes

namespace Engine

variable {engine : Engine} {collaborators : Collaborators σ} {context : Context}
  {ready : σ → Prop} (respond : collaborators.Respond ready)

section Attempts

variable (context) (rule : Rule) {progress : Progress (σ × List Call)}
  (holding : ready progress.state.1)
include respond holding

/-- Retractions are calls up to the first that fails, and what they come to is the diagnosis of that
failure.

Proof: induction on the retractions. One that goes through puts its call before those of the rest,
and one that fails is the last call and gives the diagnosis. -/
theorem retractEach_calls {retractions : List (String × Entries)}
    (replaced : ∀ entry ∈ retractions, entry.1 ∈ rule.replaces) :
    ∃ broken later calls,
      retractEach collaborators.traced context rule retractions progress = (broken, later) ∧
      ready later.state.1 ∧ later.state.2 = progress.state.2 ++ calls ∧
      Call.ComeTo rule calls (broken.map (awardDiagnosis rule.name)) := by
  induction retractions generalizing progress with
  | nil => exact ⟨none, progress, [], rfl, holding, by simp, .through [] (by simp)⟩
  | cons first rest inductionHypothesis =>
    obtain ⟨target, values⟩ := first
    obtain ⟨here, further⟩ := List.forall_mem_cons.mp replaced
    have kept := respond.retracts context.subject target values progress.state.1 holding
    cases called : collaborators.retractAward context.subject target values progress.state.1 with
    | mk outcome state =>
      have traced : collaborators.traced.retractAward context.subject target values
          progress.state =
          (outcome, state, progress.state.2 ++ [.retraction target (Call.failureOf outcome)]) := by
        simp [Collaborators.traced, called]
      rw [called] at kept
      simp only [retractEach, traced]
      cases outcome with
      | error failure =>
        exact ⟨some failure, _, _, rfl, kept, rfl, .broken [] _ _ (by simp) here rfl⟩
      | ok _ =>
        have first : ∀ call ∈ [Call.retraction target none],
            call.Serves rule ∧ call.error? rule.name = none := by
          simpa [Call.Serves, Call.error?] using here
        obtain ⟨broken, later, calls, made, held, trace, comes⟩ := @inductionHypothesis
          { progress with
            state := (state, progress.state.2 ++ [.retraction target none])
            retracted := progress.retracted ++ [target]
            happenings := progress.happenings ++ [.replaced target rule.name] } kept further
        refine ⟨broken, later, .retraction target none :: calls, made, held, ?_,
          comes.behind first⟩
        rw [trace, List.append_assoc]
        rfl

/-- Running actions is a call at most, and its failure is no error of the award. -/
theorem runActions_calls :
    ∃ calls, ready (runActions collaborators.traced context rule progress).state.1 ∧
      (runActions collaborators.traced context rule progress).state.2 =
        progress.state.2 ++ calls ∧
      ∀ call ∈ calls, call.Serves rule ∧ call.error? rule.name = none := by
  unfold runActions
  split
  · rename_i action more run actions present
    simp only [Collaborators.traced, Option.map_eq_some_iff] at present
    obtain ⟨inner, given, rfl⟩ := present
    have kept := respond.invokes inner given rule.actions (context.forScope rule.scope)
      progress.state.1 holding
    cases ran : inner rule.actions (context.forScope rule.scope) progress.state.1 with
    | mk outcome later =>
      rw [ran] at kept
      have quiet : ∀ call ∈ [Call.actions (Call.failureOf outcome)],
          call.Serves rule ∧ call.error? rule.name = none := by
        simp [Call.Serves, Call.error?]
      refine ⟨_, ?_, ?_, quiet⟩ <;> simp only [ran]
      · cases outcome <;> exact kept
      · cases outcome <;> rfl
  · exact ⟨[], holding, by simp, by simp⟩

variable (engine)

/-- An award makes its calls up to the first that is an error, or none at all if the scope of some
write does not resolve.

Proof: follow the ways an award can go. The call that records comes first, the retractions follow if
it went through, and the actions if all of them did. What the calls come to is the failure of the
call at which they break off. -/
theorem award_calls :
    ∃ broken later calls,
      engine.award collaborators.traced context rule progress = (broken, later) ∧
      ready later.state.1 ∧ later.state.2 = progress.state.2 ++ calls ∧
      (Call.ComeTo rule calls (broken.map (awardDiagnosis rule.name)) ∨
        ∃ failure, engine.writes context rule = .error failure ∧ broken = some failure ∧
          calls = []) := by
  rcases award_cases collaborators.traced context rule progress engine with
    ⟨failure, missing, made⟩ | ⟨values, retractions, resolved, ⟨failure, state, refused, made⟩ |
      ⟨fact, state, broken, later, recorded, retracting, made⟩⟩
  · exact ⟨some failure, progress, [], made, holding, by simp, .inr ⟨failure, missing, rfl, rfl⟩⟩
  · have kept := respond.records context.subject rule.name values progress.state.1 holding
    cases called : collaborators.recordAward context.subject rule.name values progress.state.1 with
    | mk outcome inner =>
      simp only [Collaborators.traced, called, Prod.mk.injEq] at refused
      obtain ⟨rfl, rfl⟩ := refused
      rw [called] at kept
      exact ⟨some failure, _, _, made, kept, rfl, .inl (.broken [] _ _ (by simp) rfl rfl)⟩
  · have kept := respond.records context.subject rule.name values progress.state.1 holding
    cases called : collaborators.recordAward context.subject rule.name values progress.state.1 with
    | mk outcome inner =>
      simp only [Collaborators.traced, called, Prod.mk.injEq] at recorded
      obtain ⟨rfl, rfl⟩ := recorded
      rw [called] at kept
      have begun : ready (progress.withAward rule fact
          (inner, progress.state.2 ++ [.award rule.name (Call.failureOf (.ok fact))])).state.1 :=
        kept
      have awarded : ∀ call ∈ [Call.award rule.name none],
          call.Serves rule ∧ call.error? rule.name = none := by
        simp [Call.Serves, Call.error?]
      have replaced : ∀ entry ∈ retractions, entry.1 ∈ rule.replaces := by
        obtain ⟨_, _, _, rfl⟩ := (writes_eq_ok_iff engine context rule _ _).mp resolved
        simp
      obtain ⟨ended, reached, calls, retracted, held, trace, comes⟩ :=
        retractEach_calls context respond rule begun replaced
      rw [retracting, Prod.mk.injEq] at retracted
      obtain ⟨rfl, rfl⟩ := retracted
      cases broken with
      | some failure =>
        exact ⟨some failure, later, .award rule.name none :: calls, made, held,
          trace.trans (List.append_assoc _ _ _), .inl (comes.behind awarded)⟩
      | none =>
        obtain ⟨further, ran, tracedToo, unfailed⟩ :=
          runActions_calls context respond rule held
        refine ⟨none, _, .award rule.name none :: (calls ++ further), made, ran, ?_,
          .inl (Call.ComeTo.behind (.behind (.through further unfailed) comes.unfailed) awarded)⟩
        simp only [Option.isSome_none, Bool.false_eq_true, if_false]
        rw [tracedToo, trace]
        simp [Progress.withAward, Call.failureOf]

/-- An attempt goes on with the calls of its award, and its error is what these calls came to.
Otherwise a scope did not resolve, and it made no calls. -/
theorem attempt_calls (texts : AreTexts (Entries.keys context.attributes)) :
    ∃ error later calls,
      engine.attempt collaborators.traced context rule progress = (error, later) ∧
      ready later.state.1 ∧ later.state.2 = progress.state.2 ++ calls ∧
      (Call.ComeTo rule calls error ∨
        ∃ diagnosis, engine.writes context rule = .error (.diagnosed diagnosis) ∧
          error = some diagnosis ∧ calls = []) := by
  obtain ⟨broken, later, calls, made, held, trace, comes⟩ :=
    award_calls engine context respond rule holding
  unfold attempt
  rw [made]
  rcases comes with comes | ⟨failure, missing, rfl, uncalled⟩
  · cases broken with
    | none => exact ⟨none, _, calls, rfl, held, trace, .inl comes⟩
    | some failure => exact ⟨_, _, calls, rfl, held, trace, .inl comes⟩
  · obtain ⟨diagnosis, _, rfl⟩ := writes_diagnosed texts missing
    exact ⟨_, _, calls, rfl, held, trace, .inr ⟨diagnosis, missing, rfl, uncalled⟩⟩

end Attempts

section Passes

variable (engine) (texts : AreTexts (Entries.keys context.attributes))
  {progress : Progress (σ × List Call)}

section Checks

variable (few : ∀ policy, engine.retry = some policy → policy.maxAttempts ≤ 1024)
include respond texts few

/-- All rules are judged, one after the other, unless a failure escapes the check of one that is not
brief. -/
theorem judgeAll_inspected (rules : List Rule) {state : σ × List Call} (holding : ready state.1) :
    (∃ inspections : List Inspection, ∃ later,
      engine.judgeAll collaborators.lookup.traced context rules state =
        (inspections.map fun inspection => (inspection.rule, .judged inspection.outcome), later,
          state.2 ++ inspections.flatMap (·.attempts.calls)) ∧
      ready later ∧ inspections.map (·.rule) = rules ∧
      ∀ inspection ∈ inspections, inspection.IsSound engine context) ∨
    (collect (engine.judgeAll collaborators.lookup.traced context rules state).1).1 =
        some .tooLongToWrite ∧
      ∃ rule ∈ rules, ¬ rule.IsBrief context := by
  induction rules generalizing state with
  | nil => exact .inl ⟨[], state.1, by simp [judgeAll], holding, rfl, by simp⟩
  | cons rule rest inductionHypothesis =>
    rcases rule.judge_stem respond.lookup texts few holding with
      ⟨outcome, between, attempts, judged, kept, most, stems⟩ | ⟨escaped, long⟩
    · have own : outcome.rule = rule.name := Rule.judge_rule (congrArg Prod.fst judged)
      rcases @inductionHypothesis (between, state.2 ++ attempts.calls) kept with
        ⟨inspections, later, others, held, same, sound⟩ | ⟨escaped, other, member, long⟩
      · refine .inl ⟨⟨rule, outcome, attempts⟩ :: inspections, later, ?_, held,
          by rw [List.map_cons, same], List.forall_mem_cons.mpr ⟨⟨own, most, stems⟩, sound⟩⟩
        simp only [judgeAll, judged, others, List.map_cons, List.flatMap_cons, List.append_assoc]
      · refine .inr ⟨?_, other, List.mem_cons_of_mem rule member, long⟩
        simpa only [judgeAll, judged, collect] using escaped
    · refine .inr ⟨?_, rule, List.mem_cons_self, long⟩
      simp only [judgeAll, escaped, collect]

/-- No failure escapes the checks of a pass, unless some candidate is not brief. -/
theorem checks_inspected (candidates : List Rule) (holding : ready progress.state.1) :
    (∃ inspections : List Inspection, ∃ later happenings,
      engine.checks collaborators.traced context candidates progress =
        (none, inspections.map fun inspection => (inspection.rule, inspection.outcome),
          { progress with
            state := (later, progress.state.2 ++ inspections.flatMap (·.attempts.calls))
            passes := progress.passes + 1
            happenings := happenings }) ∧
      ready later ∧ (inspections.map (·.rule)).Sublist candidates ∧
      ∀ inspection ∈ inspections, inspection.IsSound engine context) ∨
    (engine.checks collaborators.traced context candidates progress).1 = some .tooLongToWrite ∧
      ∃ rule ∈ candidates, ¬ rule.IsBrief context := by
  rcases judgeAll_inspected engine respond texts few (eligible candidates progress) holding with
    ⟨inspections, later, judged, held, same, sound⟩ | ⟨escaped, rule, member, long⟩
  · refine .inl ⟨inspections, later,
      (engine.checks collaborators.traced context candidates progress).2.2.happenings, ?_, held,
      same ▸ List.filter_sublist, sound⟩
    have checked : engine.judgeAll collaborators.traced.lookup context
      (eligible candidates progress) progress.state = _ := judged
    have arrived := @someHung_eq_false Inspection inspections (·.rule)
      (fun inspection => .judged inspection.outcome) fun _ _ => nofun
    simp only [checks, checked, collect_judged fun _ _ => rfl, arrived, Bool.or_false]
  · exact .inr ⟨escaped, rule, (List.mem_filter.mp member).1, long⟩

end Checks

section Awards

include respond texts

/-- Dealing with an outcome contains the failures that are met: the item is handled with its calls,
and they follow those made before.

Proof: an outcome that is passed over makes no call and stays as it is. Otherwise the error of the
attempt decides whether the item is kept, broken or unresolved. -/
theorem awardItem_handled {inspection : Inspection} (sound : inspection.IsSound engine context)
    (holding : ready progress.state.1) :
    ∃ handling : Handling, handling.inspection = inspection ∧
      handling.IsContained engine context ∧
      let dealt := engine.awardItem collaborators.traced context
        (inspection.rule, inspection.outcome) progress
      dealt.1 = handling.outcome ∧ ready dealt.2.2.state.1 ∧
        dealt.2.2.state.2 = progress.state.2 ++ handling.calls := by
  rcases awardItem_cases engine collaborators.traced context
      (inspection.rule, inspection.outcome) progress with
    ⟨_, made⟩ | ⟨chosen, _, tried⟩
  · rw [made]
    exact ⟨⟨inspection, inspection.outcome, []⟩, rfl,
      ⟨sound, fun _ => ⟨rfl, rfl⟩, .kept (.through [] (by simp)) rfl⟩, rfl, holding, by simp⟩
  · have unfailed : ¬ inspection.outcome.error.isSome = true := by
      simp only [Outcome.shouldAward, Bool.and_eq_true, Option.isNone_iff_eq_none] at chosen
      simp [chosen.2]
    obtain ⟨error, later, calls, attempted, held, trace, comes⟩ :=
      attempt_calls engine context respond inspection.rule holding texts
    rcases tried with ⟨raised, after, failed, made⟩ | ⟨after, through, made⟩
    · rw [attempted, Prod.mk.injEq] at failed
      obtain ⟨rfl, rfl⟩ := failed
      rw [made]
      refine ⟨⟨inspection, { inspection.outcome with error := some raised }, calls⟩, rfl,
        ⟨sound, fun erred => absurd erred unfailed, ?_⟩, rfl, held, trace⟩
      rcases comes with comes | ⟨diagnosis, missing, same, uncalled⟩
      · exact .broken raised comes rfl
      · cases same
        exact .unresolved raised missing uncalled rfl
    · rw [attempted, Prod.mk.injEq] at through
      obtain ⟨rfl, rfl⟩ := through
      rw [made]
      refine ⟨⟨inspection, inspection.outcome, calls⟩, rfl,
        ⟨sound, fun erred => absurd erred unfailed, ?_⟩, rfl, held, trace⟩
      rcases comes with comes | ⟨_, _, same, _⟩
      · exact .kept comes rfl
      · contradiction

/-- All items are dealt with one by one: each has the calls and the outcome of an item that is
contained, and the calls follow those that were made before. -/
theorem awardEach_handled {inspections : List Inspection}
    (sound : ∀ inspection ∈ inspections, inspection.IsSound engine context)
    (holding : ready progress.state.1) :
    ∃ handlings : List Handling, handlings.map (·.inspection) = inspections ∧
      (∀ handling ∈ handlings, handling.IsContained engine context) ∧
      let dealt := engine.awardEach collaborators.traced context
        (inspections.map fun inspection => (inspection.rule, inspection.outcome)) progress
      dealt.1 = handlings.map (·.outcome) ∧ ready dealt.2.2.state.1 ∧
        dealt.2.2.state.2 = progress.state.2 ++ handlings.flatMap (·.calls) := by
  induction inspections generalizing progress with
  | nil => exact ⟨[], rfl, by simp, rfl, holding, by simp [awardEach]⟩
  | cons inspection rest inductionHypothesis =>
    obtain ⟨here, further⟩ := List.forall_mem_cons.mp sound
    obtain ⟨handling, rfl, contained, outcome, kept, trace⟩ :=
      awardItem_handled engine respond texts here holding
    obtain ⟨handlings, rfl, containedToo, outcomes, held, traceToo⟩ :=
      inductionHypothesis further kept
    refine ⟨handling :: handlings, rfl, List.forall_mem_cons.mpr ⟨contained, containedToo⟩, ?_⟩
    rw [List.map_cons, awardEach_cons]
    refine ⟨by rw [List.map_cons, outcome, outcomes], held, ?_⟩
    rw [traceToo, trace, List.flatMap_cons, List.append_assoc]

end Awards

variable (few : ∀ policy, engine.retry = some policy → policy.maxAttempts ≤ 1024)
include respond texts few

/-- A pass that no failure leaves is accounted for by how it deals with the candidates. -/
theorem pass_isContained {candidates : List Rule}
    (before : progress.IsContained ready engine context candidates)
    (whole : (engine.checks collaborators.traced context candidates progress).1 = none) :
    (engine.pass collaborators.traced context candidates progress).2.IsContained ready engine
      context candidates := by
  obtain ⟨holding, passes, accounted⟩ := before
  obtain ⟨inspections, later, happenings, checked, kept, among, sound⟩ :=
    (checks_inspected engine respond texts few candidates holding).resolve_right fun escaped => by
      rw [whole] at escaped
      exact nomatch escaped.1
  have begun : ready ({ progress with
      state := (later, progress.state.2 ++ inspections.flatMap (·.attempts.calls))
      passes := progress.passes + 1
      happenings := happenings } : Progress (σ × List Call)).state.1 := kept
  obtain ⟨handlings, rfl, contained, outcomes, held, trace⟩ :=
    awardEach_handled engine respond texts sound begun
  simp only [pass, checked]
  refine ⟨held, passes ++ [handlings], ?_, ?_, ?_, ?_, ?_⟩
  · rw [(awardEach_frame _ _).2, List.length_append, accounted.counted]
    rfl
  · rw [trace]
    simp [accounted.calls, Handling.callsOf, List.flatMap_map]
  · rw [(awardEach_frame _ _).1, outcomes]
    simp [accounted.outcomes]
  · rw [List.map_map] at among
    exact List.forall_mem_append.mpr ⟨accounted.checked, List.forall_mem_singleton.mpr among⟩
  · exact List.forall_mem_append.mpr
      ⟨accounted.contained, List.forall_mem_singleton.mpr contained⟩

/-- A cycle comes to its end, as far as the candidates are brief, and its passes account for it. -/
theorem process_isContained (candidates : List Rule) (state : σ) (holding : ready state) :
    let ended := engine.process collaborators.traced context candidates (state, [])
    EndsIfBrief context candidates ended.1 ∧
      (ended.1 = none → ended.2.IsContained ready engine context candidates) := by
  have started : Progress.IsContained ready engine context candidates
      (Progress.start (state, []) engine.startsExpired) :=
    ⟨holding, [], rfl, rfl, rfl, by simp, by simp⟩
  have passed : ∀ progress : Progress (σ × List Call),
      progress.IsContained ready engine context candidates →
      (engine.checks collaborators.traced context candidates progress).1 = none →
      (engine.pass collaborators.traced context candidates progress).2.IsContained ready engine
        context candidates :=
    fun _ => pass_isContained engine respond texts few
  have failed := process_failure
    (E := fun failure => failure = .tooLongToWrite ∧ ∃ rule ∈ candidates, ¬ rule.IsBrief context)
    (fun progress before failure escaped => by
      rcases checks_inspected engine respond texts few candidates before.1 with
        ⟨_, _, _, checked, _⟩ | ⟨cause, long⟩
      · rw [checked] at escaped
        contradiction
      · exact ⟨Option.some.inj (escaped.symm.trans cause), long⟩)
    passed started
  refine ⟨?_, process_returned passed ?_ started⟩
  · cases ended : (engine.process collaborators.traced context candidates (state, [])).1 with
    | none => exact .inl rfl
    | some failure =>
      obtain ⟨rfl, long⟩ := failed failure ended
      exact .inr ⟨rfl, long⟩
  · rintro _ _ _ ⟨kept, passes, accounted⟩
    exact ⟨kept, passes, accounted.counted, accounted.calls, accounted.outcomes, accounted.checked,
      accounted.contained⟩

end Passes

/-- Whether a cycle contains the failures of its collaborators. It comes to its end, as far as the
candidates are brief, and it does so in the same way if its calls are traced; passes then account
for it. Where actions fail, it does what it does where they go through. -/
structure Contains (engine : Engine) (collaborators : Collaborators σ) (context : Context)
    (candidates : List Rule) (state : σ) : Prop where
  ends : EndsIfBrief context candidates (engine.process collaborators context candidates state).1
  traced : SameBeside (Progress.IsImage Prod.fst)
    (engine.process collaborators context candidates state)
    (engine.process collaborators.traced context candidates (state, []))
  accounted : (engine.process collaborators context candidates state).1 = none → ∃ passes,
    (engine.process collaborators.traced context candidates (state, [])).2.IsAccounted engine
      context candidates passes
  forgiven : SameBeside (Progress.IsImage id)
    (engine.process collaborators.forgiving context candidates state)
    (engine.process collaborators context candidates state)

/-- In a context with textual attributes, a cycle over collaborators that respond contains whatever
pattern of failures disturbs them, under up to 1024 attempts. -/
theorem process_contains (respond : collaborators.Respond ready) (pattern : Nat → Option Failure)
    (texts : AreTexts (Entries.keys context.attributes))
    (few : ∀ policy, engine.retry = some policy → policy.maxAttempts ≤ 1024)
    (candidates : List Rule) {state : σ} (holding : ready state) :
    engine.Contains (collaborators.disturbed pattern) context candidates (state, 0) := by
  have traced : SameBeside (Progress.IsImage Prod.fst)
      (engine.process (collaborators.disturbed pattern) context candidates (state, 0))
      (engine.process (collaborators.disturbed pattern).traced context candidates
        ((state, 0), [])) :=
    process_image engine context (Collaborators.traced_isImage _) candidates ((state, 0), [])
  obtain ⟨ends, contained⟩ :=
    process_isContained engine (respond.disturbed pattern) texts few candidates (state, 0) holding
  refine ⟨traced.1 ▸ ends, traced, fun ended => (contained (traced.1 ▸ ended)).2, ?_⟩
  exact process_image engine context (Collaborators.forgiving_isImage _) candidates (state, 0)

/-- Over the sample catalogue, both attempts to check the first rule come to a foreign failure, and
the award of the second breaks off when the first cannot be retracted. Each error stays with its
outcome. -/
theorem sample_contains :
    let engine := Engine.mk Catalogue.sample 10 none (some ⟨2, .zero, .zero, false⟩)
    let context := Context.of (.integer 2) [] defaultScope
    let pattern : Nat → Option Failure := fun
      | 0 | 1 => some (.foreign "the store is away")
      | 5 => some (.diagnosed (.integrity "the award is locked" []))
      | _ => none
    let disturbed := (Stores.collaborators true).disturbed pattern
    engine.Contains disturbed context Catalogue.sample.rules (Stores.sample, 0) ∧
      (engine.process disturbed context Catalogue.sample.rules (Stores.sample, 0)).1 = none ∧
      (engine.process disturbed context Catalogue.sample.rules
          (Stores.sample, 0)).2.outcomes.map (fun outcome => outcome.error.map (·.category)) =
        [some (.query "achievements"), some .integrity] := by
  intro engine context pattern disturbed
  have texts : AreTexts (Entries.keys context.attributes) :=
    fun key member => ⟨subjectKey, List.mem_singleton.mp member⟩
  have few : ∀ policy, engine.retry = some policy → policy.maxAttempts ≤ 1024 := by
    rintro _ ⟨rfl⟩
    decide
  have contains := process_contains (Stores.collaborators_respond true) pattern texts few
    Catalogue.sample.rules Stores.sample_calm.isQuiet
  exact ⟨contains, contains.ends.eq_none (by decide), by decide +kernel⟩

/-- A failure leaves the cycle of a rule that asks for too many visits, although no call fails. -/
theorem busy_uncontained :
    let engine := Engine.mk Catalogue.busy 10 none none
    let disturbed := (Stores.collaborators true).disturbed fun _ => none
    Catalogue.load .strict Catalogue.busyDocument = .ok ⟨Catalogue.busy, []⟩ ∧
      ∃ failure, (engine.process disturbed (Context.of (.text "u") [] defaultScope)
        Catalogue.busy.rules (Stores.of [] [] [], 0)).1 = some failure :=
  ⟨Catalogue.load_busy, (process_of_busy (by decide) rfl rfl rfl).1⟩

end Engine

end Accolade
