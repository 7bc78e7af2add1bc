import Accolade.Proofs.Catalogue.Loader
import Accolade.Proofs.Cycle.Calm
import Accolade.Proofs.Cycle.Parallel
import Accolade.Proofs.Cycle.Passes
import Accolade.Proofs.Fact.Reordering

/-!
# The order of the candidates

Where no candidate replaces another, the order of the candidates does not matter. A pass checks
them all on the stores at its start, and a candidate that comes out for an award has the scope
it is written under, so every award goes through and settles nothing. The awards of the pass are
then those of the candidates that came out, under as many different names, and may be made in
any order.

Two cycles over permuted candidates therefore keep step. After each pass their stores are the
same by name, so the next pass finds the same outcome for each candidate in both, or it is left in
both by the same failure before it awards anything. In the end their ledgers differ at most in the
order and the identifiers of the records that were added.
-/

namespace Accolade

namespace Stores

/-- Whether stores have come from others by awards that made of the ledger of awards another one,
and by invocations. -/
structure HasWritten (stores : Stores) (ledger : Ledger) (later : Stores) : Prop where
  faults : later.faults = stores.faults
  experience : later.experience = stores.experience
  events : later.events = stores.events
  awards : later.awards = ledger
  separate : later.separateAwards.isSome = stores.separateAwards.isSome
  achievements : later.achievements =
    if stores.separateAwards.isSome then stores.achievements else ledger

namespace HasWritten

variable {stores later ended : Stores} {ledger last : Ledger}

theorem refl (stores : Stores) : stores.HasWritten stores.awards stores where
  faults := rfl
  experience := rfl
  events := rfl
  awards := rfl
  separate := rfl
  achievements := by
    split
    · rfl
    · rename_i shared
      simp [Stores.awards, Option.not_isSome_iff_eq_none.mp shared]

theorem withAwards (stores : Stores) (ledger : Ledger) (invocations : List Invocation) :
    stores.HasWritten ledger { stores.withAwards ledger with invocations := invocations } where
  faults := stores.withAwards_faults ledger
  experience := stores.withAwards_experience ledger
  events := stores.withAwards_events ledger
  awards := stores.withAwards_awards ledger
  separate := stores.withAwards_separate ledger
  achievements := stores.withAwards_achievements ledger

theorem trans (early : stores.HasWritten ledger later) (late : later.HasWritten last ended) :
    stores.HasWritten last ended where
  faults := late.faults.trans early.faults
  experience := late.experience.trans early.experience
  events := late.events.trans early.events
  awards := late.awards
  separate := late.separate.trans early.separate
  achievements := by
    rw [late.achievements, early.separate, early.achievements]
    split <;> rfl

/-- Quiet stores stay quiet after a ledger was written to them in which all amounts are whole. -/
theorem isQuiet (written : stores.HasWritten ledger later) (quiet : stores.IsQuiet)
    (counted : ledger.IsCounted) : later.IsQuiet where
  faultless := written.faults.trans quiet.faultless
  achievements := by
    rw [written.achievements]
    split
    · exact quiet.achievements
    · exact counted
  experience := written.experience ▸ quiet.experience
  awards := written.awards ▸ counted

end HasWritten

/-- Whether stores have come from others by additions to their ledgers of achievements and awards
and changes of amounts there. -/
structure ContinuedBy (stores later : Stores) : Prop where
  achievements : Ledger.Continues (fun _ => True) stores.achievements later.achievements
  awards : Ledger.Continues (fun _ => True) stores.awards later.awards
  experience : later.experience = stores.experience
  events : later.events = stores.events

theorem ContinuedBy.refl (stores : Stores) : stores.ContinuedBy stores :=
  ⟨.refl _, .refl _, rfl, rfl⟩

theorem ContinuedBy.trans {stores later ended : Stores} (early : stores.ContinuedBy later)
    (late : later.ContinuedBy ended) : stores.ContinuedBy ended :=
  ⟨early.achievements.trans late.achievements, early.awards.trans late.awards,
    late.experience.trans early.experience, late.events.trans early.events⟩

/-- Stores are continued by those with another ledger of awards, if that ledger continues their own.
-/
theorem HasWritten.continuedBy {stores later : Stores} {ledger : Ledger}
    (written : stores.HasWritten ledger later)
    (continued : Ledger.Continues (fun _ => True) stores.awards ledger) :
    stores.ContinuedBy later where
  achievements := by
    rw [written.achievements]
    split
    · exact .refl _
    · rename_i shared
      have together : stores.awards = stores.achievements := by
        simp [Stores.awards, Option.not_isSome_iff_eq_none.mp shared]
      exact together ▸ continued
  awards := written.awards ▸ continued
  experience := written.experience
  events := written.events

/-- Whether two stores that have come from the same ones differ at most in the order and the
identifiers of the achievements and awards that were added. -/
structure SameUpToNew (stores first second : Stores) : Prop where
  achievements : Ledger.SameUpToNew (List.length stores.achievements) first.achievements
    second.achievements
  awards : Ledger.SameUpToNew (List.length stores.awards) first.awards second.awards
  experience : first.experience = stores.experience ∧ second.experience = stores.experience
  events : first.events = stores.events ∧ second.events = stores.events

/-- Whether two stores are quiet and differ at most in the order of awards of different names, in
identifiers and in invocations. -/
structure SameByName (first second : Stores) : Prop where
  quiet : first.IsQuiet
  quietToo : second.IsQuiet
  achievements : first.achievements.SameByName second.achievements
  awards : first.awards.SameByName second.awards
  separate : second.separateAwards.isSome = first.separateAwards.isSome
  experience : second.experience = first.experience
  events : second.events = first.events

namespace SameByName

variable {first second : Stores}

/-- Lookups do not tell stores apart that hold the same records name by name, except for
identifiers. -/
theorem findsAlike (same : first.SameByName second) (context : Context) :
    Stores.lookup.FindsAlike context first second := by
  refine Stores.findsAlike same.quiet.faultless same.quietToo.faultless fun kind name => ?_
  match kind with
  | .achievement => exact same.achievements.find name context.boundValues
  | .experience => simp only [ledger, same.experience]
  | .event => simp only [ledger, same.events]

/-- Awards that leave ledgers that are the same by name leave such stores. -/
theorem hasWritten {later laterToo : Stores} {ledger other : Ledger}
    (same : first.SameByName second) (written : first.HasWritten ledger later)
    (writtenToo : second.HasWritten other laterToo) (alike : ledger.SameByName other)
    (counted : ledger.IsCounted) (countedToo : other.IsCounted) : later.SameByName laterToo where
  quiet := written.isQuiet same.quiet counted
  quietToo := writtenToo.isQuiet same.quietToo countedToo
  achievements := by
    rw [written.achievements, writtenToo.achievements, same.separate]
    split
    · exact same.achievements
    · exact alike
  awards := by
    rw [written.awards, writtenToo.awards]
    exact alike
  separate := by rw [written.separate, writtenToo.separate, same.separate]
  experience := by rw [written.experience, writtenToo.experience, same.experience]
  events := by rw [written.events, writtenToo.events, same.events]

/-- Stores that continue the same ones and hold the same records name by name differ at most in the
order and the identifiers of what was added. -/
theorem sameUpToNew {stores : Stores} (same : first.SameByName second)
    (continued : stores.ContinuedBy first) (continuedToo : stores.ContinuedBy second) :
    stores.SameUpToNew first second where
  achievements :=
    same.achievements.sameUpToNew continued.achievements continuedToo.achievements
  awards := same.awards.sameUpToNew continued.awards continuedToo.awards
  experience := ⟨continued.experience, continuedToo.experience⟩
  events := ⟨continued.events, continuedToo.events⟩

end SameByName

end Stores

namespace Engine

variable (engine : Engine) (runs : Bool) {context : Context}

/-- The rules that their outcomes say to award. -/
def chosen (outcomeOf : Rule → Outcome) (rules : List Rule) : List Rule :=
  rules.filter fun rule => (outcomeOf rule).shouldAward

/-- Over quiet stores an award of a rule that replaces none goes through if its scope resolves,
and settles nothing. -/
theorem attempt_free {rule : Rule} (free : rule.replaces = [])
    (resolves : (context.forScope rule.scope).Resolves) {progress : Progress Stores}
    (quiet : progress.state.IsQuiet) :
    ∃ state happenings, engine.attempt (Stores.collaborators runs) context rule progress =
        (none, { progress with
          state := state
          awarded := progress.awarded ++ [rule.name]
          happenings := happenings }) ∧
      progress.state.HasWritten (progress.state.awards.afterAward context rule) state := by
  have resolved : engine.writes context rule =
      .ok ((context.forScope rule.scope).boundValues, []) :=
    (writes_eq_ok_iff engine context rule _ _).mpr ⟨resolves, rfl, by simp [free], by simp [free]⟩
  obtain ⟨written, recorded, _⟩ := Ledger.recordAward_afterAward quiet.awards context rule
  have called : (Stores.collaborators runs).recordAward context.subject rule.name
      (context.forScope rule.scope).boundValues progress.state = _ :=
    Stores.recordAward_of_faultless quiet.faultless recorded
  obtain ⟨invocations, ran⟩ := runActions_of_faultless runs context rule
    { progress with
      state := progress.state.withAwards (progress.state.awards.afterAward context rule)
      awarded := progress.awarded ++ [rule.name]
      happenings := progress.happenings ++
        [.awarded rule.name written.amount rule.maxAwarded] }
    (by simp [quiet.faultless])
  refine ⟨_, progress.happenings ++ [.awarded rule.name written.amount rule.maxAwarded], ?_,
    .withAwards progress.state _ invocations⟩
  simp only [attempt, award, resolved, called, retractEach, ran, free, List.append_nil]

/-- Of outcomes of rules that replace none, those that are to be awarded are, if their scopes
resolve.

Proof: induction on the rules. As none of them replaces another, no attempt settles anything, and
each rule that is to be awarded finds the others as they were. -/
theorem awardEach_free {outcomeOf : Rule → Outcome} {rules : List Rule}
    (free : ∀ rule ∈ rules, rule.replaces = [])
    (resolve : ∀ rule ∈ rules, (outcomeOf rule).shouldAward = true →
      (context.forScope rule.scope).Resolves)
    {progress : Progress Stores} (quiet : progress.state.IsQuiet)
    (unsettled : progress.settled = []) :
    ∃ state happenings, engine.awardEach (Stores.collaborators runs) context
        (rules.map fun rule => (rule, outcomeOf rule)) progress =
        (rules.map outcomeOf, (chosen outcomeOf rules).length,
          { progress with
            state := state
            awarded := progress.awarded ++ (chosen outcomeOf rules).map (·.name)
            happenings := happenings }) ∧
      progress.state.HasWritten
        (progress.state.awards.afterAwards context (chosen outcomeOf rules)) state := by
  induction rules generalizing progress with
  | nil =>
    exact ⟨progress.state, progress.happenings, by simp [awardEach, chosen], .refl progress.state⟩
  | cons rule rest inductionHypothesis =>
    obtain ⟨own, restFree⟩ := List.forall_mem_cons.mp free
    obtain ⟨resolves, restResolve⟩ := List.forall_mem_cons.mp resolve
    by_cases due : (outcomeOf rule).shouldAward = true
    · obtain ⟨state, happenings, tried, written⟩ :=
        attempt_free engine runs own (resolves due) quiet
      obtain ⟨_, _, awarded⟩ := Ledger.recordAward_afterAward quiet.awards context rule
      obtain ⟨ended, notes, made, further⟩ := @inductionHypothesis restFree restResolve
        { progress with
          state := state
          awarded := progress.awarded ++ [rule.name]
          happenings := happenings }
        (written.isQuiet quiet (awarded.counted quiet.awards)) unsettled
      rw [written.awards] at further
      have goes : (!(outcomeOf rule).shouldAward || progress.settled.contains rule.name) =
          false := by simp [due, unsettled]
      have first : chosen outcomeOf (rule :: rest) = rule :: chosen outcomeOf rest := by
        simp [chosen, due]
      refine ⟨ended, notes, ?_, ?_⟩
      · simp only [List.map_cons, awardEach, goes, Bool.false_eq_true, if_false, tried, made, first,
          List.length_cons, List.append_assoc, List.singleton_append]
      · rw [first]
        exact written.trans further
    · obtain ⟨ended, notes, made, further⟩ :=
        inductionHypothesis restFree restResolve quiet unsettled
      have passed : (!(outcomeOf rule).shouldAward || progress.settled.contains rule.name) =
          true := by simp [due]
      have same : chosen outcomeOf (rule :: rest) = chosen outcomeOf rest := by
        simp [chosen, due]
      refine ⟨ended, notes, ?_, same ▸ further⟩
      simp only [List.map_cons, awardEach, passed, if_true, made, same]

/-- A pass over quiet stores and candidates that replace none awards those that come out for it. -/
theorem pass_free {outcomeOf : Rule → Outcome} {candidates : List Rule}
    (free : ∀ rule ∈ candidates, rule.replaces = []) {progress : Progress Stores}
    (quiet : progress.state.IsQuiet) (unsettled : progress.settled = [])
    (judged : ∀ rule ∈ candidates, rule.judge Stores.lookup engine.retry context progress.state =
      (.judged (outcomeOf rule), progress.state))
    (resolve : ∀ rule ∈ candidates, (outcomeOf rule).shouldAward = true →
      (context.forScope rule.scope).Resolves) :
    ∃ state happenings, engine.pass (Stores.collaborators runs) context candidates progress =
        (.ok (chosen outcomeOf candidates).length,
          { progress with
            state := state
            awarded := progress.awarded ++ (chosen outcomeOf candidates).map (·.name)
            outcomes := progress.outcomes ++ candidates.map outcomeOf
            passes := progress.passes + 1
            happenings := happenings }) ∧
      progress.state.HasWritten
        (progress.state.awards.afterAwards context (chosen outcomeOf candidates)) state := by
  have all : eligible candidates progress = candidates := by simp [eligible, unsettled]
  have each : ∀ rule ∈ eligible candidates progress,
      rule.judge (Stores.collaborators runs).lookup engine.retry context progress.state =
        (.judged (outcomeOf rule), progress.state) := all.symm ▸ judged
  obtain ⟨noted, checked⟩ := checks_judged each
  rw [all] at checked
  obtain ⟨state, happenings, made, written⟩ :=
    @awardEach_free engine runs context outcomeOf candidates free resolve
      { progress with
        passes := progress.passes + 1
        happenings := noted } quiet unsettled
  refine ⟨state, happenings, ?_, written⟩
  simp only [pass, checked, made]

/-- Whether two cycles have come from some stores to stores that are the same by name, with nothing
settled and the deadline ahead. -/
structure Abreast (stores : Stores) (first second : Progress Stores) : Prop where
  same : first.state.SameByName second.state
  continued : stores.ContinuedBy first.state
  continuedToo : stores.ContinuedBy second.state
  unsettled : first.settled = []
  unsettledToo : second.settled = []
  inTime : first.expired = false
  inTimeToo : second.expired = false

/-- Whether a pass has added certain outcomes of the candidates, and the awards of those that come
out for one. -/
structure PassesWith (candidates : List Rule) (outcomeOf : Rule → Outcome)
    (progress later : Progress Stores) : Prop where
  passes : later.passes = progress.passes + 1
  outcomes : later.outcomes = progress.outcomes ++ candidates.map outcomeOf
  awarded : later.awarded = progress.awarded ++ (chosen outcomeOf candidates).map (·.name)

/-- Whether a cycle runs through passes that find certain outcomes of the candidates and make the
awards of those that come out for one. It comes to its end after them, or a failure leaves it in one
more pass, which changes nothing. -/
structure RunsThrough (engine : Engine) (collaborators : Collaborators Stores) (context : Context)
    (candidates : List Rule) (stores : Stores) (rounds : List (Rule → Outcome))
    (escaped : Option Failure) : Prop where
  number : (engine.process collaborators context candidates stores).2.passes =
    rounds.length + escaped.toList.length
  reached : ∃ passes happenings, engine.process collaborators context candidates stores =
    (escaped, { engine.after collaborators context candidates stores rounds.length with
      passes := passes
      happenings := happenings })
  passes : ∀ count (made : count < rounds.length), PassesWith candidates rounds[count]
    (engine.after collaborators context candidates stores count)
    (engine.after collaborators context candidates stores (count + 1))

/-- Whether a pass is left by a failure before it does anything. -/
def IsLeft (engine : Engine) (collaborators : Collaborators Stores) (context : Context)
    (candidates : List Rule) (progress : Progress Stores) : Prop :=
  ∃ happenings, engine.pass collaborators context candidates progress =
    (.error .tooLongToWrite, { progress with
      passes := progress.passes + 1
      happenings := happenings })

section Rounds

variable {collaborators : Collaborators Stores} {candidates : List Rule} {stores : Stores}
  {rounds : List (Rule → Outcome)} {happenings : List Happening}
  (each : ∀ count (made : count < rounds.length), PassesWith candidates rounds[count]
    (engine.after collaborators context candidates stores count)
    (engine.after collaborators context candidates stores (count + 1)))
include each

/-- A cycle that comes to its end after passes with certain outcomes runs through these passes. -/
theorem runsThrough_of_whole (processed : engine.process collaborators context candidates stores =
      (none, { engine.after collaborators context candidates stores rounds.length with
        happenings := happenings })) :
    engine.RunsThrough collaborators context candidates stores rounds none where
  number := by
    rw [processed]
    exact after_passes engine collaborators context candidates stores rounds.length
  reached := ⟨_, happenings, processed⟩
  passes := each

/-- A cycle that a failure leaves in the pass after some others runs through those others, since the
pass that is left does nothing but count itself. -/
theorem runsThrough_of_isLeft (left : engine.IsLeft collaborators context candidates
      (engine.after collaborators context candidates stores rounds.length))
    (processed : engine.process collaborators context candidates stores =
      (some .tooLongToWrite,
        { engine.after collaborators context candidates stores (rounds.length + 1) with
          happenings := happenings })) :
    engine.RunsThrough collaborators context candidates stores rounds (some .tooLongToWrite) where
  number := by
    rw [processed]
    exact after_passes engine collaborators context candidates stores (rounds.length + 1)
  reached := by
    obtain ⟨notes, passed⟩ := left
    rw [processed, after, passed]
    exact ⟨_, happenings, rfl⟩
  passes := each

end Rounds

section Permuted

variable {candidates others : List Rule} (permuted : candidates.Perm others)
  (distinct : (candidates.map (·.name)).Nodup)
  (free : ∀ rule ∈ candidates, rule.replaces = [])
  (texts : AreTexts (Entries.keys context.attributes)) {stores : Stores}

include texts

/-- The verdict on a rule over quiet stores is that over stores that are the same by name, and
neither is changed by reaching it. -/
theorem judge_sameByName {first second : Stores} (same : first.SameByName second) {rule : Rule}
    {verdict : Verdict} (judged : rule.judge Stores.lookup engine.retry context first =
      (verdict, first)) :
    rule.judge Stores.lookup engine.retry context second = (verdict, second) := by
  have alike : (rule.judge Stores.lookup engine.retry context second).1 =
      (rule.judge Stores.lookup engine.retry context first).1 := by
    rw [Rule.judge_of_calm same.quiet.lookup texts, Rule.judge_of_calm same.quietToo.lookup texts,
      Rule.check_alike (same.findsAlike (context.forScope rule.scope))]
  rw [judged] at alike
  exact Prod.ext alike (Rule.judge_moves same.quietToo.lookup.still.moves _ _ _ _ rfl)

include permuted in
/-- If a failure leaves the checks of a pass, it leaves those of a pass over permuted candidates. -/
theorem pass_left {first second : Progress Stores} (abreast : Abreast stores first second)
    {rule : Rule} (member : rule ∈ candidates)
    (overruns : rule.Overruns Stores.lookup context first.state) :
    engine.IsLeft (Stores.collaborators runs) context candidates first ∧
      engine.IsLeft (Stores.collaborators runs) context others second := by
  obtain ⟨same, _, _, unsettled, unsettledToo, _, _⟩ := abreast
  have escaped := overruns.judge same.quiet.lookup texts engine.retry
  have left : ∀ {listed : List Rule} {progress : Progress Stores}, rule ∈ listed →
      progress.settled = [] → progress.state.IsQuiet →
      rule.judge Stores.lookup engine.retry context progress.state =
        (.escaped .tooLongToWrite, progress.state) →
      engine.IsLeft (Stores.collaborators runs) context listed progress := by
    intro listed progress inside unsettled quiet told
    have all : eligible listed progress = listed := by simp [eligible, unsettled]
    obtain ⟨items, happenings, checked⟩ := @checks_escaped _ engine
      (Stores.collaborators runs) context listed progress .tooLongToWrite
      (fun rule _ => (Rule.judge_calm quiet.lookup texts engine.retry rule).imp
        (fun answered => answered.imp fun _ => And.left) And.left)
      ⟨rule, all.symm ▸ inside, told⟩
    exact ⟨happenings, by simp only [pass, checked]⟩
  exact ⟨left member unsettled same.quiet escaped,
    left (permuted.mem_iff.mp member) unsettledToo same.quietToo
      (judge_sameByName engine texts same escaped)⟩

include permuted distinct free

/-- A pass over permuted candidates finds the same outcomes, makes as many awards, and leaves the
cycles abreast; or both passes are left by the same failure, and some candidate is not brief.

Proof: on stores that are the same by name each rule gets the same verdict. If all verdicts are
outcomes, the same rules are chosen in another order, and their awards only add records to distinct
names, so the ledgers stay the same by name. Otherwise some verdict escapes in both passes. -/
theorem pass_perm {first second : Progress Stores} (abreast : Abreast stores first second) :
    (∃ outcomeOf later laterToo,
      engine.pass (Stores.collaborators runs) context candidates first =
        (.ok (chosen outcomeOf candidates).length, later) ∧
      engine.pass (Stores.collaborators runs) context others second =
        (.ok (chosen outcomeOf candidates).length, laterToo) ∧
      PassesWith candidates outcomeOf first later ∧
      PassesWith others outcomeOf second laterToo ∧ Abreast stores later laterToo) ∨
    engine.IsLeft (Stores.collaborators runs) context candidates first ∧
      engine.IsLeft (Stores.collaborators runs) context others second ∧
      ∃ rule ∈ candidates, ¬ rule.IsBrief context := by
  have all : eligible candidates first = candidates := by simp [eligible, abreast.unsettled]
  have calm : (Stores.collaborators runs).lookup.IsCalm first.state := abreast.same.quiet.lookup
  rcases @checks_of_calm _ _ _ candidates _ engine calm texts with
    ⟨outcomeOf, _, due, judged, _⟩ | ⟨_, _, ⟨rule, among, overruns⟩, _⟩
  · rw [all] at judged
    left
    obtain ⟨same, continued, continuedToo, unsettled, unsettledToo, inTime, inTimeToo⟩ := abreast
    have judgedToo : ∀ rule ∈ others, rule.judge Stores.lookup engine.retry context second.state =
        (.judged (outcomeOf rule), second.state) := fun rule member =>
      judge_sameByName engine texts same (judged rule (permuted.mem_iff.mpr member))
    have resolve : ∀ rule : Rule, (outcomeOf rule).shouldAward = true →
        (context.forScope rule.scope).Resolves :=
      fun rule chosen => resolves_of_due ((due rule).mp chosen)
    have chosenPermuted : (chosen outcomeOf candidates).Perm (chosen outcomeOf others) :=
      permuted.filter _
    have chosenDistinct : ((chosen outcomeOf candidates).map (·.name)).Nodup :=
      (List.filter_sublist.map Rule.name).nodup distinct
    obtain ⟨state, happenings, passed, written⟩ := pass_free engine runs free same.quiet unsettled
      judged (fun rule _ => resolve rule)
    obtain ⟨stateToo, happeningsToo, passedToo, writtenToo⟩ := pass_free engine runs
      (fun rule member => free rule (permuted.mem_iff.mpr member)) same.quietToo unsettledToo
      judgedToo (fun rule _ => resolve rule)
    obtain ⟨counted, grown⟩ :=
      Ledger.afterAwards_spec same.quiet.awards context (chosen outcomeOf candidates)
    obtain ⟨countedToo, grownToo⟩ :=
      Ledger.afterAwards_spec same.quietToo.awards context (chosen outcomeOf others)
    rw [← chosenPermuted.length_eq] at passedToo
    refine ⟨outcomeOf, _, _, passed, passedToo, ⟨rfl, rfl, rfl⟩, ⟨rfl, rfl, rfl⟩, ?_⟩
    exact ⟨same.hasWritten written writtenToo
        (Ledger.afterAwards_perm same.awards same.quiet.awards same.quietToo.awards chosenPermuted
          chosenDistinct) counted countedToo,
      continued.trans (written.continuedBy grown),
      continuedToo.trans (writtenToo.continuedBy grownToo), unsettled, unsettledToo, inTime,
      inTimeToo⟩
  · have member : rule ∈ candidates := all ▸ among
    obtain ⟨left, leftToo⟩ := pass_left engine runs permuted texts abreast member overruns
    exact .inr ⟨left, leftToo, rule, member, overruns.not_isBrief calm texts⟩

/-- A pass over permuted candidates comes to the same and leaves the cycles abreast, whether or not
a failure leaves it. -/
theorem pass_abreast {first second : Progress Stores} (abreast : Abreast stores first second) :
    SameBeside (Abreast stores)
      (engine.pass (Stores.collaborators runs) context candidates first)
      (engine.pass (Stores.collaborators runs) context others second) := by
  rcases pass_perm engine runs permuted distinct free texts abreast with
    ⟨outcomeOf, later, laterToo, passed, passedToo, _, _, next⟩ |
      ⟨⟨happenings, passed⟩, ⟨happeningsToo, passedToo⟩, _⟩
  · rw [passed, passedToo]
    exact ⟨rfl, next⟩
  · rw [passed, passedToo]
    exact ⟨rfl, abreast.same, abreast.continued, abreast.continuedToo, abreast.unsettled,
      abreast.unsettledToo, abreast.inTime, abreast.inTimeToo⟩

section Cycle

variable (quiet : stores.IsQuiet) (inTime : engine.startsExpired = false)
include quiet inTime

/-- However many passes are made over permuted candidates, the cycles stay abreast. -/
theorem after_abreast (number : Nat) :
    Abreast stores
      (engine.after (Stores.collaborators runs) context candidates stores number)
      (engine.after (Stores.collaborators runs) context others stores number) := by
  induction number with
  | zero =>
    exact ⟨⟨quiet, quiet, .refl _, .refl _, rfl, rfl, rfl⟩, .refl stores, .refl stores, rfl, rfl,
      inTime, inTime⟩
  | succ number inductionHypothesis =>
    exact (pass_abreast engine runs permuted distinct free texts inductionHypothesis).2

/-- As many passes as no failure leaves find the same outcomes of permuted candidates, pass by pass.
-/
theorem after_perm (number : Nat) (whole : ∀ count < number,
      engine.brokenBy (Stores.collaborators runs) context candidates stores (count + 1) = none) :
    let after := engine.after (Stores.collaborators runs) context candidates stores
    let afterToo := engine.after (Stores.collaborators runs) context others stores
    ∃ rounds : List (Rule → Outcome), rounds.length = number ∧
      ∀ count (made : count < rounds.length),
        PassesWith candidates rounds[count] (after count) (after (count + 1)) ∧
        PassesWith others rounds[count] (afterToo count) (afterToo (count + 1)) := by
  intro after afterToo
  have found : ∀ count : Fin number, ∃ outcomeOf,
      PassesWith candidates outcomeOf (after count) (after (count + 1)) ∧
      PassesWith others outcomeOf (afterToo count) (afterToo (count + 1)) := by
    intro count
    rcases pass_perm engine runs permuted distinct free texts
        (after_abreast engine runs permuted distinct free texts quiet inTime count) with
      ⟨outcomeOf, later, laterToo, passed, passedToo, withThem, withThemToo, _⟩ |
        ⟨⟨_, passed⟩, _⟩
    · obtain rfl : after (count + 1) = later := congrArg Prod.snd passed
      obtain rfl : afterToo (count + 1) = laterToo := congrArg Prod.snd passedToo
      exact ⟨outcomeOf, withThem, withThemToo⟩
    · have broken := whole count count.isLt
      simp only [brokenBy, passed] at broken
      contradiction
  obtain ⟨outcomesOf, found⟩ := Classical.axiomOfChoice found
  refine ⟨List.ofFn outcomesOf, List.length_ofFn, fun count made => ?_⟩
  rw [List.getElem_ofFn]
  exact found ⟨count, by simpa using made⟩

/-- Cycles over permuted candidates stop after the same pass, and are left there by the same failure
or by none. -/
theorem process_abreast :
    ∃ ended happenings happeningsToo,
      EndsAt (engine.Proceeds (Stores.collaborators runs) context candidates stores) 0
        engine.maxPasses ended ∧
      engine.process (Stores.collaborators runs) context candidates stores =
        (engine.brokenBy (Stores.collaborators runs) context candidates stores ended,
          { engine.after (Stores.collaborators runs) context candidates stores ended with
            happenings := happenings }) ∧
      engine.process (Stores.collaborators runs) context others stores =
        (engine.brokenBy (Stores.collaborators runs) context candidates stores ended,
          { engine.after (Stores.collaborators runs) context others stores ended with
            happenings := happeningsToo }) := by
  have abreast := after_abreast engine runs permuted distinct free texts quiet inTime
  have alike : ∀ count, (engine.pass (Stores.collaborators runs) context candidates
      (engine.after (Stores.collaborators runs) context candidates stores count)).1 =
      (engine.pass (Stores.collaborators runs) context others
        (engine.after (Stores.collaborators runs) context others stores count)).1 :=
    fun count => (pass_abreast engine runs permuted distinct free texts (abreast count)).1
  obtain ⟨ended, ends, happenings, processed⟩ :=
    process_after engine (Stores.collaborators runs) context candidates stores
      (fun count => (abreast count).inTime)
  obtain ⟨endedToo, endsToo, happeningsToo, processedToo⟩ :=
    process_after engine (Stores.collaborators runs) context others stores
      (fun count => (abreast count).inTimeToo)
  obtain rfl : ended = endedToo :=
    ends.unique (endsToo.congr fun count => by rw [Proceeds, Proceeds, alike count])
  have broken : engine.brokenBy (Stores.collaborators runs) context others stores ended =
      engine.brokenBy (Stores.collaborators runs) context candidates stores ended := by
    cases ended with
    | zero => rfl
    | succ last => simp only [brokenBy, alike last]
  exact ⟨ended, happenings, happeningsToo, ends, processed, broken ▸ processedToo⟩

/-- Where some pass of a cycle is left by a failure, the pass is left with permuted candidates as
well, and some candidate is not brief. -/
theorem isLeft_of_brokenBy {last : Nat} {failure : Failure} (escaped : engine.brokenBy
      (Stores.collaborators runs) context candidates stores (last + 1) = some failure) :
    .tooLongToWrite = failure ∧
      engine.IsLeft (Stores.collaborators runs) context candidates
        (engine.after (Stores.collaborators runs) context candidates stores last) ∧
      engine.IsLeft (Stores.collaborators runs) context others
        (engine.after (Stores.collaborators runs) context others stores last) ∧
      ∃ rule ∈ candidates, ¬ rule.IsBrief context := by
  rcases pass_perm engine runs permuted distinct free texts
      (after_abreast engine runs permuted distinct free texts quiet inTime last) with
    ⟨_, _, _, passed, _⟩ | ⟨⟨notes, passed⟩, leftToo, long⟩
  · simp only [brokenBy, passed] at escaped
    contradiction
  · refine ⟨?_, ⟨notes, passed⟩, leftToo, long⟩
    simpa only [brokenBy, passed, Option.some.injEq] using escaped

/-- Cycles over permuted candidates that replace none run through the same passes: as many, each
with the same outcome for each candidate and so with the same awards. They end in the same way, and
come to their end as far as the candidates are brief. They leave stores that differ at most in the
order and the identifiers of what was added.

Proof: the cycles stay abreast, and each pass comes to the same in both. So both stop after the same
pass, and a failure leaves this pass in both or in neither. -/
theorem process_perm :
    (∃ rounds escaped, EndsIfBrief context candidates escaped ∧
      engine.RunsThrough (Stores.collaborators runs) context candidates stores rounds escaped ∧
      engine.RunsThrough (Stores.collaborators runs) context others stores rounds escaped) ∧
    stores.SameUpToNew
      (engine.process (Stores.collaborators runs) context candidates stores).2.state
      (engine.process (Stores.collaborators runs) context others stores).2.state := by
  obtain ⟨ended, happenings, happeningsToo, ends, processed, processedToo⟩ :=
    process_abreast engine runs permuted distinct free texts quiet inTime
  have abreast := after_abreast engine runs permuted distinct free texts quiet inTime ended
  refine ⟨?_, by
    rw [processed, processedToo]
    exact abreast.same.sameUpToNew abreast.continued abreast.continuedToo⟩
  have earlier : ∀ count, count + 1 < ended →
      engine.brokenBy (Stores.collaborators runs) context candidates stores (count + 1) = none :=
    fun count below =>
      ((ends.stops count (Nat.zero_le _) (by omega)).mp below).1.brokenBy_eq_none
  cases escaped : engine.brokenBy (Stores.collaborators runs) context candidates stores ended with
  | none =>
    obtain ⟨rounds, rfl, each⟩ :=
      after_perm engine runs permuted distinct free texts quiet inTime ended fun count below => by
        rcases Nat.lt_or_eq_of_le (Nat.succ_le_of_lt below) with before | rfl
        · exact earlier count before
        · exact escaped
    rw [escaped] at processed processedToo
    exact ⟨rounds, none, .inl rfl,
      runsThrough_of_whole engine (fun count below => (each count below).1) processed,
      runsThrough_of_whole engine (fun count below => (each count below).2) processedToo⟩
  | some failure =>
    obtain ⟨last, rfl⟩ : ∃ last, ended = last + 1 := by
      cases ended with
      | zero => contradiction
      | succ last => exact ⟨last, rfl⟩
    obtain ⟨rfl, left, leftToo, long⟩ :=
      isLeft_of_brokenBy engine runs permuted distinct free texts quiet inTime escaped
    obtain ⟨rounds, rfl, each⟩ :=
      after_perm engine runs permuted distinct free texts quiet inTime last fun count below =>
        earlier count (by omega)
    rw [escaped] at processed processedToo
    exact ⟨rounds, some .tooLongToWrite, .inr ⟨rfl, long⟩,
      runsThrough_of_isLeft engine (fun count below => (each count below).1) left processed,
      runsThrough_of_isLeft engine (fun count below => (each count below).2) leftToo
        processedToo⟩

end Cycle

end Permuted

/-- Two rules that replace none, in both orders, over the sample stores. -/
theorem sample_perm :
    let rules : List Rule := [⟨"Beginner", .allOf [], [], 2, [subjectKey], [], false⟩,
      ⟨"Expert", .allOf [.achievement "Beginner" (.atLeast 1)], [], 1, [subjectKey], [], false⟩]
    let engine := Engine.mk ⟨rules⟩ 10 none none
    let context := Context.of (.integer 2) [] defaultScope
    (∃ rounds,
      engine.RunsThrough (Stores.collaborators true) context rules Stores.sample rounds none ∧
      engine.RunsThrough (Stores.collaborators true) context rules.reverse Stores.sample rounds
        none) ∧
    Stores.sample.SameUpToNew
      (engine.process (Stores.collaborators true) context rules Stores.sample).2.state
      (engine.process (Stores.collaborators true) context rules.reverse Stores.sample).2.state := by
  intro rules engine context
  have texts : AreTexts (Entries.keys context.attributes) :=
    fun key member => ⟨subjectKey, List.mem_singleton.mp member⟩
  obtain ⟨⟨rounds, escaped, ends, runsThrough, runsThroughToo⟩, same⟩ :=
    process_perm engine true (List.reverse_perm rules).symm (by decide)
      (fun rule member => by
        rcases List.mem_cons.mp member with rfl | last
        · rfl
        · rw [List.mem_singleton.mp last])
      texts Stores.sample_calm.isQuiet rfl
  obtain rfl := ends.eq_none (by decide)
  exact ⟨⟨rounds, runsThrough, runsThroughToo⟩, same⟩

end Engine

end Accolade
