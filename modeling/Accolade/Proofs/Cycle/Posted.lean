import Accolade.Proofs.Cycle.Integrity
import Accolade.Proofs.Cycle.Tracing

/-!
# Postings of cycles over quiet stores

Quiet stores refuse nothing. An attempt to award a rule over them comes to one of two things. Either
some scope of its writes does not resolve: then it asks for no posting, and fails for its
configuration. Or all of them resolve: then it asks for the award and for the retraction of each
replaced rule, in order, and goes through.

So a rule whose writes do not resolve is never awarded, however often a cycle comes to it.
-/

namespace Accolade

namespace Stores.IsQuiet

variable {stores : Stores} (quiet : stores.IsQuiet) (runs : Bool) (postings : List Posting)
include quiet

/-- Quiet stores answer every lookup, also when postings are kept beside them. -/
theorem posted_lookup : (collaborators runs).posted.lookup.IsCalm (stores, postings) where
  answers kind query := by
    obtain ⟨found, told, whole⟩ :=
      quiet.lookup.answers kind query
    exact ⟨found, by simp [Collaborators.posted, collaborators, told], whole⟩

/-- Quiet stores take every award: it goes through, leaves quiet stores, and its posting is kept
behind the others. -/
theorem posted_recordAward (subject : Value) (name : String) (scope : Entries) :
    ∃ (written : Fact) (later : Stores), later.IsQuiet ∧
      (collaborators runs).posted.recordAward subject name scope (stores, postings) =
        (.ok written, later, postings ++ [.award subject name scope]) := by
  obtain ⟨written, ledger, recorded, awarded⟩ :=
    Ledger.recordAward_awarded quiet.awards subject (.text name) scope
  refine ⟨written, _, quiet.withAwards (awarded.counted quiet.awards), ?_⟩
  simp only [Collaborators.posted, collaborators,
    recordAward_of_faultless quiet.faultless recorded]

/-- Quiet stores take every retraction: it goes through, leaves quiet stores, and its posting is
kept behind the others. -/
theorem posted_retractAward (subject : Value) (name : String) (scope : Entries) :
    ∃ later : Stores, later.IsQuiet ∧
      (collaborators runs).posted.retractAward subject name scope (stores, postings) =
        (.ok (), later, postings ++ [.retraction subject name scope]) := by
  refine ⟨_, quiet.withAwards (Ledger.retractAward_counted subject (.text name) scope
    quiet.awards), ?_⟩
  simp only [Collaborators.posted, collaborators, retractAward_of_faultless quiet.faultless]

end Stores.IsQuiet

namespace Engine

variable {engine : Engine} {context : Context} {rule : Rule} (runs : Bool)

section Attempts

/-- The postings that awarding a rule asks for. -/
def postings (engine : Engine) (context : Context) (rule : Rule) : List Posting :=
  .award context.subject rule.name (context.forScope rule.scope).boundValues ::
    (engine.boundRetractions context rule).map fun entry =>
      .retraction context.subject entry.1 entry.2

/-- What an attempt over quiet stores makes of the progress when postings are kept. -/
inductive Posts (engine : Engine) (context : Context) (rule : Rule)
    (progress : Progress (Stores × List Posting)) :
    Option Diagnosis → Progress (Stores × List Posting) → Prop
  | refused (unresolved : ¬ engine.WritesResolve context rule) (error : Diagnosis)
      (category : error.category = .configuration) :
      Posts engine context rule progress (some error)
        { progress with
          settled := progress.settled ++ [rule.name]
          happenings := progress.happenings ++ [.awardFailed rule.name error] }
  | posted (resolved : engine.WritesResolve context rule) (stores : Stores)
      (quiet : stores.IsQuiet) (amount : Value) :
      Posts engine context rule progress none
        { progress with
          state := (stores, progress.state.2 ++ engine.postings context rule)
          settled := progress.settled ++ rule.replaces
          awarded := progress.awarded ++ [rule.name]
          retracted := progress.retracted ++ rule.replaces
          happenings := progress.happenings ++ .awarded rule.name amount rule.maxAwarded ::
            rule.replaces.map (.replaced · rule.name) }

variable {progress : Progress (Stores × List Posting)} (quiet : progress.state.1.IsQuiet)

include quiet in
/-- Over quiet stores all retractions are asked for, and go through. -/
theorem retractEach_posted (context : Context) (rule : Rule)
    (retractions : List (String × Entries)) :
    ∃ stores : Stores, stores.IsQuiet ∧
      retractEach (Stores.collaborators runs).posted context rule retractions progress =
        (none, { progress with
          state := (stores, progress.state.2 ++ retractions.map fun entry =>
            .retraction context.subject entry.1 entry.2)
          retracted := progress.retracted ++ retractions.map Prod.fst
          happenings := progress.happenings ++ retractions.map fun entry =>
            .replaced entry.1 rule.name }) := by
  induction retractions generalizing progress with
  | nil => exact ⟨progress.state.1, quiet, by simp [retractEach]⟩
  | cons first rest inductionHypothesis =>
    obtain ⟨target, values⟩ := first
    obtain ⟨later, still, called⟩ :=
      quiet.posted_retractAward runs progress.state.2 context.subject target values
    obtain ⟨stores, kept, made⟩ := @inductionHypothesis
      { progress with
        state := (later, progress.state.2 ++ [.retraction context.subject target values])
        retracted := progress.retracted ++ [target]
        happenings := progress.happenings ++ [.replaced target rule.name] } still
    refine ⟨stores, kept, ?_⟩
    simp only [retractEach, called, made, List.map_cons, List.append_assoc, List.singleton_append]

include quiet in
/-- Running actions asks for no posting and does not fail over quiet stores. -/
theorem runActions_posted (context : Context) (rule : Rule) :
    ∃ stores : Stores, stores.IsQuiet ∧
      runActions (Stores.collaborators runs).posted context rule progress =
        { progress with state := (stores, progress.state.2) } := by
  unfold runActions
  split
  · rename_i first rest run given present
    simp only [Collaborators.posted, Option.map_eq_some_iff] at present
    obtain ⟨inner, known, rfl⟩ := present
    have kept := quiet.invoked known rule.actions (context.forScope rule.scope)
    obtain ⟨invocations, invoked⟩ := Stores.invoked_of_faultless quiet.faultless known
      rule.actions (context.forScope rule.scope)
    rw [invoked] at kept
    exact ⟨_, kept, by simp only [invoked]⟩
  · exact ⟨progress.state.1, quiet, rfl⟩

include quiet in
/-- Over quiet stores an attempt is refused for its configuration or asks for all its postings,
depending on whether all its scopes resolve.

Proof: the attempt is worked out write by write. Quiet stores refuse none of its calls, so it asks
for the posting of the award, then for that of each retraction. -/
theorem attempt_posts (texts : AreTexts (Entries.keys context.attributes)) (rule : Rule) :
    ∃ error later, engine.attempt (Stores.collaborators runs).posted context rule progress =
        (error, later) ∧ Posts engine context rule progress error later := by
  cases resolving : engine.writes context rule with
  | error failure =>
    obtain ⟨error, category, rfl⟩ := writes_diagnosed texts resolving
    refine ⟨_, _, ?_, .refused (not_writesResolve resolving) error category⟩
    simp only [attempt, award, resolving]
    rfl
  | ok both =>
    obtain ⟨resolves, rfl⟩ := (writes_eq_ok_iff_bound engine context rule both).mp resolving
    obtain ⟨written, later, still, called⟩ := quiet.posted_recordAward runs progress.state.2
      context.subject rule.name (context.forScope rule.scope).boundValues
    obtain ⟨stores, kept, retracted⟩ := @retractEach_posted runs
      { progress with
        state := (later, progress.state.2 ++
          [.award context.subject rule.name (context.forScope rule.scope).boundValues])
        awarded := progress.awarded ++ [rule.name]
        happenings := progress.happenings ++
          [.awarded rule.name written.amount rule.maxAwarded] }
      still context rule (engine.boundRetractions context rule)
    have noted : (engine.boundRetractions context rule).map
        (fun entry => Happening.replaced entry.1 rule.name) =
        rule.replaces.map (.replaced · rule.name) := by
      rw [← boundRetractions_targets engine context rule, List.map_map]
      rfl
    simp only [noted, boundRetractions_targets, List.append_assoc, List.singleton_append]
      at retracted
    obtain ⟨last, keptToo, ran⟩ := @runActions_posted runs
      { progress with
        state := (stores, progress.state.2 ++ engine.postings context rule)
        awarded := progress.awarded ++ [rule.name]
        retracted := progress.retracted ++ rule.replaces
        happenings := progress.happenings ++ .awarded rule.name written.amount rule.maxAwarded ::
          rule.replaces.map (.replaced · rule.name) }
      kept context rule
    refine ⟨none, _, ?_, .posted resolves last keptToo written.amount⟩
    unfold postings at ran ⊢
    simp only [attempt, award, resolving, called, retracted, ran]

/-- An attempt that keeps its postings leaves quiet stores quiet. -/
theorem Posts.isQuiet {later : Progress (Stores × List Posting)} {error : Option Diagnosis}
    (posts : Posts engine context rule progress error later) (quiet : progress.state.1.IsQuiet) :
    later.state.1.IsQuiet := by
  cases posts with
  | refused => exact quiet
  | posted _ _ kept _ => exact kept

end Attempts

/-- The checks of a pass note no replacement, since replacing is a matter of awards. -/
theorem checks_notes {σ : Type} (engine : Engine) (collaborators : Collaborators σ)
    (context : Context) (candidates : List Rule) (progress : Progress σ) :
    ∃ notes, (engine.checks collaborators context candidates progress).2.2.happenings =
        progress.happenings ++ notes ∧ ∀ target name, .replaced target name ∉ notes := by
  have late : ∀ verdicts target name, .replaced target name ∉ (collect verdicts).2.2 := by
    intro verdicts target name
    fun_induction collect verdicts with
    | case1 => simp
    | case2 _ _ _ _ _ _ collected inductionHypothesis => rwa [collected] at inductionHypothesis
    | case3 _ _ _ _ _ collected inductionHypothesis =>
      rw [collected] at inductionHypothesis
      simpa using inductionHypothesis
    | case4 => simp
  have told : ∀ (verdict : Verdict) target name, .replaced target name ∉ verdict.happenings := by
    intro verdict target name
    unfold Verdict.happenings
    split
    · split <;> simp
    · simp
  refine ⟨_, List.append_assoc _ _ _, fun target name member => ?_⟩
  rcases List.mem_append.mp member with early | behind
  · obtain ⟨entry, _, inside⟩ := List.mem_flatMap.mp early
    exact told entry.2 target name inside
  · exact late _ target name behind

section Cycle

variable {candidates : List Rule} (texts : AreTexts (Entries.keys context.attributes))
include texts

/-- The checks of a pass over quiet stores count the pass, and note no replacement. Each outcome
they give is that of a candidate itself, whose scope resolves if it is to be awarded. -/
theorem checks_posted {progress : Progress (Stores × List Posting)}
    (quiet : progress.state.1.IsQuiet) :
    let checked := engine.checks (Stores.collaborators runs).posted context candidates progress
    (∃ notes : List Happening, (∀ target name, .replaced target name ∉ notes) ∧
      checked.2.2 = { progress with
        passes := progress.passes + 1
        happenings := progress.happenings ++ notes }) ∧
    ∀ item ∈ checked.2.1, item.1 ∈ candidates ∧ item.2.rule = item.1.name ∧
      (item.2.shouldAward = true → (context.forScope item.1.scope).Resolves) := by
  intro checked
  have calm := quiet.posted_lookup runs progress.state.2
  constructor
  · obtain ⟨notes, noted, unreplaced⟩ := checks_notes engine
      (Stores.collaborators runs).posted context candidates progress
    refine ⟨notes, unreplaced, ?_⟩
    rcases @checks_of_calm _ _ _ candidates _ engine calm texts with
      ⟨_, _, _, _, made⟩ | ⟨_, _, _, made⟩
    all_goals
      rw [← noted]
      simp only [checked, made]
  · rintro ⟨rule, outcome⟩ inside
    obtain ⟨member, told⟩ := checks_member calm.still.moves inside
    refine ⟨member, ?_, fun chosen => ?_⟩
    · rcases told with ⟨later, _, judged⟩ | late
      · exact Rule.judge_rule judged
      · exact late ▸ rfl
    · obtain ⟨_, total, counted, _⟩ := checks_due calm texts inside chosen
      exact resolves_of_awardedAmount counted

/-- What checks over quiet stores and attempts to award candidates preserve, a pass does. -/
theorem pass_posted {I : Progress (Stores × List Posting) → Prop}
    (checked : ∀ progress notes, (∀ target name, .replaced target name ∉ notes) → I progress →
      I { progress with
        passes := progress.passes + 1
        happenings := progress.happenings ++ notes })
    (attempted : ∀ rule ∈ candidates, ∀ progress error later,
      Posts engine context rule progress error later → I progress → I later)
    (told : ∀ progress outcomes, I progress → I { progress with outcomes := outcomes })
    {progress : Progress (Stores × List Posting)} (quiet : progress.state.1.IsQuiet)
    (holding : I progress) :
    let ended := (engine.pass (Stores.collaborators runs).posted context candidates progress).2
    ended.state.1.IsQuiet ∧ I ended := by
  have found : ∀ progress : Progress (Stores × List Posting),
      progress.state.1.IsQuiet ∧ I progress →
      let checks := engine.checks (Stores.collaborators runs).posted context candidates progress
      (∀ item ∈ checks.2.1, item.1 ∈ candidates) ∧ checks.2.2.state.1.IsQuiet ∧ I checks.2.2 := by
    rintro progress ⟨quiet, holding⟩ checks
    obtain ⟨⟨notes, unreplaced, counted⟩, items⟩ :=
      @checks_posted engine context runs candidates texts progress quiet
    have shown : checks.2.2 = _ := counted
    rw [shown]
    exact ⟨fun item inside => (items item inside).1, quiet,
      checked progress notes unreplaced holding⟩
  refine pass_induction (I := fun progress => progress.state.1.IsQuiet ∧ I progress)
    (P := fun items progress =>
      (∀ item ∈ items, item.1 ∈ candidates) ∧ progress.state.1.IsQuiet ∧ I progress)
    (fun progress so => (found progress so).2) (fun progress so _ => found progress so) ?_ ?_
    (fun progress outcomes so => ⟨so.2.1, told progress outcomes so.2.2⟩) ⟨quiet, holding⟩
  · exact fun item rest progress so => ⟨(List.forall_mem_cons.mp so.1).2, so.2⟩
  · rintro rule outcome rest progress _ _ ⟨among, quiet, holding⟩
    obtain ⟨member, further⟩ := List.forall_mem_cons.mp among
    obtain ⟨error, later, tried, posts⟩ := attempt_posts runs quiet texts rule
    have next := attempted rule member progress error later posts holding
    rw [tried]
    exact ⟨further, posts.isQuiet quiet, next⟩

/-- A cycle over quiet stores comes to its end, as far as the candidates are brief. -/
theorem process_posted_ends {stores : Stores} (quiet : stores.IsQuiet) :
    EndsIfBrief context candidates
      (engine.process (Stores.collaborators runs).posted context candidates (stores, [])).1 :=
  (process_copy engine context (Stores.collaborators runs).posted_isCopy candidates
    (stores, [])).1 ▸ process_ends runs context engine candidates quiet texts

end Cycle

end Engine

/-- Whether a cycle reports no award of a rule and has asked for none, and no rule was replaced by
it. -/
structure Progress.Unawarded {σ : Type} (name : String) (progress : Progress (σ × List Posting)) :
    Prop where
  awarded : name ∉ progress.awarded
  posted : ∀ subject values, .award subject name values ∉ progress.state.2
  replaced : ∀ target, .replaced target name ∉ progress.happenings

namespace Engine

variable {engine : Engine} {context : Context} {rule : Rule} (runs : Bool)

/-- An attempt leaves a rule unawarded if it is of another rule, or does not resolve. -/
theorem Posts.unawarded {name : String} {progress later : Progress (Stores × List Posting)}
    {error : Option Diagnosis} (posts : Posts engine context rule progress error later)
    (kept : rule.name = name → ¬ engine.WritesResolve context rule)
    (unawarded : progress.Unawarded name) : later.Unawarded name := by
  obtain ⟨awarded, posted, replaced⟩ := unawarded
  cases posts with
  | refused => exact ⟨awarded, posted, by simpa using replaced⟩
  | posted resolved stores quiet amount =>
    have other : name ≠ rule.name := fun same => kept same.symm resolved
    refine ⟨by simp [awarded, other], ?_, ?_⟩
    · simp [postings, posted, other]
    · simp [replaced, other.symm]

/-- A rule in force whose writes do not resolve is never awarded. -/
theorem process_unawarded (distinct : engine.catalogue.names.Nodup) {candidates : List Rule}
    (known : ∀ candidate ∈ candidates, candidate ∈ engine.catalogue.rules)
    (member : rule ∈ engine.catalogue.rules) (unresolved : ¬ engine.WritesResolve context rule)
    (texts : AreTexts (Entries.keys context.attributes)) {stores : Stores}
    (quiet : stores.IsQuiet) :
    (engine.process (Stores.collaborators runs).posted context candidates
      (stores, [])).2.Unawarded rule.name := by
  have begun : (Progress.start (stores, ([] : List Posting))
      engine.startsExpired).Unawarded rule.name :=
    ⟨by simp [Progress.start], by simp [Progress.start], by simp [Progress.start]⟩
  -- The invariant speaks of happenings, so it does not survive any note: what is noted at the end
  -- of passes has to be known.
  refine (process_induction (I := fun progress : Progress (Stores × List Posting) =>
    progress.state.1.IsQuiet ∧ progress.Unawarded rule.name) ?_ ?_ ?_).2
  · rintro progress ⟨kept, unawarded⟩
    refine pass_posted runs texts ?_ ?_ ?_ kept unawarded
    · rintro progress notes unreplaced ⟨awarded, posted, replaced⟩
      exact ⟨awarded, posted, by simp [replaced, unreplaced]⟩
    · intro candidate listed progress error later posts
      refine posts.unawarded fun same => ?_
      rwa [Catalogue.eq_of_name distinct (known candidate listed) member same]
    · exact fun progress outcomes so => ⟨so.awarded, so.posted, so.replaced⟩
  · rintro progress happenings closing ⟨kept, awarded, posted, replaced⟩
    refine ⟨kept, awarded, posted, fun target told => ?_⟩
    rcases List.mem_append.mp told with before | noted
    · exact replaced target before
    · exact Bool.noConfusion (closing _ noted)
  · exact ⟨quiet, begun⟩

end Engine

end Accolade
