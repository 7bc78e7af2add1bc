import Accolade.Proofs.Cycle.LastPass
import Accolade.Proofs.Cycle.Posted

/-!
# What the pass limit does

The pass limit only cuts a cycle short. No pass looks at it: an engine with a lower limit makes the
same passes as one with a higher limit, one after the other, and stops where the other stops or
where its own limit is reached, whichever comes first. What it reports up to then is the beginning
of what the other reports in the end, and it leaves the state that the other was in at that point.

This is so for all collaborators, failures and deadlines included. Over calm stores both cycles come
to their end.
-/

namespace Accolade

variable {σ : Type}

/-- Whether what a cycle has reported at one point is the beginning of what it has at another. -/
structure Progress.Begins (early late : Progress σ) : Prop where
  awarded : early.awarded <+: late.awarded
  retracted : early.retracted <+: late.retracted
  outcomes : early.outcomes <+: late.outcomes

/-- What is not reported does not count: a progress begins with another one of the same awards,
retractions and outcomes. -/
theorem Progress.Begins.of_eq {early late : Progress σ} (awarded : late.awarded = early.awarded)
    (retracted : late.retracted = early.retracted) (outcomes : late.outcomes = early.outcomes) :
    early.Begins late :=
  ⟨awarded ▸ List.prefix_rfl, retracted ▸ List.prefix_rfl, outcomes ▸ List.prefix_rfl⟩

/-- A beginning of a beginning is a beginning of the whole. -/
theorem Progress.Begins.trans {early middle late : Progress σ} (first : early.Begins middle)
    (second : middle.Begins late) : early.Begins late :=
  ⟨first.awarded.trans second.awarded, first.retracted.trans second.retracted,
    first.outcomes.trans second.outcomes⟩

namespace Engine

/-- The same engine with another pass limit. -/
def withLimit (engine : Engine) (limit : Nat) : Engine := { engine with maxPasses := limit }

section Passes

variable (engine : Engine) (limit : Nat) (collaborators : Collaborators σ) (context : Context)
  (candidates : List Rule)

/-- The judgements of an engine do not depend on its pass limit. -/
@[simp] theorem judgeAll_withLimit (lookup : Lookup σ) (rules : List Rule) (state : σ) :
    (engine.withLimit limit).judgeAll lookup context rules state =
      engine.judgeAll lookup context rules state := by
  induction rules generalizing state with
  | nil => rfl
  | cons rule rest inductionHypothesis =>
    simp only [judgeAll, inductionHypothesis]
    rfl

/-- The scopes of retractions do not depend on the pass limit. -/
@[simp] theorem retractions_withLimit (rule : Rule) (targets : List String) :
    (engine.withLimit limit).retractions context rule targets =
      engine.retractions context rule targets := by
  induction targets with
  | nil => rfl
  | cons target rest inductionHypothesis =>
    simp only [retractions, inductionHypothesis]
    rfl

/-- An attempt does not depend on the pass limit. -/
@[simp] theorem attempt_withLimit (rule : Rule) (progress : Progress σ) :
    (engine.withLimit limit).attempt collaborators context rule progress =
      engine.attempt collaborators context rule progress := by
  simp only [attempt, award, writes, retractions_withLimit]

/-- Dealing with the outcomes of a pass does not depend on the pass limit. -/
@[simp] theorem awardEach_withLimit (items : List (Rule × Outcome)) (progress : Progress σ) :
    (engine.withLimit limit).awardEach collaborators context items progress =
      engine.awardEach collaborators context items progress := by
  induction items generalizing progress with
  | nil => rfl
  | cons item rest inductionHypothesis =>
    simp only [awardEach, attempt_withLimit, inductionHypothesis]

/-- No pass depends on the pass limit, since its checks and its attempts do not. -/
@[simp] theorem pass_withLimit (progress : Progress σ) :
    (engine.withLimit limit).pass collaborators context candidates progress =
      engine.pass collaborators context candidates progress := by
  simp only [pass, checks, judgeAll_withLimit, awardEach_withLimit]

/-- The progress after some passes does not depend on the pass limit, which only says how many of
them are made. -/
@[simp] theorem after_withLimit (state : σ) (count : Nat) :
    (engine.withLimit limit).after collaborators context candidates state count =
      engine.after collaborators context candidates state count := by
  induction count with
  | zero => rfl
  | succ count inductionHypothesis => simp only [after, pass_withLimit, inductionHypothesis]

/-- Whether a cycle has come to the progress after so many passes, whatever else was noted. -/
def ComesTo (state : σ) (count : Nat) (progress : Progress σ) : Prop :=
  ∃ happenings, progress =
    { engine.after collaborators context candidates state count with happenings := happenings }

variable {engine collaborators context candidates} in
/-- A cycle that has come to the progress after some passes has counted them. -/
theorem ComesTo.passes {state : σ} {count : Nat} {progress : Progress σ}
    (comes : engine.ComesTo collaborators context candidates state count progress) :
    progress.passes = count := by
  obtain ⟨happenings, rfl⟩ := comes
  exact after_passes engine collaborators context candidates state count

variable {engine collaborators context candidates} in
/-- A cycle comes to what its passes come to, and no other failure escapes it. -/
theorem process_comesTo {state : σ} {count : Nat}
    (comes : engine.ComesTo collaborators context candidates state count
      (engine.passes collaborators context candidates engine.maxPasses
        (engine.after collaborators context candidates state 0)).2) :
    (engine.process collaborators context candidates state).1 =
        (engine.passes collaborators context candidates engine.maxPasses
          (engine.after collaborators context candidates state 0)).1 ∧
      engine.ComesTo collaborators context candidates state count
        (engine.process collaborators context candidates state).2 := by
  obtain ⟨notes, reached⟩ := comes
  obtain ⟨happenings, made⟩ := process_passes engine collaborators context candidates state
  rw [made]
  refine ⟨rfl, happenings, ?_⟩
  exact congrArg (fun progress : Progress σ => { progress with happenings := happenings }) reached

/-- The pass limit does not show in the progress after so many passes. -/
theorem comesTo_withLimit (state : σ) (count : Nat) (progress : Progress σ) :
    (engine.withLimit limit).ComesTo collaborators context candidates state count progress ↔
      engine.ComesTo collaborators context candidates state count progress := by
  simp only [ComesTo, after_withLimit]

/-- Passes come to the progress after some of them, and never back before their start. -/
theorem passes_comesTo (state : σ) (left begun : Nat) :
    ∃ stopped, begun ≤ stopped ∧ engine.ComesTo collaborators context candidates state stopped
      (engine.passes collaborators context candidates left
        (engine.after collaborators context candidates state begun)).2 := by
  obtain ⟨stopped, notes, reached, _⟩ :=
    passes_reach engine collaborators context candidates state left begun
  have comes : engine.ComesTo collaborators context candidates state stopped _ := ⟨notes, reached⟩
  refine ⟨stopped, comes.passes ▸ ?_, comes⟩
  refine passes_induction (I := fun progress => begun ≤ progress.passes) ?_ (fun _ _ _ => id)
    (Nat.le_of_eq (after_passes engine collaborators context candidates state begun).symm)
  intro progress so
  rw [pass_passes]
  exact Nat.le_succ_of_le so

/-- Whether one ending of passes is that of others cut short at a number: they stop there, unless
the others stop before, and no failure but that of the others escapes them. -/
def IsCut (state : σ) (begun last : Nat) (whole cut : Option Failure × Progress σ) : Prop :=
  ∃ stopped, begun ≤ stopped ∧
    engine.ComesTo collaborators context candidates state stopped whole.2 ∧
    engine.ComesTo collaborators context candidates state (min last stopped) cut.2 ∧
    (cut.1 = none ∨ cut.1 = whole.1)

variable {engine collaborators context candidates} in
/-- Passes that stop alike before the limit is reached are not cut by it. -/
theorem IsCut.alike {state : σ} {begun stopped last : Nat} {result : Option Failure}
    {progress progressToo : Progress σ} (onward : begun ≤ stopped) (before : stopped ≤ last)
    (comes : engine.ComesTo collaborators context candidates state stopped progress)
    (comesToo : engine.ComesTo collaborators context candidates state stopped progressToo) :
    engine.IsCut collaborators context candidates state begun last (result, progress)
      (result, progressToo) :=
  ⟨stopped, onward, comes, (Nat.min_eq_right before).symm ▸ comesToo, .inr rfl⟩

/-- Passes under a lower limit are those under a higher one, cut short. -/
theorem passes_withLimit (state : σ) {fewer more : Nat} (ordered : fewer ≤ more) (begun : Nat) :
    engine.IsCut collaborators context candidates state begun (begun + fewer)
      (engine.passes collaborators context candidates more
        (engine.after collaborators context candidates state begun))
      ((engine.withLimit limit).passes collaborators context candidates fewer
        (engine.after collaborators context candidates state begun)) := by
  induction fewer generalizing more begun with
  | zero =>
    obtain ⟨stopped, onward, comes⟩ :=
      passes_comesTo engine collaborators context candidates state more begun
    refine ⟨stopped, onward, comes, ?_, .inl rfl⟩
    rw [Nat.add_zero, Nat.min_eq_left onward]
    exact ⟨_, rfl⟩
  | succ fewer inductionHypothesis =>
    obtain ⟨rest, rfl⟩ : ∃ rest, more = rest + 1 := ⟨_, (Nat.sub_add_cancel (by omega)).symm⟩
    have next : (engine.pass collaborators context candidates
        (engine.after collaborators context candidates state begun)).2 =
        engine.after collaborators context candidates state (begun + 1) := rfl
    simp only [passes, pass_withLimit]
    split
    · exact .alike (Nat.le_refl _) (Nat.le_add_right _ _) ⟨_, rfl⟩ ⟨_, rfl⟩
    · split
      · rename_i failure later passed
        obtain rfl : later = _ := (congrArg Prod.snd passed).symm.trans next
        exact .alike (Nat.le_succ _) (by omega) ⟨_, rfl⟩ ⟨_, rfl⟩
      · rename_i later passed
        obtain rfl : later = _ := (congrArg Prod.snd passed).symm.trans next
        exact .alike (Nat.le_succ _) (by omega) ⟨_, rfl⟩ ⟨_, rfl⟩
      · rename_i count later _ passed
        obtain rfl : later = _ := (congrArg Prod.snd passed).symm.trans next
        obtain ⟨stopped, onward, comes, cut, escaped⟩ :=
          inductionHypothesis (Nat.le_of_succ_le_succ ordered) (begun + 1)
        rw [show begun + 1 + fewer = begun + (fewer + 1) by omega] at cut
        exact ⟨stopped, by omega, comes, cut, escaped⟩

/-- A cycle under a lower limit is the same cycle, cut after as many passes as that limit allows. -/
theorem process_withLimit (state : σ) (lower : limit ≤ engine.maxPasses) :
    engine.IsCut collaborators context candidates state 0 limit
      (engine.process collaborators context candidates state)
      ((engine.withLimit limit).process collaborators context candidates state) := by
  obtain ⟨stopped, onward, comes, cut, escaped⟩ :=
    passes_withLimit engine limit collaborators context candidates state lower 0
  rw [Nat.zero_add] at cut
  obtain ⟨result, ended⟩ := process_comesTo comes
  obtain ⟨resultToo, endedToo⟩ := process_comesTo ((comesTo_withLimit ..).mpr cut)
  exact ⟨stopped, onward, ended, (comesTo_withLimit ..).mp endedToo,
    escaped.imp resultToo.trans fun same => resultToo.trans (same.trans result.symm)⟩

end Passes

section Reports

variable {engine : Engine} {collaborators : Collaborators σ} {context : Context}
  {candidates : List Rule}

/-- Retractions add to what was reported before them, and take nothing back. -/
theorem retractEach_begins (rule : Rule) (retractions : List (String × Entries))
    (progress : Progress σ) :
    progress.Begins (retractEach collaborators context rule retractions progress).2 := by
  induction retractions generalizing progress with
  | nil => exact .of_eq rfl rfl rfl
  | cons first rest inductionHypothesis =>
    unfold retractEach
    split
    · exact .of_eq rfl rfl rfl
    · refine .trans ?_ (inductionHypothesis _)
      exact ⟨List.prefix_rfl, List.prefix_append _ _, List.prefix_rfl⟩

/-- An award begins with what was reported before it, and adds to that at most. -/
theorem award_begins (rule : Rule) (progress : Progress σ) :
    progress.Begins (engine.award collaborators context rule progress).2 := by
  rcases award_cases collaborators context rule progress engine with
    ⟨_, _, made⟩ | ⟨_, retractions, _, ⟨_, _, _, made⟩ |
      ⟨fact, state, broken, later, _, retracting, made⟩⟩
  · exact made ▸ .of_eq rfl rfl rfl
  · exact made ▸ .of_eq rfl rfl rfl
  · have reported : progress.Begins (progress.withAward rule fact state) :=
      ⟨List.prefix_append _ _, List.prefix_rfl, List.prefix_rfl⟩
    have retracted : progress.Begins later := by
      refine reported.trans ?_
      have further : (progress.withAward rule fact state).Begins
          (retractEach collaborators context rule retractions _).2 :=
        retractEach_begins rule retractions _
      rwa [retracting] at further
    rw [made]
    cases broken with
    | some failure => exact retracted
    | none =>
      obtain ⟨_, _, _, ran⟩ := runActions_frame collaborators context rule later
      exact retracted.trans (ran ▸ .of_eq rfl rfl rfl)

/-- An attempt begins with what was reported before it, whether or not its award breaks off. -/
theorem attempt_begins (rule : Rule) (progress : Progress σ) :
    progress.Begins (engine.attempt collaborators context rule progress).2 := by
  have reported : progress.Begins (engine.award collaborators context rule progress).2 :=
    award_begins rule progress
  unfold attempt
  split
  · rename_i failure later made
    rw [made] at reported
    exact reported.trans (.of_eq rfl rfl rfl)
  · rename_i later made
    rw [made] at reported
    exact reported.trans (.of_eq rfl rfl rfl)

/-- A pass begins with what was reported before it, and adds its own outcomes, awards and
retractions. -/
theorem pass_begins (progress : Progress σ) :
    progress.Begins (engine.pass collaborators context candidates progress).2 := by
  have checked : progress.Begins
      (engine.checks collaborators context candidates progress).2.2 := .of_eq rfl rfl rfl
  unfold pass
  split
  · rename_i failure items later made
    rw [made] at checked
    exact checked
  · rename_i items later made
    rw [made] at checked
    have awarded : later.Begins (engine.awardEach collaborators context items later).2.2 :=
      awardEach_induction (P := fun _ further => later.Begins further) (fun _ _ _ => id)
        (fun rule _ _ further _ _ so => so.trans (attempt_begins rule further))
        (.of_eq rfl rfl rfl)
    exact (checked.trans awarded).trans ⟨List.prefix_rfl, List.prefix_rfl, List.prefix_append _ _⟩

/-- What is reported after some passes is the beginning of what is reported after more of them. -/
theorem after_begins (state : σ) {early late : Nat} (ordered : early ≤ late) :
    (engine.after collaborators context candidates state early).Begins
      (engine.after collaborators context candidates state late) := by
  induction ordered with
  | refl => exact .of_eq rfl rfl rfl
  | step _ inductionHypothesis => exact inductionHypothesis.trans (pass_begins _)

end Reports

/-- Whether a cycle under a pass limit is the first part of another cycle: it stops where the other
stops or at the limit, reports the beginning of what the other reports, and leaves the state in
which the other was after as many passes. -/
structure CutsShort (short long : Engine) (limit : Int) (collaborators : Collaborators σ)
    (context : Context) (candidates : List Rule) (state : σ) : Prop where
  passes : ((short.process collaborators context candidates state).2.passes : Int) =
    min limit (long.process collaborators context candidates state).2.passes
  reported : (short.process collaborators context candidates state).2.Begins
    (long.process collaborators context candidates state).2
  leaves : (short.process collaborators context candidates state).2.state =
    (long.after collaborators context candidates state
      (short.process collaborators context candidates state).2.passes).state
  leavesToo : (long.process collaborators context candidates state).2.state =
    (long.after collaborators context candidates state
      (long.process collaborators context candidates state).2.passes).state

/-- Of two engines for the same rules, the one with the lower limit cuts the cycles of the other
short. -/
theorem withLimit_cutsShort (engine : Engine) {limit : Nat} (lower : limit ≤ engine.maxPasses)
    (collaborators : Collaborators σ) (context : Context) (candidates : List Rule) (state : σ) :
    (engine.withLimit limit).CutsShort engine limit collaborators context candidates state := by
  obtain ⟨stopped, _, comes, cut, _⟩ :=
    process_withLimit engine limit collaborators context candidates state lower
  have passes := cut.passes
  have passesToo := comes.passes
  obtain ⟨happenings, ended⟩ := cut
  obtain ⟨happeningsToo, endedToo⟩ := comes
  refine ⟨?_, ?_, ?_, ?_⟩
  · rw [passes, passesToo]
    omega
  · have begins : (engine.after collaborators context candidates state (min limit stopped)).Begins
        (engine.after collaborators context candidates state stopped) :=
      after_begins state (Nat.min_le_right limit stopped)
    rw [ended, endedToo]
    exact ⟨begins.awarded, begins.retracted, begins.outcomes⟩
  · rw [passes, ended]
  · rw [passesToo, endedToo]

/-- The pass limit only cuts a cycle short. Of two engines for the same rules, over calm stores, the
one with the higher limit comes to its end, as far as the candidates are brief, and no failure but
that of the other leaves the one with the lower limit. This one stops where the other stops or at
its own limit, has reported the beginning of what the other reports, and leaves the state in which
the other was after as many passes. -/
theorem process_cutsShort {catalogue : Catalogue} {fewer more : Int} (ordered : fewer ≤ more)
    {retry : Option RetryPolicy} {short long : Engine}
    (engaged : Engine.of catalogue fewer none retry = .ok short)
    (engagedToo : Engine.of catalogue more none retry = .ok long) (runs : Bool) {context : Context}
    (texts : AreTexts (Entries.keys context.attributes)) (candidates : List Rule) {stores : Stores}
    (calm : stores.IsCalm) :
    let ended := short.process (Stores.collaborators runs) context candidates stores
    let endedToo := long.process (Stores.collaborators runs) context candidates stores
    EndsIfBrief context candidates endedToo.1 ∧ (ended.1 = none ∨ ended.1 = endedToo.1) ∧
      CutsShort short long fewer (Stores.collaborators runs) context candidates stores := by
  intro ended endedToo
  obtain ⟨rfl, least⟩ := of_eq engaged
  obtain ⟨rfl, _⟩ := of_eq engagedToo
  have lower : fewer.toNat ≤ more.toNat := Int.toNat_le_toNat ordered
  obtain ⟨_, _, _, _, escaped⟩ := process_withLimit ⟨catalogue, more.toNat, none, retry⟩
    fewer.toNat (Stores.collaborators runs) context candidates stores lower
  have cuts := withLimit_cutsShort ⟨catalogue, more.toNat, none, retry⟩ lower
    (Stores.collaborators runs) context candidates stores
  rw [Int.toNat_of_nonneg (by omega)] at cuts
  exact ⟨process_ends runs context _ candidates calm.isQuiet texts, escaped, cuts⟩

/-- A cycle over the sample catalogue for a subject without awards takes three passes. Under a limit
of one it only makes the first award. -/
theorem sample_cutsShort :
    let context := Context.of (.integer 3) [] defaultScope
    let short := Engine.mk Catalogue.sample 1 none none
    let long := Engine.mk Catalogue.sample 10 none none
    CutsShort short long 1 (Stores.collaborators true) context Catalogue.sample.rules
        Stores.sample ∧
      (short.process (Stores.collaborators true) context Catalogue.sample.rules
        Stores.sample).2.awarded = ["Beginner"] ∧
      (long.process (Stores.collaborators true) context Catalogue.sample.rules
        Stores.sample).2.awarded = ["Beginner", "Beginner", "Expert"] := by
  intro context short long
  have texts : AreTexts (Entries.keys context.attributes) := Context.of_nil_texts _ _
  obtain ⟨_, _, cuts⟩ := process_cutsShort (by decide : (1 : Int) ≤ 10)
    (show Engine.of Catalogue.sample 1 none none = .ok short from rfl)
    (show Engine.of Catalogue.sample 10 none none = .ok long from rfl) true texts
    Catalogue.sample.rules Stores.sample_calm
  exact ⟨cuts, by decide +kernel, by decide +kernel⟩

end Engine

end Accolade
