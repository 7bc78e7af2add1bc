import Accolade.Proofs.Cycle.Passes
import Accolade.Proofs.Cycle.Retractions

/-!
# Awards of the last pass

Passes are to go on until one awards nothing, so that what depends on an award is checked once
more after it. The cycle counts the awards that went through. An award that breaks off, because a
retraction fails after the award itself was written, is not counted, so a pass whose awards all
break off is the last one although it wrote awards.

This is the only way in which the last pass can write an award, if the cycle comes to its end in
time and before the pass limit: every award written in it breaks off, whatever the collaborators do.
-/

namespace Accolade

namespace Engine

open Write (AllBreakOff awardedNames)

variable {σ : Type} (engine : Engine) (collaborators : Collaborators σ) (context : Context)
  (candidates : List Rule) (state : σ)

/-- Passes come to the progress after some of them. If that is in time and before the limit, and no
failure escaped, the last of them awarded nothing. -/
theorem passes_reach (left begun : Nat) :
    ∃ ended happenings,
      (engine.passes collaborators context candidates left
        (engine.after collaborators context candidates state begun)).2 =
        { engine.after collaborators context candidates state ended with
          happenings := happenings } ∧
      ((engine.passes collaborators context candidates left
          (engine.after collaborators context candidates state begun)).1 = none →
        (engine.after collaborators context candidates state ended).expired = false →
        ended < begun + left →
        ∃ last, ended = last + 1 ∧ (engine.pass collaborators context candidates
          (engine.after collaborators context candidates state last)).1 = .ok 0) := by
  induction left generalizing begun with
  | zero => exact ⟨begun, _, rfl, fun _ _ below => by omega⟩
  | succ left inductionHypothesis =>
    unfold passes
    split
    · rename_i expired
      exact ⟨begun, _, rfl, fun _ inTime _ => by simp [inTime] at expired⟩
    · have next : (engine.pass collaborators context candidates
          (engine.after collaborators context candidates state begun)).2 =
          engine.after collaborators context candidates state (begun + 1) := rfl
      split
      · rename_i failure later passed
        exact ⟨begun + 1, later.happenings, by rw [← next, passed], nofun⟩
      · rename_i later passed
        exact ⟨begun + 1, later.happenings, by rw [← next, passed],
          fun _ _ _ => ⟨begun, rfl, congrArg Prod.fst passed⟩⟩
      · rename_i count later _ passed
        obtain rfl : later = _ := (congrArg Prod.snd passed).symm.trans next
        obtain ⟨ended, happenings, reached, stops⟩ := inductionHypothesis (begun + 1)
        exact ⟨ended, happenings, reached, fun returned inTime below =>
          stops returned inTime (by omega)⟩

/-- A cycle that returns in time and before the pass limit has awarded nothing in its last pass, and
ends with what that pass leaves, whatever it notes on top. -/
theorem process_stops
    (returns : (engine.process collaborators context candidates state).1 = none)
    (inTime : (engine.process collaborators context candidates state).2.expired = false)
    (early : (engine.process collaborators context candidates state).2.passes <
      engine.maxPasses) :
    let before := engine.beforeLast collaborators context candidates state
    (engine.pass collaborators context candidates before).1 = .ok 0 ∧
    ∃ happenings, (engine.process collaborators context candidates state).2 =
      { (engine.pass collaborators context candidates before).2 with
        happenings := happenings } := by
  obtain ⟨ended, happenings, reached, stops⟩ :=
    passes_reach engine collaborators context candidates state engine.maxPasses 0
  obtain ⟨notes, made⟩ := process_passes engine collaborators context candidates state
  have processed : (engine.process collaborators context candidates state).2 =
      { engine.after collaborators context candidates state ended with happenings := notes } := by
    have later := congrArg Prod.snd made
    rw [show (engine.passes _ context candidates _ (Progress.start _ _)).2 = _ from reached]
      at later
    exact later
  have returned : (engine.passes collaborators context candidates engine.maxPasses
      (engine.after collaborators context candidates state 0)).1 = none :=
    (congrArg Prod.fst made).symm.trans returns
  have counted := after_passes engine collaborators context candidates state ended
  rw [processed] at inTime early
  obtain ⟨last, rfl, idle⟩ := stops returned inTime (by rw [← counted]; simpa using early)
  intro before
  have same : before = _ := beforeLast_eq processed
  rw [same]
  exact ⟨idle, notes, processed⟩

/-- A pass whose awards all fail writes no award but ones that break off, and reports what it
writes. -/
theorem pass_idle_writes {progress : Progress (σ × List Write)}
    (idle : (engine.pass collaborators.watched context candidates progress).1 = .ok 0) :
    ∃ block,
      (engine.pass collaborators.watched context candidates progress).2.state.2 =
        progress.state.2 ++ block ∧
      (engine.pass collaborators.watched context candidates progress).2.awarded =
        progress.awarded ++ awardedNames block ∧ AllBreakOff block := by
  have checked : (engine.checks collaborators.watched context candidates progress).2.2.state.2 =
      progress.state.2 := checks_moves (watched_moves collaborators)
  have unreported : (engine.checks collaborators.watched context candidates progress).2.2.awarded =
      progress.awarded := rfl
  unfold pass at idle ⊢
  split at idle
  · contradiction
  · rename_i items later made
    rw [made] at checked unreported
    refine awardEach_idle engine collaborators.watched context
      (I := fun ended => ∃ block, ended.state.2 = progress.state.2 ++ block ∧
        ended.awarded = progress.awarded ++ awardedNames block ∧ AllBreakOff block)
      ?_ (Except.ok.inj idle)
      ⟨[], by simpa using checked, by simpa [awardedNames] using unreported, by simp [AllBreakOff]⟩
    rintro rule current error next failed ⟨block, written, reported, broken⟩
    obtain ⟨further, _, _, breaking, wrote, _, awarded⟩ :=
      attempt_writes engine collaborators context rule current
    rw [failed] at breaking wrote awarded
    exact ⟨block ++ further, by rw [wrote, written, List.append_assoc],
      by rw [awarded, reported, Write.awardedNames_append, List.append_assoc],
      broken.append (breaking rfl)⟩

/-- A document with a rule that replaces another, and one that requires the first. -/
def chainedDocument : Value :=
  .mapping [(.text "achievements", .mapping [
    (.text "New", .mapping [(.text "replaces", .list [.text "Old"])]),
    (.text "Next", .mapping [
      (.text "requirements", .list [.mapping [(.text "achievement", .text "New")]])]),
    (.text "Old", .mapping [])])]

/-- The catalogue of the three rules. -/
def chainedCatalogue : Catalogue :=
  ⟨[⟨"New", .allOf [], ["Old"], 1, ["user_id"], [], false⟩,
    ⟨"Next", .allOf [.achievement "New" (.atLeast 1)], [], 1, ["user_id"], [], false⟩,
    ⟨"Old", .allOf [], [], 1, ["user_id"], [], false⟩]⟩

/-- Stores in which the first retraction of the third rule fails. -/
def chainedStores : Stores :=
  { Stores.of [] [] [] with
    faults := [⟨.retraction, .text "Old", .fail 1 (.diagnosed (.query "remote" "boom" []))⟩] }

end Engine

end Accolade
