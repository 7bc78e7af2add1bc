import Accolade.Proofs.Cycle.Projection

/-!
# Cycles with a record of their calls

A cycle whose calls are traced, or whose postings are kept, is the cycle itself with a record beside
the state: it comes to the same, reports the same and notes the same. Under a projection of the
state it is enough for this that every call comes to the same, the runs of actions too.
-/

namespace Accolade

variable {σ τ : Type} {project : τ → σ}

/-- Whether a cycle is another one under a projection of the state, in everything else the same. -/
def Progress.IsCopy (project : τ → σ) (first : Progress σ) (second : Progress τ) : Prop :=
  first = { second with state := project second.state }

/-- Whether collaborators are others under a projection of the state, and their actions fail
alike. -/
structure Collaborators.IsCopy (project : τ → σ) (collaborators : Collaborators σ)
    (others : Collaborators τ) : Prop
    extends Collaborators.IsImage project collaborators others where
  fails : ∀ run runToo, collaborators.invoke = some run → others.invoke = some runToo →
    ∀ actions context state,
      (run actions context (project state)).1 = (runToo actions context state).1

namespace Engine

variable {collaborators : Collaborators σ} {others : Collaborators τ} (engine : Engine)
  (context : Context)

section Steps

variable (copied : Collaborators.IsCopy project collaborators others) {first : Progress σ}
  {second : Progress τ} (alike : first.IsCopy project second)
include copied alike

/-- Retractions come to the same in progress and its copy, and leave progress and its copy. -/
theorem retractEach_copy (rule : Rule) (retractions : List (String × Entries)) :
    SameBeside (Progress.IsCopy project)
      (retractEach collaborators context rule retractions first)
      (retractEach others context rule retractions second) := by
  induction retractions generalizing first second with
  | nil => exact ⟨rfl, alike⟩
  | cons entry rest inductionHypothesis =>
    obtain ⟨target, values⟩ := entry
    obtain rfl := alike
    simp only [retractEach, copied.retractAward]
    cases others.retractAward context.subject target values second.state with
    | mk outcome later =>
      cases outcome with
      | error failure => exact ⟨rfl, rfl⟩
      | ok _ => exact inductionHypothesis rfl

/-- Running the actions of a rule leads from progress and its copy to progress and its copy. -/
theorem runActions_copy (rule : Rule) :
    Progress.IsCopy project (runActions collaborators context rule first)
      (runActions others context rule second) := by
  obtain rfl := alike
  cases actions : rule.actions with
  | nil => simp only [runActions, actions, Progress.IsCopy]
  | cons action more =>
    cases given : others.invoke with
    | none => simp only [runActions, actions, given, copied.absent given, Progress.IsCopy]
    | some runToo =>
      obtain ⟨run, present, same⟩ := copied.invoke runToo given
      have ran : run (action :: more) (context.forScope rule.scope) (project second.state) =
          Prod.map id project
            (runToo (action :: more) (context.forScope rule.scope) second.state) :=
        Prod.ext (copied.fails run runToo present given _ _ _) (same _ _ _)
      simp only [runActions, actions, given, present, ran]
      cases runToo (action :: more) (context.forScope rule.scope) second.state with
      | mk outcome later => cases outcome <;> rfl

/-- An award comes to the same in progress and its copy. -/
theorem award_copy (rule : Rule) :
    SameBeside (Progress.IsCopy project) (engine.award collaborators context rule first)
      (engine.award others context rule second) := by
  obtain rfl := alike
  unfold award
  cases engine.writes context rule with
  | error failure => exact ⟨rfl, rfl⟩
  | ok both =>
    obtain ⟨values, retractions⟩ := both
    dsimp only
    rw [copied.recordAward]
    cases others.recordAward context.subject rule.name values second.state with
    | mk outcome later =>
      cases outcome with
      | error failure => exact ⟨rfl, rfl⟩
      | ok fact =>
        have begun : Progress.IsCopy project
            (({ second with state := project second.state } : Progress σ).withAward rule fact
              (project later))
            (second.withAward rule fact later) := rfl
        obtain ⟨broken, here, there, made, madeToo, further⟩ :=
          (retractEach_copy context copied begun rule retractions).spread
        unfold Progress.withAward at made madeToo
        simp only [Prod.map, id, made, madeToo]
        cases broken with
        | some failure => exact ⟨rfl, further⟩
        | none => exact ⟨rfl, runActions_copy context copied further rule⟩

/-- An attempt comes to the same in progress and its copy. -/
theorem attempt_copy (rule : Rule) :
    SameBeside (Progress.IsCopy project) (engine.attempt collaborators context rule first)
      (engine.attempt others context rule second) := by
  obtain ⟨broken, here, there, made, madeToo, further⟩ :=
    (award_copy engine context copied alike rule).spread
  obtain rfl := further
  simp only [attempt, made, madeToo]
  cases broken <;> exact ⟨rfl, rfl⟩

/-- The checks of a pass come to the same in progress and its copy. -/
theorem checks_copy (candidates : List Rule) :
    SameBeside (SameBeside (Progress.IsCopy project))
      (engine.checks collaborators context candidates first)
      (engine.checks others context candidates second) := by
  obtain rfl := alike
  have same : eligible candidates
      ({ second with state := project second.state } : Progress σ) =
        eligible candidates second := rfl
  simp only [checks, same, engine.judgeAll_image copied.lookup]
  exact ⟨rfl, rfl, rfl⟩

end Steps

/-- A cycle over a copy of the collaborators comes to the same, and ends in a copy of what they end
in. -/
theorem process_copy (copied : Collaborators.IsCopy project collaborators others)
    (candidates : List Rule) (state : τ) :
    SameBeside (Progress.IsCopy project)
      (engine.process collaborators context candidates (project state))
      (engine.process others context candidates state) := by
  have stays : engine.StaysRelated collaborators others context candidates
      (Progress.IsCopy project) :=
    { settled := by rintro _ second rfl; rfl
      expired := by rintro _ second rfl; rfl
      completed := by rintro _ second rfl; rfl
      checked := fun _ _ alike => checks_copy engine context copied alike candidates
      attempted := fun rule _ _ _ alike => attempt_copy engine context copied alike rule
      told := by rintro outcomes _ second rfl; rfl
      noted := by rintro happenings _ second rfl; rfl }
  exact stays.process rfl

end Engine

namespace Collaborators

/-- Collaborators that are traced are a copy of the collaborators, beside a trace that no call
reads. -/
theorem traced_isCopy (collaborators : Collaborators σ) :
    collaborators.IsCopy Prod.fst collaborators.traced :=
  { collaborators.traced_isImage with
    fails := by
      intro run runToo present given actions context state
      simp only [traced, present, Option.map_some, Option.some.injEq] at given
      rw [← given] }

/-- Collaborators that keep their postings are the collaborators themselves, beside a part of the
state that no call reads. -/
theorem posted_isCopy (collaborators : Collaborators σ) :
    collaborators.IsCopy Prod.fst collaborators.posted where
  lookup _ _ _ := rfl
  recordAward _ _ _ _ := rfl
  retractAward _ _ _ _ := rfl
  absent given := by simpa [posted] using given
  invoke runToo given := by
    simp only [posted, Option.map_eq_some_iff] at given
    obtain ⟨run, present, rfl⟩ := given
    exact ⟨run, present, fun _ _ _ => rfl⟩
  fails := by
    intro run runToo present given actions context state
    simp only [posted, present, Option.map_some, Option.some.injEq] at given
    rw [← given]

end Collaborators

end Accolade
