import Accolade.Proofs.Cycle.Process
import Accolade.Proofs.Likeness

/-!
# Cycles that stay related

Two cycles over the same candidates, perhaps on different collaborators, may stand in a relation
that checks and attempts keep: they come to the same, and what they leave is related again. Passes
and whole cycles then keep it as well. Related cycles have settled the same rules and report the
same, so that they make the same choices.
-/

namespace Accolade

variable {σ τ : Type}

namespace Engine

/-- Whether two cycles over some candidates stay in a relation, whatever they do. -/
structure StaysRelated (engine : Engine) (collaborators : Collaborators σ)
    (others : Collaborators τ) (context : Context) (candidates : List Rule)
    (R : Progress σ → Progress τ → Prop) : Prop where
  settled : ∀ first second, R first second → second.settled = first.settled
  expired : ∀ first second, R first second → second.expired = first.expired
  completed : ∀ first second, R first second → completion second = completion first
  checked : ∀ first second, R first second → SameBeside (SameBeside R)
    (engine.checks collaborators context candidates first)
    (engine.checks others context candidates second)
  attempted : ∀ rule ∈ candidates, ∀ first second, R first second → SameBeside R
    (engine.attempt collaborators context rule first) (engine.attempt others context rule second)
  told : ∀ outcomes first second, R first second →
    R { first with outcomes := first.outcomes ++ outcomes }
      { second with outcomes := second.outcomes ++ outcomes }
  noted : ∀ happenings first second, R first second →
    R (first.note happenings) (second.note happenings)

namespace StaysRelated

variable {engine : Engine} {collaborators : Collaborators σ} {others : Collaborators τ}
  {context : Context} {candidates : List Rule} {R : Progress σ → Progress τ → Prop}
  (stays : engine.StaysRelated collaborators others context candidates R)
  {first : Progress σ} {second : Progress τ} (related : R first second)
include stays related

/-- Dealing with the outcome of a candidate comes to the same and leaves related progress. -/
theorem awardItem {item : Rule × Outcome} (member : item.1 ∈ candidates) :
    SameBeside (SameBeside R) (engine.awardItem collaborators context item first)
      (engine.awardItem others context item second) := by
  unfold Engine.awardItem
  rw [stays.settled _ _ related]
  split
  · exact ⟨rfl, rfl, related⟩
  · obtain ⟨error, later, laterToo, made, madeToo, next⟩ :=
      (stays.attempted item.1 member first second related).spread
    rw [made, madeToo]
    cases error with
    | some error => exact ⟨rfl, rfl, next⟩
    | none => exact ⟨rfl, rfl, next⟩

/-- Dealing with all outcomes of a pass comes to the same and leaves related progress, provided they
are outcomes of candidates. -/
theorem awardEach {items : List (Rule × Outcome)} (among : ∀ item ∈ items, item.1 ∈ candidates) :
    SameBeside (SameBeside R) (engine.awardEach collaborators context items first)
      (engine.awardEach others context items second) := by
  induction items generalizing first second with
  | nil => exact ⟨rfl, rfl, related⟩
  | cons item rest inductionHypothesis =>
    obtain ⟨here, further⟩ := List.forall_mem_cons.mp among
    obtain ⟨outcome, count, next⟩ := stays.awardItem related here
    obtain ⟨outcomes, counts, ended⟩ := inductionHypothesis next further
    rw [awardEach_cons, awardEach_cons]
    exact ⟨congr (congrArg List.cons outcome) outcomes, congr (congrArg Nat.add counts) count,
      ended⟩

/-- A pass comes to the same and leaves related progress, as its checks and its attempts do. -/
theorem pass :
    SameBeside R (engine.pass collaborators context candidates first)
      (engine.pass others context candidates second) := by
  obtain ⟨escaped, ⟨items, later⟩, ⟨_, laterToo⟩, made, madeToo, rfl, next⟩ :=
    (stays.checked first second related).spread
  simp only [Engine.pass, made, madeToo]
  cases escaped with
  | some failure => exact ⟨rfl, next⟩
  | none =>
    have listed : items.map Prod.fst = eligible candidates first := by
      have rules := checks_rules (congrArg Prod.fst made)
      rwa [made] at rules
    have among : ∀ item ∈ items, item.1 ∈ candidates := by
      intro item inside
      have chosen : item.1 ∈ eligible candidates first := listed ▸ List.mem_map_of_mem inside
      exact (List.mem_filter.mp chosen).1
    obtain ⟨outcomes, ⟨count, ended⟩, ⟨_, endedToo⟩, dealt, dealtToo, rfl, last⟩ :=
      (stays.awardEach next among).spread
    simp only [dealt, dealtToo]
    exact ⟨rfl, stays.told outcomes ended endedToo last⟩

/-- Any number of passes come to the same and leave related progress. -/
theorem passes (left : Nat) :
    SameBeside R (engine.passes collaborators context candidates left first)
      (engine.passes others context candidates left second) := by
  induction left generalizing first second with
  | zero => exact ⟨rfl, stays.noted _ first second related⟩
  | succ left inductionHypothesis =>
    obtain ⟨result, later, laterToo, made, madeToo, next⟩ := (stays.pass related).spread
    simp only [Engine.passes, stays.expired _ _ related, made, madeToo]
    split
    · exact ⟨rfl, stays.noted _ first second related⟩
    · cases result with
      | error failure => exact ⟨rfl, next⟩
      | ok count =>
        cases count with
        | zero => exact ⟨rfl, next⟩
        | succ _ => exact inductionHypothesis next

omit related in
/-- A whole cycle comes to the same and ends in related progress, provided it starts in related
progress. -/
theorem process {state : σ} {other : τ}
    (started : R (Progress.start state engine.startsExpired)
      (Progress.start other engine.startsExpired)) :
    SameBeside R (engine.process collaborators context candidates state)
      (engine.process others context candidates other) := by
  obtain ⟨escaped, ended, endedToo, made, madeToo, last⟩ :=
    (stays.passes started engine.maxPasses).spread
  simp only [Engine.process, made, madeToo]
  cases escaped with
  | some failure => exact ⟨rfl, stays.noted _ ended endedToo last⟩
  | none =>
    dsimp only
    rw [stays.completed _ _ last]
    exact ⟨rfl, stays.noted _ ended endedToo last⟩

end StaysRelated

end Engine

end Accolade
