import Accolade.Fact.Writer
import Accolade.Proofs.Catalogue.Loader
import Accolade.Proofs.Cycle.Process
import Accolade.Fact.Stores

/-!
# Awards after retractions

A rule that was retracted is not to be awarded again in the same cycle. The cycle keeps to
this by settling the rules that an award replaces, but it settles them only once the award
went through. If an award breaks off, because after some retractions a further one fails, then
the rules retracted until then stay unsettled, and they are awarded again when they are due.

This is the only way in which an award can follow a retraction. The calls of the award writer
are watched: an attempt makes one of four rows of calls, and whatever it retracts is settled
when it ends, or the row ends with the failure of a further retraction.
-/

namespace Accolade

namespace Write

/-- Whether no award of a rule is tried after a retraction of it. -/
def RespectRetractions (writes : List Write) : Prop :=
  ∀ name after, .retraction name true :: after <:+ writes → ∀ done, .award name done ∉ after

/-- Whether the award under way breaks off: after some retractions a further one fails. -/
def breaksOff : List Write → Bool
  | .retraction _ done :: rest => !done || breaksOff rest
  | _ => false

/-- An award that breaks off does so whatever is written later. -/
theorem breaksOff_append {writes : List Write} (broken : breaksOff writes = true)
    (later : List Write) : breaksOff (writes ++ later) = true := by
  fun_induction breaksOff writes with
  | case1 name done rest inductionHypothesis =>
    simp only [Bool.or_eq_true] at broken
    simp only [List.cons_append, breaksOff, Bool.or_eq_true]
    exact broken.imp id inductionHypothesis
  | case2 => contradiction

/-- An award that breaks off does so at a retraction that failed. -/
theorem failed_of_breaksOff {writes : List Write} (broken : breaksOff writes = true) :
    ∃ name, .retraction name false ∈ writes := by
  fun_induction breaksOff writes with
  | case1 name done rest inductionHypothesis =>
    cases done with
    | false => exact ⟨name, List.mem_cons_self⟩
    | true =>
      obtain ⟨other, member⟩ := inductionHypothesis broken
      exact ⟨other, List.mem_cons_of_mem _ member⟩
  | case2 => contradiction

/-- Retractions of which the last one fails break an award off. -/
theorem breaksOff_retractions (targets : List String) (target : String) :
    breaksOff (targets.map (.retraction · true) ++ [.retraction target false]) = true := by
  induction targets with
  | nil => rfl
  | cons first rest inductionHypothesis => simpa [breaksOff] using inductionHypothesis

/-- After each of them that goes through, the award is still to be broken off. -/
theorem breaksOff_behind (targets : List String) (target : String) {name : String}
    {after : List Write} (ending : .retraction name true :: after <:+
      targets.map (.retraction · true) ++ [.retraction target false]) :
    breaksOff after = true := by
  induction targets with
  | nil => simp [List.suffix_cons_iff] at ending
  | cons first rest inductionHypothesis =>
    rw [List.map_cons, List.cons_append, List.suffix_cons_iff] at ending
    rcases ending with same | deeper
    · obtain ⟨_, rfl⟩ := List.cons.inj same
      exact breaksOff_retractions rest target
    · exact inductionHypothesis deeper

/-- The writes of one attempt to award a rule, and the rules it settles. -/
inductive Attempted (rule : Rule) : List Write → List String → Prop
  /-- some scope does not resolve -/
  | unresolved : Attempted rule [] [rule.name]
  | refused : Attempted rule [.award rule.name false] [rule.name]
  | brokenOff (targets : List String) (target : String) :
      Attempted rule
        (.award rule.name true :: (targets.map (.retraction · true) ++ [.retraction target false]))
        [rule.name]
  | wentThrough :
      Attempted rule (.award rule.name true :: rule.replaces.map (.retraction · true)) rule.replaces

/-- The names of the rules whose awards were written. -/
def awardedNames : List Write → List String
  | [] => []
  | .award name true :: rest => name :: awardedNames rest
  | _ :: rest => awardedNames rest

/-- The names awarded by writes and further writes are those of the first and then those of the
others. -/
theorem awardedNames_append (early late : List Write) :
    awardedNames (early ++ late) = awardedNames early ++ awardedNames late := by
  fun_induction awardedNames early with
  | case1 => rfl
  | case2 name rest inductionHypothesis =>
    simp only [List.cons_append, awardedNames, inductionHypothesis]
  | case3 first rest other inductionHypothesis =>
    cases first with
    | award name done => cases done <;> simp_all [awardedNames]
    | retraction => simpa [awardedNames] using inductionHypothesis

/-- Retractions award no names, whether they go through or not. -/
theorem awardedNames_retractions (targets : List String) (rest : List Write) :
    awardedNames (targets.map (.retraction · true) ++ rest) = awardedNames rest := by
  induction targets with
  | nil => rfl
  | cons first targets inductionHypothesis => exact inductionHypothesis

/-- Whether every award that is written breaks off. -/
def AllBreakOff (writes : List Write) : Prop :=
  ∀ name after, .award name true :: after <:+ writes → breaksOff after = true

/-- Whether each retraction is of a rule that is settled and tried no more, or of one retracted
by an award that broke off. -/
def Accounted (settled : List String) (writes : List Write) : Prop :=
  ∀ name after, .retraction name true :: after <:+ writes →
    breaksOff after = true ∨ name ∈ settled ∧ ∀ done, .award name done ∉ after

/-- Within one attempt, what is retracted is settled unless the attempt breaks off. -/
theorem Attempted.accounted {rule : Rule} {writes : List Write} {settled : List String}
    (attempted : Attempted rule writes settled) : Accounted settled writes := by
  intro name after ending
  cases attempted with
  | unresolved => simp at ending
  | refused => simp [List.suffix_cons_iff] at ending
  | brokenOff targets target =>
    rw [List.suffix_cons_iff] at ending
    rcases ending with same | within
    · cases same
    · exact .inl (breaksOff_behind targets target within)
  | wentThrough =>
    rw [List.suffix_cons_iff] at ending
    rcases ending with same | within
    · cases same
    · right
      have first := within.subset List.mem_cons_self
      constructor
      · simpa using first
      · intro done member
        have later := within.subset (List.mem_cons_of_mem _ member)
        simp at later

/-- An attempt writes no award but of its own rule, and that once at most. -/
theorem Attempted.awards {rule : Rule} {writes : List Write} {settled : List String}
    (attempted : Attempted rule writes settled) {name : String} {done : Bool}
    (member : .award name done ∈ writes) : name = rule.name := by
  cases attempted <;> simp_all

/-- An element of two lists put together stands in the first, with the whole second behind it, or in
the second. -/
theorem suffix_append {α : Type} {first : α} {after early late : List α}
    (ending : first :: after <:+ early ++ late) :
    (∃ rest, first :: rest <:+ early ∧ after = rest ++ late) ∨ first :: after <:+ late := by
  obtain ⟨before, whole⟩ := ending
  rcases List.append_eq_append_iff.mp whole with ⟨rest, rfl, split⟩ | ⟨rest, rfl, split⟩
  · cases rest with
    | nil => exact .inr (by simp at split; exact split ▸ List.suffix_refl _)
    | cons head tail =>
      obtain ⟨rfl, rfl⟩ := List.cons.inj split
      exact .inl ⟨tail, List.suffix_append _ _, rfl⟩
  · exact .inr ⟨rest, split.symm⟩

/-- Where every award breaks off, one after the other, all of them do. -/
theorem AllBreakOff.append {early late : List Write} (first : AllBreakOff early)
    (second : AllBreakOff late) : AllBreakOff (early ++ late) := by
  intro name after ending
  rcases suffix_append ending with ⟨rest, within, rfl⟩ | within
  · exact breaksOff_append (first name rest within) late
  · exact second name after within

/-- An award that is refused is not written, so none is there that does not break off. -/
theorem allBreakOff_refused (rule : String) : AllBreakOff [.award rule false] := by
  intro name after ending
  simp [List.suffix_cons_iff] at ending

/-- An award breaks off at a retraction that fails after some that went through. -/
theorem allBreakOff_brokenOff (rule : String) (targets : List String) (target : String) :
    AllBreakOff
      (.award rule true :: (targets.map (.retraction · true) ++ [.retraction target false])) := by
  intro name after ending
  rw [List.suffix_cons_iff] at ending
  rcases ending with same | within
  · obtain ⟨_, rfl⟩ := List.cons.inj same
    exact breaksOff_retractions targets target
  · have member := within.subset List.mem_cons_self
    simp at member

/-- An attempt to award a rule that is not settled keeps all retractions accounted for. -/
theorem Accounted.append {settled fresh : List String} {writes block : List Write} {rule : Rule}
    (accounted : Accounted settled writes) (attempted : Attempted rule block fresh)
    (unsettled : rule.name ∉ settled) : Accounted (settled ++ fresh) (writes ++ block) := by
  intro name after ending
  rcases suffix_append ending with ⟨rest, early, rfl⟩ | late
  · rcases accounted name rest early with broken | ⟨member, none⟩
    · exact .inl (breaksOff_append broken block)
    · refine .inr ⟨List.mem_append_left _ member, ?_⟩
      intro done tried
      rcases List.mem_append.mp tried with before | within
      · exact none done before
      · exact unsettled (attempted.awards within ▸ member)
  · rcases attempted.accounted name after late with broken | ⟨member, none⟩
    · exact .inl broken
    · exact .inr ⟨List.mem_append_right _ member, none⟩

end Write

namespace Engine

open Write (Attempted Accounted AllBreakOff RespectRetractions awardedNames awardedNames_append
  breaksOff)

variable {σ : Type} {collaborators : Collaborators σ} {context : Context} {rule : Rule}

/-- Lookups write nothing, so they leave the writes that were kept. -/
theorem watched_moves (collaborators : Collaborators σ) :
    collaborators.watched.lookup.Moves fun before after => after.2 = before.2 where
  refl _ := rfl
  trans early late := late.trans early
  step _ _ _ := rfl

/-- Retractions are written as they are made, up to the first that fails. -/
theorem retractEach_writes {retractions : List (String × Entries)}
    {progress later : Progress (σ × List Write)} {result : Option Failure}
    (made : retractEach collaborators.watched context rule retractions progress =
      (result, later)) :
    later.settled = progress.settled ∧ later.awarded = progress.awarded ∧
      ((result = none ∧ later.state.2 =
          progress.state.2 ++ (retractions.map Prod.fst).map (.retraction · true)) ∨
        (result.isSome = true ∧ ∃ (targets : List String) (target : String), later.state.2 =
          progress.state.2 ++
            (targets.map (.retraction · true) ++ [.retraction target false]))) := by
  induction retractions generalizing progress with
  | nil =>
    cases made
    exact ⟨rfl, rfl, .inl ⟨rfl, by simp⟩⟩
  | cons first rest inductionHypothesis =>
    obtain ⟨target, values⟩ := first
    cases called : collaborators.retractAward context.subject target values progress.state.1 with
    | mk outcome state =>
      have watched : collaborators.watched.retractAward context.subject target values
          progress.state =
          (outcome, state, progress.state.2 ++ [.retraction target outcome.isOk]) := by
        simp [Collaborators.watched, called]
      simp only [retractEach, watched] at made
      cases outcome with
      | error failure =>
        cases made
        exact ⟨rfl, rfl, .inr ⟨rfl, [], target, rfl⟩⟩
      | ok _ =>
        obtain ⟨settled, awarded, written⟩ := inductionHypothesis made
        refine ⟨settled, awarded, ?_⟩
        rcases written with ⟨through, whole⟩ | ⟨failed, targets, last, broken⟩
        · refine .inl ⟨through, ?_⟩
          rw [whole, List.append_assoc]
          rfl
        · refine .inr ⟨failed, target :: targets, last, ?_⟩
          rw [broken, List.append_assoc]
          rfl

/-- Actions write nothing, award nothing and settle nothing. -/
theorem runActions_writes (collaborators : Collaborators σ) (context : Context) (rule : Rule)
    (progress : Progress (σ × List Write)) :
    (runActions collaborators.watched context rule progress).settled = progress.settled ∧
      (runActions collaborators.watched context rule progress).awarded = progress.awarded ∧
      (runActions collaborators.watched context rule progress).state.2 = progress.state.2 := by
  unfold runActions
  split
  · rename_i first rest run given present
    simp only [Collaborators.watched, Option.map_eq_some_iff] at present
    obtain ⟨inner, _, rfl⟩ := present
    split
    · rename_i state called
      simp only [Prod.mk.injEq] at called
      exact ⟨rfl, rfl, by rw [← called.2]⟩
    · rename_i failure state called
      simp only [Prod.mk.injEq] at called
      exact ⟨rfl, rfl, by rw [← called.2]⟩
  · exact ⟨rfl, rfl, rfl⟩

/-- An award makes one of the four rows of writes, reports what it writes and settles nothing
itself. If it fails, then whatever it wrote breaks off.

Proof: by the point at which the award stops. It writes nothing if its scopes do not resolve, one
refused award if that is refused, the award and its retractions up to the first that fails, or all
of them. Running actions writes nothing in the end. -/
theorem award_writes (engine : Engine) (collaborators : Collaborators σ) (context : Context)
    (rule : Rule) (progress : Progress (σ × List Write)) :
    ∃ block result later,
      engine.award collaborators.watched context rule progress = (result, later) ∧
        Attempted rule block (if result.isSome then [rule.name] else rule.replaces) ∧
        (result.isSome = true → AllBreakOff block) ∧
        later.state.2 = progress.state.2 ++ block ∧ later.settled = progress.settled ∧
        later.awarded = progress.awarded ++ awardedNames block := by
  unfold award
  cases resolved : engine.writes context rule with
  | error failure =>
    exact ⟨[], _, _, rfl, .unresolved, fun _ => by simp [AllBreakOff], by simp, rfl,
      by simp [awardedNames]⟩
  | ok both =>
    obtain ⟨values, retractions⟩ := both
    have targets : retractions.map Prod.fst = rule.replaces := by
      obtain ⟨_, _, _, rfl⟩ := (writes_eq_ok_iff engine context rule values retractions).mp resolved
      simp [Function.comp_def]
    cases called : collaborators.recordAward context.subject rule.name values progress.state.1 with
    | mk outcome state =>
      have watched : collaborators.watched.recordAward context.subject rule.name values
          progress.state =
          (outcome, state, progress.state.2 ++ [.award rule.name outcome.isOk]) := by
        simp [Collaborators.watched, called]
      simp only [watched]
      cases outcome with
      | error failure =>
        exact ⟨_, _, _, rfl, .refused, fun _ => Write.allBreakOff_refused rule.name, rfl, rfl,
          by simp [awardedNames]⟩
      | ok fact =>
        dsimp only
        split
        · rename_i failure last made
          obtain ⟨settled, awarded, ⟨through, _⟩ | ⟨_, done, target, written⟩⟩ :=
            retractEach_writes made
          · contradiction
          · refine ⟨_, _, _, rfl, .brokenOff done target,
              fun _ => Write.allBreakOff_brokenOff rule.name done target, ?_, settled, ?_⟩
            · rw [written, List.append_assoc]
              rfl
            · rw [awarded, awardedNames, Write.awardedNames_retractions]
              rfl
        · rename_i last made
          obtain ⟨settled, awarded, ⟨_, written⟩ | ⟨failed, _⟩⟩ := retractEach_writes made
          · obtain ⟨settledAlso, awardedAlso, writtenAlso⟩ :=
              runActions_writes collaborators context rule last
            refine ⟨_, _, _, rfl, .wentThrough, nofun, ?_, settledAlso.trans settled, ?_⟩
            · rw [writtenAlso, written, targets, List.append_assoc]
              rfl
            · rw [awardedAlso, awarded, awardedNames,
                ← List.append_nil (rule.replaces.map (Write.retraction · true)),
                Write.awardedNames_retractions]
              rfl
          · contradiction

/-- An attempt makes one of the four rows of writes, reports what it writes and settles
accordingly. If it fails, then whatever it wrote breaks off. -/
theorem attempt_writes (engine : Engine) (collaborators : Collaborators σ) (context : Context)
    (rule : Rule) (progress : Progress (σ × List Write)) :
    ∃ block fresh, Attempted rule block fresh ∧
      ((engine.attempt collaborators.watched context rule progress).1.isSome = true →
        AllBreakOff block) ∧
      (engine.attempt collaborators.watched context rule progress).2.state.2 =
        progress.state.2 ++ block ∧
      (engine.attempt collaborators.watched context rule progress).2.settled =
        progress.settled ++ fresh ∧
      (engine.attempt collaborators.watched context rule progress).2.awarded =
        progress.awarded ++ awardedNames block := by
  obtain ⟨block, result, later, made, attempted, broken, written, settled, awarded⟩ :=
    award_writes engine collaborators context rule progress
  unfold attempt
  rw [made]
  cases result with
  | some failure =>
    exact ⟨block, [rule.name], attempted, broken, written, congrArg (· ++ _) settled, awarded⟩
  | none =>
    exact ⟨block, rule.replaces, attempted, nofun, written, congrArg (· ++ _) settled, awarded⟩

/-- In every cycle each retraction is of a rule that is settled and tried no more, or of one
retracted by an award that broke off. -/
theorem process_accounted (engine : Engine) (collaborators : Collaborators σ) (context : Context)
    (candidates : List Rule) (state : σ) :
    Accounted (engine.process collaborators.watched context candidates (state, [])).2.settled
      (engine.process collaborators.watched context candidates (state, [])).2.state.2 := by
  let holds (progress : Progress (σ × List Write)) : Prop :=
    Accounted progress.settled progress.state.2
  refine process_induction (I := holds) (fun progress kept => ?_) (fun _ _ _ => id)
    (by simp [holds, Accounted, Progress.start])
  have unwritten : ∀ progress : Progress (σ × List Write),
      (engine.checks collaborators.watched context candidates progress).2.2.state.2 =
        progress.state.2 :=
    fun progress => checks_moves (watched_moves collaborators)
  have checked : ∀ progress, holds progress →
      holds (engine.checks collaborators.watched context candidates progress).2.2 := by
    intro progress kept
    change Accounted progress.settled _
    rw [unwritten progress]
    exact kept
  refine pass_induction (I := holds) (P := fun _ => holds) checked
    (fun progress kept _ => checked progress kept) (fun _ _ _ => id) ?_ (fun _ _ => id) kept
  intro rule _ _ progress _ unsettled kept
  obtain ⟨block, fresh, attempted, _, written, settled, _⟩ :=
    attempt_writes engine collaborators context rule progress
  change Accounted _ _
  rw [written, settled]
  exact Accounted.append kept attempted unsettled

/-- A cycle in which no retraction fails respects retractions, whichever awards fail. -/
theorem respectRetractions_of_done (engine : Engine) (collaborators : Collaborators σ)
    (context : Context) (candidates : List Rule) (state : σ)
    (done : ∀ name, .retraction name false ∉
      (engine.process collaborators.watched context candidates (state, [])).2.state.2) :
    RespectRetractions
      (engine.process collaborators.watched context candidates (state, [])).2.state.2 := by
  intro name after ending
  rcases process_accounted engine collaborators context candidates state name after ending with
    broken | ⟨_, none⟩
  · obtain ⟨other, member⟩ := Write.failed_of_breaksOff broken
    exact absurd (ending.subset (List.mem_cons_of_mem _ member)) (done other)
  · exact none

/-- A cycle respects retractions exactly when it does so after awards that broke off: no other
retraction is ever followed by an award of the same rule. -/
theorem respectRetractions_iff (engine : Engine) (collaborators : Collaborators σ)
    (context : Context) (candidates : List Rule) (state : σ) :
    let writes := (engine.process collaborators.watched context candidates (state, [])).2.state.2
    RespectRetractions writes ↔
      ∀ name after, .retraction name true :: after <:+ writes → breaksOff after = true →
        ∀ done, .award name done ∉ after := by
  intro writes
  have accounted : Accounted _ writes :=
    process_accounted engine collaborators context candidates state
  constructor
  · exact fun respected name after ending _ => respected name after ending
  · intro afterBroken name after ending
    rcases accounted name after ending with broken | ⟨_, none⟩
    · exact afterBroken name after ending broken
    · exact none

/-- A document whose first rule replaces the other two. -/
def replacingDocument : Value :=
  .mapping [(.text "achievements", .mapping [
    (.text "New", .mapping [(.text "replaces", .list [.text "A", .text "B"])]),
    (.text "A", .mapping []), (.text "B", .mapping [])])]

/-- The catalogue of the three rules. -/
def replacingCatalogue : Catalogue :=
  ⟨[⟨"New", .allOf [], ["A", "B"], 1, ["user_id"], [], false⟩,
    ⟨"A", .allOf [], [], 1, ["user_id"], [], false⟩,
    ⟨"B", .allOf [], [], 1, ["user_id"], [], false⟩]⟩

/-- Stores in which the first retraction of the third rule fails. -/
def faultyStores : Stores :=
  { Stores.of [] [] [] with
    faults := [⟨.retraction, .text "B", .fail 1 (.diagnosed (.query "remote" "boom" []))⟩] }

/-- When the second of two retractions fails, the rule retracted first is awarded after all. -/
theorem retraction_undone :
    Catalogue.load .strict replacingDocument = .ok ⟨replacingCatalogue, []⟩ ∧
      ¬ RespectRetractions ((Engine.mk replacingCatalogue 10 none none).process
        (Stores.collaborators true).watched (Context.of (.text "u") [] defaultScope)
        (replacingCatalogue.rules.take 2) (faultyStores, [])).2.state.2 := by
  refine ⟨rfl, ?_⟩
  have written : ((Engine.mk replacingCatalogue 10 none none).process
      (Stores.collaborators true).watched (Context.of (.text "u") [] defaultScope)
      (replacingCatalogue.rules.take 2) (faultyStores, [])).2.state.2 =
      [.award "New" true, .retraction "A" true, .retraction "B" false, .award "A" true] := by
    decide +kernel
  rw [written]
  intro respected
  exact respected "A" [.retraction "B" false, .award "A" true] ⟨[.award "New" true], rfl⟩ true
    (by decide)

end Engine

end Accolade
