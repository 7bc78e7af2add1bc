import Accolade.Proofs.Catalogue.Loader
import Accolade.Proofs.Cycle.Calm

/-!
# What each pass awards

Over calm stores the awards of a cycle are told by what the stores held at the start of each
pass, and by the awards before. A pass awards, in candidate order, exactly the rules that are
due at its start, whose replaced rules can all be retracted in the context, and that no award
of the cycle so far replaces, be it of an earlier pass or of the same one. A further pass
follows exactly when a pass awarded something and the limit is not reached.

What makes this so is the meaning of the settled names. Every rule replaced by an award is
settled, and a rule is settled for no other reason than that or a scope that does not resolve.

Where a threshold for events cannot be written, a failure may leave the checks of a pass. Then the
pass makes no awards, and it is the last one.
-/

namespace Accolade

/-- Whether one rule stands somewhere before another in a list. -/
def Precedes (rules : List Rule) (first second : Rule) : Prop := [first, second].Sublist rules

/-- Whether awards are those of the wanted rules in a list, in order, except the rules that are
replaced by an award made earlier or by one of these that comes before. -/
structure Selected (rules : List Rule) (wanted : Rule → Prop) (earlier awards : List Rule) :
    Prop where
  ordered : awards.Sublist rules
  exactly : ∀ rule ∈ rules, rule ∈ awards ↔ wanted rule ∧
    ∀ other, other ∈ earlier ∨ other ∈ awards ∧ Precedes rules other rule →
      rule.name ∉ other.replaces

namespace Selected

variable {rules : List Rule} {wanted : Rule → Prop} {earlier awards : List Rule} {rule : Rule}

/-- Nothing stands before the first rule of a list that holds no rule twice. -/
theorem not_precedes_head (absent : rule ∉ rules) (other : Rule) :
    ¬ Precedes (rule :: rules) other rule := by
  intro before
  cases before with
  | cons _ deeper => exact absent (deeper.subset (by simp))
  | cons_cons _ deeper => exact absent (deeper.subset (by simp))

/-- Of other rules, those behind the first stand as they stood without it. -/
theorem precedes_cons_iff {other : Rule} (different : other ≠ rule) (second : Rule) :
    Precedes (rule :: rules) other second ↔ Precedes rules other second := by
  constructor
  · intro before
    cases before with
    | cons _ deeper => exact deeper
    | cons_cons _ _ => contradiction
  · exact fun before => before.cons rule

/-- Awards of the rules in a list are not of a rule that is not in it. -/
theorem apart (selected : Selected rules wanted earlier awards) (absent : rule ∉ rules) :
    ∀ other ∈ awards, other ≠ rule := by
  rintro other member rfl
  exact absent (selected.ordered.subset member)

/-- A rule that is not wanted, or that an earlier award replaces, is not selected. -/
theorem skip (selected : Selected rules wanted earlier awards) (absent : rule ∉ rules)
    (refused : wanted rule → ∃ other ∈ earlier, rule.name ∈ other.replaces) :
    Selected (rule :: rules) wanted earlier awards where
  ordered := selected.ordered.cons rule
  exactly := by
    intro other member
    rcases List.mem_cons.mp member with rfl | behind
    · constructor
      · exact fun inside => absurd rfl (selected.apart absent _ inside)
      · rintro ⟨fit, free⟩
        obtain ⟨former, made, replaced⟩ := refused fit
        exact absurd replaced (free former (.inl made))
    · rw [selected.exactly other behind]
      refine and_congr_right fun _ => forall_congr' fun former => imp_congr ?_ Iff.rfl
      refine or_congr Iff.rfl (and_congr_right fun inside => ?_)
      exact (precedes_cons_iff (selected.apart absent former inside) other).symm

/-- A wanted rule that no earlier award replaces is selected, and counts for those behind. -/
theorem take (selected : Selected rules wanted (earlier ++ [rule]) awards) (absent : rule ∉ rules)
    (fit : wanted rule) (free : ∀ other ∈ earlier, rule.name ∉ other.replaces) :
    Selected (rule :: rules) wanted earlier (rule :: awards) where
  ordered := selected.ordered.cons_cons rule
  exactly := by
    intro other member
    rcases List.mem_cons.mp member with rfl | behind
    · simp only [List.mem_cons, true_or, true_iff]
      refine ⟨fit, ?_⟩
      rintro former (made | ⟨_, before⟩)
      · exact free former made
      · exact absurd before (not_precedes_head absent former)
    · have different : other ≠ rule := by
        rintro rfl
        exact absent behind
      have leads : Precedes (rule :: rules) rule other :=
        List.Sublist.cons_cons rule (List.singleton_sublist.mpr behind)
      simp only [List.mem_cons, different, false_or]
      rw [selected.exactly other behind]
      refine and_congr_right fun _ => forall_congr' fun former => imp_congr ?_ Iff.rfl
      simp only [List.mem_append, List.mem_singleton]
      constructor
      · rintro ((made | rfl) | ⟨inside, before⟩)
        · exact .inl made
        · exact .inr ⟨.inl rfl, leads⟩
        · exact .inr ⟨.inr inside,
            (precedes_cons_iff (selected.apart absent former inside) other).mpr before⟩
      · rintro (made | ⟨rfl | inside, before⟩)
        · exact .inl (.inl made)
        · exact .inl (.inr rfl)
        · exact .inr ⟨inside,
            (precedes_cons_iff (selected.apart absent former inside) other).mp before⟩

/-- Rules that are not wanted, or that earlier awards replace, may be left out beforehand. -/
theorem unfilter {keep : Rule → Bool}
    (selected : Selected (rules.filter keep) wanted earlier awards)
    (refused : ∀ rule ∈ rules, keep rule = false → wanted rule →
      ∃ other ∈ earlier, rule.name ∈ other.replaces) :
    Selected rules wanted earlier awards where
  ordered := selected.ordered.trans List.filter_sublist
  exactly := by
    intro rule member
    cases kept : keep rule with
    | false =>
      constructor
      · intro inside
        have passed := (List.mem_filter.mp (selected.ordered.subset inside)).2
        rw [kept] at passed
        contradiction
      · rintro ⟨fit, free⟩
        obtain ⟨former, made, replaced⟩ := refused rule member kept fit
        exact absurd replaced (free former (.inl made))
    | true =>
      rw [selected.exactly rule (List.mem_filter.mpr ⟨member, kept⟩)]
      refine and_congr_right fun _ => forall_congr' fun former => imp_congr ?_ Iff.rfl
      refine or_congr Iff.rfl (and_congr_right fun inside => ?_)
      have formerKept := (List.mem_filter.mp (selected.ordered.subset inside)).2
      constructor
      · exact fun before => before.trans List.filter_sublist
      · intro before
        have filtered := before.filter keep
        simpa [Precedes, formerKept, kept] using filtered

/-- Which awards are selected depends on what is wanted of the rules in the list, and on no other
rules. -/
theorem congr {others : Rule → Prop} (selected : Selected rules wanted earlier awards)
    (same : ∀ rule ∈ rules, wanted rule ↔ others rule) : Selected rules others earlier awards where
  ordered := selected.ordered
  exactly rule member := by
    rw [selected.exactly rule member, same rule member]

end Selected

namespace Engine

/-- Whether all rules in force that a rule replaces have their scope keys among the attributes. -/
def TargetsResolve (engine : Engine) (context : Context) (rule : Rule) : Prop :=
  ∀ other ∈ engine.catalogue.rules, other.name ∈ rule.replaces →
    (context.forScope other.scope).Resolves

/-- Whether awards are exactly those of a pass that begins on some stores after earlier awards
of the same cycle. -/
def AwardsOfPass (engine : Engine) (context : Context) (candidates : List Rule) (stores : Stores)
    (earlier awards : List Rule) : Prop :=
  Selected candidates
    (fun rule => rule.IsDue Stores.lookup context stores ∧ engine.TargetsResolve context rule)
    earlier awards

/-- The progress of a cycle after so many passes, whatever ends it. -/
def after {σ : Type} (engine : Engine) (collaborators : Collaborators σ) (context : Context)
    (candidates : List Rule) (state : σ) : Nat → Progress σ
  | 0 => Progress.start state engine.startsExpired
  | count + 1 =>
    (engine.pass collaborators context candidates
      (after engine collaborators context candidates state count)).2

/-- The progress of a cycle before the last pass that it makes. -/
def beforeLast {σ : Type} (engine : Engine) (collaborators : Collaborators σ) (context : Context)
    (candidates : List Rule) (state : σ) : Progress σ :=
  engine.after collaborators context candidates state
    ((engine.process collaborators context candidates state).2.passes - 1)

/-- What the settled names are: the rules that awards replaced, and beside them only rules that
replace some rule which cannot be retracted in the context. -/
structure Settles (engine : Engine) (context : Context) (settled : List String)
    (earlier : List Rule) : Prop where
  replaced : ∀ other ∈ earlier, ∀ target ∈ other.replaces, target ∈ settled
  reason : ∀ rule ∈ engine.catalogue.rules, rule.name ∈ settled →
    engine.TargetsResolve context rule → ∃ other ∈ earlier, rule.name ∈ other.replaces

variable {engine : Engine} (runs : Bool) {context : Context}

/-- The scopes of all writes of an award resolve when its own does and those of the rules in force
that it replaces. -/
theorem writesResolve_iff_targets (distinct : engine.catalogue.names.Nodup) {rule : Rule} :
    engine.WritesResolve context rule ↔
      (context.forScope rule.scope).Resolves ∧ engine.TargetsResolve context rule := by
  refine and_congr_right fun own => ⟨?_, ?_⟩
  · intro targets other member replaced
    exact retractionScope_of_mem distinct member rule ▸ targets other.name replaced
  · intro targets target replaced
    unfold retractionScope
    cases found : engine.catalogue.find? target with
    | none => exact own
    | some other =>
      have named : other.name = target := by simpa using List.find?_some found
      exact targets other (List.mem_of_find?_eq_some found) (named ▸ replaced)

/-- The scope of a rule that is due resolves, since its total was looked up within that scope. -/
theorem resolves_of_due {stores : Stores} {rule : Rule}
    (due : rule.IsDue Stores.lookup context stores) : (context.forScope rule.scope).Resolves := by
  obtain ⟨_, total, told, _⟩ := due
  exact resolves_of_awardedAmount told

/-- For a rule that is due, only the rules that it replaces matter. -/
theorem writesResolve_iff (distinct : engine.catalogue.names.Nodup) {stores : Stores} {rule : Rule}
    (due : rule.IsDue Stores.lookup context stores) :
    engine.WritesResolve context rule ↔ engine.TargetsResolve context rule := by
  rw [writesResolve_iff_targets distinct, and_iff_right (resolves_of_due due)]

/-- What is known of a cycle over calm stores between two attempts, after some awards. -/
structure Standing (engine : Engine) (context : Context) (progress : Progress Stores)
    (earlier : List Rule) : Prop where
  calm : progress.state.IsCalm
  expired : progress.expired = false
  awarded : progress.awarded = earlier.map (·.name)
  retracted : progress.retracted = earlier.flatMap (·.replaces)
  settles : Settles engine context progress.settled earlier

/-- An attempt goes through and adds an award, or some scope of its writes does not resolve.
Either way the settled names keep their meaning. -/
theorem Standing.attempt {progress later : Progress Stores} {earlier : List Rule} {rule : Rule}
    {error : Option Diagnosis} (standing : Standing engine context progress earlier)
    (distinct : engine.catalogue.names.Nodup) (known : rule ∈ engine.catalogue.rules)
    (own : (context.forScope rule.scope).Resolves)
    (tried : Tried engine context rule progress error later) :
    (error.isSome = true ∧ ¬ engine.WritesResolve context rule ∧
        Standing engine context later earlier) ∨
      (error = none ∧ engine.WritesResolve context rule ∧
        Standing engine context later (earlier ++ [rule])) := by
  have calm := tried.calm standing.calm
  obtain ⟨replaced, reason⟩ := standing.settles
  cases tried with
  | unresolved unresolved error happenings =>
    refine .inl ⟨rfl, unresolved, calm, standing.expired, standing.awarded, standing.retracted, ?_,
      ?_⟩
    · exact fun other made target inside =>
        List.mem_append_left _ (replaced other made target inside)
    · intro other member named resolves
      rcases List.mem_append.mp named with before | fresh
      · exact reason other member before resolves
      · have same : other = rule :=
          Catalogue.eq_of_name distinct member known (List.mem_singleton.mp fresh)
        exact absurd ((writesResolve_iff_targets distinct).mpr ⟨own, same ▸ resolves⟩) unresolved
  | wentThrough resolved =>
    refine .inr ⟨rfl, resolved, calm, standing.expired, by simp [standing.awarded],
      by simp [standing.retracted], ?_, ?_⟩
    · intro other made target inside
      rcases List.mem_append.mp made with before | own
      · exact List.mem_append_left _ (replaced other before target inside)
      · rw [List.mem_singleton.mp own] at inside
        exact List.mem_append_right _ inside
    · intro other member named resolves
      rcases List.mem_append.mp named with before | fresh
      · obtain ⟨former, made, inside⟩ := reason other member before resolves
        exact ⟨former, List.mem_append_left _ made, inside⟩
      · exact ⟨rule, List.mem_append_right _ (List.mem_singleton.mpr rfl), fresh⟩

/-- Awarding the outcomes of rules selects those to be awarded whose writes resolve.

Proof: induction on the rules. One that is passed over is not to be awarded, or it is settled: then
an earlier award replaced it, or its writes do not resolve. An attempt on any other either fails
because its writes do not resolve, or selects the rule and settles what it replaces. -/
theorem awardEach_calm (distinct : engine.catalogue.names.Nodup) (outcomeOf : Rule → Outcome)
    {rules : List Rule} (once : rules.Nodup) (known : ∀ rule ∈ rules, rule ∈ engine.catalogue.rules)
    (own : ∀ rule, (outcomeOf rule).shouldAward = true → (context.forScope rule.scope).Resolves)
    {progress : Progress Stores} {earlier : List Rule}
    (standing : Standing engine context progress earlier) :
    ∃ awards outcomes later,
      engine.awardEach (Stores.collaborators runs) context
        (rules.map fun rule => (rule, outcomeOf rule)) progress =
        (outcomes, awards.length, later) ∧
      Selected rules
        (fun rule => (outcomeOf rule).shouldAward = true ∧ engine.WritesResolve context rule)
        earlier awards ∧
      Standing engine context later (earlier ++ awards) ∧ later.passes = progress.passes := by
  induction rules generalizing progress earlier with
  | nil =>
    refine ⟨[], [], progress, rfl, ⟨.slnil, by simp⟩, ?_, rfl⟩
    rw [List.append_nil]
    exact standing
  | cons rule rest inductionHypothesis =>
    obtain ⟨absent, restOnce⟩ := List.nodup_cons.mp once
    obtain ⟨member, restKnown⟩ := List.forall_mem_cons.mp known
    by_cases passedOver :
        (!(outcomeOf rule).shouldAward || progress.settled.contains rule.name) = true
    · obtain ⟨awards, outcomes, later, made, selected, stands, passes⟩ :=
        inductionHypothesis restOnce restKnown standing
      refine ⟨awards, outcomeOf rule :: outcomes, later, ?_, selected.skip absent ?_, stands,
        passes⟩
      · simp only [List.map_cons, awardEach, passedOver, if_true, made]
      · rintro ⟨chosen, resolves⟩
        rw [chosen, Bool.not_true, Bool.false_or, List.contains_iff_mem] at passedOver
        exact standing.settles.reason rule member passedOver
          ((writesResolve_iff_targets distinct).mp resolves).2
    · obtain ⟨error, next, attempted, tried⟩ := attempt_calm runs context rule engine standing.calm
      obtain ⟨chosen, unsettled⟩ : (outcomeOf rule).shouldAward = true ∧
          rule.name ∉ progress.settled := by
        simpa [List.contains_iff_mem] using passedOver
      rcases standing.attempt distinct member (own rule chosen) tried with
        ⟨failed, unresolved, nextStanding⟩ | ⟨rfl, resolved, nextStanding⟩
      · obtain ⟨diagnosis, rfl⟩ := Option.isSome_iff_exists.mp failed
        obtain ⟨awards, outcomes, later, made, selected, stands, passes⟩ :=
          inductionHypothesis restOnce restKnown nextStanding
        refine ⟨awards, { outcomeOf rule with error := some diagnosis } :: outcomes, later, ?_,
          selected.skip absent fun wanted => absurd wanted.2 unresolved, stands,
          passes.trans tried.frame.2.2.2⟩
        simp only [List.map_cons, awardEach, passedOver, Bool.false_eq_true, if_false, attempted,
          made]
      · have free : ∀ other ∈ earlier, rule.name ∉ other.replaces :=
          fun other before replaced =>
            unsettled (standing.settles.replaced other before rule.name replaced)
        obtain ⟨awards, outcomes, later, made, selected, stands, passes⟩ :=
          inductionHypothesis restOnce restKnown nextStanding
        refine ⟨rule :: awards, outcomeOf rule :: outcomes, later, ?_,
          selected.take absent ⟨chosen, resolved⟩ free, by simpa using stands,
          passes.trans tried.frame.2.2.2⟩
        simp only [List.map_cons, awardEach, passedOver, Bool.false_eq_true, if_false, attempted,
          made, List.length_cons]

/-- A pass over calm stores makes exactly the awards that it should, or it is left by a failure
before it makes any, because the evaluation of some candidate is left.

Proof: the checks find the rules that are due, and awarding them selects those whose writes resolve.
Rules that were settled before are not checked at all, but the earlier awards replaced them or their
writes do not resolve, so no selection would have them either. -/
theorem pass_calm (distinct : engine.catalogue.names.Nodup) {candidates : List Rule}
    (once : candidates.Nodup) (known : ∀ rule ∈ candidates, rule ∈ engine.catalogue.rules)
    (texts : AreTexts (Entries.keys context.attributes)) {progress : Progress Stores}
    {earlier : List Rule} (standing : Standing engine context progress earlier) :
    (∃ awards later, engine.pass (Stores.collaborators runs) context candidates progress =
        (.ok awards.length, later) ∧
      engine.AwardsOfPass context candidates progress.state earlier awards ∧
      Standing engine context later (earlier ++ awards) ∧ later.passes = progress.passes + 1) ∨
    ∃ later, engine.pass (Stores.collaborators runs) context candidates progress =
        (.error .tooLongToWrite, later) ∧
      (∃ rule ∈ candidates, rule.Overruns Stores.lookup context progress.state) ∧
      Standing engine context later earlier ∧ later.state = progress.state ∧
      later.passes = progress.passes + 1 := by
  have checkedStanding : ∀ happenings, Standing engine context
      { progress with
        passes := progress.passes + 1
        happenings := happenings } earlier := fun happenings =>
    ⟨standing.calm, standing.expired, standing.awarded, standing.retracted, standing.settles⟩
  rcases @checks_of_calm Stores (Stores.collaborators runs) context candidates progress engine
    standing.calm.lookup texts with ⟨outcomeOf, happenings, due, _, checked⟩ |
      ⟨items, happenings, ⟨rule, member, overruns⟩, checked⟩
  · left
    have some : (eligible candidates progress).Sublist candidates := List.filter_sublist
    obtain ⟨awards, outcomes, later, made, selected, stands, passes⟩ :=
      awardEach_calm runs distinct outcomeOf (some.nodup once)
        (fun rule member => known rule (some.subset member))
        (fun rule chosen => resolves_of_due ((due rule).mp chosen)) (checkedStanding happenings)
    refine ⟨awards, { later with outcomes := later.outcomes ++ outcomes }, ?_, ?_, ?_, passes⟩
    · simp only [pass, checked, made]
    · refine (selected.unfilter ?_).congr fun rule member => ?_
      · intro rule member settled wanted
        have named : rule.name ∈ progress.settled := by simpa [List.contains_iff_mem] using settled
        exact standing.settles.reason rule (known rule member) named
          ((writesResolve_iff_targets distinct).mp wanted.2).2
      · rw [due rule]
        exact and_congr_right fun isDue => writesResolve_iff distinct isDue
    · exact ⟨stands.calm, stands.expired, stands.awarded, stands.retracted, stands.settles⟩
  · right
    refine ⟨_, ?_, ⟨rule, (List.mem_filter.mp member).1, overruns⟩, checkedStanding happenings, rfl,
      rfl⟩
    simp only [pass, checked]

/-- Whether steps, numbered from one that may be made and at most so many, end before a number
because each but the last lets the next one follow. -/
structure EndsAt (goesOn : Nat → Prop) (begun left ended : Nat) : Prop where
  least : begun ≤ ended
  most : ended ≤ begun + left
  moves : 0 < left → begun < ended
  stops : ∀ count, begun ≤ count → count < ended →
    (count + 1 < ended ↔ goesOn count ∧ count + 1 < begun + left)

/-- There is only one number at which steps end, the first at which they do not go on. -/
theorem EndsAt.unique {goesOn : Nat → Prop} {begun left ended other : Nat}
    (ends : EndsAt goesOn begun left ended) (endsToo : EndsAt goesOn begun left other) :
    ended = other := by
  have notBefore : ∀ {early late : Nat}, EndsAt goesOn begun left early →
      EndsAt goesOn begun left late → ¬ early < late := by
    intro early late one two before
    have most := two.most
    have moved := one.moves (by have := one.least; omega)
    have last := (one.stops (early - 1) (by omega) (by omega)).mpr
      ((two.stops (early - 1) (by omega) (by omega)).mp (by omega))
    omega
  exact Nat.le_antisymm (Nat.le_of_not_lt (notBefore endsToo ends))
    (Nat.le_of_not_lt (notBefore ends endsToo))

/-- What lets the next step follow may be told in other words without moving the end. -/
theorem EndsAt.congr {goesOn further : Nat → Prop} {begun left ended : Nat}
    (ends : EndsAt goesOn begun left ended) (same : ∀ count, further count ↔ goesOn count) :
    EndsAt further begun left ended :=
  ⟨ends.least, ends.most, ends.moves, fun count atLeast below => by
    rw [ends.stops count atLeast below, same count]⟩

section Passes

variable {σ : Type} (engine : Engine) (collaborators : Collaborators σ) (context : Context)
  (candidates : List Rule) (state : σ)

/-- A pass counts itself, whether or not a failure leaves it. -/
theorem pass_passes (progress : Progress σ) :
    (engine.pass collaborators context candidates progress).2.passes = progress.passes + 1 := by
  unfold pass
  split
  · rename_i failure items later checked
    exact congrArg (fun result => result.2.2.passes) checked.symm
  · rename_i items later checked
    exact (awardEach_frame items later).2.trans
      (congrArg (fun result => result.2.2.passes) checked.symm)

/-- The progress after some passes has counted as many. -/
theorem after_passes (count : Nat) :
    (engine.after collaborators context candidates state count).passes = count := by
  induction count with
  | zero => rfl
  | succ count inductionHypothesis =>
    exact (pass_passes engine collaborators context candidates _).trans
      (congrArg (· + 1) inductionHypothesis)

variable {engine collaborators context candidates state} in
/-- A cycle that comes to the progress after a pass had that of the passes before. -/
theorem beforeLast_eq {last : Nat} {happenings : List Happening}
    (ended : (engine.process collaborators context candidates state).2 =
      { engine.after collaborators context candidates state (last + 1) with
        happenings := happenings }) :
    engine.beforeLast collaborators context candidates state =
      engine.after collaborators context candidates state last := by
  unfold beforeLast
  rw [ended]
  exact congrArg (engine.after collaborators context candidates state)
    (congrArg (· - 1) (after_passes engine collaborators context candidates state (last + 1)))

/-- Whether a pass, counted from zero, lets another one follow: no failure leaves it, and it awards
something. -/
def Proceeds (count : Nat) : Prop :=
  ∃ number, (engine.pass collaborators context candidates
    (engine.after collaborators context candidates state count)).1 = .ok (number + 1)

/-- The failure that leaves the last of so many passes, if one does. -/
def brokenBy : Nat → Option Failure
  | 0 => none
  | count + 1 =>
    match (engine.pass collaborators context candidates
      (engine.after collaborators context candidates state count)).1 with
    | .error failure => some failure
    | .ok _ => none

variable {engine collaborators context candidates state} in
/-- No failure leaves a pass that lets another one follow. -/
theorem Proceeds.brokenBy_eq_none {count : Nat}
    (proceeds : engine.Proceeds collaborators context candidates state count) :
    engine.brokenBy collaborators context candidates state (count + 1) = none := by
  obtain ⟨number, counted⟩ := proceeds
  simp only [brokenBy, counted]

/-- Passes that the deadline does not stop go on until one awards nothing, a failure leaves one, or
the limit is reached.

Proof: induction on the passes left. A pass that lets another one follow leaves the rest to the
hypothesis; any other is where the passes end. -/
theorem passes_after
    (inTime : ∀ count, (engine.after collaborators context candidates state count).expired = false)
    (left begun : Nat)
    (whole : engine.brokenBy collaborators context candidates state begun = none) :
    ∃ ended,
      EndsAt (engine.Proceeds collaborators context candidates state) begun left ended ∧
      ∃ happenings, engine.passes collaborators context candidates left
          (engine.after collaborators context candidates state begun) =
        (engine.brokenBy collaborators context candidates state ended,
          { engine.after collaborators context candidates state ended with
            happenings := happenings }) := by
  induction left generalizing begun with
  | zero =>
    refine ⟨begun, ⟨Nat.le_refl _, Nat.le_refl _, by simp, by omega⟩, ?_⟩
    rw [whole]
    exact ⟨_, rfl⟩
  | succ left inductionHypothesis =>
    have next : (engine.pass collaborators context candidates
        (engine.after collaborators context candidates state begun)).2 =
        engine.after collaborators context candidates state (begun + 1) := rfl
    have stopped : ¬ engine.Proceeds collaborators context candidates state begun →
        EndsAt (engine.Proceeds collaborators context candidates state) begun (left + 1)
          (begun + 1) := by
      intro halts
      refine ⟨by omega, by omega, by omega, fun count atLeast below => ?_⟩
      have same : count = begun := by omega
      subst same
      exact iff_of_false (by omega) fun both => halts both.1
    rcases passed : engine.pass collaborators context candidates
      (engine.after collaborators context candidates state begun) with ⟨outcome, later⟩
    rw [passed] at next
    obtain rfl : later = _ := next
    match outcome, passed with
    | .error failure, passed =>
      refine ⟨begun + 1, stopped ?_,
        (engine.after collaborators context candidates state (begun + 1)).happenings, ?_⟩
      · rintro ⟨number, counted⟩
        rw [passed] at counted
        contradiction
      · simp only [passes, inTime begun, Bool.false_eq_true, if_false, passed, brokenBy]
    | .ok 0, passed =>
      refine ⟨begun + 1, stopped ?_,
        (engine.after collaborators context candidates state (begun + 1)).happenings, ?_⟩
      · rintro ⟨number, counted⟩
        rw [passed] at counted
        cases counted
      · simp only [passes, inTime begun, Bool.false_eq_true, if_false, passed, brokenBy]
    | .ok (number + 1), passed =>
      obtain ⟨ended, ⟨later, bounded, further, stops⟩, ran⟩ :=
        inductionHypothesis (begun + 1) (by simp only [brokenBy, passed])
      refine ⟨ended, ⟨by omega, by omega, by omega, ?_⟩, ?_⟩
      · intro count atLeast below
        by_cases first : count = begun
        · subst first
          have proceeds : engine.Proceeds collaborators context candidates state count :=
            ⟨number, by rw [passed]⟩
          rw [and_iff_right proceeds]
          omega
        · rw [stops count (by omega) below]
          refine and_congr_right fun _ => ?_
          omega
      · simp only [passes, inTime begun, Bool.false_eq_true, if_false, passed]
        exact ran

/-- A whole cycle that the deadline does not stop comes to the progress after some passes. -/
theorem process_after
    (inTime : ∀ count,
      (engine.after collaborators context candidates state count).expired = false) :
    ∃ ended,
      EndsAt (engine.Proceeds collaborators context candidates state) 0 engine.maxPasses ended ∧
      ∃ happenings, engine.process collaborators context candidates state =
        (engine.brokenBy collaborators context candidates state ended,
          { engine.after collaborators context candidates state ended with
            happenings := happenings }) := by
  obtain ⟨ended, ends, happenings, ran⟩ := passes_after engine collaborators context candidates
    state inTime engine.maxPasses 0 rfl
  have whole : engine.passes collaborators context candidates engine.maxPasses
      (Progress.start state engine.startsExpired) = _ := ran
  refine ⟨ended, ends, ?_⟩
  unfold process
  rw [whole]
  cases engine.brokenBy collaborators context candidates state ended with
  | none => exact ⟨_, rfl⟩
  | some failure => exact ⟨_, rfl⟩

end Passes

/-- Whether a pass of a cycle, counted from zero, makes exactly these awards after earlier ones. -/
structure Makes (engine : Engine) (collaborators : Collaborators Stores) (context : Context)
    (candidates : List Rule) (stores : Stores) (count : Nat) (earlier awards : List Rule) :
    Prop where
  selected : engine.AwardsOfPass context candidates
    (engine.after collaborators context candidates stores count).state earlier awards
  awarded : (engine.after collaborators context candidates stores (count + 1)).awarded =
    (engine.after collaborators context candidates stores count).awarded ++ awards.map (·.name)

/-- Whether a cycle runs in rounds of awards, one for each pass that is made. It comes to its end
after the last round; where some candidate is not brief, it may be left by a failure in the checks
of one more pass, which changes nothing. -/
structure RunsInRounds (engine : Engine) (collaborators : Collaborators Stores)
    (context : Context) (candidates : List Rule) (stores : Stores) (rounds : List (List Rule)) :
    Prop where
  begins : 0 < (engine.process collaborators context candidates stores).2.passes
  ends : (engine.process collaborators context candidates stores).1 = none ∧
      (engine.process collaborators context candidates stores).2.passes = rounds.length ∨
    (engine.process collaborators context candidates stores).1 = some .tooLongToWrite ∧
      (engine.process collaborators context candidates stores).2.passes = rounds.length + 1 ∧
      ∃ rule ∈ candidates, ¬ rule.IsBrief context
  state : (engine.process collaborators context candidates stores).2.state =
    (engine.after collaborators context candidates stores rounds.length).state
  awarded : (engine.process collaborators context candidates stores).2.awarded =
    rounds.flatten.map (·.name)
  makes : ∀ count (made : count < rounds.length),
    engine.Makes collaborators context candidates stores count (rounds.take count).flatten
      rounds[count]
  continues : ∀ count (made : count < rounds.length),
    count + 1 < (engine.process collaborators context candidates stores).2.passes ↔
      rounds[count] ≠ [] ∧ count + 1 < engine.maxPasses

section Rounds

variable (distinct : engine.catalogue.names.Nodup) {candidates : List Rule}
  (once : candidates.Nodup) (known : ∀ rule ∈ candidates, rule ∈ engine.catalogue.rules)
  (texts : AreTexts (Entries.keys context.attributes)) {stores : Stores} (calm : stores.IsCalm)
  (inTime : engine.startsExpired = false)
include distinct once known texts calm inTime

/-- However many passes are made over quiet stores, the deadline does not pass, as no check hangs.
-/
theorem after_inTime (number : Nat) :
    (engine.after (Stores.collaborators runs) context candidates stores number).expired =
      false := by
  have standing : ∃ earlier, Standing engine context
      (engine.after (Stores.collaborators runs) context candidates stores number) earlier := by
    induction number with
    | zero => exact ⟨[], calm, inTime, rfl, rfl, by simp, by simp [after, Progress.start]⟩
    | succ number inductionHypothesis =>
      obtain ⟨earlier, standing⟩ := inductionHypothesis
      rcases pass_calm runs distinct once known texts standing with
        ⟨awards, later, passed, _, stands, _⟩ | ⟨later, passed, _, stands, _⟩
      · exact ⟨earlier ++ awards, by simpa only [after, passed] using stands⟩
      · exact ⟨earlier, by simpa only [after, passed] using stands⟩
  obtain ⟨_, standing⟩ := standing
  exact standing.expired

/-- As many passes as no failure leaves make the awards that they should, each pass those of the
rules that fall due in it, one after the other.

Proof: induction on the number of passes. No failure leaves the next one, so it makes the awards
that it should on top of those of the rounds before. -/
theorem after_makes (number : Nat) (whole : ∀ count < number,
      engine.brokenBy (Stores.collaborators runs) context candidates stores (count + 1) = none) :
    ∃ rounds : List (List Rule), rounds.length = number ∧
      Standing engine context
        (engine.after (Stores.collaborators runs) context candidates stores number)
        rounds.flatten ∧
      ∀ count (made : count < rounds.length),
        engine.Makes (Stores.collaborators runs) context candidates stores count
          (rounds.take count).flatten rounds[count] ∧
        (engine.pass (Stores.collaborators runs) context candidates
          (engine.after (Stores.collaborators runs) context candidates stores count)).1 =
            .ok rounds[count].length := by
  induction number with
  | zero =>
    refine ⟨[], rfl, ⟨calm, inTime, rfl, rfl, ?_⟩, by simp⟩
    exact ⟨by simp, by simp [after, Progress.start]⟩
  | succ number inductionHypothesis =>
    obtain ⟨rounds, length, standing, made⟩ :=
      inductionHypothesis fun count below => whole count (by omega)
    rcases pass_calm runs distinct once known texts standing with
      ⟨awards, later, passed, selected, stands, _⟩ | ⟨later, passed, _⟩
    · have reached : engine.after (Stores.collaborators runs) context candidates stores
          (number + 1) = later := congrArg Prod.snd passed
      refine ⟨rounds ++ [awards], by simp [length], ?_, ?_⟩
      · rw [reached]
        simpa using stands
      · intro count below
        by_cases old : count < rounds.length
        · rw [List.getElem_append_left old, List.take_append_of_le_length (Nat.le_of_lt old)]
          exact made count old
        · have last : count = number := by
            simp only [List.length_append, List.length_singleton] at below
            omega
          subst last
          have whole : (rounds ++ [awards]).take count = rounds := by simp [← length]
          have final : (rounds ++ [awards])[count] = awards := by simp [← length]
          rw [whole, final]
          refine ⟨⟨selected, ?_⟩, by rw [passed]⟩
          rw [reached, stands.awarded, standing.awarded, List.map_append]
    · have broken := whole number (by omega)
      simp only [brokenBy, passed] at broken
      contradiction

/-- A cycle of at least one pass runs in rounds.

Proof: the passes before the last one each let another follow, so no failure leaves them and they
make their awards. The last one makes its awards as well, or a failure leaves it and nothing
changes. -/
theorem runsInRounds (least : 0 < engine.maxPasses) :
    ∃ rounds, engine.RunsInRounds (Stores.collaborators runs) context candidates stores rounds := by
  obtain ⟨ended, ends, happenings, processed⟩ :=
    process_after engine (Stores.collaborators runs) context candidates stores
      (after_inTime runs distinct once known texts calm inTime)
  have moved := ends.moves least
  obtain ⟨last, rfl⟩ : ∃ last, ended = last + 1 := ⟨ended - 1, by omega⟩
  have counted : (engine.process (Stores.collaborators runs) context candidates
      stores).2.passes = last + 1 :=
    processed ▸ after_passes engine (Stores.collaborators runs) context candidates stores (last + 1)
  have earlier : ∀ count < last,
      engine.brokenBy (Stores.collaborators runs) context candidates stores (count + 1) = none :=
    fun count below =>
      ((ends.stops count (Nat.zero_le _) (by omega)).mp (by omega)).1.brokenBy_eq_none
  have continues : ∀ (count : Nat) (awards : List Rule), count < last + 1 →
      (engine.pass (Stores.collaborators runs) context candidates
        (engine.after (Stores.collaborators runs) context candidates stores count)).1 =
          .ok awards.length →
      (count + 1 < (engine.process (Stores.collaborators runs) context candidates
        stores).2.passes ↔ awards ≠ [] ∧ count + 1 < engine.maxPasses) := by
    intro count awards below made
    rw [counted, ends.stops count (Nat.zero_le _) below, Nat.zero_add]
    refine and_congr_left fun _ => ?_
    rw [Proceeds, made]
    cases awards <;> simp
  cases broken : engine.brokenBy (Stores.collaborators runs) context candidates stores
    (last + 1) with
  | none =>
    obtain ⟨rounds, length, standing, each⟩ :=
      after_makes runs distinct once known texts calm inTime (last + 1) fun count below => by
        rcases Nat.lt_succ_iff_lt_or_eq.mp below with before | rfl
        · exact earlier count before
        · exact broken
    refine ⟨rounds, by omega, .inl ⟨by rw [processed, broken], by omega⟩, by rw [processed, length],
      ?_, fun count below => (each count below).1, fun count below => ?_⟩
    · rw [processed]
      exact standing.awarded
    · exact continues count _ (length ▸ below) (each count below).2
  | some failure =>
    obtain ⟨rounds, length, standing, each⟩ :=
      after_makes runs distinct once known texts calm inTime last earlier
    rcases pass_calm runs distinct once known texts standing with
      ⟨awards, later, passed, _⟩ | ⟨later, passed, ⟨rule, member, overruns⟩, stands, unmoved, _⟩
    · simp only [brokenBy, passed] at broken
      contradiction
    · have reached : engine.after (Stores.collaborators runs) context candidates stores
          (last + 1) = later := congrArg Prod.snd passed
      have cause : engine.brokenBy (Stores.collaborators runs) context candidates stores
          (last + 1) = some .tooLongToWrite := by simp only [brokenBy, passed]
      have long : ∃ rule ∈ candidates, ¬ rule.IsBrief context :=
        ⟨rule, member, overruns.not_isBrief standing.calm.lookup texts⟩
      refine ⟨rounds, by omega, .inr ⟨by rw [processed, cause], by omega, long⟩, ?_, ?_,
        fun count below => (each count below).1, fun count below => ?_⟩
      · rw [processed, length, ← unmoved, ← reached]
      · rw [processed, reached]
        exact stands.awarded
      · exact continues count _ (by omega) (each count below).2

end Rounds

end Engine

end Accolade
