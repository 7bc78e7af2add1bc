import Accolade.Fact.Stores
import Accolade.Fact.Writer
import Accolade.Proofs.Evaluation

/-!
# Collaborators that keep a ledger

The cycle sees awards only through its collaborators. They keep a ledger when lookups of
achievements read it and change nothing, and when each call of the award writer either does
to the ledger what it says, or fails and leaves the ledger as it is. Plain stores, those
without planned faults whose awards go where lookups see them, keep their achievements so.
Making calls of the award writer fail by any pattern takes nothing away from this.

Plain stores with whole amounts are calm as well: no call of theirs fails.
-/

namespace Accolade

/-- Collaborators whose states hold a ledger. Lookups read it, awards and retractions write
it or fail, and actions leave it alone. -/
structure Collaborators.KeepsLedger {σ : Type} (collaborators : Collaborators σ)
    (ready : σ → Prop) (ledger : σ → Ledger) : Prop where
  still : ∀ state, ready state → collaborators.lookup.IsStill state
  reads : ∀ query state, ready state →
    collaborators.lookup .achievement query state = (.answer ((ledger state).find query), state)
  records : ∀ subject rule scope state, ready state →
    ∃ outcome next, collaborators.recordAward subject rule scope state = (outcome, next) ∧
      ready next ∧
      ((∃ failure, outcome = .error failure ∧ ledger next = ledger state) ∨
        ∃ fact, outcome = .ok fact ∧
          (ledger state).recordAward subject (.text rule) scope = .ok (fact, ledger next))
  retracts : ∀ subject rule scope state, ready state →
    ∃ outcome next, collaborators.retractAward subject rule scope state = (outcome, next) ∧
      ready next ∧
      ((∃ failure, outcome = .error failure ∧ ledger next = ledger state) ∨
        outcome = .ok () ∧ ledger next = (ledger state).retractAward subject (.text rule) scope)
  invokes : ∀ run, collaborators.invoke = some run → ∀ actions context state, ready state →
    ready (run actions context state).2 ∧ ledger (run actions context state).2 = ledger state

/-- A call of the award writer that is made to fail leaves the ledger; the others do what
they did. -/
theorem Collaborators.KeepsLedger.failing {σ : Type} {collaborators : Collaborators σ}
    {ready : σ → Prop} {ledger : σ → Ledger} (keeping : collaborators.KeepsLedger ready ledger)
    (pattern : Nat → Option Failure) :
    (collaborators.failing pattern).KeepsLedger (fun state => ready state.1)
      (fun state => ledger state.1) where
  still state well kind query := by
    have inner := keeping.still state.1 well kind query
    simp [Collaborators.failing, inner]
  reads query state well := by
    simp [Collaborators.failing, keeping.reads query state.1 well]
  records subject rule scope state well := by
    cases struck : pattern state.2 with
    | some failure =>
      exact ⟨.error failure, (state.1, state.2 + 1), by simp [Collaborators.failing, struck], well,
        .inl ⟨failure, rfl, rfl⟩⟩
    | none =>
      obtain ⟨outcome, next, called, ready, done⟩ :=
        keeping.records subject rule scope state.1 well
      exact ⟨outcome, (next, state.2 + 1), by simp [Collaborators.failing, struck, called], ready,
        done⟩
  retracts subject rule scope state well := by
    cases struck : pattern state.2 with
    | some failure =>
      exact ⟨.error failure, (state.1, state.2 + 1), by simp [Collaborators.failing, struck], well,
        .inl ⟨failure, rfl, rfl⟩⟩
    | none =>
      obtain ⟨outcome, next, called, ready, done⟩ :=
        keeping.retracts subject rule scope state.1 well
      exact ⟨outcome, (next, state.2 + 1), by simp [Collaborators.failing, struck, called], ready,
        done⟩
  invokes run given actions context state well := by
    simp only [Collaborators.failing, Option.map_eq_some_iff] at given
    obtain ⟨inner, present, rfl⟩ := given
    exact keeping.invokes inner present actions context state.1 well

namespace Stores

/-- Whether no faults are planned and lookups see the awards that are written. -/
structure IsPlain (stores : Stores) : Prop where
  faultless : stores.faults = []
  shared : stores.separateAwards = none

/-- Whether stores are plain and hold whole amounts. The amounts of events are never read. -/
structure IsCalm (stores : Stores) : Prop extends IsPlain stores where
  achievements : stores.achievements.IsCounted
  experience : stores.experience.IsCounted

/-- Whether no faults are planned and all awards and experience are whole amounts, wherever awards
are written. -/
structure IsQuiet (stores : Stores) : Prop where
  faultless : stores.faults = []
  achievements : stores.achievements.IsCounted
  experience : stores.experience.IsCounted
  awards : stores.awards.IsCounted

/-- Stores with the achievements replaced. -/
def withAchievements (stores : Stores) (ledger : Ledger) : Stores :=
  { stores with achievements := ledger }

section Awards

variable (stores : Stores) (ledger : Ledger)

@[simp] theorem withAwards_awards : (stores.withAwards ledger).awards = ledger := by
  unfold withAwards awards
  split <;> simp_all

@[simp] theorem withAwards_experience :
    (stores.withAwards ledger).experience = stores.experience := by
  unfold withAwards
  split <;> rfl

@[simp] theorem withAwards_events : (stores.withAwards ledger).events = stores.events := by
  unfold withAwards
  split <;> rfl

@[simp] theorem withAwards_faults : (stores.withAwards ledger).faults = stores.faults := by
  unfold withAwards
  split <;> rfl

/-- Awards are among the achievements, or elsewhere. -/
theorem withAwards_achievements :
    (stores.withAwards ledger).achievements =
      if stores.separateAwards.isSome then stores.achievements else ledger := by
  unfold withAwards
  split <;> simp_all

@[simp] theorem withAwards_separate : (stores.withAwards ledger).separateAwards.isSome =
    stores.separateAwards.isSome := by
  unfold withAwards
  split <;> simp_all

end Awards

section Faultless

variable {stores : Stores} (faultless : stores.faults = [])
include faultless

/-- Where no faults are planned, none strikes. -/
theorem struck_of_faultless (point : FaultPoint) (name : Value) :
    stores.struck point name = (none, stores) := by
  obtain ⟨achievements, experience, events, separate, faults, invocations⟩ := stores
  cases faultless
  simp [Stores.struck, Fault.strike]

/-- Stores without planned faults answer every lookup and stay as they are. -/
theorem lookup_of_faultless (kind : FactKind) (query : Entries) :
    Stores.lookup kind query stores = (.answer ((stores.ledger kind).find query), stores) := by
  simp only [Stores.lookup, struck_of_faultless faultless]

/-- An award that the ledger of awards takes is written there. -/
theorem recordAward_of_faultless {subject : Value} {rule : String} {scope : Entries} {fact : Fact}
    {later : Ledger}
    (recorded : stores.awards.recordAward subject (.text rule) scope = .ok (fact, later)) :
    Stores.recordAward subject rule scope stores = (.ok fact, stores.withAwards later) := by
  simp only [Stores.recordAward, struck_of_faultless faultless, recorded]

/-- Stores without planned faults retract in the ledger of awards, and do not fail. -/
theorem retractAward_of_faultless (subject : Value) (rule : String) (scope : Entries) :
    Stores.retractAward subject rule scope stores =
      (.ok (), stores.withAwards (stores.awards.retractAward subject (.text rule) scope)) := by
  simp only [Stores.retractAward, struck_of_faultless faultless]

/-- Stores without planned faults note an invocation of actions, and change nothing else. -/
theorem invoke_of_faultless (actions : List Value) (context : Context) :
    ∃ invocations, Stores.invoke actions context stores =
      (.ok (), { stores with invocations := invocations }) := by
  have noted : ∀ invocations : List Invocation,
      ({ stores with invocations := invocations } : Stores).faults = [] := fun _ => faultless
  simp only [Stores.invoke, struck_of_faultless (noted _)]
  exact ⟨_, rfl⟩

/-- Actions that are run at all are noted by stores without faults, and nothing else changes. -/
theorem invoked_of_faultless {runsActions : Bool} {run : List Value → Context → Stores →
      Except Failure Unit × Stores}
    (given : (collaborators runsActions).invoke = some run) (actions : List Value)
    (context : Context) :
    ∃ invocations, run actions context stores =
      (.ok (), { stores with invocations := invocations }) := by
  cases runsActions with
  | false => contradiction
  | true =>
    cases given
    exact invoke_of_faultless faultless actions context

/-- Over whole amounts of awards and experience the lookup is calm. -/
theorem lookup_isCalm (achievements : stores.achievements.IsCounted)
    (experience : stores.experience.IsCounted) : Stores.lookup.IsCalm stores where
  answers kind query := by
    refine ⟨_, lookup_of_faultless faultless kind query, ?_⟩
    intro read fact found
    have held : fact ∈ stores.ledger kind := (List.mem_filter.mp found).1
    match kind with
    | .achievement => exact achievements fact held
    | .experience => exact experience fact held
    | .event => contradiction

end Faultless

namespace IsPlain

variable {stores : Stores} (plain : stores.IsPlain)
include plain

/-- No fault strikes plain stores, since none is planned. -/
theorem struck (point : FaultPoint) (name : Value) : stores.struck point name = (none, stores) :=
  struck_of_faultless plain.faultless point name

/-- Awards of plain stores stand among the achievements. -/
theorem withAwards (ledger : Ledger) :
    stores.withAwards ledger = stores.withAchievements ledger := by
  unfold Stores.withAwards
  split
  · rename_i separate known
    rw [plain.shared] at known
    contradiction
  · rfl

/-- Plain stores answer every lookup and stay as they are. -/
theorem lookup (kind : FactKind) (query : Entries) :
    Stores.lookup kind query stores = (.answer ((stores.ledger kind).find query), stores) :=
  lookup_of_faultless plain.faultless kind query

/-- Plain stores hold their awards among the achievements. -/
theorem awards : stores.awards = stores.achievements := by
  simp only [Stores.awards, plain.shared, Option.getD_none]

/-- Plain stores write an award among the achievements. -/
theorem recordAward {subject : Value} {rule : String} {scope : Entries} {fact : Fact}
    {later : Ledger}
    (recorded : stores.achievements.recordAward subject (.text rule) scope = .ok (fact, later)) :
    Stores.recordAward subject rule scope stores = (.ok fact, stores.withAchievements later) := by
  rw [← plain.awards] at recorded
  rw [recordAward_of_faultless plain.faultless recorded, plain.withAwards]

/-- An award that the achievements do not take leaves plain stores as they are. -/
theorem recordAward_refused {subject : Value} {rule : String} {scope : Entries} {failure : Failure}
    (refused : stores.achievements.recordAward subject (.text rule) scope = .error failure) :
    Stores.recordAward subject rule scope stores = (.error failure, stores) := by
  simp only [Stores.recordAward, plain.struck, plain.awards, refused]

/-- Plain stores retract among the achievements. -/
theorem retractAward (subject : Value) (rule : String) (scope : Entries) :
    Stores.retractAward subject rule scope stores =
      (.ok (), stores.withAchievements
        (stores.achievements.retractAward subject (.text rule) scope)) := by
  simp only [Stores.retractAward, plain.struck, plain.awards, plain.withAwards]

/-- Replacing the achievements leaves plain stores plain. -/
theorem withAchievements (ledger : Ledger) : (stores.withAchievements ledger).IsPlain :=
  ⟨plain.faultless, plain.shared⟩

/-- In plain stores the amount awarded under a name within a scope depends on nothing but what its
query finds among the achievements. -/
theorem awardedAmount_congr {second : Stores} (plainToo : second.IsPlain) {context : Context}
    {name : String}
    (same : second.achievements.find (Ledger.queryOf (.text name) context.boundValues) =
      stores.achievements.find (Ledger.queryOf (.text name) context.boundValues)) :
    (awardedAmount Stores.lookup context name second).1 =
      (awardedAmount Stores.lookup context name stores).1 := by
  unfold awardedAmount
  rw [context.queryFor_eq]
  cases found : context.scopeValues with
  | error failure => rfl
  | ok values =>
    obtain rfl := ((context.scopeValues_eq_ok_iff values).mp found).2
    simp only [Except.map, Requirement.facts, plain.lookup, plainToo.lookup, ledger, same]
    split <;> rfl

end IsPlain

/-- Plain stores keep the ledger of their achievements: lookups and actions leave it, and the award
writer changes it as a ledger is changed. -/
theorem collaborators_keepLedger (runsActions : Bool) :
    (collaborators runsActions).KeepsLedger IsPlain (·.achievements) where
  still stores plain kind query := by
    change (Stores.lookup kind query stores).2 = stores
    rw [plain.lookup]
  reads query stores plain := plain.lookup .achievement query
  records subject rule scope stores plain := by
    cases written : stores.achievements.recordAward subject (.text rule) scope with
    | ok outcome =>
      obtain ⟨fact, later⟩ := outcome
      exact ⟨_, _, plain.recordAward written, plain.withAchievements later, .inr ⟨fact, rfl, rfl⟩⟩
    | error failure =>
      exact ⟨_, _, plain.recordAward_refused written, plain, .inl ⟨failure, rfl, rfl⟩⟩
  retracts subject rule scope stores plain :=
    ⟨_, _, plain.retractAward subject rule scope, plain.withAchievements _, .inr ⟨rfl, rfl⟩⟩
  invokes run given actions context stores plain := by
    obtain ⟨invocations, invoked⟩ := invoked_of_faultless plain.faultless given actions context
    rw [invoked]
    exact ⟨⟨plain.faultless, plain.shared⟩, rfl⟩

/-- Calm stores are quiet: that they hold their awards among the achievements is not asked of quiet
ones. -/
theorem IsCalm.isQuiet {stores : Stores} (calm : stores.IsCalm) : stores.IsQuiet :=
  ⟨calm.faultless, calm.achievements, calm.experience,
    calm.toIsPlain.awards ▸ calm.achievements⟩

/-- Replacing the ledger of awards by whole amounts leaves quiet stores quiet. -/
theorem IsQuiet.withAwards {stores : Stores} (quiet : stores.IsQuiet) {ledger : Ledger}
    (counted : ledger.IsCounted) : (stores.withAwards ledger).IsQuiet where
  faultless := (stores.withAwards_faults ledger).trans quiet.faultless
  achievements := by
    rw [withAwards_achievements]
    split
    · exact quiet.achievements
    · exact counted
  experience := stores.withAwards_experience ledger ▸ quiet.experience
  awards := (stores.withAwards_awards ledger).symm ▸ counted

/-- Lookups in quiet stores are calm: they answer, leave the stores, and find whole amounts of
awards and experience. -/
theorem IsQuiet.lookup {stores : Stores} (quiet : stores.IsQuiet) :
    Stores.lookup.IsCalm stores :=
  lookup_isCalm quiet.faultless quiet.achievements quiet.experience

/-- Recording an award leaves quiet stores quiet. -/
theorem IsQuiet.recordAward {stores : Stores} (quiet : stores.IsQuiet) (subject : Value)
    (rule : String) (scope : Entries) :
    (Stores.recordAward subject rule scope stores).2.IsQuiet := by
  obtain ⟨written, later, recorded, wrote⟩ :=
    Ledger.recordAward_awarded quiet.awards subject (.text rule) scope
  rw [recordAward_of_faultless quiet.faultless recorded]
  exact quiet.withAwards (wrote.counted quiet.awards)

/-- Retracting awards leaves quiet stores quiet, since it sets amounts to zero at most. -/
theorem IsQuiet.retractAward {stores : Stores} (quiet : stores.IsQuiet) (subject : Value)
    (rule : String) (scope : Entries) :
    (Stores.retractAward subject rule scope stores).2.IsQuiet := by
  rw [retractAward_of_faultless quiet.faultless]
  exact quiet.withAwards (Ledger.retractAward_counted _ _ _ quiet.awards)

/-- Running actions leaves quiet stores quiet, since it does no more than note the invocation. -/
theorem IsQuiet.invoked {stores : Stores} (quiet : stores.IsQuiet) {runsActions : Bool}
    {run : List Value → Context → Stores → Except Failure Unit × Stores}
    (given : (collaborators runsActions).invoke = some run) (actions : List Value)
    (context : Context) : (run actions context stores).2.IsQuiet := by
  obtain ⟨invocations, called⟩ := invoked_of_faultless quiet.faultless given actions context
  rw [called]
  exact ⟨quiet.faultless, quiet.achievements, quiet.experience, quiet.awards⟩

/-- Replacing the achievements by whole amounts leaves calm stores calm. -/
theorem IsCalm.withAchievements {stores : Stores} (calm : stores.IsCalm) {ledger : Ledger}
    (counted : ledger.IsCounted) : (stores.withAchievements ledger).IsCalm :=
  ⟨calm.toIsPlain.withAchievements ledger, counted, calm.experience⟩

/-- Calm stores stay calm with other invocations noted, which no lookup reads. -/
theorem IsCalm.withInvocations {stores : Stores} (calm : stores.IsCalm)
    (invocations : List Invocation) : IsCalm { stores with invocations := invocations } :=
  ⟨⟨calm.faultless, calm.shared⟩, calm.achievements, calm.experience⟩

/-- Lookups in calm stores are calm, as those in quiet stores are. -/
theorem IsCalm.lookup {stores : Stores} (calm : stores.IsCalm) : Stores.lookup.IsCalm stores :=
  lookup_isCalm calm.faultless calm.achievements calm.experience

/-- Whether stores are calm and the scopes of their awards are proper. -/
structure IsSound (stores : Stores) : Prop extends IsCalm stores where
  proper : ∀ fact ∈ stores.achievements, Value.entriesProper fact.scope = true

namespace IsSound

variable {stores : Stores} (sound : stores.IsSound) (subject : Value) (name : String)
include sound

omit subject name in
/-- An award under proper scope values leaves sound stores sound. -/
theorem withAward {name : Value} {scope : Entries} {written : Fact} {later : Ledger}
    (awarded : Ledger.Awarded name scope stores.achievements written later)
    (proper : Value.entriesProper scope = true) : (stores.withAchievements later).IsSound :=
  ⟨sound.toIsCalm.withAchievements (awarded.counted sound.achievements),
    awarded.scopes (P := fun scope => Value.entriesProper scope = true) sound.proper proper⟩

/-- Sound stores take an award under proper scope values and stay sound. -/
theorem recordAward {scope : Entries} (full : scope ≠ [])
    (proper : Value.entriesProper scope = true) :
    ∃ written later, stores.achievements.recordAward subject (.text name) scope =
        .ok (written, later) ∧
      Ledger.Awarded (.text name) scope stores.achievements written later ∧
      Stores.recordAward subject name scope stores =
        (.ok written, stores.withAchievements later) ∧
      (stores.withAchievements later).IsSound := by
  obtain ⟨written, later, recorded, awarded⟩ :=
    Ledger.recordAward_awarded sound.achievements subject (.text name) scope
  rw [Ledger.awardScope_of_ne_nil subject full] at awarded
  exact ⟨written, later, recorded, awarded, sound.toIsPlain.recordAward recorded,
    sound.withAward awarded proper⟩

/-- A retraction among the achievements leaves sound stores sound. -/
theorem retractAward (scope : Entries) :
    (stores.withAchievements
      (stores.achievements.retractAward subject (.text name) scope)).IsSound :=
  ⟨sound.toIsCalm.withAchievements (Ledger.retractAward_counted _ _ _ sound.achievements),
    Ledger.retractAward_scopes _ _ _ (P := fun scope => Value.entriesProper scope = true)
      sound.proper⟩

omit subject name in
/-- Sound stores stay sound with other invocations noted, which are no part of any ledger. -/
theorem withInvocations (invocations : List Invocation) :
    IsSound { stores with invocations := invocations } :=
  ⟨sound.toIsCalm.withInvocations invocations, sound.proper⟩

end IsSound

/-- Stores with one award to the second subject. -/
def sample : Stores :=
  of [⟨.text "Beginner", .integer 1, [(.text subjectKey, .integer 2)], [], none⟩] [] []

/-- The sample stores are calm: they are plain, and the amounts of their awards and experience are
whole. -/
theorem sample_calm : sample.IsCalm := by
  refine ⟨⟨rfl, rfl⟩, ?_, ?_⟩
  · intro fact member
    rw [List.mem_singleton.mp member]
    rfl
  · intro fact member
    contradiction

end Stores

end Accolade
