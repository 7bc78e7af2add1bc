import Accolade.Proofs.Cycle.Overshoot

/-!
# Cycles in contexts that are kept apart

A catalogue keeps two contexts apart if they are apart within the scopes of any two of its rules.
Then no record that a cycle in one of them reads or writes lies within a scope of the other. Its
steps come to the same whatever the other cycle has done, so however the two take turns, each does
what it would have done alone, and all totals end as if one had run after the other.
-/

namespace Accolade

/-- Whether two contexts are apart within the scopes of any two rules of a catalogue. -/
def Catalogue.KeepsApart (catalogue : Catalogue) (context other : Context) : Prop :=
  ∀ first ∈ catalogue.rules, ∀ second ∈ catalogue.rules,
    (context.forScope first.scope).ApartFrom (other.forScope second.scope)

/-- Whether a record lies in a context within the scope of some rule of a catalogue. -/
def Fact.IsSeen (catalogue : Catalogue) (context : Context) (fact : Fact) : Prop :=
  ∃ rule ∈ catalogue.rules, fact.LiesIn (context.forScope rule.scope)

open Classical in
/-- The test for records that are seen. -/
noncomputable def Catalogue.sees (catalogue : Catalogue) (context : Context) (fact : Fact) : Bool :=
  decide (fact.IsSeen catalogue context)

namespace Catalogue

variable {catalogue : Catalogue} {context : Context}

/-- The test decides whether a record is seen by some rule of the catalogue in the context. -/
theorem sees_iff (fact : Fact) :
    catalogue.sees context fact = true ↔ fact.IsSeen catalogue context := by simp [sees]

/-- What a catalogue sees in a context depends on the scope of a record alone, not on its identifier
or its amount. -/
theorem sees_isBlind : Ledger.IsBlind (catalogue.sees context) := fun _ _ _ => rfl

/-- What a query finds within the scope of a rule is seen. -/
theorem sees_of_isMatch {rule : Rule} (member : rule ∈ catalogue.rules) {name : String}
    {fact : Fact} (matching : fact.isMatch
      (Ledger.queryOf (.text name) (context.forScope rule.scope).boundValues) = true) :
    catalogue.sees context fact = true :=
  (sees_iff fact).mpr ⟨rule, member, ((fact.isMatch_iff _ name).mp matching).2⟩

end Catalogue

/-- Whether sound stores hold the same records that a context sees, up to identifiers. -/
structure Stores.SeenAlike (catalogue : Catalogue) (context : Context) (first second : Stores) :
    Prop where
  sound : first.IsSound
  soundToo : second.IsSound
  part : first.achievements.part (catalogue.sees context) =
    second.achievements.part (catalogue.sees context)
  experience : first.experience = second.experience
  events : first.events = second.events

namespace Stores.SeenAlike

variable {catalogue : Catalogue} {context : Context} {first second : Stores}

/-- Sound stores are seen alike as themselves. -/
theorem refl (sound : first.IsSound) : first.SeenAlike catalogue context first :=
  ⟨sound, sound, rfl, rfl, rfl⟩

variable (alike : first.SeenAlike catalogue context second)
include alike

/-- Queries within the scope of a rule find the same facts, up to identifiers. -/
theorem findsAlike {rule : Rule} (member : rule ∈ catalogue.rules) :
    Stores.lookup.FindsAlike (context.forScope rule.scope) first second :=
  Stores.findsAlike alike.sound.faultless alike.soundToo.faultless fun kind name =>
    match kind with
    | .achievement =>
      Ledger.find_alike (fun _ => Catalogue.sees_of_isMatch member) alike.part
    | .experience => by simp only [Stores.ledger, alike.experience]
    | .event => by simp only [Stores.ledger, alike.events]

/-- Ledgers of whole amounts and proper scopes, with the same records that are seen, may take the
place of the achievements. -/
theorem withAchievements {later laterToo : Ledger}
    (sound : (first.withAchievements later).IsSound)
    (soundToo : (second.withAchievements laterToo).IsSound)
    (part : later.part (catalogue.sees context) = laterToo.part (catalogue.sees context)) :
    (first.withAchievements later).SeenAlike catalogue context
      (second.withAchievements laterToo) :=
  ⟨sound, soundToo, part, alike.experience, alike.events⟩

/-- An award within the scope of a rule goes through on both, writes the same amount, and leaves
what is seen alike. -/
theorem recordAward {rule : Rule} (member : rule ∈ catalogue.rules)
    (full : (context.forScope rule.scope).boundValues ≠ [])
    (proper : Value.entriesProper context.attributes = true) :
    ∃ written writtenToo later laterToo,
      Stores.recordAward context.subject rule.name (context.forScope rule.scope).boundValues
        first = (.ok written, later) ∧
      Stores.recordAward context.subject rule.name (context.forScope rule.scope).boundValues
        second = (.ok writtenToo, laterToo) ∧
      written.amount = writtenToo.amount ∧ later.SeenAlike catalogue context laterToo := by
  have values : Value.entriesProper (context.forScope rule.scope).boundValues = true :=
    Context.boundValues_proper proper
  obtain ⟨written, later, recorded, _, called, sound⟩ :=
    alike.sound.recordAward context.subject rule.name full values
  obtain ⟨writtenToo, laterToo, recordedToo, _, calledToo, soundToo⟩ :=
    alike.soundToo.recordAward context.subject rule.name full values
  have own : ∀ fact, Ledger.holdsTotal (.text rule.name) (Ledger.awardScope context.subject
      (context.forScope rule.scope).boundValues) fact = true →
      catalogue.sees context fact = true := by
    intro fact holding
    rw [Ledger.awardScope_of_ne_nil context.subject full] at holding
    simp only [Ledger.holdsTotal, Bool.and_eq_true] at holding
    exact Catalogue.sees_of_isMatch member holding.1
  obtain ⟨same, part⟩ :=
    Ledger.recordAward_alike Catalogue.sees_isBlind own alike.part recorded recordedToo
  have amounts : written.amount = writtenToo.amount := by simpa using congrArg Fact.amount same
  exact ⟨_, _, _, _, called, calledToo, amounts, alike.withAchievements sound soundToo part⟩

/-- A retraction goes through on both and leaves what is seen alike. -/
theorem retractAward (subject : Value) (name : String) (scope : Entries) :
    SameBeside (SeenAlike catalogue context) (Stores.retractAward subject name scope first)
      (Stores.retractAward subject name scope second) := by
  rw [alike.sound.toIsPlain.retractAward, alike.soundToo.toIsPlain.retractAward]
  exact ⟨rfl, alike.withAchievements (alike.sound.retractAward _ _ _)
    (alike.soundToo.retractAward _ _ _)
    (Ledger.retractAward_alike Catalogue.sees_isBlind _ _ _ alike.part)⟩

/-- Running actions comes to the same in stores that are seen alike, and leaves them seen alike. -/
theorem invoke {runsActions : Bool} {run : List Value → Context → Stores →
      Except Failure Unit × Stores}
    (given : (Stores.collaborators runsActions).invoke = some run) (actions : List Value)
    (bound : Context) :
    SameBeside (SeenAlike catalogue context) (run actions bound first)
      (run actions bound second) := by
  obtain ⟨invocations, called⟩ :=
    Stores.invoked_of_faultless alike.sound.faultless given actions bound
  obtain ⟨invocationsToo, calledToo⟩ :=
    Stores.invoked_of_faultless alike.soundToo.faultless given actions bound
  rw [called, calledToo]
  exact ⟨rfl, alike.sound.withInvocations invocations,
    alike.soundToo.withInvocations invocationsToo, alike.part, alike.experience, alike.events⟩

end Stores.SeenAlike

namespace Engine

variable {engine : Engine} {context other : Context} (runs : Bool)
  (keyed : ∀ rule ∈ engine.catalogue.rules, rule.scope ≠ [])
  (proper : Value.entriesProper context.attributes = true) {rule : Rule}
  (member : rule ∈ engine.catalogue.rules)

include keyed proper member

/-- An attempt leaves all that a context sees which is kept apart. -/
theorem attempt_seenAlike (apart : engine.catalogue.KeepsApart context other)
    {reference : Stores} {progress : Progress Stores}
    (alike : reference.SeenAlike engine.catalogue other progress.state) :
    reference.SeenAlike engine.catalogue other
      (engine.attempt (Stores.collaborators runs) context rule progress).2.state := by
  refine (attempt_calm_state runs context rule engine (I := fun state : Stores =>
    reference.SeenAlike engine.catalogue other state) alike.soundToo.toIsCalm ?_ ?_ ?_ alike).2
  · intro resolves written later recorded awarded
    have kept := Ledger.recordAward_recorded recorded
    rw [Ledger.awardScope_of_ne_nil context.subject
      (Context.boundValues_ne_nil resolves (keyed rule member))] at kept awarded
    have unseen : engine.catalogue.sees other written = false := by
      refine Bool.eq_false_iff.mpr fun seen => ?_
      obtain ⟨reader, inForce, within⟩ := (Catalogue.sees_iff written).mp seen
      have missed := kept.apart alike.soundToo.proper (apart rule member reader inForce) rule.name
      rw [(written.isMatch_iff _ rule.name).mpr ⟨awarded.written_name, within⟩] at missed
      contradiction
    have sound := alike.soundToo.withAward awarded (Context.boundValues_proper proper)
    exact ⟨alike.sound, sound, alike.part.trans
      (awarded.part_of_outside Catalogue.sees_isBlind unseen).symm, alike.experience, alike.events⟩
  · intro target _ state _ alike
    obtain ⟨held, inForce, under⟩ := retractionScope_known member target
    refine ⟨alike.sound, alike.soundToo.retractAward _ _ _, alike.part.trans ?_,
      alike.experience, alike.events⟩
    refine (Ledger.retractAward_part_of_outside Catalogue.sees_isBlind ?_).symm
    intro fact inside matching
    rw [under, Ledger.awardScope_of_ne_nil context.subject
      (apart held inForce rule member).boundValues_ne_nil] at matching
    refine Bool.eq_false_iff.mpr fun seen => ?_
    obtain ⟨reader, known, within⟩ := (Catalogue.sees_iff fact).mp seen
    exact ((fact.isMatch_iff _ target).mp matching).2.apart (alike.soundToo.proper fact inside)
      (apart held inForce reader known) within
  · intro state alike invocations
    exact ⟨alike.sound, alike.soundToo.withInvocations invocations, alike.part, alike.experience,
      alike.events⟩

omit keyed member in
/-- Every step of a cycle in a context comes to the same wherever the context sees the same. -/
theorem stepsAlike_seenAlike {candidates : List Rule}
    (known : ∀ rule ∈ candidates, rule ∈ engine.catalogue.rules)
    (full : ∀ rule ∈ engine.catalogue.rules, (context.forScope rule.scope).boundValues ≠ [])
    (texts : AreTexts (Entries.keys context.attributes)) :
    StepsAlike engine (Stores.collaborators runs) context candidates
      (Stores.SeenAlike engine.catalogue context) where
  judged rule member first second alike :=
    Rule.judge_alike alike.sound.toIsCalm.lookup alike.soundToo.toIsCalm.lookup texts
      (alike.findsAlike (known rule member)) _ alike
  recorded rule member first second alike := by
    obtain ⟨written, writtenToo, later, laterToo, called, calledToo, amounts, next⟩ :=
      alike.recordAward (known rule member) (full rule (known rule member)) proper
    exact ⟨.ok written, .ok writtenToo, later, laterToo, called, calledToo,
      congrArg Except.ok amounts, next⟩
  retracted _ _ target _ first second alike := alike.retractAward context.subject target _
  invoked run given actions bound first second alike := alike.invoke given actions bound

end Engine

section Crossings

variable (runs : Bool) {requests : Side → CycleRequest} {catalogue : Catalogue}
  (inForce : ∀ side, (requests side).engine.catalogue = catalogue)
  (keyed : ∀ rule ∈ catalogue.rules, rule.scope ≠ [])
  (fits : ∀ side, (requests side).Fits catalogue.rules)
  (texts : ∀ side, AreTexts (Entries.keys (requests side).context.attributes))
  (apart : ∀ side : Side,
    catalogue.KeepsApart (requests side).context (requests side.other).context)
  {stores : Stores} (sound : stores.IsSound)

/-- Whether each run of a crossing is where some steps of its cycle alone have led, as far as its
context sees. -/
def Crossing.Follows (runs : Bool) (requests : Side → CycleRequest) (catalogue : Catalogue)
    (stores : Stores) (crossing : Crossing Stores) : Prop :=
  ∀ side, ∃ steps, Run.Alike (Stores.SeenAlike catalogue (requests side).context)
    ((requests side).advance (Stores.collaborators runs) steps ((requests side).start stores))
    (crossing.current side)

include inForce keyed fits apart

/-- A step of one cycle leaves all that the context of the other sees. -/
theorem step_seenAlike (side : Side) {run : Run Stores} (orderly : (requests side).IsOrderly run)
    {reference : Stores}
    (alike : reference.SeenAlike catalogue (requests side.other).context run.progress.state) :
    reference.SeenAlike catalogue (requests side.other).context
      ((requests side).step (Stores.collaborators runs) run).progress.state := by
  have held := inForce side
  subst held
  refine CycleRequest.step_state (I := fun state : Stores =>
    reference.SeenAlike _ (requests side.other).context state) ?_ ?_ orderly alike
  · intro progress alike
    rwa [Engine.checks_state runs _ _ _ alike.soundToo.toIsCalm]
  · exact fun rule member progress alike => Engine.attempt_seenAlike runs keyed (fits side).proper
      ((fits side).known rule member) (apart side) alike

include texts

/-- A turn of one side is a step of its cycle alone, and none of the other. -/
theorem Crossing.Follows.turn {crossing : Crossing Stores}
    (follows : crossing.Follows runs requests catalogue stores)
    (orderly : crossing.IsOrderly requests) (side : Side) :
    (crossing.turn (Stores.collaborators runs) requests side).Follows runs requests catalogue
      stores := by
  have ordered : (requests side).IsOrderly (crossing.current side) := orderly side
  have known : ∀ side, ∀ rule ∈ (requests side).candidates,
      rule ∈ (requests side).engine.catalogue.rules :=
    fun side rule member => (inForce side).symm ▸ (fits side).known rule member
  refine side.forall_of ?_ ?_
  · obtain ⟨steps, alike⟩ := follows side
    have moves : Engine.StepsAlike (requests side).engine (Stores.collaborators runs)
        (requests side).context (requests side).candidates
        (Stores.SeenAlike (requests side).engine.catalogue (requests side).context) := by
      refine Engine.stepsAlike_seenAlike runs (fits side).proper (known side) ?_ (texts side)
      intro rule member
      rw [inForce side] at member
      exact (apart side rule member rule member).boundValues_ne_nil
    rw [inForce side] at moves
    refine ⟨steps + 1, ?_⟩
    rw [turn_current, CycleRequest.advance_add steps 1]
    exact moves.step (CycleRequest.advance_isOrderly (CycleRequest.start_isOrderly stores) steps)
      alike
  · obtain ⟨steps, state, related, same⟩ := follows side.other
    have shared : crossing.state = state :=
      congrArg (fun run : Run Stores => run.progress.state) same
    subst shared
    have kept := step_seenAlike runs inForce keyed fits apart side ordered related
    refine ⟨steps, _, kept, ?_⟩
    -- The run that waits is put in the state that the other has left.
    have moved := congrArg (fun run : Run Stores =>
      run.within (crossing.turn (Stores.collaborators runs) requests side).state) same
    rw [current, turn_other]
    exact moved

/-- After any turns of cycles that have not begun, each cycle stands, as far as it can see, where
some steps of its own would have taken it from the stores they began with. -/
theorem Crossing.turns_follows (sound : stores.IsSound) (sides : List Side) :
    ((start requests stores).turns (Stores.collaborators runs) requests sides).Follows runs requests
      catalogue stores := by
  refine (turns_induction (I := fun crossing => crossing.IsOrderly requests ∧
    crossing.Follows runs requests catalogue stores) ?_
    ⟨start_isOrderly requests stores, fun side => ⟨0, stores, .refl sound, rfl⟩⟩ sides).2
  rintro crossing side ⟨orderly, follows⟩
  exact ⟨turn_isOrderly orderly side, follows.turn runs inForce keyed fits texts apart orderly side⟩

/-- Whenever both cycles have ended, each context sees what its cycle alone would have left. -/
theorem Crossing.ended_seenAlike (sound : stores.IsSound) {sides : List Side}
    (ended : ((start requests stores).turns (Stores.collaborators runs) requests
      sides).hasEnded = true) (side : Side) :
    Stores.SeenAlike catalogue (requests side).context
      ((requests side).engine.process (Stores.collaborators runs) (requests side).context
        (requests side).candidates stores).2.state
      ((start requests stores).turns (Stores.collaborators runs) requests sides).state := by
  obtain ⟨steps, state, related, same⟩ :=
    turns_follows runs inForce keyed fits texts apart sound sides side
  obtain ⟨_, ⟨more, rfl⟩, told⟩ :=
    @CycleRequest.start_reaches Stores (Stores.collaborators runs) (requests side) stores
  obtain ⟨finished, reached⟩ := Run.state_of_result? told
  have finishedToo : ((requests side).advance (Stores.collaborators runs) steps
      ((requests side).start stores)).hasEnded = true :=
    (congrArg Run.hasEnded same).symm.trans ((hasEnded_iff _).mp ended side)
  have shared : ((start requests stores).turns (Stores.collaborators runs) requests sides).state =
      state := congrArg (fun run : Run Stores => run.progress.state) same
  rw [CycleRequest.advance_unique finishedToo finished, reached] at related
  rw [shared]
  exact related

omit texts apart in
/-- What is found of a rule in a context that is apart from both cycles stays as it was. -/
theorem Crossing.turns_finds (distinct : catalogue.names.Nodup) {rule : Rule}
    (member : rule ∈ catalogue.rules) {observer : Context}
    (outside : ∀ side, (observer.forScope rule.scope).ApartFrom
      ((requests side).context.forScope rule.scope))
    (sound : stores.IsSound) (sides : List Side) :
    ((start requests stores).turns (Stores.collaborators runs) requests
        sides).state.achievements.find
      (Ledger.queryOf (.text rule.name) (observer.forScope rule.scope).boundValues) =
    stores.achievements.find
      (Ledger.queryOf (.text rule.name) (observer.forScope rule.scope).boundValues) := by
  refine (turns_state (I := fun state : Stores => state.IsSound ∧
    StillFinds Stores.IsPlain Stores.achievements rule observer (stores.achievements.find _) state)
    ?_ ?_ (start_isOrderly requests stores) ⟨sound, sound.toIsPlain, sound.proper, rfl⟩
    sides).2.finds
  · rintro side progress ⟨sound, found⟩
    rw [Engine.checks_state runs _ _ _ sound.toIsCalm]
    exact ⟨sound, found⟩
  · rintro side awarded candidate progress ⟨sound, found⟩
    have held := inForce side
    subst held
    have known := (fits side).known awarded candidate
    exact ⟨Engine.attempt_isSound runs keyed (fits side).proper known sound,
      attempt_stillFinds (Stores.collaborators_keepLedger runs) distinct keyed member
        ((outside side).symm (fits side).proper) (fits side).proper known found⟩

/-- Whenever both cycles have ended, however they took turns, the totals of every rule are the same.
-/
theorem Crossing.ended_awardedTo (distinct : catalogue.names.Nodup) {rule : Rule}
    (member : rule ∈ catalogue.rules) {observer : Context}
    (resolves : (observer.forScope rule.scope).Resolves) (sound : stores.IsSound)
    {sides others : List Side}
    (ended : ((start requests stores).turns (Stores.collaborators runs) requests
      sides).hasEnded = true)
    (endedToo : ((start requests stores).turns (Stores.collaborators runs) requests
      others).hasEnded = true) :
    ((start requests stores).turns (Stores.collaborators runs) requests
        sides).state.achievements.awardedTo rule observer =
      ((start requests stores).turns (Stores.collaborators runs) requests
        others).state.achievements.awardedTo rule observer := by
  simp only [Ledger.awardedTo, Ledger.total_eq_foldr]
  by_cases outside : ∀ side, (observer.forScope rule.scope).ApartFrom
      ((requests side).context.forScope rule.scope)
  · rw [turns_finds runs inForce keyed fits distinct member outside sound sides,
      turns_finds runs inForce keyed fits distinct member outside sound others]
  · obtain ⟨side, together⟩ := Classical.not_forall.mp outside
    have seen : ∀ fact : Fact, fact.isMatch (Ledger.queryOf (.text rule.name)
        (observer.forScope rule.scope).boundValues) = true →
        catalogue.sees (requests side).context fact = true := by
      intro fact matching
      have within := ((fact.isMatch_iff _ rule.name).mp matching).2
      exact (Catalogue.sees_iff fact).mpr
        ⟨rule, member, within.of_not_apart rfl resolves together⟩
    have left := (ended_seenAlike runs inForce keyed fits texts apart sound ended side).part
    have right := (ended_seenAlike runs inForce keyed fits texts apart sound endedToo side).part
    have found := congrArg (List.map Fact.count) (Ledger.find_alike seen (left.symm.trans right))
    simp only [List.map_map] at found
    exact congrArg (List.foldr (· + ·) 0) found

end Crossings

namespace Crossing

/-- Whether each rule that was within its cap is no more than one award above it, and within it for
each context that is apart from one of the two cycles. -/
def NearCaps (catalogue : Catalogue) (requests : Side → CycleRequest) (stores : Stores)
    (crossing : Crossing Stores) : Prop :=
  ∀ rule ∈ catalogue.rules, ∀ observer : Context,
    Value.entriesProper observer.attributes = true → (observer.forScope rule.scope).Resolves →
    ∃ before after : Int,
      (awardedAmount Stores.lookup (observer.forScope rule.scope) rule.name stores).1 =
        .answer (.integer before) ∧
      (awardedAmount Stores.lookup (observer.forScope rule.scope) rule.name crossing.state).1 =
        .answer (.integer after) ∧
      (before ≤ rule.maxAwarded → after ≤ rule.maxAwarded + 1 ∧
        ((∃ side, (observer.forScope rule.scope).ApartFrom
          ((requests side).context.forScope rule.scope)) → after ≤ rule.maxAwarded))

/-- Whether all amounts awarded are those of one cycle after the other, whichever goes first. -/
def IsSerial (catalogue : Catalogue) (requests : Side → CycleRequest) (runs : Bool)
    (stores : Stores) (crossing : Crossing Stores) : Prop :=
  ∀ side, ∀ rule ∈ catalogue.rules, ∀ observer : Context,
    (observer.forScope rule.scope).Resolves →
    (awardedAmount Stores.lookup (observer.forScope rule.scope) rule.name crossing.state).1 =
      (awardedAmount Stores.lookup (observer.forScope rule.scope) rule.name
        (runHistory (Stores.collaborators runs) [requests side, requests side.other] stores)).1

/-- However two cycles over a loaded catalogue take turns on sound stores, no rule overshoots its
cap by more than one award. If the catalogue keeps their contexts apart, all amounts end as if one
had run after the other.

Proof: the total and what is pending never pass the cap by more than the allowance, along any row of
turns. The allowance is one award if the rule shares its records with both cycles, and none
otherwise. Contexts that are kept apart have cycles that end in the same totals however they take
turns, and one cycle after the other is a way of taking turns. -/
theorem turns_nearCaps_isSerial {strictness : Strictness} {document : Value} {loaded : Loaded}
    (loading : Catalogue.load strictness document = .ok loaded) {requests : Side → CycleRequest}
    (inForce : ∀ side, (requests side).engine.catalogue = loaded.catalogue)
    (fits : ∀ side, (requests side).Fits loaded.catalogue.rules)
    (texts : ∀ side, AreTexts (Entries.keys (requests side).context.attributes))
    {stores : Stores} (sound : stores.IsSound) (runs : Bool) (sides : List Side) :
    let crossing := (start requests stores).turns (Stores.collaborators runs) requests sides
    crossing.NearCaps loaded.catalogue requests stores ∧
      (loaded.catalogue.KeepsApart (requests .first).context (requests .second).context →
        crossing.hasEnded = true → crossing.IsSerial loaded.catalogue requests runs stores) := by
  intro crossing
  have distinct := Catalogue.load_names_nodup loading
  have keyed := Catalogue.load_keyed loading
  have amount : ∀ {stores : Stores} {rule : Rule} {observer : Context}, stores.IsSound →
      (observer.forScope rule.scope).Resolves →
      (awardedAmount Stores.lookup (observer.forScope rule.scope) rule.name stores).1 =
        .answer (.integer (stores.achievements.awardedTo rule observer)) :=
    fun sound resolves => congrArg Prod.fst (awardedAmount_eq sound.achievements
      (fun query => sound.toIsPlain.lookup .achievement query) resolves)
  have soundToo : crossing.state.IsSound := turns_isSound runs inForce keyed fits sound sides
  constructor
  · intro rule member observer proper resolves
    have bounded : ∀ allowance : Int, 0 ≤ allowance →
        ((∀ side, rule.Shares observer (requests side).context) → 1 ≤ allowance) →
        stores.achievements.awardedTo rule observer ≤ rule.maxAwarded →
        crossing.state.achievements.awardedTo rule observer ≤ rule.maxAwarded + allowance :=
      fun allowance nonnegative both within => ((Overshoots.start sound within nonnegative).turns
        runs inForce distinct keyed (Catalogue.load_capped loading) fits texts member resolves
        proper nonnegative both sides).total_le
    refine ⟨_, _, amount sound resolves, amount soundToo resolves, fun within => ⟨?_, ?_⟩⟩
    · exact bounded 1 (by decide) (fun _ => Int.le_refl 1) within
    · rintro ⟨side, apart⟩
      have whole := bounded 0 (by decide) (fun both => absurd apart (both side).2) within
      rwa [Int.add_zero] at whole
  · intro apart ended side rule member observer resolves
    have eitherApart : ∀ side : Side, loaded.catalogue.KeepsApart (requests side).context
        (requests side.other).context :=
      Side.first.forall_of apart fun one known other knownToo =>
        (apart other knownToo one known).symm (fits .second).proper
    obtain ⟨others, endedToo, serial⟩ :=
      turns_serial (Stores.collaborators runs) requests side stores
    have soundSerial := turns_isSound runs inForce keyed fits sound others
    rw [← serial, amount soundToo resolves, amount soundSerial resolves,
      ended_awardedTo runs inForce keyed fits texts eitherApart distinct member resolves sound
        ended endedToo]

/-- Two cycles over the sample catalogue for two subjects, taking turns, end as if one had run after
the other. -/
theorem sample_isSerial :
    let requests : Side → CycleRequest := fun side =>
      ⟨⟨Catalogue.sample, 10, none, none⟩, Context.of (match side with
        | .first => .integer 1
        | .second => .integer 2) [] defaultScope, Catalogue.sample.rules⟩
    let crossing := (start requests Stores.sample).turns (Stores.collaborators true) requests
      (List.replicate 16 [Side.first, Side.second]).flatten
    crossing.hasEnded = true ∧ crossing.NearCaps Catalogue.sample requests Stores.sample ∧
      crossing.IsSerial Catalogue.sample requests true Stores.sample := by
  intro requests crossing
  have inForce : ∀ side, (requests side).engine.catalogue = Catalogue.sample := fun _ => rfl
  have fits : ∀ side, (requests side).Fits Catalogue.sample.rules := fun side =>
    ⟨fun _ => id, Catalogue.rules_nodup (Catalogue.load_names_nodup Catalogue.load_sample), by
      cases side <;> rfl⟩
  have texts : ∀ side, AreTexts (Entries.keys (requests side).context.attributes) :=
    fun side key member => ⟨subjectKey, by cases side <;> exact List.mem_singleton.mp member⟩
  have sound : Stores.sample.IsSound := by
    refine ⟨Stores.sample_calm, fun fact member => ?_⟩
    rw [List.mem_singleton.mp member]
    rfl
  have scopes : ∀ rule ∈ Catalogue.sample.rules, subjectKey ∈ rule.scope := by decide
  have apart : Catalogue.sample.KeepsApart (requests .first).context (requests .second).context :=
    fun one member other memberToo => ⟨subjectKey, scopes one member, scopes other memberToo,
      by decide, .integer 1, .integer 2, rfl, rfl, rfl⟩
  have ended : crossing.hasEnded = true := by decide +kernel
  obtain ⟨near, serial⟩ := turns_nearCaps_isSerial Catalogue.load_sample inForce fits texts sound
    true (List.replicate 16 [Side.first, Side.second]).flatten
  exact ⟨ended, near, serial apart ended⟩

end Crossing

/-- A document with a rule that is awarded once. -/
def onceDocument : Value :=
  .mapping [(.text "achievements", .mapping [(.text "Once", .mapping [])])]

/-- The catalogue of that rule. -/
def onceCatalogue : Catalogue := ⟨[⟨"Once", .allOf [], [], 1, defaultScope, [], false⟩]⟩

/-- Two cycles for one subject that both check the rule before either awards it award it twice,
although each of them finds it below its cap, and one after the other they award it once. -/
theorem once_overshoots :
    let context := Context.of (.text "u") [] defaultScope
    let requests : Side → CycleRequest := fun _ =>
      ⟨⟨onceCatalogue, 10, none, none⟩, context, onceCatalogue.rules⟩
    let stores := Stores.of [] [] []
    let crossing := (Crossing.start requests stores).turns (Stores.collaborators true) requests
      (List.replicate 6 [Side.first, Side.second]).flatten
    Catalogue.load .strict onceDocument = .ok ⟨onceCatalogue, []⟩ ∧
      onceCatalogue.rules.map (·.maxAwarded) = [1] ∧ crossing.hasEnded = true ∧
      (awardedAmount Stores.lookup context "Once" stores).1 = .answer (.integer 0) ∧
      (awardedAmount Stores.lookup context "Once" crossing.state).1 = .answer (.integer 2) ∧
      ∀ side, (awardedAmount Stores.lookup context "Once" (runHistory (Stores.collaborators true)
        [requests side, requests side.other] stores)).1 = .answer (.integer 1) := by
  intro context requests stores crossing
  exact ⟨rfl, rfl, by decide +kernel, Reply.eq_of_whole? (by decide +kernel),
    Reply.eq_of_whole? (by decide +kernel), fun _ => Reply.eq_of_whole? (by decide +kernel)⟩

end Accolade
