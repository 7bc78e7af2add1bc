import Accolade.Cycle.History
import Accolade.Proofs.Catalogue.Loader
import Accolade.Proofs.Cycle.Process
import Accolade.Proofs.Fact.Stores
import Accolade.Proofs.Fact.Totals

/-!
# Caps over histories

No rule is ever awarded above its cap, in no context, whatever the history of cycles and
whichever writes fail. A check compares with the cap what was awarded at the start of the
pass; the award comes later, after other awards and retractions. Neither raises the total of
the rule in between: awards of other rules write under other names, and retractions only
lower totals.

What a cycle asks of experience and events does not enter into it, so these may change between
cycles in any way.

A check counts the records that lie within the scope of its context, while an award writes a
record of exactly that scope. The record may lie within the scope of another context too,
one that was never checked. But then all that counts there counts in the first context as
well, so the total there was below the cap before the award, too.
-/

namespace Accolade

/-- Whether a cycle runs rules that are known, each at most once, for a context in which no
mapping or set holds a key twice. -/
structure CycleRequest.Fits (rules : List Rule) (request : CycleRequest) : Prop where
  known : ∀ rule ∈ request.candidates, rule ∈ rules
  distinct : request.candidates.Nodup
  proper : Value.entriesProper request.context.attributes = true

namespace Fact

/-- If a record lies in one context, and its values under the scope keys are those of another
context with the same scope, then whatever lies in the first lies in the second. -/
theorem LiesIn.carry {written fact : Fact} {context other : Context}
    (within : fact.LiesIn other) (keys : context.scope = other.scope)
    (proper : Value.entriesProper written.scope = true)
    (bound : ∀ key ∈ context.scope, key ≠ nameKey → ∀ value held,
      Entries.field? context.attributes key = some value →
      Entries.field? written.scope key = some held → held = value ∨ held.equals value = true)
    (resolves : other.Resolves) (shared : written.LiesIn other) :
    fact.LiesIn context := by
  intro key inside different value given
  have present : key ∈ other.scope := keys ▸ inside
  obtain ⟨expected, known⟩ := Option.isSome_iff_exists.mp (resolves key present)
  obtain ⟨held, stored, alike⟩ := shared key present different expected known
  obtain ⟨own, found, equal⟩ := within key present different expected known
  have heldProper : held.isProper = true := by
    obtain ⟨place, member, _⟩ := Entries.mem_of_find stored
    exact (Value.entriesProper_iff written.scope).mp proper _ member
  have joined : own.equals held = true :=
    Value.equals_trans equal (Value.equals_symm heldProper alike)
  refine ⟨own, found, ?_⟩
  rcases bound key inside different value held given stored with rfl | further
  · exact joined
  · exact Value.equals_trans joined further

end Fact

namespace Ledger

/-- Whether the total of each rule is within its cap in each context that resolves its scope,
over amounts that are counted and not negative and scopes that are proper. -/
structure KeepsCaps (rules : List Rule) (ledger : Ledger) : Prop where
  counted : ledger.IsCounted
  nonnegative : ∀ fact ∈ ledger, 0 ≤ fact.count
  proper : ∀ fact ∈ ledger, Value.entriesProper fact.scope = true
  capped : ∀ rule ∈ rules, ∀ context : Context, (context.forScope rule.scope).Resolves →
    ledger.awardedTo rule context ≤ rule.maxAwarded

/-- Whether a rule may still be awarded in a context. -/
def HasRoom (context : Context) (ledger : Ledger) (rule : Rule) : Prop :=
  (context.forScope rule.scope).Resolves ∧ ledger.awardedTo rule context < rule.maxAwarded

section Award

variable {rule : Rule} {context : Context} {ledger later : Ledger} {written : Fact}
  (awarded : Awarded (.text rule.name) (context.forScope rule.scope).boundValues ledger written
    later)
include awarded

/-- The values of the record that an award writes are those of the context of the award. -/
theorem Awarded.written_bound : ∀ key ∈ rule.scope, key ≠ nameKey → ∀ value held,
    Entries.field? context.attributes key = some value →
    Entries.field? written.scope key = some held → held = value ∨ held.equals value = true := by
  intro key inside different value held given stored
  rcases awarded.origin with ⟨old, _, holding, rfl⟩ | rfl
  · simp only [holdsTotal, Bool.and_eq_true] at holding
    obtain ⟨_, lying⟩ := (old.isMatch_iff (context.forScope rule.scope) rule.name).mp holding.1
    obtain ⟨found, present, equal⟩ := lying key inside different value given
    have one : found = held := Option.some.inj (present.symm.trans stored)
    exact .inr (one ▸ equal)
  · exact .inl (Option.some.inj ((Context.field?_boundValues stored).symm.trans given))

/-- In a context that the record written lies in, no more counted before the award than in the
context of the award. -/
theorem Awarded.awardedTo_le (nonnegative : ∀ fact ∈ ledger, 0 ≤ fact.count)
    (proper : Value.entriesProper written.scope = true) {other : Context}
    (resolves : (other.forScope rule.scope).Resolves)
    (shared : written.LiesIn (other.forScope rule.scope)) :
    ledger.awardedTo rule other ≤ ledger.awardedTo rule context := by
  refine total_mono nonnegative fun fact _ counts => ?_
  obtain ⟨called, within⟩ := (fact.isMatch_iff (other.forScope rule.scope) rule.name).mp counts
  refine (fact.isMatch_iff (context.forScope rule.scope) rule.name).mpr ⟨called, ?_⟩
  have carried : fact.LiesIn (context.forScope rule.scope) :=
    within.carry rfl proper awarded.written_bound resolves shared
  exact carried

/-- An award of a rule that has room keeps the caps. In a context that the record written
does not lie in nothing changes; in any other context all that counts has counted in the
context of the award, where there was room. -/
theorem Awarded.keepsCaps {rules : List Rule}
    (named : ∀ other ∈ rules, other.name = rule.name → other = rule)
    (keeping : ledger.KeepsCaps rules) (room : HasRoom context ledger rule)
    (proper : Value.entriesProper context.attributes = true) : later.KeepsCaps rules := by
  have own : Value.entriesProper (context.forScope rule.scope).boundValues = true :=
    Context.boundValues_proper proper
  have laterProper : ∀ fact ∈ later, Value.entriesProper fact.scope = true :=
    awarded.scopes (P := fun scope => Value.entriesProper scope = true) keeping.proper own
  refine ⟨awarded.counted keeping.counted, awarded.nonnegative keeping.nonnegative, laterProper,
    ?_⟩
  intro other member otherContext resolves
  have before := keeping.capped other member otherContext resolves
  by_cases different : other.name ≠ rule.name
  · rw [awarded.awardedTo_other different otherContext]
    exact before
  · have same : other = rule := named other member (Decidable.not_not.mp different)
    subst same
    have after := awarded.total
      (queryOf (.text other.name) (otherContext.forScope other.scope).boundValues)
    by_cases matching : written.isMatch
        (queryOf (.text other.name) (otherContext.forScope other.scope).boundValues) = true
    · have shared : written.LiesIn (otherContext.forScope other.scope) :=
        ((written.isMatch_iff _ other.name).mp matching).2
      have least : ledger.awardedTo other otherContext ≤ ledger.awardedTo other context :=
        awarded.awardedTo_le keeping.nonnegative (laterProper written awarded.written_mem) resolves
          shared
      have spare : ledger.awardedTo other context < other.maxAwarded := room.2
      rw [matching] at after
      simp only [awardedTo] at least spare ⊢
      simp only [if_true] at after
      omega
    · simp only [matching, Bool.false_eq_true, if_false, Int.add_zero] at after
      simp only [awardedTo] at before ⊢
      omega

end Award

section Retraction

variable {rules : List Rule} {ledger : Ledger} (keeping : ledger.KeepsCaps rules)
  (subject name : Value) (scope : Entries)
include keeping

/-- A retraction raises no total: it sets amounts that are not negative to zero. -/
theorem KeepsCaps.awardedTo_retract (rule : Rule) (context : Context) :
    (ledger.retractAward subject name scope).awardedTo rule context ≤
      ledger.awardedTo rule context :=
  total_retractAward_le ledger subject name scope keeping.nonnegative _

/-- A retraction keeps the caps, since it raises no total and leaves the scopes of the records. -/
theorem KeepsCaps.retract : (ledger.retractAward subject name scope).KeepsCaps rules where
  counted := retractAward_counted subject name scope keeping.counted
  nonnegative := retractAward_nonnegative subject name scope keeping.nonnegative
  proper := retractAward_scopes subject name scope (P := fun scope =>
    Value.entriesProper scope = true) keeping.proper
  capped rule member context resolves :=
    Int.le_trans (keeping.awardedTo_retract subject name scope rule context)
      (keeping.capped rule member context resolves)

end Retraction

end Ledger

section Cycle

variable {σ : Type} {collaborators : Collaborators σ} {ready : σ → Prop} {ledger : σ → Ledger}
  {rules : List Rule} {engine : Engine} {context : Context} {candidates : List Rule}

/-- Whether a state is ready and its ledger keeps the caps. -/
structure KeepsCaps (ready : σ → Prop) (ledger : σ → Ledger) (rules : List Rule) (state : σ) :
    Prop where
  ready : ready state
  caps : (ledger state).KeepsCaps rules

/-- What is known of the outcomes still to be awarded in a pass: they are of different rules,
and each that is to be awarded is of a rule that has room. -/
structure RoomsLeft (ledger : σ → Ledger) (rules : List Rule) (context : Context)
    (items : List (Rule × Outcome)) (state : σ) : Prop where
  distinct : (items.map (·.1.name)).Nodup
  rooms : ∀ item ∈ items, item.1 ∈ rules ∧
    (item.2.shouldAward = true → Ledger.HasRoom context (ledger state) item.1)

/-- Outcomes that are passed over leave the rooms of the others as they were. -/
theorem RoomsLeft.tail {item : Rule × Outcome} {rest : List (Rule × Outcome)} {state : σ}
    (left : RoomsLeft ledger rules context (item :: rest) state) :
    RoomsLeft ledger rules context rest state where
  distinct := (List.nodup_cons.mp left.distinct).2
  rooms other member := left.rooms other (List.mem_cons_of_mem item member)

/-- The rooms of outcomes stay where the totals of their rules do not rise. -/
theorem RoomsLeft.lower {items : List (Rule × Outcome)} {state next : σ}
    (left : RoomsLeft ledger rules context items state)
    (least : ∀ item ∈ items,
      (ledger next).awardedTo item.1 context ≤ (ledger state).awardedTo item.1 context) :
    RoomsLeft ledger rules context items next where
  distinct := left.distinct
  rooms item member := by
    obtain ⟨known, room⟩ := left.rooms item member
    refine ⟨known, fun chosen => ?_⟩
    obtain ⟨resolves, below⟩ := room chosen
    exact ⟨resolves, Int.lt_of_le_of_lt (least item member) below⟩

/-- A state with the same ledger keeps the caps and the rooms, as both are read off the ledger. -/
theorem KeepsCaps.same {items : List (Rule × Outcome)} {state next : σ}
    (holding : KeepsCaps ready ledger rules state ∧ RoomsLeft ledger rules context items state)
    (prepared : ready next) (same : ledger next = ledger state) :
    KeepsCaps ready ledger rules next ∧ RoomsLeft ledger rules context items next :=
  ⟨⟨prepared, same ▸ holding.1.caps⟩,
    holding.2.lower fun item _ => Int.le_of_eq (congrArg (·.awardedTo item.1 context) same)⟩

variable (keeps : collaborators.KeepsLedger ready ledger)
  (names : ∀ first ∈ rules, ∀ second ∈ rules, first.name = second.name → first = second)
  (keyed : ∀ rule ∈ rules, rule.scope ≠ [])
include keeps

omit keeps in
/-- A rule that a check found due has room, since the check compared its total with the cap in this
very state. -/
theorem hasRoom_of_check {state : σ} {rule : Rule} (well : KeepsCaps ready ledger rules state)
    (still : collaborators.lookup.IsStill state)
    (reads : ∀ query, collaborators.lookup .achievement query state =
      (.answer ((ledger state).find query), state))
    (checked : (rule.check collaborators.lookup context state).1 = .answer (true, true)) :
    Ledger.HasRoom context (ledger state) rule := by
  have below := ((Rule.check_true still rule).mp checked).2
  have resolves : (context.forScope rule.scope).Resolves := by
    unfold Rule.canBeAwarded at below
    split at below
    · rename_i total _ told
      exact resolves_of_awardedAmount (congrArg Prod.fst told)
    all_goals contradiction
  refine ⟨resolves, ?_⟩
  simp only [Rule.canBeAwarded, awardedAmount_eq well.caps.counted reads resolves,
    AmountTest.less_holds, Reply.answer.injEq, decide_eq_true_eq] at below
  exact below

include names keyed

/-- An attempt to award the first of the outcomes left keeps the caps, and the others keep
their rooms.

Proof: go through the writes of an attempt. The award itself uses up the room of its rule and of no
other, since names are distinct; retractions only lower totals, and actions write no awards. -/
theorem attempt_keepsCaps (proper : Value.entriesProper context.attributes = true) {rule : Rule}
    {outcome : Outcome} {rest : List (Rule × Outcome)} {progress : Progress σ}
    (chosen : outcome.shouldAward = true) (well : KeepsCaps ready ledger rules progress.state)
    (left : RoomsLeft ledger rules context ((rule, outcome) :: rest) progress.state) :
    KeepsCaps ready ledger rules (engine.attempt collaborators context rule progress).2.state ∧
      RoomsLeft ledger rules context rest
        (engine.attempt collaborators context rule progress).2.state := by
  obtain ⟨known, room⟩ := left.rooms (rule, outcome) List.mem_cons_self
  obtain ⟨absent, _⟩ := List.nodup_cons.mp left.distinct
  refine Engine.attempt_state
    (I := fun state => KeepsCaps ready ledger rules state ∧
      RoomsLeft ledger rules context rest state)
    ?_ ?_ ?_ ⟨well, left.tail⟩
  · intro resolves
    obtain ⟨result, next, called, prepared, done⟩ := keeps.records context.subject rule.name
      (context.forScope rule.scope).boundValues progress.state well.ready
    rw [called]
    rcases done with ⟨_, _, same⟩ | ⟨fact, _, recorded⟩
    · exact KeepsCaps.same ⟨well, left.tail⟩ prepared same
    · obtain ⟨written, after, outcomeOf, awarded⟩ := Ledger.recordAward_awarded well.caps.counted
        context.subject (.text rule.name) (context.forScope rule.scope).boundValues
      rw [recorded] at outcomeOf
      obtain ⟨rfl, rfl⟩ := Prod.mk.inj (Except.ok.inj outcomeOf)
      have full : (context.forScope rule.scope).boundValues ≠ [] :=
        Context.boundValues_ne_nil resolves (keyed rule known)
      rw [Ledger.awardScope_of_ne_nil context.subject full] at awarded
      refine ⟨⟨prepared, awarded.keepsCaps (fun other member => names other member rule known)
        well.caps (room chosen) proper⟩, left.tail.lower fun item member => ?_⟩
      have different : item.1.name ≠ rule.name :=
        fun same => absent (List.mem_map.mpr ⟨item, member, same⟩)
      exact Int.le_of_eq (awarded.awardedTo_other different context)
  · rintro target _ _ state ⟨kept, spare⟩
    obtain ⟨result, next, called, prepared, done⟩ :=
      keeps.retracts context.subject target _ state kept.ready
    rw [called]
    rcases done with ⟨_, _, same⟩ | ⟨_, cleared⟩
    · exact KeepsCaps.same ⟨kept, spare⟩ prepared same
    · exact ⟨⟨prepared, cleared ▸ kept.caps.retract context.subject (.text target) _⟩,
        spare.lower fun item _ => cleared ▸
          kept.caps.awardedTo_retract context.subject (.text target) _ item.1 context⟩
  · intro run given actions within state holding
    obtain ⟨prepared, same⟩ := keeps.invokes run given actions within state holding.1.ready
    exact KeepsCaps.same holding prepared same

/-- A cycle keeps the caps. Its checks only read, and each rule is attempted at most once in a pass,
so the room that its check found is still there.

Proof: the invariant within a pass is that each item left still has the room that its check found.
The checks give it, as they move nothing; an attempt keeps it for the items behind, which are of
other rules. -/
theorem process_keepsCaps (proper : Value.entriesProper context.attributes = true)
    (distinct : candidates.Nodup) (known : ∀ rule ∈ candidates, rule ∈ rules) {state : σ}
    (well : KeepsCaps ready ledger rules state) :
    KeepsCaps ready ledger rules
      (engine.process collaborators context candidates state).2.state := by
  have unmoved : ∀ progress : Progress σ, KeepsCaps ready ledger rules progress.state →
      (engine.checks collaborators context candidates progress).2.2.state = progress.state :=
    fun progress kept =>
      Engine.checks_moves (keeps.still progress.state kept.ready).moves rfl
  refine Engine.process_induction
    (I := fun progress => KeepsCaps ready ledger rules progress.state) (fun progress kept => ?_)
    (fun _ _ _ => id) well
  refine Engine.pass_induction
    (P := fun items progress => KeepsCaps ready ledger rules progress.state ∧
      RoomsLeft ledger rules context items progress.state)
    (fun progress kept => (unmoved progress kept).symm ▸ kept) ?_ ?_ ?_
    (fun _ _ kept => kept.1) kept
  · intro progress kept complete
    have listed := Engine.checks_rules complete
    have still := keeps.still progress.state kept.ready
    have chosenFrom : ((engine.checks collaborators context candidates progress).2.1.map
        Prod.fst).Sublist candidates := listed ▸ List.filter_sublist
    rw [unmoved progress kept]
    refine ⟨kept, ?_, ?_⟩
    · have ordered : ((engine.checks collaborators context candidates progress).2.1.map
          fun item => item.1.name).Sublist (candidates.map Rule.name) := by
        simpa [Function.comp_def] using chosenFrom.map Rule.name
      refine ordered.nodup (List.pairwise_map.mpr (distinct.imp_of_mem ?_))
      intro first second one two different same
      exact different (names first (known first one) second (known second two) same)
    · rintro ⟨rule, outcome⟩ member
      have among : rule ∈ candidates :=
        chosenFrom.subset (List.mem_map.mpr ⟨(rule, outcome), member, rfl⟩)
      refine ⟨known rule among, fun chosen => ?_⟩
      obtain ⟨later, reached, checked⟩ := Engine.checks_shouldAward still.moves member chosen
      rw [reached rfl] at checked
      exact hasRoom_of_check kept still (fun query => keeps.reads query progress.state kept.ready)
        checked
  · rintro item rest progress ⟨kept, left⟩
    exact ⟨kept, left.tail⟩
  · rintro rule outcome rest progress chosen _ ⟨kept, left⟩
    exact attempt_keepsCaps keeps names keyed proper chosen kept left

end Cycle

namespace Stores

/-- Whether the amount awarded of each rule is within its cap, in each context that resolves
the scope of the rule. -/
def WithinCaps (catalogue : Catalogue) (stores : Stores) : Prop :=
  ∀ rule ∈ catalogue.rules, ∀ context : Context, (context.forScope rule.scope).Resolves →
    ∃ total ≤ rule.maxAwarded,
      (awardedAmount Stores.lookup (context.forScope rule.scope) rule.name stores).1 =
        .answer (.integer total)

/-- In plain stores the amounts awarded are the totals of the achievements. -/
theorem withinCaps_iff {catalogue : Catalogue} {stores : Stores} (plain : stores.IsPlain)
    (counted : stores.achievements.IsCounted) :
    stores.WithinCaps catalogue ↔
      ∀ rule ∈ catalogue.rules, ∀ context : Context, (context.forScope rule.scope).Resolves →
        stores.achievements.awardedTo rule context ≤ rule.maxAwarded := by
  refine forall_congr' fun rule => forall_congr' fun _ => forall_congr' fun context =>
    forall_congr' fun resolves => ?_
  rw [awardedAmount_eq counted (fun query => plain.lookup .achievement query) resolves]
  constructor
  · rintro ⟨total, below, told⟩
    cases told
    exact below
  · exact fun below => ⟨_, below, rfl⟩

/-- Whether plain stores hold natural amounts under proper scopes, and no amount awarded is above
its cap. -/
structure HoldsCaps (catalogue : Catalogue) (stores : Stores) : Prop where
  plain : stores.IsPlain
  amounts : ∀ fact ∈ stores.achievements, ∃ amount : Nat,
    fact.amount.whole? = some (amount : Int)
  proper : ∀ fact ∈ stores.achievements, Value.entriesProper fact.scope = true
  within : stores.WithinCaps catalogue

/-- Stores hold the caps of a catalogue exactly when they are plain and keep the caps of its rules,
which every step of a cycle leaves so. -/
theorem holdsCaps_iff {catalogue : Catalogue} {stores : Stores} :
    stores.HoldsCaps catalogue ↔
      KeepsCaps IsPlain (·.achievements) catalogue.rules stores := by
  have natural : ∀ fact : Fact, (∃ amount : Nat, fact.amount.whole? = some (amount : Int)) ↔
      fact.amount.whole?.isSome = true ∧ 0 ≤ fact.count := by
    intro fact
    cases known : fact.amount.whole? with
    | none => simp
    | some amount =>
      simp only [Fact.count, known, Option.some.injEq, Option.isSome_some, Option.getD_some,
        true_and]
      refine ⟨?_, Int.eq_ofNat_of_zero_le⟩
      rintro ⟨natural, rfl⟩
      exact Int.natCast_nonneg natural
  constructor
  · rintro ⟨plain, amounts, proper, within⟩
    have counted : stores.achievements.IsCounted := fun fact member =>
      ((natural fact).mp (amounts fact member)).1
    exact ⟨plain, counted, fun fact member => ((natural fact).mp (amounts fact member)).2, proper,
      (withinCaps_iff plain counted).mp within⟩
  · rintro ⟨plain, counted, nonnegative, proper, capped⟩
    exact ⟨plain, fun fact member =>
      (natural fact).mpr ⟨counted fact member, nonnegative fact member⟩, proper,
      (withinCaps_iff plain counted).mpr capped⟩

/-- No history of cycles over a loaded catalogue takes an amount awarded above its cap, for whomever
they are, whatever experience and events they come upon, and in whatever way calls of the award
writer fail on the way. What was asked of the stores at the start holds of those that are left, so
any further history may follow. -/
theorem holdsCaps_failingAfter {strictness : Strictness} {document : Value} {loaded : Loaded}
    (loading : Catalogue.load strictness document = .ok loaded) {stores : Stores}
    (holds : stores.HoldsCaps loaded.catalogue) {visits : List Visit}
    (fitting : ∀ visit ∈ visits, visit.request.Fits loaded.catalogue.rules) (runsActions : Bool)
    (pattern : Nat → Option Failure) (calls : Nat) :
    (Visit.failingAfter runsActions pattern visits (stores, calls)).1.HoldsCaps
      loaded.catalogue := by
  have distinct := Catalogue.load_names_nodup loading
  rw [holdsCaps_iff] at holds ⊢
  have ended : KeepsCaps (fun state : Stores × Nat => state.1.IsPlain)
      (fun state => state.1.achievements) loaded.catalogue.rules
      (Visit.failingAfter runsActions pattern visits (stores, calls)) := by
    refine Visit.runEach_induction (fun visit _ state kept => ?_)
      (fun visit inside state kept => ?_) ⟨holds.ready, holds.caps⟩
    · exact ⟨⟨kept.ready.faultless, kept.ready.shared⟩, kept.caps⟩
    · obtain ⟨known, once, proper⟩ := fitting visit inside
      exact process_keepsCaps ((collaborators_keepLedger runsActions).failing pattern)
        (fun first one second two => Catalogue.eq_of_name distinct one two)
        (Catalogue.load_keyed loading) proper once known kept
  exact ⟨ended.ready, ended.caps⟩

/-- A document with a rule that is awarded for having seen a match, at most twice. -/
def fanDocument : Value :=
  .mapping [(.text "achievements", .mapping [
    (.text "Fan", .mapping [(.text "maxAwarded", .integer 2),
      (.text "requirements", .list [.mapping [(.text "event", .text "Match")]])])])]

/-- The catalogue of that rule. -/
def fanCatalogue : Catalogue :=
  ⟨[⟨"Fan", .allOf [.event "Match" (.atLeast 1) none], [], 2, defaultScope, [], false⟩]⟩

/-- A cycle of that rule for one subject, coming upon so many matches. -/
def fanVisit (seen : Nat) : Visit where
  request := ⟨⟨fanCatalogue, 3, none, none⟩, .of (.text "ada") [] defaultScope, fanCatalogue.rules⟩
  experience := []
  events := List.replicate seen
    ⟨.text "Match", .integer 1, [(.text subjectKey, .text "ada")], [], none⟩

/-- A fan who comes before there is any match is not awarded. The next award is lost. The two after
it reach the cap, and further matches bring no more. -/
theorem fan_holdsCaps :
    let visits := [fanVisit 0, fanVisit 1, fanVisit 1, fanVisit 2]
    let pattern : Nat → Option Failure := fun call =>
      if call = 0 then some (.foreign "lost") else none
    let ended := (Visit.failingAfter true pattern visits (Stores.of [] [] [], 0)).1
    Catalogue.load .strict fanDocument = .ok ⟨fanCatalogue, []⟩ ∧
      (Stores.of [] [] []).HoldsCaps fanCatalogue ∧ ended.HoldsCaps fanCatalogue ∧
      (awardedAmount Stores.lookup (.of (.text "ada") [] defaultScope) "Fan" ended).1 =
        .answer (.integer 2) := by
  intro visits pattern ended
  have loading : Catalogue.load .strict fanDocument = .ok ⟨fanCatalogue, []⟩ := rfl
  have holds : (Stores.of [] [] []).HoldsCaps fanCatalogue := by
    rw [holdsCaps_iff]
    refine ⟨⟨rfl, rfl⟩, ⟨by simp [Stores.of, Ledger.IsCounted], by simp [Stores.of],
      by simp [Stores.of], ?_⟩⟩
    intro rule member context _
    rw [List.mem_singleton.mp member]
    exact (by decide : (0 : Int) ≤ 2)
  have fits : ∀ visit ∈ visits, visit.request.Fits fanCatalogue.rules := by
    have each : ∀ seen, (fanVisit seen).request.Fits fanCatalogue.rules := fun _ =>
      ⟨fun rule member => member,
        Catalogue.rules_nodup (Catalogue.load_names_nodup loading), rfl⟩
    simp [visits, each]
  exact ⟨loading, holds, holdsCaps_failingAfter loading holds fits true pattern 0,
    Reply.eq_of_whole? (by decide +kernel)⟩

end Stores

end Accolade
