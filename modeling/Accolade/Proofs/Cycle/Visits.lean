import Accolade.Cycle.History
import Accolade.Proofs.Cycle.WriteScopes
import Accolade.Proofs.Fact.Postings

/-!
# The awards that visits leave

Where the ledger of awards starts empty and nothing but cycles over one catalogue writes to it, it
tells of all their postings, whoever they were for and whatever experience and events they came
upon. A cycle asks for postings to the scopes of rules in force only, with the attributes of its
context as values; if these equal themselves, the ledger takes every posting.
-/

namespace Accolade

/-- Whether the values of all attributes equal themselves: their mappings hold each key once, and
there is no number without a place in them. -/
def Context.IsDefinite (context : Context) : Prop :=
  ∀ entry ∈ context.attributes, entry.2.isProper = true ∧ entry.2.isDefinite = true

/-- The address of an award with the scope values of such a context is clean. -/
theorem Context.IsDefinite.address_clean {context : Context} (definite : context.IsDefinite)
    (name : String) (scope : List String) :
    let address := Ledger.address (.text name) (context.forScope scope).boundValues
    address.isProper = true ∧ address.isDefinite = true := by
  obtain ⟨distinct, members⟩ := (context.forScope scope).boundValues_entries
  have valued : ∀ entry ∈ (context.forScope scope).boundValues,
      entry.1.isUndefined = false ∧ entry.2.isProper = true ∧ entry.2.isDefinite = true := by
    intro entry inside
    obtain ⟨key, _, value, found, rfl⟩ := (members entry).mp inside
    obtain ⟨place, given, _⟩ := Entries.mem_of_find found
    exact ⟨rfl, definite (place, value) given⟩
  have proper : Value.entriesProper (context.forScope scope).boundValues = true :=
    (Value.entriesProper_iff _).mpr fun entry inside => (valued entry inside).2.1
  have placed : Value.entriesDefinite (context.forScope scope).boundValues = true :=
    (Value.entriesDefinite_iff _).mpr fun entry inside =>
      ⟨(valued entry inside).1, (valued entry inside).2.2⟩
  constructor
  · simp [Ledger.address, Value.isProper, distinct, proper]
  · simp [Ledger.address, Value.isDefinite, Scalar.isUndefined, placed]

namespace Posting

/-- Whether a posting is to the scope of a rule in force, in some context with definite
attributes. -/
def IsRegular (catalogue : Catalogue) (posting : Posting) : Prop :=
  ∃ context : Context, context.IsDefinite ∧ posting.IsScoped catalogue context

variable {catalogue : Catalogue}

/-- A regular posting that adds something adds one award of a rule in force, with its scope
values. -/
theorem IsRegular.addition {posting : Posting} (regular : posting.IsRegular catalogue)
    {address : Value} {amount : Int} (adds : posting.addition? = some (address, amount)) :
    ∃ rule ∈ catalogue.rules, ∃ context : Context, context.IsDefinite ∧
      (context.forScope rule.scope).Resolves ∧
      address = Ledger.address (.text rule.name) (context.forScope rule.scope).boundValues := by
  obtain ⟨context, definite, asked⟩ := regular
  cases asked with
  | @award rule values inForce resolved some =>
    obtain ⟨resolves, rfl⟩ := (Context.scopeValues_eq_ok_iff _ _).mp resolved
    refine ⟨rule, inForce, context, definite, resolves, ?_⟩
    rw [addition?, Ledger.awardScope_of_ne_nil context.subject some] at adds
    exact (Prod.mk.inj (Option.some.inj adds)).1.symm
  | retraction => contradiction

/-- The address of a regular posting is that of a rule in force. -/
theorem mem_addresses {postings : List Posting}
    (regular : ∀ posting ∈ postings, posting.IsRegular catalogue) {address : Value}
    (posted : address ∈ addresses postings) :
    ∃ rule ∈ catalogue.rules, ∃ context : Context, context.IsDefinite ∧
      (context.forScope rule.scope).Resolves ∧
      address = Ledger.address (.text rule.name) (context.forScope rule.scope).boundValues := by
  obtain ⟨posting, member, adds⟩ := List.mem_filterMap.mp posted
  obtain ⟨⟨place, amount⟩, adding, rfl⟩ := Option.map_eq_some_iff.mp adds
  exact (regular posting member).addition adding

/-- Regular postings are clean, since the contexts they were made in are definite. -/
theorem areClean_of_regular {postings : List Posting}
    (regular : ∀ posting ∈ postings, posting.IsRegular catalogue) : AreClean postings := by
  intro address posted
  obtain ⟨rule, _, context, definite, _, rfl⟩ := mem_addresses regular posted
  exact definite.address_clean rule.name rule.scope

end Posting

/-- Whether plain stores hold the awards that some postings to the scopes of rules in force tell
of. -/
structure TellsAwards (catalogue : Catalogue) (state : Stores × List Posting) : Prop where
  plain : state.1.IsPlain
  tells : Ledger.Tells state.2 state.1.achievements
  regular : ∀ posting ∈ state.2, posting.IsRegular catalogue

namespace TellsAwards

variable {catalogue : Catalogue} {state : Stores × List Posting}

/-- Plain stores without awards tell of no postings. -/
theorem empty (catalogue : Catalogue) {stores : Stores} (plain : stores.IsPlain)
    (empty : stores.achievements = []) : TellsAwards catalogue (stores, []) :=
  ⟨plain, empty ▸ .nil, by simp⟩

/-- Stores that tell regular postings take one more, and tell it as well. -/
theorem post (told : TellsAwards catalogue state) {posting : Posting}
    (regular : posting.IsRegular catalogue) :
    ∃ later, state.1.achievements.post posting = .ok later ∧
      TellsAwards catalogue (state.1.withAchievements later, state.2 ++ [posting]) := by
  have all : ∀ posted ∈ state.2 ++ [posting], posted.IsRegular catalogue :=
    List.forall_mem_append.mpr ⟨told.regular, List.forall_mem_singleton.mpr regular⟩
  obtain ⟨later, posted, tells, _⟩ := told.tells.post (Posting.areClean_of_regular all)
  exact ⟨later, posted, told.plain.withAchievements later, tells, all⟩

variable {runs : Bool}

/-- Stores that tell regular postings go on to tell them with a regular award behind them. -/
theorem recordAward (told : TellsAwards catalogue state) {subject : Value} {name : String}
    {scope : Entries} (regular : (Posting.award subject name scope).IsRegular catalogue) :
    TellsAwards catalogue
      ((Stores.collaborators runs).posted.recordAward subject name scope state).2 := by
  obtain ⟨later, posted, next⟩ := told.post regular
  rw [Ledger.post] at posted
  cases recorded : state.1.achievements.recordAward subject (.text name) scope with
  | error failure =>
    rw [recorded] at posted
    contradiction
  | ok outcome =>
    obtain ⟨written, ledger⟩ := outcome
    rw [recorded] at posted
    obtain rfl : ledger = later := Except.ok.inj posted
    simp only [Collaborators.posted, Stores.collaborators, told.plain.recordAward recorded]
    exact next

/-- Stores that tell regular postings go on to tell them with a regular retraction behind them. -/
theorem retractAward (told : TellsAwards catalogue state) {subject : Value} {name : String}
    {scope : Entries} (regular : (Posting.retraction subject name scope).IsRegular catalogue) :
    TellsAwards catalogue
      ((Stores.collaborators runs).posted.retractAward subject name scope state).2 := by
  obtain ⟨later, posted, next⟩ := told.post regular
  obtain rfl := Except.ok.inj posted
  simp only [Collaborators.posted, Stores.collaborators, told.plain.retractAward]
  exact next

/-- Stores go on to tell their postings after a lookup, which writes nothing. -/
theorem lookup (told : TellsAwards catalogue state) (kind : FactKind) (query : Entries) :
    TellsAwards catalogue ((Stores.collaborators runs).posted.lookup kind query state).2 := by
  simp only [Collaborators.posted, Stores.collaborators, told.plain.lookup]
  exact told

/-- Stores go on to tell their postings after actions, which write no awards. -/
theorem invoked (told : TellsAwards catalogue state)
    {run : List Value → Context → Stores × List Posting →
      Except Failure Unit × (Stores × List Posting)}
    (given : (Stores.collaborators runs).posted.invoke = some run) (actions : List Value)
    (context : Context) : TellsAwards catalogue (run actions context state).2 := by
  simp only [Collaborators.posted, Option.map_eq_some_iff] at given
  obtain ⟨inner, known, rfl⟩ := given
  obtain ⟨invocations, called⟩ :=
    Stores.invoked_of_faultless told.plain.faultless known actions context
  simp only [called]
  exact ⟨⟨told.plain.faultless, told.plain.shared⟩, told.tells, told.regular⟩

end TellsAwards

namespace Engine

variable {engine : Engine} {context : Context} {runs : Bool}

/-- An attempt to award a rule in force leaves a ledger that tells of its postings too. -/
theorem attempt_tellsAwards (wellFormed : engine.catalogue.IsWellFormed)
    (definite : context.IsDefinite) {rule : Rule} (member : rule ∈ engine.catalogue.rules)
    {progress : Progress (Stores × List Posting)}
    (told : TellsAwards engine.catalogue progress.state) :
    TellsAwards engine.catalogue
      (engine.attempt (Stores.collaborators runs).posted context rule progress).2.state := by
  have valued : ∀ held ∈ engine.catalogue.rules, (context.forScope held.scope).Resolves →
      (context.forScope held.scope).boundValues ≠ [] := fun held inForce resolves =>
    Context.boundValues_ne_nil resolves (wellFormed.sound held inForce).keyed
  refine attempt_state (I := TellsAwards engine.catalogue) ?_ ?_ ?_ told
  · intro resolves
    exact told.recordAward ⟨context, definite,
      .award member (Context.scopeValues_of_resolves resolves) (valued rule member resolves)⟩
  · intro target replaced resolves state kept
    obtain ⟨held, inForce, rfl, _, own⟩ := retractionScope_replaced wellFormed member replaced
    rw [own] at resolves ⊢
    exact kept.retractAward ⟨context, definite,
      .retraction inForce (Context.scopeValues_of_resolves resolves)
        (valued held inForce resolves)⟩
  · exact fun run given actions within state kept => kept.invoked given actions within

/-- A cycle over rules in force, in a context with definite attributes, leaves stores that tell what
was posted before and what it posted itself. -/
theorem process_tellsAwards (wellFormed : engine.catalogue.IsWellFormed)
    (definite : context.IsDefinite) {candidates : List Rule}
    (known : ∀ rule ∈ candidates, rule ∈ engine.catalogue.rules)
    {state : Stores × List Posting} (told : TellsAwards engine.catalogue state) :
    TellsAwards engine.catalogue
      (engine.process (Stores.collaborators runs).posted context candidates state).2.state :=
  process_state (fun kind query _ kept => kept.lookup kind query)
    (fun rule listed _ kept => attempt_tellsAwards wellFormed definite (known rule listed) kept)
    told

end Engine

namespace Visit

/-- Whether a visit is one over a catalogue: it runs rules of the catalogue, for whomever, with
definite attributes. -/
structure IsOver (catalogue : Catalogue) (visit : Visit) : Prop where
  inForce : visit.request.engine.catalogue = catalogue
  known : ∀ rule ∈ visit.request.candidates, rule ∈ catalogue.rules
  definite : visit.request.context.IsDefinite

variable (runs : Bool) (visits : List Visit)

/-- The stores after some visits do not depend on whether the postings are kept. -/
theorem postedAfter_stores (stores : Stores) :
    (postedAfter runs visits stores).1 = storesAfter runs visits stores := by
  have copied : ∀ state : Stores × List Posting,
      (runEach (Stores.collaborators runs).posted
        (fun visit state => (visit.prepare state.1, state.2)) visits state).1 =
        runEach (Stores.collaborators runs) prepare visits state.1 := by
    induction visits with
    | nil => exact fun _ => rfl
    | cons visit rest inductionHypothesis =>
      intro state
      have same := (visit.request.engine.process_copy visit.request.context
        (Stores.collaborators runs).posted_isCopy visit.request.candidates
        (visit.prepare state.1, state.2)).2
      rw [runEach, runEach, inductionHypothesis]
      exact congrArg (fun progress => runEach (Stores.collaborators runs) prepare rest
        progress.state) same.symm
  exact copied (stores, [])

variable {runs visits}

/-- After any visits over a well-formed catalogue, a ledger of awards that was empty tells of their
postings. -/
theorem postedAfter_tellsAwards {catalogue : Catalogue} (wellFormed : catalogue.IsWellFormed)
    (within : ∀ visit ∈ visits, visit.IsOver catalogue) {stores : Stores} (plain : stores.IsPlain)
    (empty : stores.achievements = []) :
    TellsAwards catalogue (postedAfter runs visits stores) := by
  refine runEach_induction (fun visit _ state told => ?_) (fun visit inside state told => ?_)
    (.empty catalogue plain empty)
  · exact ⟨⟨told.plain.faultless, told.plain.shared⟩, told.tells, told.regular⟩
  · obtain ⟨rfl, known, definite⟩ := within visit inside
    exact Engine.process_tellsAwards wellFormed definite known told

end Visit

end Accolade
