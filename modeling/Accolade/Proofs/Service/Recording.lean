import Accolade.Proofs.Cycle.Steps
import Accolade.Proofs.Fact.Stores
import Accolade.Proofs.Rule.Grammar
import Accolade.Proofs.Service.History

/-!
# The event just recorded

A service records an event and runs the catalogue. The scope values of the event, the attributes of
the cycle and the queries of its lookups are formed at three places, and they fit: the attributes
are the scope values, so an event lies within the scope of every rule whose keys it has values for.

Nothing in a cycle writes events. From its first step to its last the events are those before the
call and the one recorded, and an event requirement that looks for its name counts it too.
-/

namespace Accolade

namespace Entries

/-- Storing a value under a key adds this key. -/
theorem hasField_put (entries : Entries) (key : Scalar) (value : Value) (name : String) :
    hasField (put entries key value) name = (hasField entries name || key.same (.text name)) := by
  unfold hasField has
  rw [find?_put]
  by_cases named : key.same (.text name) = true <;> simp [named]

/-- Storing all entries of a mapping adds its keys. -/
theorem hasField_merge (entries additions : Entries) (name : String) :
    hasField (merge entries additions) name =
      (hasField entries name || hasField additions name) := by
  induction additions generalizing entries with
  | nil => simp [merge, hasField, has, find?]
  | cons entry rest inductionHypothesis =>
    obtain ⟨key, value⟩ := entry
    have listed : hasField ((key, value) :: rest) name =
        (key.same (.text name) || hasField rest name) := by
      unfold hasField has
      by_cases here : key.same (.text name) = true <;> simp [find?, here]
    rw [listed, ← Bool.or_assoc, ← hasField_put entries key value name]
    exact inductionHypothesis (put entries key value)

end Entries

namespace Fault

/-- What is left of a fault that struck strikes where the fault did. -/
theorem effectAt_point {fault later : Fault} {point : FaultPoint} {name : Value}
    {effect : Option Failure} (struck : fault.effectAt point name = some (effect, later)) :
    later.point = fault.point := by
  unfold effectAt at struck
  split at struck
  · split at struck
    · cases struck
      rfl
    · cases struck
      rfl
    · contradiction
  · contradiction

/-- Faults that are let strike go on striking at the points where they did. -/
theorem strike_points (point : FaultPoint) (name : Value) (faults : List Fault) :
    (strike point name faults).2.map (·.point) = faults.map (·.point) := by
  induction faults with
  | nil => rfl
  | cons fault rest inductionHypothesis =>
    unfold strike
    cases struck : fault.effectAt point name with
    | none => simp [inductionHypothesis]
    | some outcome =>
      obtain ⟨effect, later⟩ := outcome
      simp [effectAt_point struck]

/-- Faults planned elsewhere do not strike at a point. -/
theorem strike_elsewhere {point : FaultPoint} (name : Value) {faults : List Fault}
    (elsewhere : ∀ planned ∈ faults.map (·.point), planned ≠ point) :
    strike point name faults = (none, faults) := by
  induction faults with
  | nil => rfl
  | cons fault rest inductionHypothesis =>
    obtain ⟨here, further⟩ := List.forall_mem_cons.mp elsewhere
    have missed : fault.effectAt point name = none := by simp [effectAt, here]
    simp only [strike, missed, inductionHypothesis further]

end Fault

namespace Stores

/-- Whether the events of later stores are those of earlier ones, and faults are planned at the same
points. -/
structure KeepsEvents (earlier later : Stores) : Prop where
  events : later.events = earlier.events
  points : later.faults.map (·.point) = earlier.faults.map (·.point)

/-- Whether no fault is planned at lookups. -/
def AnswersLookups (stores : Stores) : Prop :=
  ∀ point ∈ stores.faults.map (·.point), ∀ kind, point ≠ .lookup kind

namespace KeepsEvents

variable {earlier between later : Stores}

/-- Stores keep their own events. -/
theorem refl (stores : Stores) : stores.KeepsEvents stores := ⟨rfl, rfl⟩

/-- Events that are kept by one call and then by another are kept by both together. -/
theorem trans (first : earlier.KeepsEvents between) (second : between.KeepsEvents later) :
    earlier.KeepsEvents later :=
  ⟨second.events.trans first.events, second.points.trans first.points⟩

/-- Lookups are answered as long as the events and the places of the faults are kept. -/
theorem answersLookups (kept : earlier.KeepsEvents later) (answers : earlier.AnswersLookups) :
    later.AnswersLookups := by
  intro point planned
  exact answers point (kept.points ▸ planned)

end KeepsEvents

/-- Awards that are written where they stand change nothing. -/
theorem withAwards_awards_self (stores : Stores) : stores.withAwards stores.awards = stores := by
  obtain ⟨achievements, experience, events, separate, faults, invocations⟩ := stores
  cases separate <;> rfl

/-- Whether a call has left stores with a ledger of awards. What is left of the faults strikes where
they did, and actions may have been noted. -/
def LeftWith (stores : Stores) (ledger : Ledger) (later : Stores) : Prop :=
  ∃ faults invocations, faults.map (·.point) = stores.faults.map (·.point) ∧
    later = { stores.withAwards ledger with faults := faults, invocations := invocations }

namespace LeftWith

variable {stores later : Stores} {ledger : Ledger}

/-- Stores left with a ledger of awards have that ledger for their awards. -/
theorem awards (left : stores.LeftWith ledger later) : later.awards = ledger := by
  obtain ⟨faults, invocations, _, rfl⟩ := left
  exact stores.withAwards_awards ledger

/-- Stores that are left with some awards keep their events. -/
theorem keepsEvents (left : stores.LeftWith ledger later) : stores.KeepsEvents later := by
  obtain ⟨faults, invocations, points, rfl⟩ := left
  exact ⟨stores.withAwards_events ledger, points⟩

/-- Awards may be written after a call that has left them. -/
theorem withAwards (left : stores.LeftWith stores.awards later) (ledger : Ledger) :
    stores.LeftWith ledger (later.withAwards ledger) := by
  obtain ⟨faults, invocations, points, rfl⟩ := left
  refine ⟨faults, invocations, points, ?_⟩
  obtain ⟨achievements, experience, events, separate, _, _⟩ := stores
  cases separate <;> rfl

/-- Invocations that are noted just before a call may count as its own. -/
theorem of_noted {noted : List Invocation}
    (left : { stores with invocations := noted }.LeftWith stores.awards later) :
    stores.LeftWith stores.awards later := by
  obtain ⟨faults, invocations, points, rfl⟩ := left
  refine ⟨faults, invocations, points, ?_⟩
  obtain ⟨achievements, experience, events, separate, _, _⟩ := stores
  cases separate <;> rfl

end LeftWith

/-- Faults that strike leave the awards, since they take effect before anything is written. -/
theorem struck_leftWith (point : FaultPoint) (name : Value) (stores : Stores) :
    stores.LeftWith stores.awards (stores.struck point name).2 :=
  ⟨_, stores.invocations, Fault.strike_points point name stores.faults, by
    rw [withAwards_awards_self]
    rfl⟩

/-- A lookup leaves the awards as they were: at most a fault of a store is used up. -/
theorem lookup_leftWith (kind : FactKind) (query : Entries) (stores : Stores) :
    stores.LeftWith stores.awards (Stores.lookup kind query stores).2 := by
  have left := struck_leftWith (.lookup kind) ((Entries.field? query nameKey).getD .null) stores
  unfold Stores.lookup
  split
  all_goals
    rename_i struck
    rw [struck] at left
    exact left

/-- An award either fails and leaves the awards, or is recorded there. -/
theorem recordAward_leftWith (subject : Value) (rule : String) (scope : Entries)
    (stores : Stores) :
    ∃ ledger, stores.LeftWith ledger (Stores.recordAward subject rule scope stores).2 ∧
      (ledger = stores.awards ∨
        ∃ fact, stores.awards.recordAward subject (.text rule) scope = .ok (fact, ledger)) := by
  have left := struck_leftWith .award (.text rule) stores
  unfold Stores.recordAward
  split
  · rename_i struck
    rw [struck] at left
    exact ⟨_, left, .inl rfl⟩
  · rename_i struck
    rw [struck] at left
    rw [left.awards]
    split
    · rename_i recorded
      exact ⟨_, left.withAwards _, .inr ⟨_, recorded⟩⟩
    · exact ⟨_, left, .inl rfl⟩

/-- A retraction either fails and leaves the awards, or is made there. -/
theorem retractAward_leftWith (subject : Value) (rule : String) (scope : Entries)
    (stores : Stores) :
    ∃ ledger, stores.LeftWith ledger (Stores.retractAward subject rule scope stores).2 ∧
      (ledger = stores.awards ∨
        ledger = stores.awards.retractAward subject (.text rule) scope) := by
  have left := struck_leftWith .retraction (.text rule) stores
  unfold Stores.retractAward
  split
  · rename_i struck
    rw [struck] at left
    exact ⟨_, left, .inl rfl⟩
  · rename_i struck
    rw [struck] at left
    rw [left.awards]
    exact ⟨_, left.withAwards _, .inr rfl⟩

/-- Running actions leaves the awards: it notes the invocation, and at most uses up a fault. -/
theorem invoke_leftWith (actions : List Value) (context : Context) (stores : Stores) :
    stores.LeftWith stores.awards (Stores.invoke actions context stores).2 := by
  unfold Stores.invoke
  dsimp only
  split
  all_goals
    rename_i struck
    have after := struck ▸ struck_leftWith .action (actionName actions) _
    exact after.of_noted

/-- Lookups keep the events, whether or not a fault strikes. -/
theorem lookup_keepsEvents : Stores.lookup.Moves KeepsEvents where
  refl := .refl
  trans := .trans
  step kind query stores := (lookup_leftWith kind query stores).keepsEvents

/-- Where no fault is planned at lookups, each is answered and changes nothing. -/
theorem AnswersLookups.lookup {stores : Stores} (answers : stores.AnswersLookups) (kind : FactKind)
    (query : Entries) :
    Stores.lookup kind query stores = (.answer ((stores.ledger kind).find query), stores) := by
  have missed := Fault.strike_elsewhere ((Entries.field? query nameKey).getD .null)
    fun point planned => answers point planned kind
  simp only [Stores.lookup, struck, missed]

end Stores

/-- After any steps of a cycle the events are those it began with. -/
theorem CycleRequest.advance_keepsEvents (request : CycleRequest) (runsActions : Bool)
    (stores : Stores) (steps : Nat) :
    stores.KeepsEvents (request.advance (Stores.collaborators runsActions) steps
      (request.start stores)).progress.state := by
  have moves : (Stores.collaborators runsActions).lookup.Moves Stores.KeepsEvents :=
    Stores.lookup_keepsEvents
  refine advance_state (I := stores.KeepsEvents) ?_ ?_ (start_isOrderly stores) (.refl stores) steps
  · intro progress kept
    exact kept.trans (Engine.checks_moves moves)
  · intro rule _ progress kept
    refine Engine.attempt_state ?_ ?_ ?_ kept
    · intro _
      obtain ⟨_, left, _⟩ := Stores.recordAward_leftWith request.context.subject rule.name
        (request.context.forScope rule.scope).boundValues progress.state
      exact kept.trans left.keepsEvents
    · intro target _ _ state held
      obtain ⟨_, left, _⟩ := Stores.retractAward_leftWith request.context.subject target _ state
      exact held.trans left.keepsEvents
    · intro run given actions context state held
      cases runsActions with
      | false => contradiction
      | true =>
        cases given
        exact held.trans (Stores.invoke_leftWith actions context state).keepsEvents

namespace Requirement

/-- One more event counts if the conditions hold of what it carries. -/
theorem matchingEvents_concat (conditions : Option Condition) (events : List Fact) (event : Fact) :
    matchingEvents conditions (events ++ [event]) =
      matchingEvents conditions events +
        if conditions.all (fun condition => condition.holds event.attributes) then 1 else 0 := by
  cases conditions with
  | none => simp [matchingEvents]
  | some condition =>
    by_cases holds : condition.holds event.attributes = true <;>
      simp [matchingEvents, List.filter_append, holds]

end Requirement

namespace Service

/-- The event that a call records. -/
def recorded (subject name : Value) (attributes scope : Entries) (stores : Stores) : Fact :=
  stores.events.newFact name (eventScope subject scope) (.integer 1) attributes

/-- The cycle that the call runs. -/
def recordingCycle (service : Service) (subject name : Value) (attributes scope : Entries)
    (stores : Stores) : CycleRequest :=
  ⟨service.engine,
    contextFor subject (eventScope subject scope)
      (((recorded subject name attributes scope stores).identifier.map .text).getD .null),
    service.engine.catalogue.rules⟩

/-- The stores on which it runs, with the event at the end of the others. -/
def recording (subject name : Value) (attributes scope : Entries) (stores : Stores) : Stores :=
  { stores with events := stores.events ++ [recorded subject name attributes scope stores] }

variable {service : Service} {subject : Value} {attributes scope : Entries} {stores : Stores}

/-- A call that records an event comes to what this cycle comes to. -/
theorem recordEvent_cycle (runsActions : Bool) (name : Value) :
    let cycle := service.recordEvent runsActions subject name attributes scope stores
    let request := service.recordingCycle subject name attributes scope stores
    (cycle.ended, cycle.progress) =
      request.engine.process (Stores.collaborators runsActions) request.context request.candidates
        (recording subject name attributes scope stores) := by
  simp only [recordEvent, run, write_engine]
  rfl

/-- The scope values of an event have the subject and the keys of the caller. -/
theorem hasField_eventScope {key : String}
    (known : key = subjectKey ∨ Entries.hasField scope key = true) :
    Entries.hasField (eventScope subject scope) key = true := by
  rw [eventScope, Entries.hasField_merge]
  rcases known with rfl | given
  · rfl
  · rw [given, Bool.or_true]

/-- The context of the cycle that follows an event has the attributes of the scope of the event. -/
theorem attributes_recordingCycle (name : Value) :
    (service.recordingCycle subject name attributes scope stores).context.attributes =
      eventScope subject scope := by
  have subjected : Entries.hasField (eventScope subject scope) subjectKey = true :=
    hasField_eventScope (.inl rfl)
  simp only [recordingCycle, contextFor, Context.of, Entries.putFieldIfAbsent, subjected, if_true]

/-- The event lies within every scope, if its own scope values equal themselves. -/
theorem recorded_liesIn (name : Value)
    (definite : ∀ entry ∈ eventScope subject scope,
      entry.2.isProper = true ∧ entry.2.isDefinite = true) (keys : List String) :
    (recorded subject name attributes scope stores).LiesIn
      ((service.recordingCycle subject name attributes scope stores).context.forScope keys) := by
  intro key _ _ value found
  have held : Entries.field? (eventScope subject scope) key = some value := by
    rw [← @attributes_recordingCycle service subject attributes scope stores name]
    exact found
  obtain ⟨place, inside, _⟩ := Entries.mem_of_find held
  obtain ⟨whole, placed⟩ := definite (place, value) inside
  exact ⟨value, held, Value.equals_self whole placed⟩

/-- The query of a rule whose scope keys all have values on the event finds it. -/
theorem queryFor_recordingCycle (name : String)
    (definite : ∀ entry ∈ eventScope subject scope,
      entry.2.isProper = true ∧ entry.2.isDefinite = true) {keys : List String}
    (known : ∀ key ∈ keys, key = subjectKey ∨ Entries.hasField scope key = true) :
    let request := service.recordingCycle subject (.text name) attributes scope stores
    ∃ query, (request.context.forScope keys).queryFor name = .ok query ∧
      (recorded subject (.text name) attributes scope stores).isMatch query = true := by
  intro request
  have resolves : (request.context.forScope keys).Resolves := by
    intro key inside
    have present : Entries.hasField (eventScope subject scope) key = true :=
      hasField_eventScope (known key inside)
    rw [← @attributes_recordingCycle service subject attributes scope stores (.text name)]
      at present
    exact present
  refine ⟨_, ?_, (Fact.isMatch_iff _ (request.context.forScope keys) name).mpr
    ⟨rfl, recorded_liesIn (.text name) definite keys⟩⟩
  rw [Context.queryFor_eq, Context.scopeValues_of_resolves resolves]
  rfl

/-- Where lookups are answered and the events are some earlier ones and one more that a query
finds, an event requirement counts what the query finds of the earlier ones, and one more if its
conditions hold of what the event carries. It comes to no answer if its threshold is too long to be
written. -/
theorem evaluate_event_concat {context : Context} {name : String} {query : Entries}
    (formed : context.queryFor name = .ok query) {event : Fact} (found : event.isMatch query = true)
    {earlier : Ledger} (answers : stores.AnswersLookups)
    (events : stores.events = earlier ++ [event]) (amount : AmountTest)
    (conditions : Option Condition) :
    ((Requirement.event name amount conditions).evaluate Stores.lookup context stores).1 =
      if DecimalText.isShort amount.threshold then
        .answer (amount.holdsAt
          (Requirement.matchingEvents conditions (earlier.find query) +
            if conditions.all (fun condition => condition.holds event.attributes) then 1 else 0 :
            Nat))
      else .failed .tooLongToWrite := by
  have listed : (stores.ledger .event).find query = earlier.find query ++ [event] := by
    simp only [Stores.ledger, events, Ledger.find, List.filter_append]
    simp [found]
  simp only [Requirement.evaluate, Requirement.evaluateLeaf, formed, Requirement.facts,
    answers.lookup, listed]
  split
  · rename_i short
    rw [Requirement.holdsOnEvents_of_isShort short, Requirement.matchingEvents_concat]
  · rename_i long
    exact Requirement.holdsOnEvents_of_not_isShort (by simpa using long) conditions _

/-- A call that records an event appends it to the others, and nothing else changes events, in
whatever state its cycle comes by. The query of a rule whose scope keys all have values on the event
finds it. So in each of these states, which no lookup changes, an event requirement on its name
counts as many events as before the call, and one more if its conditions hold of what the event
carries. It comes to no answer if its threshold is too long to be written.

Proof: the steps of the cycle keep the events and what lookups answer, so each of them counts over
the same list: the events before and the one that was added. The query matches that one, as the
scope of the event has a value under each of its keys. -/
theorem recordEvent_isSeen (service : Service) (runsActions : Bool) (subject : Value)
    (name : String) (attributes scope : Entries) (stores : Stores)
    (definite : ∀ entry ∈ eventScope subject scope,
      entry.2.isProper = true ∧ entry.2.isDefinite = true) :
    let cycle := service.recordEvent runsActions subject (.text name) attributes scope stores
    let event := recorded subject (.text name) attributes scope stores
    let request := service.recordingCycle subject (.text name) attributes scope stores
    let after := fun steps => request.advance (Stores.collaborators runsActions) steps
      (request.start (recording subject (.text name) attributes scope stores))
    (∃ steps, (after steps).result? = some (cycle.ended, cycle.progress)) ∧
    (∀ steps, (after steps).progress.state.events = stores.events ++ [event]) ∧
    cycle.progress.state.events = stores.events ++ [event] ∧
    ∀ rule ∈ service.engine.catalogue.rules,
      (∀ key ∈ rule.scope, key = subjectKey ∨ Entries.hasField scope key = true) →
        let context := request.context.forScope rule.scope
        ∃ query, context.queryFor name = .ok query ∧ event.isMatch query = true ∧
          (stores.AnswersLookups → ∀ steps,
            Stores.lookup.IsStill (after steps).progress.state ∧
            ∀ amount conditions,
              ((Requirement.event name amount conditions).evaluate Stores.lookup context
                (after steps).progress.state).1 =
              if DecimalText.isShort amount.threshold then
                .answer (amount.holdsAt
                  (Requirement.matchingEvents conditions (stores.events.find query) +
                    if conditions.all (fun condition => condition.holds attributes) then 1 else 0 :
                    Nat))
              else .failed .tooLongToWrite) := by
  intro cycle event request after
  have kept : ∀ steps, (recording subject (.text name) attributes scope stores).KeepsEvents
      (after steps).progress.state := request.advance_keepsEvents runsActions _
  have reached : ∃ steps, (after steps).result? = some (cycle.ended, cycle.progress) := by
    obtain ⟨_, ⟨steps, rfl⟩, told⟩ := @CycleRequest.start_reaches Stores
      (Stores.collaborators runsActions) request
      (recording subject (.text name) attributes scope stores)
    exact ⟨steps, told.trans (congrArg some (recordEvent_cycle runsActions (.text name)).symm)⟩
  have events : ∀ steps, (after steps).progress.state.events = stores.events ++ [event] :=
    fun steps => (kept steps).events
  refine ⟨reached, events, ?_, ?_⟩
  · obtain ⟨steps, told⟩ := reached
    rw [← events steps, (Run.state_of_result? told).2]
  · intro rule _ known context
    obtain ⟨query, formed, found⟩ := @queryFor_recordingCycle service subject attributes scope
      stores name definite rule.scope known
    refine ⟨query, formed, found, fun answers steps => ?_⟩
    have answering : (after steps).progress.state.AnswersLookups :=
      (kept steps).answersLookups answers
    refine ⟨fun kind query => by rw [answering.lookup], fun amount conditions => ?_⟩
    exact evaluate_event_concat formed found answering (events steps) amount conditions

/-- The requirement of two matches that were won. -/
def twoWins : Requirement :=
  .event "Match" (.atLeast 2) (some (.parameter "won" (.scalar (.boolean true))))

/-- A rule that is awarded for two matches won with one team. -/
def streakCatalogue : Catalogue := ⟨[⟨"Streak", twoWins, [], 1, [subjectKey, "team"], [], false⟩]⟩

/-- Stores with two matches of a subject, won with one team and with another. -/
def twoTeams : Stores :=
  .of [] [] [
    ⟨.text "Match", .integer 1, [(.text subjectKey, .text "u"), (.text "team", .text "red")],
      [(.text "won", .boolean true)], none⟩,
    ⟨.text "Match", .integer 1, [(.text subjectKey, .text "u"), (.text "team", .text "blue")],
      [(.text "won", .boolean true)], none⟩]

/-- A match won with the first team is the second one that counts for it, at every step. -/
theorem streak_isSeen :
    let won := [(Scalar.text "won", Value.boolean true)]
    let team := [(Scalar.text "team", Value.text "red")]
    let request := (running streakCatalogue).recordingCycle (.text "u") (.text "Match") won team
      twoTeams
    ∀ steps, (twoWins.evaluate Stores.lookup (request.context.forScope [subjectKey, "team"])
      (request.advance (Stores.collaborators true) steps (request.start
        (recording (.text "u") (.text "Match") won team twoTeams))).progress.state).1 =
          .answer true := by
  intro won team request steps
  have definite : ∀ entry ∈ eventScope (.text "u") team,
      entry.2.isProper = true ∧ entry.2.isDefinite = true := by decide
  obtain ⟨-, -, -, seen⟩ := recordEvent_isSeen (running streakCatalogue) true (.text "u") "Match"
    won team twoTeams definite
  obtain ⟨query, formed, -, counted⟩ :=
    seen _ List.mem_cons_self (by decide : ∀ key ∈ [subjectKey, "team"], _)
  have answers : twoTeams.AnswersLookups := fun _ planned => absurd planned List.not_mem_nil
  refine ((counted answers steps).2 (.atLeast 2) _).trans ?_
  obtain rfl := Context.eq_of_queryFor formed
  rfl

end Service

end Accolade
