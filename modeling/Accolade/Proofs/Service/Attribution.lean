import Accolade.Proofs.Cycle.WriteScopes
import Accolade.Proofs.Fact.Attribution
import Accolade.Proofs.Fact.Subjects
import Accolade.Proofs.Service.Recording

/-!
# To whom a call credits what it writes

A call that records an event names a subject, and this subject takes two ways: it is the subject of
the cycle, and the value of a scope key. The second is what the records of stores show. The scope
values that the caller gives are stored over the subject, so they may put another holder in its
place. Whoever is there then is the one that all records of the call are credited to, the event and
the awards alike, whatever rules are awarded or replaced and however their scopes differ.

Stores that a service has written to from the start keep their awards keyed, so no call changes a
record of another holder. Faults make no difference, nor does it matter where awards are written.
-/

namespace Accolade

namespace Entries

/-- A value that is stored under a name unless there is one is found if there was none. -/
theorem field?_putFieldIfAbsent (entries : Entries) (name : String) (value : Value) :
    field? (putFieldIfAbsent entries name value) name =
      some ((field? entries name).getD value) := by
  unfold putFieldIfAbsent
  split
  · rename_i present
    obtain ⟨held, found⟩ := Option.isSome_iff_exists.mp present
    have given : field? entries name = some held := found
    rw [given, Option.getD_some]
  · rename_i absent
    have missing : field? entries name = none := by
      simpa [hasField, has, field?] using absent
    rw [missing, field?, putField, find?_put]
    simp

end Entries

/-- The scope of an award of a rule in force is that of the values of its keys. -/
theorem Catalogue.IsWellFormed.awardScope_eq {catalogue : Catalogue}
    (wellFormed : catalogue.IsWellFormed) {rule : Rule} (member : rule ∈ catalogue.rules)
    {context : Context} (resolves : (context.forScope rule.scope).Resolves) (subject : Value) :
    Ledger.awardScope subject (context.forScope rule.scope).boundValues =
      (context.forScope rule.scope).boundValues :=
  Ledger.awardScope_of_ne_nil subject
    (Context.boundValues_ne_nil resolves (wellFormed.sound rule member).keyed)

namespace Stores

/-- Whether the records of later stores are those of earlier ones in their places, or of a kind. -/
structure ChangesOnly (kind : Fact → Prop) (earlier later : Stores) : Prop where
  ledgers : ∀ of, (earlier.ledger of).ChangesOnly kind (later.ledger of)
  awards : earlier.awards.ChangesOnly kind later.awards

namespace ChangesOnly

variable {kind : Fact → Prop} {earlier between later : Stores}

/-- Stores that stay as they are change nothing about themselves. -/
theorem refl (stores : Stores) : stores.ChangesOnly kind stores := ⟨fun _ => .refl _, .refl _⟩

/-- What is changed one after the other is of the kind if both changes are. -/
theorem trans (early : earlier.ChangesOnly kind between) (late : between.ChangesOnly kind later) :
    earlier.ChangesOnly kind later :=
  ⟨fun of => (early.ledgers of).trans (late.ledgers of), early.awards.trans late.awards⟩

end ChangesOnly

/-- Whether stores with a keyed ledger of awards have come from others that had the same events,
with changes only to records that are credited to a holder, or to no one. -/
structure CreditedTo (catalogue : Catalogue) (holder : Value) (earlier later : Stores) : Prop where
  keyed : later.awards.IsKeyedFor catalogue
  kept : earlier.KeepsEvents later
  changes : earlier.ChangesOnly (·.IsCreditedTo holder) later

/-- What a call changes besides faults and notes is what it changes among the awards. -/
theorem LeftWith.changesOnly {kind : Fact → Prop} {stores later : Stores} {ledger : Ledger}
    (left : stores.LeftWith ledger later) (changed : stores.awards.ChangesOnly kind ledger) :
    stores.ChangesOnly kind later := by
  obtain ⟨faults, invocations, _, rfl⟩ := left
  obtain ⟨achievements, experience, events, separate, _, _⟩ := stores
  constructor
  · intro of
    cases of with
    | achievement =>
      cases separate with
      | none => exact changed
      | some elsewhere => exact .refl achievements
    | experience => cases separate <;> exact .refl experience
    | event => cases separate <;> exact .refl events
  · cases separate <;> exact changed

namespace CreditedTo

variable {catalogue : Catalogue} {holder : Value} {earlier between later stores : Stores}

/-- Stores with keyed awards come from themselves, with nothing credited to anyone. -/
theorem refl (keyed : stores.awards.IsKeyedFor catalogue) :
    stores.CreditedTo catalogue holder stores :=
  ⟨keyed, .refl stores, .refl stores⟩

/-- Stores that come from others by way of a third stay credited to the holder: what was credited
early stays so, and what is written late is credited too. -/
theorem trans (early : earlier.CreditedTo catalogue holder between)
    (late : between.CreditedTo catalogue holder later) :
    earlier.CreditedTo catalogue holder later :=
  ⟨late.keyed, early.kept.trans late.kept, early.changes.trans late.changes⟩

/-- A call that leaves a keyed ledger with no other changes credits the holder. -/
theorem of_leftWith {ledger : Ledger} (left : stores.LeftWith ledger later)
    (keyed : ledger.IsKeyedFor catalogue)
    (changed : stores.awards.ChangesOnly (·.IsCreditedTo holder) ledger) :
    stores.CreditedTo catalogue holder later :=
  ⟨left.awards ▸ keyed, left.keepsEvents, left.changesOnly changed⟩

/-- A call that leaves the awards credits no one, so it credits the holder as well as anyone. -/
theorem of_leftWith_awards (left : stores.LeftWith stores.awards later)
    (keyed : stores.awards.IsKeyedFor catalogue) : stores.CreditedTo catalogue holder later :=
  of_leftWith left keyed (.refl _)

section Writes

variable (keyed : stores.awards.IsKeyedFor catalogue) (wellFormed : catalogue.IsWellFormed)
  {rule : Rule} (member : rule ∈ catalogue.rules) {context : Context}
  (subjected : Entries.field? context.attributes subjectKey = some holder)
  (resolves : (context.forScope rule.scope).Resolves)
include keyed wellFormed member subjected resolves

/-- An award of a rule in force credits the subject among the attributes. -/
theorem recordAward : stores.CreditedTo catalogue holder
    (Stores.recordAward context.subject rule.name (context.forScope rule.scope).boundValues
      stores).2 := by
  obtain ⟨ledger, left, rfl | ⟨fact, recorded⟩⟩ := Stores.recordAward_leftWith context.subject
    rule.name (context.forScope rule.scope).boundValues stores
  · exact of_leftWith_awards left keyed
  · have written := Ledger.recordAward_recorded recorded
    rw [wellFormed.awardScope_eq member resolves] at written
    exact of_leftWith left (keyed.recorded member written)
      (written.changesOnly
        (keyed.written_isCreditedTo member wellFormed.distinct subjected written))

/-- A retraction of a rule in force leaves the other holders alone: it clears records of the holder
of the context only. -/
theorem retractAward : stores.CreditedTo catalogue holder
    (Stores.retractAward context.subject rule.name (context.forScope rule.scope).boundValues
      stores).2 := by
  obtain ⟨ledger, left, rfl | rfl⟩ := Stores.retractAward_leftWith context.subject rule.name
    (context.forScope rule.scope).boundValues stores
  · exact of_leftWith_awards left keyed
  · refine of_leftWith left (keyed.retractAward _ _ _)
      (Ledger.retractAward_changesOnly fun fact inside matching => ?_)
    rw [wellFormed.awardScope_eq member resolves] at matching
    have before : fact.IsCreditedTo holder :=
      keyed.isCreditedTo member wellFormed.distinct subjected inside matching
    exact before

end Writes

end CreditedTo

end Stores

namespace Engine

section Cycle

variable {engine : Engine} {context : Context} {holder : Value}
  (wellFormed : engine.catalogue.IsWellFormed)
  (subjected : Entries.field? context.attributes subjectKey = some holder) (runs : Bool)
  {initial : Stores}
include wellFormed subjected

/-- An attempt to award a rule in force credits the subject among the attributes. -/
theorem attempt_credits {rule : Rule} (member : rule ∈ engine.catalogue.rules)
    {progress : Progress Stores}
    (credited : initial.CreditedTo engine.catalogue holder progress.state) :
    initial.CreditedTo engine.catalogue holder
      (engine.attempt (Stores.collaborators runs) context rule progress).2.state := by
  refine attempt_state (I := initial.CreditedTo engine.catalogue holder) ?_ ?_ ?_ credited
  · intro resolves
    exact credited.trans (.recordAward credited.keyed wellFormed member subjected resolves)
  · intro target replaced resolves state before
    obtain ⟨held, inForce, rfl, _, own⟩ := retractionScope_replaced wellFormed member replaced
    rw [own] at resolves ⊢
    exact before.trans (.retractAward before.keyed wellFormed inForce subjected resolves)
  · intro run given actions within state before
    cases runs with
    | false => contradiction
    | true =>
      cases given
      exact before.trans
        (.of_leftWith_awards (Stores.invoke_leftWith actions within state) before.keyed)

/-- A cycle over the rules in force credits all that it writes to the holder of its context. -/
theorem process_credits (keyed : initial.awards.IsKeyedFor engine.catalogue) :
    initial.CreditedTo engine.catalogue holder
      (engine.process (Stores.collaborators runs) context engine.catalogue.rules
        initial).2.state :=
  process_state (I := initial.CreditedTo engine.catalogue holder)
    (fun kind query state before => before.trans
      (.of_leftWith_awards (Stores.lookup_leftWith kind query state) before.keyed))
    (fun _ member _ before => attempt_credits wellFormed subjected runs member before)
    (.refl keyed)

end Cycle

end Engine

namespace Service

variable {service : Service}

/-- Among the attributes for a subject there is one under its key. -/
theorem field?_contextFor (subject : Value) (attributes : Entries) (trigger : Value) :
    Entries.field? (contextFor subject attributes trigger).attributes subjectKey =
      some ((Entries.field? attributes subjectKey).getD subject) :=
  Entries.field?_putFieldIfAbsent attributes subjectKey subject

/-- Among the scope values of an event it is that of the caller, or else the subject. -/
theorem field?_eventScope (subject : Value) {scope : Entries}
    (mapping : KeysDistinct (Entries.keys scope)) :
    Entries.field? (eventScope subject scope) subjectKey =
      some ((Entries.field? scope subjectKey).getD subject) := by
  rw [eventScope, Entries.field?, Entries.find?_merge _ mapping]
  unfold Entries.field?
  cases Entries.find? scope (.text subjectKey) <;> rfl

section Calls

variable {catalogue : Catalogue} (wellFormed : catalogue.IsWellFormed)
  (inForce : service.engine.catalogue = catalogue) (runs : Bool)
include wellFormed inForce

/-- A call that records an event credits the holder among the scope values of the event. -/
theorem recordEvent_creditedTo {stores : Stores} (keyed : stores.awards.IsKeyedFor catalogue)
    (subject name : Value) (attributes scope : Entries) :
    (recording subject name attributes scope stores).CreditedTo catalogue
      ((Entries.field? (eventScope subject scope) subjectKey).getD subject)
      (service.recordEvent runs subject name attributes scope stores).progress.state := by
  subst inForce
  have same := congrArg (fun both => both.2.state)
    (@recordEvent_cycle service subject attributes scope stores runs name)
  have subjected := field?_contextFor subject (eventScope subject scope)
    (((recorded subject name attributes scope stores).identifier.map .text).getD .null)
  have apart : (recording subject name attributes scope stores).awards.IsKeyedFor
      service.engine.catalogue := keyed
  exact same ▸ Engine.process_credits wellFormed subjected runs apart

/-- A call of the service keeps the awards keyed, be it an evaluation or an event. -/
theorem answer_isKeyedFor {stores : Stores} (keyed : stores.awards.IsKeyedFor catalogue)
    (call : ServiceCall) :
    (service.answer runs stores call).progress.state.awards.IsKeyedFor catalogue := by
  cases call with
  | evaluation subject attributes =>
    subst inForce
    exact (Engine.process_credits wellFormed (field?_contextFor subject attributes .null) runs
      keyed).keyed
  | event subject name attributes scope =>
    exact (recordEvent_creditedTo wellFormed inForce runs keyed subject name attributes scope).keyed

/-- Any calls of the service leave its engine and keep the awards keyed for the catalogue. -/
theorem afterCalls_isKeyedFor {stores : Stores} (keyed : stores.awards.IsKeyedFor catalogue)
    (calls : List ServiceCall) :
    (service.afterCalls runs calls stores).1.engine = service.engine ∧
      (service.afterCalls runs calls stores).2.awards.IsKeyedFor catalogue := by
  induction calls generalizing service stores with
  | nil => exact ⟨rfl, keyed⟩
  | cons call rest inductionHypothesis =>
    have same := service.answer_engine runs stores call
    have later := answer_isKeyedFor wellFormed inForce runs keyed call
    obtain ⟨further, last⟩ := inductionHypothesis (same.symm ▸ inForce) later
    exact ⟨further.trans same, last⟩

end Calls

/-- Once any calls have been made to a service over a loaded catalogue, whose stores held no awards
before them, a call that records an event of a subject runs one cycle, and the subject of this cycle
is that of the call. The call appends one event, which is credited to the holder that the scope of
the caller has under the key of the subject, or else to the subject. Every other record of events,
awards or experience that it appends or changes is credited to that holder too, or to no one. -/
theorem recordEvent_credits {strictness : Strictness} {document : Value} {loaded : Loaded}
    (loading : Catalogue.load strictness document = .ok loaded)
    (inForce : service.engine.catalogue = loaded.catalogue) {initial : Stores}
    (unwritten : initial.awards = []) (runsActions : Bool) (calls : List ServiceCall)
    (subject name : Value) (attributes : Entries) {scope : Entries}
    (mapping : KeysDistinct (Entries.keys scope)) :
    let reached := service.afterCalls runsActions calls initial
    let event := recorded subject name attributes scope reached.2
    let request := reached.1.recordingCycle subject name attributes scope reached.2
    let cycle := reached.1.recordEvent runsActions subject name attributes scope reached.2
    let holder := (Entries.field? scope subjectKey).getD subject
    (cycle.ended, cycle.progress) = request.engine.process (Stores.collaborators runsActions)
        request.context request.candidates (recording subject name attributes scope reached.2) ∧
      request.context.subject = subject ∧
      cycle.progress.state.events = reached.2.events ++ [event] ∧
      event.subject? = some holder ∧
      reached.2.ChangesOnly (·.IsCreditedTo holder) cycle.progress.state := by
  intro reached event request cycle holder
  have wellFormed := Catalogue.load_isWellFormed loading
  have unused : initial.awards.IsKeyedFor loaded.catalogue := unwritten ▸ .nil loaded.catalogue
  obtain ⟨same, keyed⟩ := afterCalls_isKeyedFor wellFormed inForce runsActions unused calls
  have stillInForce : reached.1.engine.catalogue = loaded.catalogue := same ▸ inForce
  have held : event.subject? = some holder := field?_eventScope subject mapping
  have credited := recordEvent_creditedTo wellFormed stillInForce runsActions keyed subject name
    attributes scope
  rw [field?_eventScope subject mapping, Option.getD_some] at credited
  have own : event.IsCreditedTo holder :=
    fun other found => .inl (Option.some.inj (found.symm.trans held))
  have added : reached.2.ChangesOnly (·.IsCreditedTo holder)
      (recording subject name attributes scope reached.2) := by
    refine ⟨fun of => ?_, .refl _⟩
    cases of with
    | achievement => exact .refl _
    | experience => exact .refl _
    | event => exact .concat reached.2.events own
  exact ⟨recordEvent_cycle runsActions name, rfl, credited.kept.events, held,
    added.trans credited.changes⟩

/-- After an event of another subject, an event for the first team of a subject leads to awards of
the two rules of the sample catalogue and to a retraction, all credited to this subject. -/
theorem sample_credits :
    let calls := [ServiceCall.event (.text "v") (.text "Match") [] []]
    let team := [(Scalar.text "team", Value.text "red")]
    let reached := (running Catalogue.sample).afterCalls true calls (Stores.of [] [] [])
    let cycle := reached.1.recordEvent true (.text "u") (.text "Match") [] team reached.2
    Catalogue.load .strict Catalogue.sampleDocument = .ok ⟨Catalogue.sample, []⟩ ∧
      KeysDistinct (Entries.keys team) ∧ Entries.field? team subjectKey = none ∧
      cycle.progress.awarded = ["Beginner", "Beginner", "Expert"] ∧
      cycle.progress.retracted = ["Beginner"] ∧
      reached.2.ChangesOnly (·.IsCreditedTo (.text "u")) cycle.progress.state := by
  have inForce : (running Catalogue.sample).engine.catalogue = Catalogue.sample := rfl
  have unwritten : (Stores.of [] [] []).awards = [] := rfl
  have mapping : KeysDistinct (Entries.keys [(Scalar.text "team", Value.text "red")]) := by decide
  obtain ⟨-, -, -, -, changes⟩ := recordEvent_credits Catalogue.load_sample inForce unwritten true
    [.event (.text "v") (.text "Match") [] []] (.text "u") (.text "Match") [] mapping
  exact ⟨rfl, mapping, rfl, by decide +kernel, by decide +kernel, changes⟩

/-- What an event of a subject comes to when its scope names another one. -/
def strayCycle : ServiceCycle :=
  (running Catalogue.sample).recordEvent true (.text "u") (.text "Match") []
    [(.text subjectKey, .text "v")] (Stores.of [] [] [])

/-- The event and the awards are credited to the other subject then, though the cycle is that of
the first. -/
theorem strayCycle_creditsOther :
    let scope := [(Scalar.text subjectKey, Value.text "v")]
    let request := (running Catalogue.sample).recordingCycle (.text "u") (.text "Match") [] scope
      (Stores.of [] [] [])
    Catalogue.load .strict Catalogue.sampleDocument = .ok ⟨Catalogue.sample, []⟩ ∧
      KeysDistinct (Entries.keys scope) ∧
      (strayCycle.ended, strayCycle.progress) = request.engine.process (Stores.collaborators true)
        request.context request.candidates
        (recording (.text "u") (.text "Match") [] scope (Stores.of [] [] [])) ∧
      request.context.subject = .text "u" ∧
      strayCycle.progress.state.events.map (·.belongsTo (.text "v")) = [true] ∧
      strayCycle.progress.state.awards.map (·.belongsTo (.text "v")) = [true, true] ∧
      ¬ (Stores.of [] [] []).ChangesOnly (·.IsCreditedTo (.text "u"))
        strayCycle.progress.state := by
  have awards : strayCycle.progress.state.awards.map (·.belongsTo (.text "v")) = [true, true] := by
    decide +kernel
  refine ⟨rfl, by decide, recordEvent_cycle true (.text "Match"), rfl, by decide +kernel, awards,
    fun changes => ?_⟩
  obtain ⟨award, rest, listed, owned, -⟩ := List.map_eq_cons_iff.mp awards
  obtain ⟨held, found, equal⟩ := (Option.any_eq_true _ _).mp owned
  obtain rfl : held = .text "v" := (Value.equals_text_iff held "v").mp equal
  rcases changes.awards 0 award (by rw [listed]; rfl) with before | credited
  · simp [Stores.awards, Stores.of] at before
  · rcases credited (.text "v") found with same | alike
    · exact absurd (Scalar.text.inj (Value.scalar.inj same)) (by decide)
    · exact absurd alike (by decide)

end Service

end Accolade
