import Accolade.Proofs.Cycle.Integrity
import Accolade.Service.History

/-!
# A service that starts on empty stores

A service writes every award itself if it starts on empty stores. So its ledger holds one record
for each rule and scope values after any calls, for whatever subjects and scope values, and its
outcomes speak of breaches of integrity only where an award is split within the scope of a rule
that requires it.
-/

namespace Accolade

/-- Whether all keys of some entries are texts and all values are proper. -/
def Entries.AreAttributes (entries : Entries) : Prop :=
  ∀ entry ∈ entries, (∃ name, entry.1 = .text name) ∧ entry.2.isProper = true

namespace Entries.AreAttributes

variable {entries : Entries} (attributes : AreAttributes entries)
include attributes

/-- The keys of attributes are texts. -/
theorem texts : AreTexts (keys entries) := by
  intro key inside
  obtain ⟨entry, member, rfl⟩ := List.mem_map.mp inside
  exact (attributes entry member).1

/-- The values of attributes are proper. -/
theorem proper : Value.entriesProper entries = true :=
  (Value.entriesProper_iff entries).mpr fun entry member => (attributes entry member).2

/-- The attributes of a context are attributes with the subject among them, whatever triggered it.
-/
theorem contextFor {subject : Value} (whole : subject.isProper = true) (trigger : Value) :
    AreAttributes (Service.contextFor subject entries trigger).attributes := by
  simp only [Service.contextFor, Context.of, putFieldIfAbsent]
  split
  · exact attributes
  · exact forall_put (K := fun key => ∃ name, key = .text name)
      (V := fun value => value.isProper = true) attributes ⟨subjectKey, rfl⟩ whole

/-- The scope values of an event are so with the subject among them. -/
theorem eventScope {subject : Value} (whole : subject.isProper = true) :
    AreAttributes (Service.eventScope subject entries) :=
  forall_merge (K := fun key => ∃ name, key = .text name) (V := fun value => value.isProper = true)
    (List.forall_mem_singleton.mpr ⟨⟨subjectKey, rfl⟩, whole⟩) attributes

end Entries.AreAttributes

/-- Whether a call has a proper subject and attributes. -/
def ServiceCall.IsProper : ServiceCall → Prop
  | .event subject _ _ scope => subject.isProper = true ∧ Entries.AreAttributes scope
  | .evaluation subject attributes => subject.isProper = true ∧ Entries.AreAttributes attributes

namespace Service

variable {service : Service}

/-- Writing a line leaves the engine. -/
@[simp] theorem write_engine (logger : String) (level : Level) (event : String) (fields : Fields) :
    (service.write logger level event fields).engine = service.engine := by
  unfold write
  split <;> rfl

/-- Writing the lines of a cycle leaves the engine of the service as it is. -/
theorem writeAll_engine (subject : Value) (happenings : List Happening) :
    (service.writeAll subject happenings).engine = service.engine := by
  unfold writeAll
  induction happenings generalizing service with
  | nil => rfl
  | cons happening rest inductionHypothesis =>
    rw [List.foldl_cons, inductionHypothesis]
    split
    · exact write_engine _ _ _ _
    · rfl

/-- A cycle of the service leaves its engine. -/
theorem run_engine (runsActions : Bool) (context : Context) (stores : Stores) :
    (service.run runsActions context stores).service.engine = service.engine :=
  writeAll_engine _ _

/-- A call leaves the engine of the service as it is, whatever it comes to. -/
theorem answer_engine (service : Service) (runsActions : Bool) (stores : Stores)
    (call : ServiceCall) :
    (service.answer runsActions stores call).service.engine = service.engine := by
  cases call with
  | evaluation subject attributes => exact run_engine _ _ _
  | event subject name attributes scope => exact (run_engine _ _ _).trans (write_engine _ _ _ _)

section Calls

variable {catalogue : Catalogue} (distinct : catalogue.names.Nodup)
  (keyed : ∀ rule ∈ catalogue.rules, rule.scope ≠ []) (runs : Bool)
include distinct keyed

/-- What a call comes to: the same engine, a ledger that rules in force have written, and outcomes
that are all explained. -/
theorem answer_isExplained (inForce : service.engine.catalogue = catalogue) {call : ServiceCall}
    (proper : call.IsProper) {stores : Stores} (written : stores.IsWrittenFor catalogue) :
    let cycle := service.answer runs stores call
    cycle.service.engine = service.engine ∧ cycle.progress.state.IsWrittenFor catalogue ∧
      ∀ outcome ∈ cycle.progress.outcomes, outcome.IsExplained catalogue := by
  subst inForce
  refine ⟨service.answer_engine runs stores call, ?_⟩
  cases call with
  | evaluation subject attributes =>
    obtain ⟨whole, given⟩ := proper
    have held := given.contextFor whole .null
    exact Engine.process_isExplained distinct keyed held.texts held.proper runs written
  | event subject name attributes scope =>
    obtain ⟨whole, given⟩ := proper
    have held := (given.eventScope whole).contextFor whole
    simp only [answer, recordEvent, run, write_engine]
    exact Engine.process_isExplained distinct keyed (held _).texts (held _).proper runs
      written.withEvents

/-- Each of any number of calls leaves a ledger that rules in force have written, and outcomes that
are all explained. -/
theorem answerEach_isExplained (inForce : service.engine.catalogue = catalogue)
    {calls : List ServiceCall} (proper : ∀ call ∈ calls, call.IsProper) {stores : Stores}
    (written : stores.IsWrittenFor catalogue) :
    ∀ cycle ∈ service.answerEach runs calls stores,
      cycle.progress.state.IsWrittenFor catalogue ∧
        ∀ outcome ∈ cycle.progress.outcomes, outcome.IsExplained catalogue := by
  induction calls generalizing service stores with
  | nil => simp [answerEach]
  | cons call rest inductionHypothesis =>
    obtain ⟨here, further⟩ := List.forall_mem_cons.mp proper
    obtain ⟨same, later, explained⟩ := answer_isExplained distinct keyed runs inForce here written
    refine List.forall_mem_cons.mpr ⟨⟨later, explained⟩, ?_⟩
    exact inductionHypothesis (same.symm ▸ inForce) further later

end Calls

/-- When a service over a loaded catalogue starts on empty stores, then after any calls no outcome
speaks of a breach of integrity, and no query for a required award finds two records within the
scope of the rule that requires it, unless that award is split within the scope. -/
theorem answerEach_breaches {strictness : Strictness} {document : Value} {loaded : Loaded}
    (loading : Catalogue.load strictness document = .ok loaded)
    (inForce : service.engine.catalogue = loaded.catalogue) {calls : List ServiceCall}
    (proper : ∀ call ∈ calls, call.IsProper) (runsActions : Bool) :
    ∀ cycle ∈ service.answerEach runsActions calls (Stores.of [] [] []),
      (∀ outcome ∈ cycle.progress.outcomes, outcome.IsExplained loaded.catalogue) ∧
      ∀ rule ∈ loaded.catalogue.rules, ¬ rule.RequiresSplit loaded.catalogue →
        ∀ name ∈ rule.requirement.leafNames .achievement, ∀ context : Context,
          (context.forScope rule.scope).Resolves →
            (cycle.progress.state.achievements.find (Ledger.queryOf (.text name)
              (context.forScope rule.scope).boundValues)).length ≤ 1 := by
  intro cycle among
  have distinct := Catalogue.load_names_nodup loading
  obtain ⟨written, explained⟩ := answerEach_isExplained distinct (Catalogue.load_keyed loading)
    runsActions inForce proper (.empty loaded.catalogue) cycle among
  refine ⟨explained, fun rule member whole name reads context resolves => ?_⟩
  refine Nat.le_of_not_lt fun several => ?_
  obtain ⟨awarded, awarding, rfl, split⟩ :=
    written.achievements.splitsWithin distinct resolves several
  exact whole ⟨awarded, awarding, reads, split⟩

/-- A service over a catalogue that keeps no lines and makes ten passes at most. -/
def running (catalogue : Catalogue) : Service where
  settings := ⟨"test", "CRITICAL", none, true, .zero, 10, 1, .zero, none, "achievements", []⟩
  engine := ⟨catalogue, 10, none, none⟩
  metrics := .of (.text serviceName)
  threshold := 50
  log := .empty
  lines := []

/-- Two calls for one subject over the sample catalogue, in which nothing is split. -/
theorem sample_breaches :
    let calls := [ServiceCall.event (.text "u") (.text "Match") [] [],
      .evaluation (.text "u") [(.text "team", .text "red")]]
    Catalogue.load .strict Catalogue.sampleDocument = .ok ⟨Catalogue.sample, []⟩ ∧
      (∀ call ∈ calls, call.IsProper) ∧
      (∀ rule ∈ Catalogue.sample.rules, ¬ rule.RequiresSplit Catalogue.sample) ∧
      ∀ cycle ∈ (running Catalogue.sample).answerEach true calls (Stores.of [] [] []),
        ∀ outcome ∈ cycle.progress.outcomes, ∀ error, outcome.error = some error →
          error.category ≠ .integrity := by
  intro calls
  have proper : ∀ call ∈ calls, call.IsProper := by
    simp [calls, ServiceCall.IsProper, Entries.AreAttributes, Value.isProper]
  have whole : ∀ rule ∈ Catalogue.sample.rules, ¬ rule.RequiresSplit Catalogue.sample := by decide
  refine ⟨rfl, proper, whole, fun cycle among outcome inside error erred breach => ?_⟩
  have inForce : (running Catalogue.sample).engine.catalogue = Catalogue.sample := rfl
  obtain ⟨explained, _⟩ :=
    answerEach_breaches Catalogue.load_sample inForce proper true cycle among
  obtain ⟨rule, member, _, split⟩ := explained outcome inside error erred breach
  exact whole rule member split

end Service

/-- A document with a rule that is awarded once for each team, and one that requires its award
whatever the team. -/
def splitDocument : Value :=
  .mapping [(.text "achievements", .mapping [
    (.text "Team", .mapping [(.text "scope", .list [.text subjectKey, .text "team"])]),
    (.text "Wide", .mapping [
      (.text "requirements", .list [.mapping [(.text "achievement", .text "Team")]])])])]

/-- The catalogue of these rules. -/
def splitCatalogue : Catalogue :=
  ⟨[⟨"Team", .allOf [], [], 1, [subjectKey, "team"], [], false⟩,
    ⟨"Wide", .allOf [.achievement "Team" (.atLeast 1)], [], 1, [subjectKey], [], false⟩]⟩

/-- Events of one subject for two teams leave two awards where the second rule expects one. -/
theorem split_breaks :
    let calls := [ServiceCall.event (.text "u") (.text "Match") [] [(.text "team", .text "red")],
      .event (.text "u") (.text "Match") [] [(.text "team", .text "blue")]]
    Catalogue.load .strict splitDocument = .ok ⟨splitCatalogue, []⟩ ∧
      (∀ call ∈ calls, call.IsProper) ∧
      ∃ cycle ∈ (Service.running splitCatalogue).answerEach true calls (Stores.of [] [] []),
        ∃ outcome ∈ cycle.progress.outcomes, ∃ error, outcome.error = some error ∧
          error.category = .integrity := by
  intro calls
  have proper : ∀ call ∈ calls, call.IsProper := by
    simp [calls, ServiceCall.IsProper, Entries.AreAttributes, Value.isProper]
  refine ⟨rfl, proper, ?_⟩
  have broken : ((Service.running splitCatalogue).answerEach true calls (Stores.of [] [] [])).any
      (fun cycle => cycle.progress.outcomes.any fun outcome =>
        outcome.error.any fun error => error.category == .integrity) = true := by decide +kernel
  obtain ⟨cycle, among, found⟩ := List.any_eq_true.mp broken
  obtain ⟨outcome, inside, erred⟩ := List.any_eq_true.mp found
  obtain ⟨error, held, category⟩ := (Option.any_eq_true _ _).mp erred
  exact ⟨cycle, among, outcome, inside, error, held, eq_of_beq category⟩

end Accolade
