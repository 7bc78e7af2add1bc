import Accolade.Proofs.Catalogue.Loader
import Accolade.Proofs.Cycle.Calm
import Accolade.Proofs.Cycle.Parallel
import Accolade.Proofs.Fact.Subjects

/-!
# Subjects do not interfere

If every rule in force is scoped by the subject, a cycle sees and touches the records of its
subject only. Run it on two calm stores that hold the same records of the subject among whatever
others: it does the same on both, leaves the same records of the subject, and each time leaves
the records of all others as they were. Identifiers are not compared, since a new record is
numbered among all records of its ledger.

Two stores are isolated when they have come from two initial ones in this way. Every step of a
cycle keeps stores isolated and comes to the same on both, so the whole cycle does.
-/

namespace Accolade

namespace Stores

/-- Whether two stores hold the same records of a subject, up to their identifiers. -/
def AgreeOn (subject : Value) (first second : Stores) : Prop :=
  ∀ kind, (first.ledger kind).ofSubject subject = (second.ledger kind).ofSubject subject

/-- Stores with an award to the third subject, and then that of the sample. -/
def crowded : Stores :=
  of [⟨.text "Beginner", .integer 5, [(.text subjectKey, .integer 3)], [], some "record-0"⟩,
    ⟨.text "Beginner", .integer 1, [(.text subjectKey, .integer 2)], [], some "record-1"⟩] [] []

/-- The crowded stores are calm: they are plain, and the amounts of their awards and experience are
whole. -/
theorem crowded_calm : crowded.IsCalm := by
  refine ⟨⟨rfl, rfl⟩, ?_, ?_⟩
  · intro fact member
    rcases List.mem_cons.mp member with rfl | last
    · rfl
    · rw [List.mem_singleton.mp last]
      rfl
  · intro fact member
    contradiction

/-- The crowded stores hold the same of the second subject as the sample: they have more records of
the first subject only. -/
theorem sample_agreeOn_crowded : AgreeOn (.integer 2) sample crowded
  | .achievement => rfl
  | .experience => rfl
  | .event => rfl

/-- Whether stores hold the same records of all but a subject as they did at first. -/
def KeepOthers (subject : Value) (initial stores : Stores) : Prop :=
  ∀ kind, (stores.ledger kind).ofOthers subject = (initial.ledger kind).ofOthers subject

/-- Whether two stores, come from two initial ones, are calm, agree on a subject, and have kept
the records of others. -/
structure Isolated (subject : Value) (initial initialToo first second : Stores) : Prop where
  calm : first.IsCalm
  calmToo : second.IsCalm
  agree : AgreeOn subject first second
  kept : KeepOthers subject initial first
  keptToo : KeepOthers subject initialToo second

namespace Isolated

variable {context : Context} {initial initialToo first second : Stores}

/-- Writing ledgers of whole amounts that agree on the subject, and keep the records of others,
keeps stores isolated. -/
theorem withAchievements {subject : Value}
    (isolated : Isolated subject initial initialToo first second) {later laterToo : Ledger}
    (counted : later.IsCounted) (countedToo : laterToo.IsCounted)
    (agree : later.ofSubject subject = laterToo.ofSubject subject)
    (kept : later.ofOthers subject = first.achievements.ofOthers subject)
    (keptToo : laterToo.ofOthers subject = second.achievements.ofOthers subject) :
    Isolated subject initial initialToo (first.withAchievements later)
      (second.withAchievements laterToo) where
  calm := isolated.calm.withAchievements counted
  calmToo := isolated.calmToo.withAchievements countedToo
  agree
    | .achievement => agree
    | .experience => isolated.agree .experience
    | .event => isolated.agree .event
  kept
    | .achievement => kept.trans (isolated.kept .achievement)
    | .experience => isolated.kept .experience
    | .event => isolated.kept .event
  keptToo
    | .achievement => keptToo.trans (isolated.keptToo .achievement)
    | .experience => isolated.keptToo .experience
    | .event => isolated.keptToo .event

variable (personal : context.IsPersonal)
  (isolated : Isolated context.subject initial initialToo first second)
include isolated

/-- Running actions keeps stores isolated, and goes through on both. -/
theorem invoke {runsActions : Bool} {run : List Value → Context → Stores →
      Except Failure Unit × Stores}
    (given : (Stores.collaborators runsActions).invoke = some run) (actions : List Value)
    (bound : Context) :
    SameBeside (Isolated context.subject initial initialToo) (run actions bound first)
      (run actions bound second) := by
  obtain ⟨invocations, invoked⟩ :=
    Stores.invoked_of_faultless isolated.calm.faultless given actions bound
  obtain ⟨invocationsToo, invokedToo⟩ :=
    Stores.invoked_of_faultless isolated.calmToo.faultless given actions bound
  rw [invoked, invokedToo]
  exact ⟨rfl, isolated.calm.withInvocations invocations,
    isolated.calmToo.withInvocations invocationsToo, isolated.agree, isolated.kept,
    isolated.keptToo⟩

include personal

/-- In a personal context every query finds the same facts on both, up to their identifiers. -/
theorem findsAlike : Stores.lookup.FindsAlike context first second :=
  Stores.findsAlike isolated.calm.faultless isolated.calmToo.faultless fun kind _ =>
    Ledger.find_alike (fun _ matching => personal.belongsTo_of_isMatch matching)
      (isolated.agree kind)

/-- An award in a personal context goes through on both, writes the same amount, and keeps them
isolated. -/
theorem recordAward (name : String) :
    ∃ written writtenToo later laterToo,
      Stores.recordAward context.subject name context.boundValues first = (.ok written, later) ∧
      Stores.recordAward context.subject name context.boundValues second =
        (.ok writtenToo, laterToo) ∧
      written.amount = writtenToo.amount ∧
      Isolated context.subject initial initialToo later laterToo := by
  obtain ⟨written, later, recorded, awarded⟩ := Ledger.recordAward_awarded
    isolated.calm.achievements context.subject (.text name) context.boundValues
  obtain ⟨writtenToo, laterToo, recordedToo, awardedToo⟩ := Ledger.recordAward_awarded
    isolated.calmToo.achievements context.subject (.text name) context.boundValues
  obtain ⟨same, agree⟩ := Ledger.recordAward_ofSubject personal name
    (isolated.agree .achievement) recorded recordedToo
  have counted := awarded.counted isolated.calm.achievements
  have countedToo := awardedToo.counted isolated.calmToo.achievements
  rw [personal.awardScope_eq] at awarded awardedToo
  refine ⟨written, writtenToo, first.withAchievements later, second.withAchievements laterToo,
    isolated.calm.toIsPlain.recordAward recorded,
    isolated.calmToo.toIsPlain.recordAward recordedToo, ?_, ?_⟩
  · simpa using congrArg (·.amount) same
  · exact isolated.withAchievements counted countedToo agree
      (Ledger.Awarded.ofOthers_eq personal name awarded)
      (Ledger.Awarded.ofOthers_eq personal name awardedToo)

/-- A retraction in a personal context goes through on both and keeps them isolated. -/
theorem retractAward (name : String) :
    SameBeside (Isolated context.subject initial initialToo)
      (Stores.retractAward context.subject name context.boundValues first)
      (Stores.retractAward context.subject name context.boundValues second) := by
  have blind := Ledger.belongsTo_isBlind context.subject
  rw [isolated.calm.toIsPlain.retractAward, isolated.calmToo.toIsPlain.retractAward]
  refine ⟨rfl, isolated.withAchievements ?_ ?_ ?_ ?_ ?_⟩
  · exact Ledger.retractAward_counted _ _ _ isolated.calm.achievements
  · exact Ledger.retractAward_counted _ _ _ isolated.calmToo.achievements
  · exact Ledger.retractAward_alike blind _ _ _ (isolated.agree .achievement)
  · exact Ledger.retractAward_ofOthers personal name _
  · exact Ledger.retractAward_ofOthers personal name _

end Isolated

end Stores

namespace Engine

variable {engine : Engine} {context : Context} {candidates : List Rule}
  {initial initialToo : Stores}

section Steps

variable (known : ∀ rule ∈ candidates, rule ∈ engine.catalogue.rules)
  (keyed : ∀ rule ∈ engine.catalogue.rules, subjectKey ∈ rule.scope)
  (own : ∃ value, Entries.field? context.attributes subjectKey = some value ∧
    value.equals context.subject = true)
include known keyed own

/-- The scope under which a candidate retracts a rule makes a context personal. -/
theorem retractionScope_isPersonal {rule : Rule} (member : rule ∈ candidates) (target : String) :
    (context.forScope (engine.retractionScope rule target)).IsPersonal := by
  obtain ⟨held, inForce, same⟩ := retractionScope_known (known rule member) target
  rw [same]
  exact ⟨keyed held inForce, own⟩

/-- Every step of a cycle comes to the same on isolated stores and keeps them isolated. -/
theorem stepsAlike_isolated (texts : AreTexts (Entries.keys context.attributes)) (runs : Bool) :
    StepsAlike engine (Stores.collaborators runs) context candidates
      (Stores.Isolated context.subject initial initialToo) where
  judged rule member first second isolated := by
    have personal : (context.forScope rule.scope).IsPersonal :=
      ⟨keyed rule (known rule member), own⟩
    have alike : Stores.lookup.FindsAlike (context.forScope rule.scope) first second :=
      Stores.Isolated.findsAlike personal isolated
    exact Rule.judge_alike isolated.calm.lookup isolated.calmToo.lookup texts alike _ isolated
  recorded rule member first second isolated := by
    have personal : (context.forScope rule.scope).IsPersonal :=
      ⟨keyed rule (known rule member), own⟩
    obtain ⟨written, writtenToo, later, laterToo, recorded, recordedToo, amounts, next⟩ :=
      Stores.Isolated.recordAward personal isolated rule.name
    exact ⟨.ok written, .ok writtenToo, later, laterToo, recorded, recordedToo,
      congrArg Except.ok amounts, next⟩
  retracted rule member target _ first second isolated :=
    Stores.Isolated.retractAward (retractionScope_isPersonal known keyed own member target)
      isolated target
  invoked run given actions bound first second isolated := isolated.invoke given actions bound

end Steps

/-- Whether a cycle does the same on two stores as far as a subject goes, and leaves the records of
others alone. It comes to its end on both, as far as the candidates are brief, or the same failure
leaves it on both. -/
structure Separates (engine : Engine) (collaborators : Collaborators Stores) (context : Context)
    (candidates : List Rule) (first second : Stores) : Prop where
  ends : EndsIfBrief context candidates
    (engine.process collaborators context candidates first).1
  endsAlike : (engine.process collaborators context candidates first).1 =
    (engine.process collaborators context candidates second).1
  awarded : (engine.process collaborators context candidates first).2.awarded =
    (engine.process collaborators context candidates second).2.awarded
  retracted : (engine.process collaborators context candidates first).2.retracted =
    (engine.process collaborators context candidates second).2.retracted
  outcomes : (engine.process collaborators context candidates first).2.outcomes =
    (engine.process collaborators context candidates second).2.outcomes
  passes : (engine.process collaborators context candidates first).2.passes =
    (engine.process collaborators context candidates second).2.passes
  agree : Stores.AgreeOn context.subject
    (engine.process collaborators context candidates first).2.state
    (engine.process collaborators context candidates second).2.state
  kept : Stores.KeepOthers context.subject first
    (engine.process collaborators context candidates first).2.state
  keptToo : Stores.KeepOthers context.subject second
    (engine.process collaborators context candidates second).2.state

/-- If every rule in force is scoped by the subject, and the attribute there is the subject of
the context, a cycle over calm stores does the same on all that agree on the subject, and
leaves the records of others alone. -/
theorem process_separates (known : ∀ rule ∈ candidates, rule ∈ engine.catalogue.rules)
    (keyed : ∀ rule ∈ engine.catalogue.rules, subjectKey ∈ rule.scope)
    (own : ∃ value, Entries.field? context.attributes subjectKey = some value ∧
      value.equals context.subject = true)
    (texts : AreTexts (Entries.keys context.attributes)) {first second : Stores}
    (calm : first.IsCalm) (calmToo : second.IsCalm)
    (agree : Stores.AgreeOn context.subject first second) (runs : Bool) :
    engine.Separates (Stores.collaborators runs) context candidates first second := by
  have steps : StepsAlike engine (Stores.collaborators runs) context candidates
      (Stores.Isolated context.subject first second) :=
    stepsAlike_isolated known keyed own texts runs
  have begun : Stores.Isolated context.subject first second first second :=
    ⟨calm, calmToo, agree, fun _ => rfl, fun _ => rfl⟩
  have ends := process_ends runs context engine candidates calm.isQuiet texts
  obtain ⟨same, state, isolated, ended⟩ := steps.process begun
  refine ⟨ends, same, ?_, ?_, ?_, ?_, ?_, isolated.kept, ?_⟩
  all_goals rw [ended]
  · exact isolated.agree
  · exact isolated.keptToo

/-- A cycle for the second subject over the sample catalogue awards both rules, whether or not
another subject has an award. -/
theorem sample_separates :
    let engine := Engine.mk Catalogue.sample 10 none none
    let context := Context.of (.integer 2) [] defaultScope
    engine.Separates (Stores.collaborators true) context Catalogue.sample.rules Stores.sample
        Stores.crowded ∧
      (engine.process (Stores.collaborators true) context Catalogue.sample.rules
        Stores.sample).2.awarded = ["Beginner", "Expert"] := by
  intro engine context
  have keyed : ∀ rule ∈ engine.catalogue.rules, subjectKey ∈ rule.scope := by decide
  have texts : AreTexts (Entries.keys context.attributes) :=
    fun key member => ⟨subjectKey, List.mem_singleton.mp member⟩
  refine ⟨process_separates (fun _ => id) keyed ⟨.integer 2, rfl, rfl⟩ texts Stores.sample_calm
    Stores.crowded_calm Stores.sample_agreeOn_crowded true, ?_⟩
  decide +kernel

end Engine

end Accolade
