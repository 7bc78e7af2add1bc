import Accolade.Proofs.Context
import Accolade.Proofs.Fact.Parts

/-!
# The records of one subject

A record belongs to a subject when its scope holds that subject. A personal context is one whose
scope has the key of the subject, under which the attributes have the subject of the context. In
a personal context a query matches records of the subject only, and an award is a record of the
subject.

So finding, awarding and retracting in such a context come to the same on two ledgers with the
same records of the subject, whatever other records stand among them; and they leave the records
of others alone. Records are the same here if they differ in nothing but their identifiers,
which count all records of a ledger.
-/

namespace Accolade

namespace Fact

/-- Whether a record belongs to a subject. -/
def belongsTo (fact : Fact) (subject : Value) : Bool :=
  fact.subject?.any fun held => held.equals subject

@[simp] theorem anonymous_belongsTo (fact : Fact) (subject : Value) :
    fact.anonymous.belongsTo subject = fact.belongsTo subject := rfl

/-- A record whose scope holds an equal of the subject belongs to it. -/
theorem belongsTo_of_field {fact : Fact} {held subject : Value}
    (found : Entries.field? fact.scope subjectKey = some held)
    (equal : held.equals subject = true) : fact.belongsTo subject = true := by
  simp only [belongsTo, subject?, found, Option.any_some, equal]

end Fact

/-- Whether a context is personal: its scope has the key of the subject, and the attribute there
is the subject of the context. -/
structure Context.IsPersonal (context : Context) : Prop where
  keyed : subjectKey ∈ context.scope
  own : ∃ value, Entries.field? context.attributes subjectKey = some value ∧
    value.equals context.subject = true

namespace Context.IsPersonal

variable {context : Context} (personal : context.IsPersonal)
include personal

/-- In a personal context a query matches records of the subject only. -/
theorem belongsTo_of_isMatch {fact : Fact} {name : String}
    (matching : fact.isMatch (Ledger.queryOf (.text name) context.boundValues) = true) :
    fact.belongsTo context.subject = true := by
  obtain ⟨value, given, own⟩ := personal.own
  have different : subjectKey ≠ nameKey := by decide
  obtain ⟨held, found, equal⟩ := ((fact.isMatch_iff context name).mp matching).2 subjectKey
    personal.keyed different value given
  exact Fact.belongsTo_of_field found (Value.equals_trans equal own)

/-- A record with the scope values of a personal context belongs to the subject. -/
theorem belongsTo_of_scope {fact : Fact} (bound : fact.scope = context.boundValues) :
    fact.belongsTo context.subject = true := by
  obtain ⟨value, given, own⟩ := personal.own
  have found := Context.field?_boundValues_of_mem personal.keyed given
  exact Fact.belongsTo_of_field (bound ▸ found) own

/-- In a personal context the scope of an award is the scope values. -/
theorem awardScope_eq : Ledger.awardScope context.subject context.boundValues =
    context.boundValues := by
  obtain ⟨value, given, _⟩ := personal.own
  have found := Context.field?_boundValues_of_mem personal.keyed given
  refine Ledger.awardScope_of_ne_nil _ fun empty => ?_
  rw [empty] at found
  contradiction

end Context.IsPersonal

namespace Ledger

/-- The records of a subject, without their identifiers. -/
def ofSubject (ledger : Ledger) (subject : Value) : Ledger :=
  (List.filter (fun fact => fact.belongsTo subject) ledger).map Fact.anonymous

/-- The records that do not belong to a subject. -/
def ofOthers (ledger : Ledger) (subject : Value) : Ledger :=
  List.filter (fun fact => !fact.belongsTo subject) ledger

/-- To whom a record belongs depends on neither its amount nor its identifier. -/
theorem belongsTo_isBlind (subject : Value) : IsBlind fun fact => fact.belongsTo subject :=
  fun _ _ _ => rfl

section Personal

variable {context : Context} (personal : context.IsPersonal) (name : String)
include personal

/-- The record of a running amount in a personal context belongs to the subject. -/
theorem belongsTo_of_holdsTotal {fact : Fact}
    (holding : holdsTotal (.text name) context.boundValues fact = true) :
    fact.belongsTo context.subject = true := by
  simp only [holdsTotal, Bool.and_eq_true] at holding
  exact personal.belongsTo_of_isMatch holding.1

/-- An award in a personal context comes to the same on ledgers with the same records of the
subject, and leaves them so. -/
theorem recordAward_ofSubject {first second later laterToo : Ledger} {written writtenToo : Fact}
    (agree : first.ofSubject context.subject = second.ofSubject context.subject)
    (recorded : first.recordAward context.subject (.text name) context.boundValues =
      .ok (written, later))
    (recordedToo : second.recordAward context.subject (.text name) context.boundValues =
      .ok (writtenToo, laterToo)) :
    written.anonymous = writtenToo.anonymous ∧
      later.ofSubject context.subject = laterToo.ofSubject context.subject := by
  refine recordAward_alike (belongsTo_isBlind context.subject) ?_ agree recorded recordedToo
  rw [personal.awardScope_eq]
  exact fun fact => belongsTo_of_holdsTotal personal name

/-- An award in a personal context leaves the records of others. -/
theorem Awarded.ofOthers_eq {ledger later : Ledger} {written : Fact}
    (awarded : Awarded (.text name) context.boundValues ledger written later) :
    later.ofOthers context.subject = ledger.ofOthers context.subject := by
  cases awarded with
  | raised before after old holding =>
    have own := belongsTo_of_holdsTotal personal name holding
    have raised : (old.raised 1).belongsTo context.subject = true := own
    simp [ofOthers, own, raised]
  | appended ledger =>
    have own : (newFact ledger (.text name) context.boundValues (.integer 1) []).belongsTo
        context.subject = true := personal.belongsTo_of_scope rfl
    simp [ofOthers, own]

/-- A retraction in a personal context leaves the records of others. -/
theorem retractAward_ofOthers (ledger : Ledger) :
    ofOthers (ledger.retractAward context.subject (.text name) context.boundValues)
        context.subject = ledger.ofOthers context.subject := by
  rw [retractAward_eq, personal.awardScope_eq]
  induction ledger with
  | nil => rfl
  | cons fact rest inductionHypothesis =>
    have further : List.filter (fun fact => !fact.belongsTo context.subject) (rest.map _) =
        List.filter (fun fact => !fact.belongsTo context.subject) rest := inductionHypothesis
    rw [List.map_cons]
    unfold ofOthers
    by_cases matching : fact.isMatch (queryOf (.text name) context.boundValues) = true
    · have own : fact.belongsTo context.subject = true := personal.belongsTo_of_isMatch matching
      have cleared : fact.cleared.belongsTo context.subject = true := own
      simp only [List.filter_cons, matching, own, cleared, if_true, Bool.not_true,
        Bool.false_eq_true, if_false, further]
    · simp only [List.filter_cons, matching, Bool.false_eq_true, if_false, further]

end Personal

end Ledger

end Accolade
