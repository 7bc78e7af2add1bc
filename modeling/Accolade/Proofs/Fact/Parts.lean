import Accolade.Proofs.Fact.Ledger

/-!
# Parts of a ledger

A part of a ledger is the records that a test chooses, in their order and without their
identifiers, which count all records of a ledger. The test looks at neither amounts nor
identifiers, so no write moves a record from one part to another.

Lookups, awards and retractions whose records are all in a part come to the same on any two
ledgers that have this part in common, whatever other records stand among them. Awards and
retractions whose records are outside a part leave it alone.
-/

namespace Accolade

/-- A record without its identifier. -/
def Fact.anonymous (fact : Fact) : Fact := { fact with identifier := none }

namespace Fact

@[simp] theorem anonymous_anonymous (fact : Fact) : fact.anonymous.anonymous = fact.anonymous := rfl

@[simp] theorem anonymous_amount (fact : Fact) : fact.anonymous.amount = fact.amount := rfl

@[simp] theorem anonymous_attributes (fact : Fact) :
    fact.anonymous.attributes = fact.attributes := rfl

@[simp] theorem anonymous_isMatch (fact : Fact) (query : Entries) :
    fact.anonymous.isMatch query = fact.isMatch query := rfl

end Fact

namespace Ledger

/-- Whether a test of records looks at neither amounts nor identifiers. -/
def IsBlind (chosen : Fact → Bool) : Prop :=
  ∀ fact amount identifier,
    chosen { fact with amount := amount, identifier := identifier } = chosen fact

/-- The records that a test chooses, without their identifiers. -/
def part (chosen : Fact → Bool) (ledger : Ledger) : Ledger :=
  (List.filter chosen ledger).map Fact.anonymous

section Shape

variable (chosen : Fact → Bool) (fact : Fact) (ledger rest : Ledger)

theorem part_cons : part chosen (fact :: rest) =
    if chosen fact then fact.anonymous :: part chosen rest else part chosen rest := by
  unfold part
  by_cases inside : chosen fact = true <;> simp [inside]

@[simp] theorem part_append :
    part chosen (ledger ++ rest) = part chosen ledger ++ part chosen rest := by
  simp [part]

end Shape

variable {chosen : Fact → Bool}

section Lookups

variable {query : Entries} (own : ∀ fact : Fact, fact.isMatch query = true → chosen fact = true)
include own

/-- What a query finds is found in a part that holds all it can match. -/
theorem find_part (ledger : Ledger) :
    (ledger.find query).map Fact.anonymous = (ledger.part chosen).find query := by
  induction ledger with
  | nil => rfl
  | cons fact rest inductionHypothesis =>
    rw [part_cons]
    by_cases matching : fact.isMatch query = true
    · simpa [find, matching, own fact matching] using inductionHypothesis
    · by_cases inside : chosen fact = true <;>
        simpa [find, matching, inside] using inductionHypothesis

/-- What a query finds within a part is found alike in all ledgers with that part in common, but for
the identifiers. -/
theorem find_alike {first second : Ledger} (common : first.part chosen = second.part chosen) :
    (first.find query).map Fact.anonymous = (second.find query).map Fact.anonymous := by
  rw [find_part own, find_part own, common]

end Lookups

/-- What an award comes to in a part: the record written and the part, without identifiers. -/
def partView (chosen : Fact → Bool) (outcome : Fact × Ledger) : Fact × Ledger :=
  (outcome.1.anonymous, part chosen outcome.2)

section Writes

variable (blind : IsBlind chosen)
include blind

/-- The part of a part for the same choice is that part. -/
theorem part_part (ledger : Ledger) : part chosen (part chosen ledger) = part chosen ledger := by
  have kept : chosen ∘ Fact.anonymous = chosen :=
    funext fun fact => blind fact fact.amount none
  simp [part, List.filter_map, kept, Function.comp_def]

/-- Adding to the first of some selected records, all in a part, is the same within the part. -/
theorem addToFirst_part {select : Fact → Bool}
    (own : ∀ fact, select fact = true → chosen fact = true)
    (selectBlind : ∀ fact : Fact, select fact.anonymous = select fact) (more : Value)
    (ledger : Ledger) :
    (addToFirst select more ledger).map (Except.map (partView chosen)) =
      addToFirst select more (ledger.part chosen) := by
  induction ledger with
  | nil => rfl
  | cons fact rest inductionHypothesis =>
    rw [part_cons]
    by_cases selected : select fact = true
    · have inside : chosen fact = true := own fact selected
      have kept : ∀ total, part chosen ({ fact with amount := total } :: rest) =
          { fact.anonymous with amount := total } :: part chosen rest := fun total =>
        (part_cons chosen { fact with amount := total } rest).trans
          (if_pos ((blind fact total fact.identifier).trans inside))
      simp only [addToFirst, selected, inside, selectBlind, if_true, Fact.anonymous_amount,
        Option.map_some]
      cases addedAmounts fact.amount more with
      | ok total =>
        simp only [Except.map, partView, kept]
        rfl
      | error failure => rfl
    · by_cases inside : chosen fact = true
      · simp only [addToFirst, selected, inside, selectBlind, if_true, Bool.false_eq_true, if_false,
          ← inductionHypothesis]
        rcases addToFirst select more rest with _ | _ | ⟨written, later⟩
        · rfl
        · rfl
        · simp [Except.map, partView, part_cons, inside]
      · simp only [addToFirst, selected, inside, Bool.false_eq_true, if_false,
          ← inductionHypothesis]
        rcases addToFirst select more rest with _ | _ | ⟨written, later⟩
        · rfl
        · rfl
        · simp [Except.map, partView, part_cons, inside]

/-- An award whose records are all in a part is the same within the part. -/
theorem recordAward_part {subject name : Value} {scope : Entries}
    (own : ∀ fact, holdsTotal name (awardScope subject scope) fact = true → chosen fact = true)
    (ledger : Ledger) :
    (ledger.recordAward subject name scope).map (partView chosen) =
      ((ledger.part chosen).recordAward subject name scope).map (partView chosen) := by
  have narrowed := addToFirst_part blind own (fun _ => rfl) (.integer 1) ledger
  simp only [recordAward, increment, ← narrowed]
  cases addToFirst (holdsTotal name (awardScope subject scope)) (.integer 1) ledger with
  | none =>
    have same :
        chosen (newFact (ledger.part chosen) name (awardScope subject scope) (.integer 1) []) =
          chosen (newFact ledger name (awardScope subject scope) (.integer 1) []) :=
      blind (newFact ledger name (awardScope subject scope) (.integer 1) []) (.integer 1)
        (some (nextIdentifier (ledger.part chosen)))
    simp only [Option.map_none, Except.map, partView, add, part_append, part_cons, same,
      part_part blind]
    rfl
  | some outcome =>
    cases outcome with
    | error failure => rfl
    | ok both => simp [Except.map, partView, part_part blind]

/-- Two ledgers with a part in common have it in common after the same award, whose record is the
same but for its identifier. -/
theorem recordAward_alike {subject name : Value} {scope : Entries}
    (own : ∀ fact, holdsTotal name (awardScope subject scope) fact = true → chosen fact = true)
    {first second later laterToo : Ledger} {written writtenToo : Fact}
    (common : first.part chosen = second.part chosen)
    (recorded : first.recordAward subject name scope = .ok (written, later))
    (recordedToo : second.recordAward subject name scope = .ok (writtenToo, laterToo)) :
    written.anonymous = writtenToo.anonymous ∧ later.part chosen = laterToo.part chosen := by
  have here := recordAward_part blind own first
  rw [common, ← recordAward_part blind own second, recorded, recordedToo] at here
  exact Prod.mk.inj (Except.ok.inj here)

/-- An award of a record outside a part leaves the part as it is. -/
theorem Awarded.part_of_outside {name : Value} {scope : Entries} {ledger later : Ledger}
    {written : Fact} (awarded : Awarded name scope ledger written later)
    (outside : chosen written = false) : later.part chosen = ledger.part chosen := by
  cases awarded with
  | raised before after old holding =>
    have oldOutside : chosen old = false := (blind old _ old.identifier).symm.trans outside
    simp [part_cons, outside, oldOutside]
  | appended ledger => simp [outside, part]

/-- A retraction is the same within every part. -/
theorem retractAward_part (subject name : Value) (scope : Entries) (ledger : Ledger) :
    part chosen (ledger.retractAward subject name scope) =
      (ledger.part chosen).retractAward subject name scope := by
  rw [retractAward_eq, retractAward_eq]
  induction ledger with
  | nil => rfl
  | cons fact rest inductionHypothesis =>
    rw [List.map_cons, part_cons, part_cons, inductionHypothesis]
    have kept : chosen fact.cleared = chosen fact := blind fact (.integer 0) fact.identifier
    by_cases matching : fact.isMatch (queryOf name (awardScope subject scope)) = true
    · simp only [matching, if_true, kept]
      by_cases inside : chosen fact = true
      · simp only [inside, if_true, List.map_cons, Fact.anonymous_isMatch, matching]
        rfl
      · simp [inside]
    · by_cases inside : chosen fact = true <;> simp [matching, inside]

/-- Two ledgers with a part in common have it in common after the same retraction. -/
theorem retractAward_alike (subject name : Value) (scope : Entries) {first second : Ledger}
    (common : first.part chosen = second.part chosen) :
    part chosen (first.retractAward subject name scope) =
      part chosen (second.retractAward subject name scope) := by
  rw [retractAward_part blind, retractAward_part blind, common]

/-- A retraction of records outside a part leaves it. -/
theorem retractAward_part_of_outside {subject name : Value} {scope : Entries} {ledger : Ledger}
    (outside : ∀ fact ∈ ledger, fact.isMatch (queryOf name (awardScope subject scope)) = true →
      chosen fact = false) :
    part chosen (ledger.retractAward subject name scope) = ledger.part chosen := by
  rw [retractAward_eq]
  induction ledger with
  | nil => rfl
  | cons fact rest inductionHypothesis =>
    obtain ⟨here, further⟩ := List.forall_mem_cons.mp outside
    rw [List.map_cons, part_cons, part_cons, inductionHypothesis further]
    by_cases matching : fact.isMatch (queryOf name (awardScope subject scope)) = true
    · have kept : chosen fact.cleared = false :=
        (blind fact (.integer 0) fact.identifier).trans (here matching)
      simp [matching, here matching, kept]
    · simp [matching]

end Writes

end Ledger

end Accolade
