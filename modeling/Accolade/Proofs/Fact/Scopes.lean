import Accolade.Proofs.Context
import Accolade.Proofs.Fact.Ledger

/-!
# Scopes that are apart

Two contexts are apart when both have a scope key under which their attributes differ. The key
of the name does not count: a query has the name asked for under it, and no scope value. No
record lies in two contexts that are apart. So what is awarded or retracted in one of them is
not found in the other.

Two contexts of one scope that are not apart find the same records, whatever they ask for.
-/

namespace Accolade

namespace Context

/-- Whether the attributes of two contexts differ under a scope key of both, other than that of
the name. -/
def ApartFrom (context other : Context) : Prop :=
  ∃ key ∈ context.scope, key ∈ other.scope ∧ key ≠ nameKey ∧ ∃ value theirs,
    Entries.field? context.attributes key = some value ∧
      Entries.field? other.attributes key = some theirs ∧ value.equals theirs = false

/-- Being apart does not depend on the order, if the attributes are proper. -/
theorem ApartFrom.symm {context other : Context} (apart : context.ApartFrom other)
    (proper : Value.entriesProper other.attributes = true) : other.ApartFrom context := by
  obtain ⟨key, inside, insideToo, different, value, theirs, given, givenToo, unequal⟩ := apart
  refine ⟨key, insideToo, inside, different, theirs, value, givenToo, given, ?_⟩
  apply Bool.eq_false_iff.mpr
  intro equal
  obtain ⟨held, member, _⟩ := Entries.mem_of_find givenToo
  have turned := Value.equals_symm ((Value.entriesProper_iff _).mp proper _ member) equal
  rw [unequal] at turned
  contradiction

/-- A context that is apart from another has scope values. -/
theorem ApartFrom.boundValues_ne_nil {context other : Context} (apart : context.ApartFrom other) :
    context.boundValues ≠ [] := by
  obtain ⟨key, inside, _, _, value, _, given, _⟩ := apart
  exact List.ne_nil_of_mem
    ((context.boundValues_entries.2 (.text key, value)).mpr ⟨key, inside, value, given, rfl⟩)

end Context

namespace Fact

variable {fact : Fact} {context other : Context}

/-- No record with a proper scope lies in two contexts that are apart. -/
theorem LiesIn.apart (within : fact.LiesIn context)
    (proper : Value.entriesProper fact.scope = true) (apart : context.ApartFrom other) :
    ¬ fact.LiesIn other := by
  intro within'
  obtain ⟨key, inside, insideToo, different, value, theirs, given, givenToo, unequal⟩ := apart
  obtain ⟨held, found, equal⟩ := within key inside different value given
  obtain ⟨again, foundToo, equalToo⟩ := within' key insideToo different theirs givenToo
  have one : again = held := Option.some.inj (foundToo.symm.trans found)
  subst one
  obtain ⟨place, member, _⟩ := Entries.mem_of_find found
  have heldProper : again.isProper = true := (Value.entriesProper_iff _).mp proper _ member
  have joined : value.equals theirs = true :=
    Value.equals_trans (Value.equals_symm heldProper equal) equalToo
  rw [unequal] at joined
  contradiction

/-- A record found within one of two scopes that are apart is not found within the other, under
whatever names it is looked for. -/
theorem isMatch_apart {name : String}
    (matching : fact.isMatch (Ledger.queryOf (.text name) context.boundValues) = true)
    (proper : Value.entriesProper fact.scope = true) (apart : context.ApartFrom other)
    (otherName : String) :
    fact.isMatch (Ledger.queryOf (.text otherName) other.boundValues) = false := by
  apply Bool.eq_false_iff.mpr
  intro also
  exact ((fact.isMatch_iff context name).mp matching).2.apart proper apart
    ((fact.isMatch_iff other otherName).mp also).2

/-- Within one scope, a record that lies in a context lies in any other that is not apart. -/
theorem LiesIn.of_not_apart (within : fact.LiesIn context) (keys : context.scope = other.scope)
    (resolves : context.Resolves) (together : ¬ context.ApartFrom other) : fact.LiesIn other := by
  intro key inside different theirs givenToo
  have insideToo : key ∈ context.scope := keys ▸ inside
  obtain ⟨value, given⟩ := Option.isSome_iff_exists.mp (resolves key insideToo)
  obtain ⟨held, found, equal⟩ := within key insideToo different value given
  have alike : value.equals theirs = true := by
    cases compared : value.equals theirs with
    | true => rfl
    | false =>
      exact absurd ⟨key, insideToo, inside, different, value, theirs, given, givenToo, compared⟩
        together
  exact ⟨held, found, Value.equals_trans equal alike⟩

/-- Within one scope, contexts that are not apart share their records. -/
theorem liesIn_iff_of_not_apart (keys : context.scope = other.scope) (resolves : context.Resolves)
    (resolvesToo : other.Resolves) (proper : Value.entriesProper context.attributes = true)
    (together : ¬ context.ApartFrom other) : fact.LiesIn context ↔ fact.LiesIn other :=
  ⟨fun within => within.of_not_apart keys resolves together,
    fun within =>
      within.of_not_apart keys.symm resolvesToo fun apart => together (apart.symm proper)⟩

end Fact

namespace Ledger

variable {context other : Context} {ledger later : Ledger} {written : Fact} {name : String}

/-- The record that an award writes in one context is not found in another that is apart. -/
theorem Recorded.apart (recorded : Recorded (.text name) context.boundValues ledger written later)
    (proper : ∀ fact ∈ ledger, Value.entriesProper fact.scope = true)
    (apart : context.ApartFrom other) (otherName : String) :
    written.isMatch (queryOf (.text otherName) other.boundValues) = false := by
  cases recorded with
  | changed before after old total holding =>
    simp only [holdsTotal, Bool.and_eq_true] at holding
    have oldProper : Value.entriesProper old.scope = true :=
      proper old (List.mem_append_right _ List.mem_cons_self)
    exact (Fact.isMatch_apart holding.1 oldProper apart otherName : old.isMatch _ = false)
  | appended ledger none =>
    obtain ⟨key, inside, insideToo, different, value, theirs, given, givenToo, unequal⟩ := apart
    apply Bool.eq_false_iff.mpr
    intro matching
    obtain ⟨held, found, equal⟩ := ((Fact.isMatch_iff _ other otherName).mp matching).2 key
      insideToo different theirs givenToo
    have one : held = value :=
      Option.some.inj (found.symm.trans (Context.field?_boundValues_of_mem inside given))
    rw [one, unequal] at equal
    contradiction

/-- The record that an award writes is not found under another name. -/
theorem Recorded.other_name {scope : Entries}
    (recorded : Recorded (.text name) scope ledger written later) {otherName : String}
    (different : otherName ≠ name) (otherScope : Entries) :
    written.isMatch (queryOf (.text otherName) otherScope) = false := by
  have named : written.name = .text name := by
    cases recorded with
    | changed before after old total holding =>
      simp only [holdsTotal, Bool.and_eq_true] at holding
      exact name_of_isMatch holding.1
    | appended ledger none => rfl
  apply Bool.eq_false_iff.mpr
  intro matching
  have one : Value.text otherName = .text name := (name_of_isMatch matching).symm.trans named
  exact different (Scalar.text.inj (Value.scalar.inj one))

end Ledger

end Accolade
