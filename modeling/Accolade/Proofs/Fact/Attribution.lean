import Accolade.Proofs.Fact.Cells

/-!
# To whom records are credited

A record whose scope holds a subject is credited to that subject. Whoever awards or retracts a rule
in a context finds records by the values of the scope of that rule, and by no others. So a record
of another subject is left alone only if the key of the subject is in the scope of the rule
whenever it is in that of the record.

This is so in a ledger that is keyed: each record has the name of a rule in force and no key that
the scope of this rule has not. Awards and retractions of rules in force keep a ledger keyed, and
over a keyed ledger every record that they write is credited to the subject among the attributes of
the context, or to no one.
-/

namespace Accolade

namespace Fact

/-- Whether a record is credited to a holder, or to no one: if its scope has a subject, this is the
holder or equals it. -/
def IsCreditedTo (fact : Fact) (holder : Value) : Prop :=
  ∀ held, fact.subject? = some held → held = holder ∨ held.equals holder = true

/-- Whether a record has the name of a rule and no key that is not in its scope. -/
structure IsKeyedFor (fact : Fact) (rule : Rule) : Prop where
  named : fact.name = .text rule.name
  keys : ∀ key, Entries.hasField fact.scope key = true → key ∈ rule.scope

end Fact

namespace Ledger

/-- Whether every record of a later ledger is one of an earlier ledger in its place, or of a kind.
-/
def ChangesOnly (kind : Fact → Prop) (earlier later : Ledger) : Prop :=
  ∀ (place : Nat) (fact : Fact), later[place]? = some fact → earlier[place]? = some fact ∨ kind fact

/-- Whether every record of a ledger is keyed for a rule in force. -/
def IsKeyedFor (catalogue : Catalogue) (ledger : Ledger) : Prop :=
  ∀ fact ∈ ledger, ∃ rule ∈ catalogue.rules, fact.IsKeyedFor rule

namespace ChangesOnly

variable {kind : Fact → Prop} {first second third : Ledger}

/-- A ledger that stays as it is changes nothing, of whatever kind. -/
theorem refl (ledger : Ledger) : ledger.ChangesOnly kind ledger := fun _ _ => .inl

/-- What is changed one after the other is of the kind if both changes are. -/
theorem trans (early : first.ChangesOnly kind second) (late : second.ChangesOnly kind third) :
    first.ChangesOnly kind third := by
  intro place fact found
  rcases late place fact found with before | changed
  · exact early place fact before
  · exact .inr changed

/-- A record of the kind may be appended, since no record that was there changes. -/
theorem concat (ledger : Ledger) {fact : Fact} (own : kind fact) :
    ledger.ChangesOnly kind (ledger ++ [fact]) := by
  intro place other found
  rw [List.getElem?_append] at found
  split at found
  · exact .inl found
  · obtain rfl := List.mem_singleton.mp (List.mem_of_getElem? found)
    exact .inr own

end ChangesOnly

/-- An award changes only the record that it writes. -/
theorem Recorded.changesOnly {kind : Fact → Prop} {name : Value} {scope : Entries}
    {ledger later : Ledger} {written : Fact}
    (recorded : Recorded name scope ledger written later) (own : kind written) :
    ledger.ChangesOnly kind later := by
  cases recorded with
  | changed before after old total holding =>
    intro place fact found
    rw [List.getElem?_append] at found ⊢
    split at found
    · rename_i early
      simpa only [early, if_true] using .inl found
    · rename_i late
      simp only [late, if_false]
      cases behind : place - before.length with
      | zero =>
        rw [behind] at found
        exact .inr (Option.some.inj found ▸ own)
      | succ further =>
        rw [behind] at found
        exact .inl found
  | appended ledger none => exact .concat ledger own

/-- A retraction changes only records that match its query, and clears them. -/
theorem retractAward_changesOnly {kind : Fact → Prop} {ledger : Ledger} {subject name : Value}
    {scope : Entries}
    (cleared : ∀ fact ∈ ledger, fact.isMatch (queryOf name (awardScope subject scope)) = true →
      kind fact.cleared) :
    ledger.ChangesOnly kind (ledger.retractAward subject name scope) := by
  intro place fact found
  rw [retractAward_eq, List.getElem?_map] at found
  obtain ⟨old, held, rfl⟩ := Option.map_eq_some_iff.mp found
  split
  · rename_i matching
    exact .inr (cleared old (List.mem_of_getElem? held) matching)
  · exact .inl held

namespace IsKeyedFor

variable {catalogue : Catalogue} {ledger : Ledger}

/-- A ledger without records is keyed for any catalogue. -/
theorem nil (catalogue : Catalogue) : IsKeyedFor catalogue [] := by simp [IsKeyedFor]

/-- A ledger stays keyed in a retraction, whatever is retracted. -/
theorem retractAward (keyed : ledger.IsKeyedFor catalogue) (subject name : Value)
    (scope : Entries) : IsKeyedFor catalogue (ledger.retractAward subject name scope) := by
  intro fact member
  obtain ⟨old, inside, rfl | ⟨_, rfl⟩⟩ := mem_retractAward ledger subject name scope member
  · exact keyed fact inside
  · obtain ⟨rule, inForce, named, keys⟩ := keyed old inside
    exact ⟨rule, inForce, named, keys⟩

section Writes

variable (keyed : ledger.IsKeyedFor catalogue) {rule : Rule} (member : rule ∈ catalogue.rules)
  {context : Context}
include keyed member

/-- A ledger stays keyed in an award of a rule in force under its own scope. -/
theorem recorded {written : Fact} {later : Ledger}
    (recorded : Recorded (.text rule.name) (context.forScope rule.scope).boundValues ledger written
      later) : later.IsKeyedFor catalogue := by
  refine recorded.forall_mem ?_ keyed ⟨rule, member, rfl, fun key held => ?_⟩
  · rintro fact amount ⟨other, inForce, named, keys⟩
    exact ⟨other, inForce, named, keys⟩
  · obtain ⟨value, found⟩ := Option.isSome_iff_exists.mp held
    exact (((context.forScope rule.scope).field?_boundValues_iff key value).mp found).1

variable (distinct : catalogue.names.Nodup)
include distinct

/-- A record that matches a query for a rule in force is keyed for this rule. -/
theorem of_isMatch {fact : Fact} (inside : fact ∈ ledger) {scope : Entries}
    (matching : fact.isMatch (queryOf (.text rule.name) scope) = true) : fact.IsKeyedFor rule := by
  obtain ⟨other, inForce, named, keys⟩ := keyed fact inside
  have same : other.name = rule.name :=
    Scalar.text.inj (Value.scalar.inj (named.symm.trans (name_of_isMatch matching)))
  obtain rfl : other = rule := Catalogue.eq_of_name distinct inForce member same
  exact ⟨named, keys⟩

variable {holder : Value}
  (subjected : Entries.field? context.attributes subjectKey = some holder)
include subjected

/-- A record that matches the query for a rule in force under its own scope is credited to the
subject among the attributes of the context: if its scope has a subject, so has that of the rule,
and the query asks for it. -/
theorem isCreditedTo {fact : Fact} (inside : fact ∈ ledger)
    (matching : fact.isMatch
      (queryOf (.text rule.name) (context.forScope rule.scope).boundValues) = true) :
    fact.IsCreditedTo holder := by
  intro held found
  have asked : subjectKey ∈ rule.scope :=
    (keyed.of_isMatch member distinct inside matching).keys subjectKey
      (Option.isSome_iff_exists.mpr ⟨held, found⟩)
  have different : subjectKey ≠ nameKey := by decide
  obtain ⟨own, here, equal⟩ := ((fact.isMatch_iff (context.forScope rule.scope) rule.name).mp
    matching).2 subjectKey asked different holder subjected
  obtain rfl : own = held := Option.some.inj (here.symm.trans found)
  exact .inr equal

/-- The record that an award of the rule writes belongs to the holder: it is a record of the holder
with another amount, or a new one with the values of the scope. -/
theorem written_isCreditedTo {written : Fact} {later : Ledger}
    (recorded : Recorded (.text rule.name) (context.forScope rule.scope).boundValues ledger written
      later) : written.IsCreditedTo holder := by
  cases recorded with
  | changed before after old total holding =>
    simp only [holdsTotal, Bool.and_eq_true] at holding
    have inside : old ∈ before ++ old :: after := List.mem_append_right before List.mem_cons_self
    have before : old.IsCreditedTo holder :=
      keyed.isCreditedTo member distinct subjected inside holding.1
    exact before
  | appended ledger none =>
    intro held found
    obtain ⟨_, given⟩ :=
      ((context.forScope rule.scope).field?_boundValues_iff subjectKey held).mp found
    exact .inl (Option.some.inj (given.symm.trans subjected))

end Writes

end IsKeyedFor

end Ledger

end Accolade
