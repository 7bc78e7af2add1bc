import Accolade.Fact.Ledger
import Accolade.Proofs.Document.Sameness

/-!
# The arithmetic of ledgers

A ledger is counted when every amount is a whole number. What a counted ledger holds for a
query is the sum over the records that match it. An award adds one to the total of every
query that matches the one record it writes, and leaves all others alone; a retraction
takes the total of its own query to zero and raises none.

Neither changes anything but amounts in the records there are, and neither removes a
record. `Ledger.Continues` says so of two ledgers, and tells which names were touched.
-/

namespace Accolade

/-- The whole number that an amount is; booleans are zero and one. -/
def Value.whole? : Value → Option Int
  | .integer amount => some amount
  | .boolean held => some (if held then 1 else 0)
  | _ => none

/-- A value is a whole number when it is an integer, or a boolean that denotes it. -/
theorem Value.whole?_eq_some_iff (value : Value) (number : Int) :
    value.whole? = some number ↔
      value = .integer number ∨ ∃ held, value = .boolean held ∧ number = if held then 1 else 0 := by
  cases value with
  | scalar held => cases held <;> simp [whole?, eq_comm]
  | _ => simp [whole?]

/-- Whole numbers, integers or booleans, are added as the integers they are. -/
theorem addedAmounts_of_whole {a b : Value} {m n : Int} (left : a.whole? = some m)
    (right : b.whole? = some n) : addedAmounts a b = .ok (.integer (m + n)) := by
  rcases (a.whole?_eq_some_iff m).mp left with rfl | ⟨held, rfl, rfl⟩ <;>
    rcases (b.whole?_eq_some_iff n).mp right with rfl | ⟨other, rfl, rfl⟩ <;>
    rfl

namespace Fact

/-- The amount of a fact as a whole number; nothing else counts. -/
def count (fact : Fact) : Int := fact.amount.whole?.getD 0

/-- The fact with so much more as its amount. -/
def raised (fact : Fact) (more : Int) : Fact :=
  { fact with amount := .integer (fact.count + more) }

/-- The fact with nothing left of its amount. -/
def cleared (fact : Fact) : Fact := { fact with amount := .integer 0 }

@[simp] theorem raised_count (fact : Fact) (more : Int) :
    (fact.raised more).count = fact.count + more := rfl

@[simp] theorem raised_isMatch (fact : Fact) (more : Int) (query : Entries) :
    (fact.raised more).isMatch query = fact.isMatch query := rfl

@[simp] theorem cleared_count (fact : Fact) : fact.cleared.count = 0 := rfl

@[simp] theorem cleared_isMatch (fact : Fact) (query : Entries) :
    fact.cleared.isMatch query = fact.isMatch query := rfl

end Fact

namespace Ledger

/-- Whether every amount is a whole number. -/
def IsCounted (ledger : Ledger) : Prop := ∀ fact ∈ ledger, fact.amount.whole?.isSome = true

/-- What the records matching a query amount to. -/
def total (query : Entries) : Ledger → Int
  | [] => 0
  | fact :: rest => (if fact.isMatch query then fact.count else 0) + total query rest

@[simp] theorem total_append (query : Entries) (first second : Ledger) :
    total query (first ++ second) = total query first + total query second := by
  induction first with
  | nil => simp [total]
  | cons fact rest inductionHypothesis =>
    simp only [List.cons_append, total, inductionHypothesis]
    omega

/-- The total of a query is that of the records it finds. -/
theorem total_eq_foldr (query : Entries) (ledger : Ledger) :
    total query ledger = ((ledger.find query).map Fact.count).foldr (· + ·) 0 := by
  induction ledger with
  | nil => rfl
  | cons fact rest inductionHypothesis =>
    rw [total, inductionHypothesis]
    by_cases matching : fact.isMatch query = true
    · simp [find, matching]
    · simp [find, matching]

/-- Queries that match the same records have the same total. -/
theorem total_congr {query other : Entries}
    (same : ∀ fact : Fact, fact.isMatch query = true ↔ fact.isMatch other = true)
    (ledger : Ledger) : total query ledger = total other ledger := by
  induction ledger with
  | nil => rfl
  | cons fact rest inductionHypothesis => simp only [total, same fact, inductionHypothesis]

/-- Of amounts that are not negative, a query that matches more finds no less. -/
theorem total_mono {ledger : Ledger} (nonnegative : ∀ fact ∈ ledger, 0 ≤ fact.count)
    {narrow wide : Entries}
    (wider : ∀ fact ∈ ledger, fact.isMatch narrow = true → fact.isMatch wide = true) :
    total narrow ledger ≤ total wide ledger := by
  induction ledger with
  | nil => exact Int.le_refl 0
  | cons fact rest inductionHypothesis =>
    obtain ⟨least, restLeast⟩ := List.forall_mem_cons.mp nonnegative
    obtain ⟨here, further⟩ := List.forall_mem_cons.mp wider
    have later := inductionHypothesis restLeast further
    simp only [total]
    by_cases matching : fact.isMatch narrow = true
    · simp only [matching, here matching, if_true]
      omega
    · simp only [matching, Bool.false_eq_true, if_false]
      split <;> omega

/-- In a counted ledger the amounts found for a query add up to its total, and no addition fails. -/
theorem totalAmount_find {ledger : Ledger} (counted : ledger.IsCounted) (query : Entries) :
    totalAmount ((ledger.find query).map (·.amount)) = .ok (.integer (ledger.total query)) := by
  have summed : ∀ (rest : Ledger) (sum : Int), rest.IsCounted →
      ((rest.find query).map (·.amount)).foldlM addedAmounts (.integer sum) =
        .ok (.integer (sum + rest.total query)) := by
    intro rest
    induction rest with
    | nil => intro sum _; simp [find, total]; rfl
    | cons fact further inductionHypothesis =>
      intro sum whole
      obtain ⟨numbered, furtherCounted⟩ := List.forall_mem_cons.mp whole
      by_cases matching : fact.isMatch query = true
      · obtain ⟨amount, known⟩ := Option.isSome_iff_exists.mp numbered
        have added : addedAmounts (.integer sum) fact.amount = .ok (.integer (sum + amount)) :=
          addedAmounts_of_whole rfl known
        have here : fact.count = amount := by simp [Fact.count, known]
        have later := inductionHypothesis (sum + amount) furtherCounted
        simp only [find] at later
        simp only [find, matching, List.filter_cons_of_pos, List.map_cons, List.foldlM_cons,
          added, total, if_true, here]
        rw [← Int.add_assoc]
        exact later
      · have later := inductionHypothesis sum furtherCounted
        simp only [find] at later
        simp only [find, matching, Bool.false_eq_true, not_false_eq_true, List.filter_cons_of_neg,
          total, if_false, Int.zero_add]
        exact later
  simpa [totalAmount] using summed ledger 0 counted

/-- In a counted ledger the first selected record is raised, if there is one. -/
theorem addToFirst_cases {ledger : Ledger} (counted : ledger.IsCounted) (select : Fact → Bool)
    (more : Int) :
    (addToFirst select (.integer more) ledger = none ∧ ∀ fact ∈ ledger, select fact = false) ∨
      ∃ before fact after, ledger = before ++ fact :: after ∧ select fact = true ∧
        addToFirst select (.integer more) ledger =
          some (.ok (fact.raised more, before ++ fact.raised more :: after)) := by
  induction ledger with
  | nil => exact .inl ⟨rfl, by simp⟩
  | cons fact rest inductionHypothesis =>
    obtain ⟨numbered, restCounted⟩ := List.forall_mem_cons.mp counted
    by_cases selected : select fact = true
    · obtain ⟨amount, known⟩ := Option.isSome_iff_exists.mp numbered
      have added : addedAmounts fact.amount (.integer more) = .ok (.integer (amount + more)) :=
        addedAmounts_of_whole known rfl
      refine .inr ⟨[], fact, rest, rfl, selected, ?_⟩
      simp only [addToFirst, selected, if_true, added, Fact.raised, Fact.count, known,
        Option.getD_some, List.nil_append]
      rfl
    · rcases inductionHypothesis restCounted with ⟨none, unselected⟩ |
        ⟨before, found, after, shape, chosen, outcome⟩
      · refine .inl ⟨by simp [addToFirst, selected, none], ?_⟩
        exact List.forall_mem_cons.mpr ⟨by simpa using selected, unselected⟩
      · refine .inr ⟨fact :: before, found, after, by simp [shape], chosen, ?_⟩
        simp only [addToFirst, selected, Bool.false_eq_true, if_false, outcome, Option.map_some,
          List.cons_append]
        rfl

/-- The name of a query is the name of what matches it. -/
theorem name_of_isMatch {fact : Fact} {name : String} {scope : Entries}
    (matching : fact.isMatch (queryOf (.text name) scope) = true) : fact.name = .text name := by
  have stored : ∀ entries : Entries, ((.text nameKey, .text name) : Scalar × Value) ∈
      Entries.put entries (.text nameKey) (.text name) := by
    intro entries
    induction entries with
    | nil => simp [Entries.put]
    | cons entry rest inductionHypothesis =>
      by_cases equal : entry.1.same (.text nameKey) = true
      · have named : entry.1 = .text nameKey := (Scalar.same_text_iff _ _).mp equal
        simp [Entries.put, named]
      · simp [Entries.put, equal, inductionHypothesis]
  have agreeing : fact.agrees (.text nameKey) (.text name) = true :=
    List.all_eq_true.mp matching _ (stored scope)
  simpa [Fact.agrees, Value.equals_text_iff] using agreeing

/-- Queries for different names match nothing in common, whatever their scopes are. -/
theorem isMatch_other {fact : Fact} {name other : String} {scope otherScope : Entries}
    (different : name ≠ other) (matching : fact.isMatch (queryOf (.text name) scope) = true) :
    fact.isMatch (queryOf (.text other) otherScope) = false := by
  apply Bool.eq_false_iff.mpr
  intro also
  have one : Value.text name = .text other :=
    (name_of_isMatch matching).symm.trans (name_of_isMatch also)
  simp only [Value.scalar.injEq, Scalar.text.injEq] at one
  exact different one

/-- An award is filed under its scope values, if there are any; the subject stands in for none. -/
theorem awardScope_of_ne_nil (subject : Value) {scope : Entries} (full : scope ≠ []) :
    awardScope subject scope = scope := by
  simp [awardScope, full]

/-- Two ledgers, where the second is the first after an award: a record holding the total of
a name and a scope is raised by one, or such a record is appended. -/
inductive Awarded (name : Value) (scope : Entries) : Ledger → Fact → Ledger → Prop
  | raised (before after : Ledger) (old : Fact) (holding : holdsTotal name scope old = true) :
      Awarded name scope (before ++ old :: after) (old.raised 1)
        (before ++ old.raised 1 :: after)
  | appended (ledger : Ledger) :
      Awarded name scope ledger (newFact ledger name scope (.integer 1) [])
        (ledger ++ [newFact ledger name scope (.integer 1) []])

/-- In a counted ledger an award always goes through. -/
theorem recordAward_awarded {ledger : Ledger} (counted : ledger.IsCounted) (subject name : Value)
    (scope : Entries) :
    ∃ written later, recordAward ledger subject name scope = .ok (written, later) ∧
      Awarded name (awardScope subject scope) ledger written later := by
  rcases addToFirst_cases counted (holdsTotal name (awardScope subject scope)) 1 with
    ⟨none, _⟩ | ⟨before, old, after, rfl, holding, outcome⟩
  · refine ⟨_, _, ?_, .appended ledger⟩
    simp only [recordAward, increment, none]
    rfl
  · refine ⟨_, _, ?_, .raised before after old holding⟩
    simp only [recordAward, increment, outcome]

namespace Awarded

variable {name : Value} {scope : Entries} {ledger later : Ledger} {written : Fact}

/-- An award adds one to the total of every query that its record matches. -/
theorem total (awarded : Awarded name scope ledger written later) (query : Entries) :
    Ledger.total query later =
      Ledger.total query ledger + if written.isMatch query then 1 else 0 := by
  cases awarded with
  | raised before after old holding =>
    simp only [total_append, Ledger.total, Fact.raised_isMatch, Fact.raised_count]
    by_cases matching : old.isMatch query = true
    · simp only [matching, if_true]
      omega
    · simp only [matching, Bool.false_eq_true, if_false]
      omega
  | appended ledger =>
    have one : (newFact ledger name scope (.integer 1) []).count = 1 := rfl
    simp only [total_append, Ledger.total, one, Int.add_zero]

/-- The record written was there and held the total, or it is new with this very scope. -/
theorem origin (awarded : Awarded name scope ledger written later) :
    (∃ old ∈ ledger, holdsTotal name scope old = true ∧ written = old.raised 1) ∨
      written = newFact ledger name scope (.integer 1) [] := by
  cases awarded with
  | raised before after old holding =>
    exact .inl ⟨old, List.mem_append_right _ List.mem_cons_self, holding, rfl⟩
  | appended ledger => exact .inr rfl

/-- The record written is in the ledger afterwards. -/
theorem written_mem (awarded : Awarded name scope ledger written later) : written ∈ later := by
  cases awarded with
  | raised before after old holding => exact List.mem_append_right _ List.mem_cons_self
  | appended ledger => exact List.mem_append_right _ List.mem_cons_self

/-- Whatever holds of all records before and of the record written holds of all afterwards. -/
theorem forall_mem (awarded : Awarded name scope ledger written later) {P : Fact → Prop}
    (before : ∀ fact ∈ ledger, P fact) (own : P written) : ∀ fact ∈ later, P fact := by
  cases awarded with
  | raised front after old holding =>
    obtain ⟨early, late⟩ := List.forall_mem_append.mp before
    obtain ⟨_, behind⟩ := List.forall_mem_cons.mp late
    exact List.forall_mem_append.mpr ⟨early, List.forall_mem_cons.mpr ⟨own, behind⟩⟩
  | appended ledger =>
    exact List.forall_mem_append.mpr ⟨before, List.forall_mem_singleton.mpr own⟩

/-- An award leaves a counted ledger counted. -/
theorem counted (awarded : Awarded name scope ledger written later) (counted : ledger.IsCounted) :
    later.IsCounted := by
  refine awarded.forall_mem counted ?_
  rcases awarded.origin with ⟨old, _, _, rfl⟩ | rfl
  · rfl
  · rfl

/-- Awards do not take amounts below zero. -/
theorem nonnegative (awarded : Awarded name scope ledger written later)
    (nonnegative : ∀ fact ∈ ledger, 0 ≤ fact.count) : ∀ fact ∈ later, 0 ≤ fact.count := by
  refine awarded.forall_mem nonnegative ?_
  rcases awarded.origin with ⟨old, inside, _, rfl⟩ | rfl
  · have least : 0 ≤ old.count := nonnegative old inside
    rw [Fact.raised_count]
    omega
  · change (0 : Int) ≤ 1
    decide

/-- Whatever the scopes before and the scope of the award have in common, the scopes after
have as well. -/
theorem scopes (awarded : Awarded name scope ledger written later) {P : Entries → Prop}
    (before : ∀ fact ∈ ledger, P fact.scope) (own : P scope) : ∀ fact ∈ later, P fact.scope := by
  refine awarded.forall_mem (P := fun fact => P fact.scope) before ?_
  rcases awarded.origin with ⟨old, inside, _, rfl⟩ | rfl
  · exact before old inside
  · exact own

end Awarded

/-- The record written by an award of a name has that name. -/
theorem Awarded.written_name {name : String} {scope : Entries} {ledger later : Ledger}
    {written : Fact} (awarded : Awarded (.text name) scope ledger written later) :
    written.name = .text name := by
  rcases awarded.origin with ⟨old, _, holding, rfl⟩ | rfl
  · simp only [holdsTotal, Bool.and_eq_true] at holding
    exact name_of_isMatch holding.1
  · rfl

/-- Two ledgers, where the second is the first after an award over amounts of any kind: a record
holding the total of a name and a scope got another amount, or there was none and one of that
scope is appended. -/
inductive Recorded (name : Value) (scope : Entries) : Ledger → Fact → Ledger → Prop
  | changed (before after : Ledger) (old : Fact) (total : Value)
      (holding : holdsTotal name scope old = true) :
      Recorded name scope (before ++ old :: after) { old with amount := total }
        (before ++ { old with amount := total } :: after)
  | appended (ledger : Ledger) (none : ∀ fact ∈ ledger, holdsTotal name scope fact = false) :
      Recorded name scope ledger (newFact ledger name scope (.integer 1) [])
        (ledger ++ [newFact ledger name scope (.integer 1) []])

/-- An amount that is added is added to one of the selected records; if there is no answer, no
record is selected. -/
theorem addToFirst_spec (select : Fact → Bool) (more : Value) (ledger : Ledger) :
    (addToFirst select more ledger = none → ∀ fact ∈ ledger, select fact = false) ∧
      ∀ written later, addToFirst select more ledger = some (.ok (written, later)) →
        ∃ before old after total, ledger = before ++ old :: after ∧ select old = true ∧
          written = { old with amount := total } ∧ later = before ++ written :: after := by
  induction ledger with
  | nil => simp [addToFirst]
  | cons fact rest inductionHypothesis =>
    obtain ⟨unselected, selected⟩ := inductionHypothesis
    by_cases chosen : select fact = true
    · simp only [addToFirst, chosen, if_true]
      refine ⟨nofun, fun written later added => ?_⟩
      cases summed : addedAmounts fact.amount more with
      | error failure => simp [summed, Except.map] at added
      | ok total =>
        simp only [summed, Except.map, Option.some.injEq, Except.ok.injEq, Prod.mk.injEq] at added
        obtain ⟨rfl, rfl⟩ := added
        exact ⟨[], fact, rest, total, rfl, chosen, rfl, rfl⟩
    · simp only [addToFirst, chosen, Bool.false_eq_true, if_false, Option.map_eq_none_iff,
        Option.map_eq_some_iff]
      constructor
      · exact fun none => List.forall_mem_cons.mpr ⟨by simpa using chosen, unselected none⟩
      · rintro written later ⟨outcome, further, added⟩
        cases outcome with
        | error failure => simp [Except.map] at added
        | ok both =>
          simp only [Except.map, Except.ok.injEq, Prod.mk.injEq] at added
          obtain ⟨rfl, rfl⟩ := added
          obtain ⟨before, old, after, total, rfl, holding, same, reached⟩ :=
            selected both.1 both.2 further
          exact ⟨fact :: before, old, after, total, rfl, holding, same, by rw [reached]; rfl⟩

/-- An award that goes through either raises the first record that matches, or appends one. -/
theorem recordAward_recorded {ledger later : Ledger} {subject name : Value} {scope : Entries}
    {written : Fact} (recorded : recordAward ledger subject name scope = .ok (written, later)) :
    Recorded name (awardScope subject scope) ledger written later := by
  obtain ⟨unselected, selected⟩ :=
    addToFirst_spec (holdsTotal name (awardScope subject scope)) (.integer 1) ledger
  unfold recordAward increment at recorded
  split at recorded
  · rename_i outcome added
    subst recorded
    obtain ⟨before, old, after, total, rfl, holding, rfl, rfl⟩ := selected written later added
    exact .changed before after old total holding
  · rename_i added
    cases recorded
    exact .appended ledger (unselected added)

namespace Recorded

variable {name : Value} {scope : Entries} {ledger later : Ledger} {written : Fact}

/-- A query that does not match the record written finds what it found. -/
theorem find_eq (recorded : Recorded name scope ledger written later) {query : Entries}
    (apart : written.isMatch query = false) : later.find query = ledger.find query := by
  cases recorded with
  | changed before after old total holding =>
    have oldApart : old.isMatch query = false := apart
    simp [find, apart, oldApart]
  | appended ledger none => simp [find, apart]

/-- What holds of all records, whatever their amounts, and of the one that may be appended holds of
all records after an award. -/
theorem forall_mem (recorded : Recorded name scope ledger written later) {P : Fact → Prop}
    (blind : ∀ fact amount, P fact → P { fact with amount := amount })
    (before : ∀ fact ∈ ledger, P fact) (own : P (newFact ledger name scope (.integer 1) [])) :
    ∀ fact ∈ later, P fact := by
  cases recorded with
  | changed front after old total holding =>
    obtain ⟨early, late⟩ := List.forall_mem_append.mp before
    obtain ⟨here, behind⟩ := List.forall_mem_cons.mp late
    exact List.forall_mem_append.mpr
      ⟨early, List.forall_mem_cons.mpr ⟨blind old total here, behind⟩⟩
  | appended ledger none =>
    exact List.forall_mem_append.mpr ⟨before, List.forall_mem_singleton.mpr own⟩

/-- What the scopes before and the scope of the award have in common, the scopes after have as
well. -/
theorem scopes (recorded : Recorded name scope ledger written later) {P : Entries → Prop}
    (before : ∀ fact ∈ ledger, P fact.scope) (own : P scope) : ∀ fact ∈ later, P fact.scope :=
  recorded.forall_mem (P := fun fact => P fact.scope) (fun _ _ => id) before own

end Recorded

section Retraction

variable (ledger : Ledger) (subject name : Value) (scope : Entries)

/-- A retraction clears the records that match its query. -/
theorem retractAward_eq :
    retractAward ledger subject name scope =
      List.map (fun fact => if fact.isMatch (queryOf name (awardScope subject scope))
        then fact.cleared else fact) ledger := rfl

/-- A retraction leaves a record as it was, or clears it where it matches the query. -/
theorem mem_retractAward {fact : Fact} (member : fact ∈ retractAward ledger subject name scope) :
    ∃ old ∈ ledger, fact = old ∨
      (old.isMatch (queryOf name (awardScope subject scope)) = true ∧ fact = old.cleared) := by
  rw [retractAward_eq] at member
  obtain ⟨old, inside, rfl⟩ := List.mem_map.mp member
  refine ⟨old, inside, ?_⟩
  split
  · rename_i matching
    exact .inr ⟨matching, rfl⟩
  · exact .inl rfl

/-- A retraction changes nothing that is told without the amount. -/
theorem map_retractAward {α : Type} (view : Fact → α)
    (blind : ∀ fact, view fact.cleared = view fact) :
    List.map view (retractAward ledger subject name scope) = List.map view ledger := by
  rw [retractAward_eq, List.map_map]
  refine List.map_congr_left fun fact _ => ?_
  simp only [Function.comp]
  split
  · exact blind fact
  · rfl

/-- After a retraction nothing is left for its query. -/
theorem total_retractAward_own :
    total (queryOf name (awardScope subject scope)) (retractAward ledger subject name scope) =
      0 := by
  rw [retractAward_eq]
  induction ledger with
  | nil => rfl
  | cons fact rest inductionHypothesis =>
    rw [List.map_cons, total, inductionHypothesis]
    by_cases matching : fact.isMatch (queryOf name (awardScope subject scope)) = true <;>
      simp [matching]

/-- A retraction changes nothing for a query that matches nothing it clears. -/
theorem total_retractAward_other {query : Entries}
    (apart : ∀ fact ∈ ledger, fact.isMatch query = true →
      fact.isMatch (queryOf name (awardScope subject scope)) = false) :
    total query (retractAward ledger subject name scope) = total query ledger := by
  rw [retractAward_eq]
  induction ledger with
  | nil => rfl
  | cons fact rest inductionHypothesis =>
    obtain ⟨here, further⟩ := List.forall_mem_cons.mp apart
    rw [List.map_cons, total, inductionHypothesis further, total]
    by_cases matching : fact.isMatch query = true
    · simp [here matching]
    · by_cases cleared : fact.isMatch (queryOf name (awardScope subject scope)) = true <;>
        simp [matching, cleared]

/-- A retraction raises no total of amounts that are not negative. -/
theorem total_retractAward_le (nonnegative : ∀ fact ∈ ledger, 0 ≤ fact.count) (query : Entries) :
    total query (retractAward ledger subject name scope) ≤ total query ledger := by
  rw [retractAward_eq]
  induction ledger with
  | nil => exact Int.le_refl 0
  | cons fact rest inductionHypothesis =>
    obtain ⟨least, further⟩ := List.forall_mem_cons.mp nonnegative
    have later := inductionHypothesis further
    rw [List.map_cons, total, total]
    by_cases cleared : fact.isMatch (queryOf name (awardScope subject scope)) = true <;>
      by_cases matching : fact.isMatch query = true <;>
      simp [cleared, matching] <;> omega

/-- A query that matches nothing a retraction clears finds what it found. -/
theorem find_retractAward {query : Entries}
    (apart : ∀ fact ∈ ledger, fact.isMatch query = true →
      fact.isMatch (queryOf name (awardScope subject scope)) = false) :
    (retractAward ledger subject name scope).find query = ledger.find query := by
  rw [retractAward_eq]
  unfold find
  induction ledger with
  | nil => rfl
  | cons fact rest inductionHypothesis =>
    obtain ⟨here, further⟩ := List.forall_mem_cons.mp apart
    rw [List.map_cons, List.filter_cons, List.filter_cons, inductionHypothesis further]
    by_cases matching : fact.isMatch query = true
    · simp [here matching, matching]
    · by_cases cleared : fact.isMatch (queryOf name (awardScope subject scope)) = true <;>
        simp [matching, cleared]

variable {ledger}

/-- A retraction leaves a counted ledger counted, as zero is a whole number. -/
theorem retractAward_counted (counted : ledger.IsCounted) :
    IsCounted (retractAward ledger subject name scope) := by
  intro fact member
  obtain ⟨old, inside, rfl | ⟨_, rfl⟩⟩ := mem_retractAward ledger subject name scope member
  · exact counted fact inside
  · rfl

/-- A retraction takes no amount below zero, since it clears or leaves it. -/
theorem retractAward_nonnegative (nonnegative : ∀ fact ∈ ledger, 0 ≤ fact.count) :
    ∀ fact ∈ retractAward ledger subject name scope, 0 ≤ fact.count := by
  intro fact member
  obtain ⟨old, inside, rfl | ⟨_, rfl⟩⟩ := mem_retractAward ledger subject name scope member
  · exact nonnegative fact inside
  · simp

/-- A retraction leaves the scopes as they are. -/
theorem retractAward_scopes {P : Entries → Prop} (before : ∀ fact ∈ ledger, P fact.scope) :
    ∀ fact ∈ retractAward ledger subject name scope, P fact.scope := by
  intro fact member
  obtain ⟨old, inside, rfl | ⟨_, rfl⟩⟩ := mem_retractAward ledger subject name scope member
  · exact before fact inside
  · exact before old inside

end Retraction

/-- The second ledger has all records of the first in their places, and more behind them.
Only amounts may differ, and only those of touched names do. -/
inductive Continues (touched : Value → Prop) : Ledger → Ledger → Prop
  | appended (added : Ledger) (named : ∀ fact ∈ added, touched fact.name) :
      Continues touched [] added
  | kept (old new : Fact) (olds news : Ledger) (same : new = { old with amount := new.amount })
      (changed : new.amount ≠ old.amount → touched old.name)
      (rest : Continues touched olds news) : Continues touched (old :: olds) (new :: news)

namespace Continues

variable {touched : Value → Prop}

/-- Every ledger continues itself, with no names touched. -/
theorem refl : ∀ ledger : Ledger, Continues touched ledger ledger
  | [] => .appended [] (by simp)
  | fact :: rest => .kept fact fact rest rest rfl (by simp) (refl rest)

/-- A ledger that continues a continuation continues what that continued. -/
theorem trans {first second third : Ledger} (early : Continues touched first second)
    (late : Continues touched second third) : Continues touched first third := by
  induction early generalizing third with
  | appended added named =>
    refine .appended third ?_
    clear first
    induction late with
    | appended more further => exact further
    | kept old new olds news same changed rest inductionHypothesis =>
      refine List.forall_mem_cons.mpr ⟨?_, ?_⟩
      · rw [same]
        exact named old List.mem_cons_self
      · exact inductionHypothesis fun fact member => named fact (List.mem_cons_of_mem old member)
  | kept old new olds news same changed rest inductionHypothesis =>
    cases late with
    | kept _ last _ lasts sameLater changedLater restLater =>
      refine .kept old last olds lasts ?_ ?_ (inductionHypothesis restLater)
      · rw [sameLater, same]
      · intro different
        by_cases moved : new.amount = old.amount
        · have named : touched new.name := changedLater (moved ▸ different)
          rw [same] at named
          exact named
        · exact changed moved

/-- A ledger that another one continues under some names is continued under more names. -/
theorem mono {more : Value → Prop} (wider : ∀ name, touched name → more name)
    {first second : Ledger} (continued : Continues touched first second) :
    Continues more first second := by
  induction continued with
  | appended added named => exact .appended added fun fact member => wider _ (named fact member)
  | kept old new olds news same changed _ inductionHypothesis =>
    exact .kept old new olds news same (fun different => wider _ (changed different))
      inductionHypothesis

/-- A ledger is continued behind a front part that stays as it is. -/
theorem front (before : Ledger) {first second : Ledger}
    (continued : Continues touched first second) :
    Continues touched (before ++ first) (before ++ second) := by
  induction before with
  | nil => exact continued
  | cons fact rest inductionHypothesis =>
    exact .kept fact fact _ _ rfl (by simp) inductionHypothesis

end Continues

/-- An award touches no name but that of the award. -/
theorem Awarded.continues {name : String} {scope : Entries} {ledger later : Ledger}
    {written : Fact} (awarded : Awarded (.text name) scope ledger written later) :
    Continues (· = .text name) ledger later := by
  have named : written.name = .text name := awarded.written_name
  cases awarded with
  | raised before after old holding =>
    exact Continues.front before (.kept old (old.raised 1) after after rfl (fun _ => named)
      (Continues.refl after))
  | appended ledger =>
    have new : Continues (· = .text name) [] [newFact ledger (.text name) scope (.integer 1) []] :=
      .appended _ (by simpa using named)
    simpa using Continues.front ledger new

/-- A retraction touches no name but its own. -/
theorem retractAward_continues (ledger : Ledger) (subject : Value) (name : String)
    (scope : Entries) :
    Continues (· = .text name) ledger (retractAward ledger subject (.text name) scope) := by
  rw [retractAward_eq]
  induction ledger with
  | nil => exact .appended [] (by simp)
  | cons fact rest inductionHypothesis =>
    rw [List.map_cons]
    split
    · rename_i matching
      exact .kept fact fact.cleared rest _ rfl (fun _ => name_of_isMatch matching)
        inductionHypothesis
    · exact .kept fact fact rest _ rfl (by simp) inductionHypothesis

end Ledger

end Accolade
