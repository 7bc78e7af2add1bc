import Accolade.Proofs.Context
import Accolade.Proofs.Fact.Ledger
import Accolade.Proofs.Fact.Stores
import Accolade.Rule.Requirement

/-!
# Totals of rules

The total of a rule in a context is what a ledger holds under the name of the rule within its
scope. The check, the award and the retraction all use the scope values of the same context,
so they speak of the same total: an award of the rule adds one to it, provided that every
value of the scope equals itself, a retraction of the rule takes it to zero, and awards and
retractions of other rules leave it alone.
-/

namespace Accolade

namespace Ledger

/-- The total awarded under the name of a rule in a context, within the scope of the rule. -/
def awardedTo (rule : Rule) (context : Context) (ledger : Ledger) : Int :=
  ledger.total (queryOf (.text rule.name) (context.forScope rule.scope).boundValues)

/-- The ledger after some retractions, one after the other. -/
def retractEach (subject : Value) : List (String × Entries) → Ledger → Ledger
  | [], ledger => ledger
  | (target, values) :: rest, ledger =>
    retractEach subject rest (ledger.retractAward subject (.text target) values)

/-- Retractions leave a counted ledger counted. -/
theorem retractEach_counted (subject : Value) (retractions : List (String × Entries))
    {ledger : Ledger} (counted : ledger.IsCounted) :
    (ledger.retractEach subject retractions).IsCounted := by
  induction retractions generalizing ledger with
  | nil => exact counted
  | cons first rest inductionHypothesis =>
    exact inductionHypothesis (retractAward_counted subject (.text first.1) first.2 counted)

/-- Retractions touch no names but those of their targets. -/
theorem retractEach_continues (subject : Value) (retractions : List (String × Entries))
    (ledger : Ledger) :
    Continues (fun name => ∃ target ∈ retractions.map Prod.fst, name = .text target) ledger
      (ledger.retractEach subject retractions) := by
  induction retractions generalizing ledger with
  | nil => exact Continues.refl ledger
  | cons first rest inductionHypothesis =>
    obtain ⟨target, values⟩ := first
    have here := retractAward_continues ledger subject target values
    have later := inductionHypothesis (ledger.retractAward subject (.text target) values)
    refine (here.mono ?_).trans (later.mono ?_)
    · exact fun name same => ⟨target, List.mem_cons_self, same⟩
    · exact fun name ⟨other, member, same⟩ => ⟨other, List.mem_cons_of_mem _ member, same⟩

/-- Retractions take the total of a name to zero if the name is among their targets, and leave
it alone otherwise, provided that those of this name are made within the same scope. -/
theorem total_retractEach (subject : Value) {name : String} {values : Entries}
    {retractions : List (String × Entries)}
    (own : ∀ entry ∈ retractions, entry.1 = name → awardScope subject entry.2 = values)
    (ledger : Ledger) :
    total (queryOf (.text name) values) (ledger.retractEach subject retractions) =
      if name ∈ retractions.map Prod.fst then 0
      else total (queryOf (.text name) values) ledger := by
  induction retractions generalizing ledger with
  | nil => rfl
  | cons first rest inductionHypothesis =>
    obtain ⟨target, scope⟩ := first
    obtain ⟨here, further⟩ := List.forall_mem_cons.mp own
    have later := inductionHypothesis further (ledger.retractAward subject (.text target) scope)
    by_cases same : target = name
    · subst same
      have cleared : total (queryOf (.text target) values)
          (ledger.retractAward subject (.text target) scope) = 0 := by
        rw [← here rfl]
        exact total_retractAward_own ledger subject (.text target) scope
      simp only [retractEach, later, cleared, List.map_cons, List.mem_cons, true_or, if_true,
        ite_self]
    · have kept : total (queryOf (.text name) values)
          (ledger.retractAward subject (.text target) scope) =
          total (queryOf (.text name) values) ledger :=
        total_retractAward_other ledger subject (.text target) scope
          fun fact _ matching => isMatch_other (fun equal => same equal.symm) matching
      have apart : ¬ name = target := fun equal => same equal.symm
      simp only [retractEach, later, kept, List.map_cons, List.mem_cons, apart, false_or]

section Award

variable {rule : Rule} {context : Context} {ledger later : Ledger} {written : Fact}
  (awarded : Awarded (.text rule.name) (context.forScope rule.scope).boundValues ledger written
    later)
include awarded

/-- An award of one rule leaves the totals of the others as they are. -/
theorem Awarded.awardedTo_other {other : Rule} (different : other.name ≠ rule.name)
    (otherContext : Context) :
    later.awardedTo other otherContext = ledger.awardedTo other otherContext := by
  have apart : written.isMatch (queryOf (.text other.name)
      (otherContext.forScope other.scope).boundValues) = false := by
    apply Bool.eq_false_iff.mpr
    intro matching
    have same : Value.text other.name = .text rule.name :=
      (name_of_isMatch matching).symm.trans awarded.written_name
    exact different (Scalar.text.inj (Value.scalar.inj same))
  unfold awardedTo
  rw [awarded.total, apart]
  simp

/-- An award of a rule adds one to its total in the context of the award, where every attribute
equals itself. -/
theorem Awarded.awardedTo_own
    (reflexive : ∀ key value, Entries.field? context.attributes key = some value →
      value.equals value = true) :
    later.awardedTo rule context = ledger.awardedTo rule context + 1 := by
  have matching : written.isMatch (queryOf (.text rule.name)
      (context.forScope rule.scope).boundValues) = true := by
    rcases awarded.origin with ⟨old, _, holding, rfl⟩ | rfl
    · simp only [holdsTotal, Bool.and_eq_true] at holding
      exact holding.1
    · refine (Fact.isMatch_iff _ (context.forScope rule.scope) rule.name).mpr ⟨rfl, ?_⟩
      intro key inside _ value found
      refine ⟨value, ?_, reflexive key value found⟩
      exact Context.field?_boundValues_of_mem inside found
  unfold awardedTo
  rw [awarded.total, matching]
  simp

end Award

end Ledger

/-- In plain stores with whole amounts, the amount awarded to a rule whose scope resolves is its
total. -/
theorem Stores.IsPlain.awardedAmount_eq {stores : Stores} (plain : stores.IsPlain)
    (counted : stores.achievements.IsCounted) {rule : Rule} {context : Context}
    (resolves : (context.forScope rule.scope).Resolves) :
    (awardedAmount Stores.lookup (context.forScope rule.scope) rule.name stores).1 =
      .answer (.integer (stores.achievements.awardedTo rule context)) :=
  congrArg Prod.fst (Accolade.awardedAmount_eq counted
    (fun query => plain.lookup .achievement query) resolves)

end Accolade
