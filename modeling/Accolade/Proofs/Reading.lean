import Accolade.Proofs.Fact.Stores
import Accolade.Proofs.Likeness
import Accolade.Proofs.Rule.Walk

/-!
# What an evaluation reads

The names that a requirement refers to, kind by kind, bound what its evaluation can see. Each
lookup is one for such a name among the facts of its kind, however the evaluation comes to its
leaves and wherever it stops.

A query finds facts of its name only. So stores that hold the same facts under the names referred
to, in the same order, cannot be told apart: the evaluation answers the same in both, or fails
the same way. Nor does it matter which event set the evaluation off.
-/

namespace Accolade

variable {σ : Type}

namespace Requirement

/-- The names that a requirement refers to are those that its leaves read. -/
theorem mem_referencedNames {requirement : Requirement} {kind : FactKind} {name : String} :
    name ∈ requirement.referencedNames kind ↔ name ∈ requirement.leafNames kind := by
  rw [referencedNames_eq, mem_firstOccurrences]

/-- Whether a lookup is one for a name that a requirement refers to. -/
def Reads (requirement : Requirement) (context : Context) (asked : FactKind × Entries) : Prop :=
  ∃ name ∈ requirement.referencedNames asked.1, context.queryFor name = .ok asked.2

/-- Noting lookups changes nothing about an evaluation, and all that is noted are lookups for names
that the requirement refers to. -/
theorem evaluate_noted (requirement : Requirement) (lookup : Lookup σ) (context : Context)
    (state : σ) :
    ∃ asked, requirement.evaluate lookup.noted context (state, []) =
        ((requirement.evaluate lookup context state).1,
          (requirement.evaluate lookup context state).2, asked) ∧
      ∀ query ∈ asked, requirement.Reads context query := by
  have alike : requirement.RepliesAlike lookup.noted lookup context context
      fun first second =>
        first.1 = second ∧ ∀ query ∈ first.2, requirement.Reads context query := by
    refine repliesAlike_of_names (fun _ => rfl) ?_
    rintro kind name reads query formed ⟨state, asked⟩ _ ⟨rfl, noted⟩
    refine ⟨rfl, rfl, List.forall_mem_cons.mpr ⟨?_, noted⟩⟩
    exact ⟨name, mem_referencedNames.mpr reads, formed⟩
  obtain ⟨replied, kept, noted⟩ := alike (state, []) state ⟨rfl, by simp⟩
  exact ⟨_, Prod.ext replied (Prod.ext kept rfl), noted⟩

end Requirement

/-- The facts of a ledger under some names. -/
def Ledger.under (names : List String) (ledger : Ledger) : Ledger :=
  List.filter (fun fact => names.any fun name => fact.name.equals (.text name)) ledger

/-- A query for one of the names finds the same among these facts. -/
theorem Ledger.find_under {names : List String} {name : String} (member : name ∈ names)
    (scope : Entries) (ledger : Ledger) :
    (ledger.under names).find (queryOf (.text name) scope) =
      ledger.find (queryOf (.text name) scope) := by
  unfold find under
  rw [List.filter_filter]
  refine List.filter_congr fun fact _ => ?_
  cases matching : fact.isMatch (queryOf (.text name) scope) with
  | false => rfl
  | true =>
    rw [Bool.true_and, List.any_eq_true]
    exact ⟨name, member, (Value.equals_text_iff _ _).mpr (name_of_isMatch matching)⟩

namespace Stores

/-- Whether two stores hold the same facts under some names, kind by kind, and the same faults are
planned for them. -/
structure AgreesOn (names : FactKind → List String) (first second : Stores) : Prop where
  facts : ∀ kind, (second.ledger kind).under (names kind) = (first.ledger kind).under (names kind)
  faults : second.faults = first.faults

/-- A lookup for such a name comes to the same in both. -/
theorem AgreesOn.lookup {names : FactKind → List String} {first second : Stores}
    (agrees : first.AgreesOn names second) {kind : FactKind} {name : String}
    (member : name ∈ names kind) {context : Context} {query : Entries}
    (formed : context.queryFor name = .ok query) :
    SameBeside (AgreesOn names) (Stores.lookup kind query first)
      (Stores.lookup kind query second) := by
  obtain rfl := Context.eq_of_queryFor formed
  have found : (second.ledger kind).find (Ledger.queryOf (.text name) context.boundValues) =
      (first.ledger kind).find (Ledger.queryOf (.text name) context.boundValues) := by
    rw [← Ledger.find_under member, agrees.facts kind, Ledger.find_under member]
  simp only [Stores.lookup, struck, agrees.faults]
  generalize Fault.strike _ _ first.faults = strike
  obtain ⟨struck, faults⟩ := strike
  rcases struck with _ | _ | failure
  · exact ⟨congrArg Reply.answer found.symm, agrees.facts, rfl⟩
  · exact ⟨rfl, agrees.facts, rfl⟩
  · exact ⟨rfl, agrees.facts, rfl⟩

/-- The names that a requirement refers to bound what its evaluation can see. In stores that agree
on the facts of these names it comes to the same, whatever event set it off. Whatever lookup it is
given, it makes no others than for these names. -/
theorem evaluate_reads (requirement : Requirement) (context : Context) (trigger : Value)
    {first second : Stores}
    (agrees : first.AgreesOn (fun kind => requirement.referencedNames kind) second) :
    (requirement.evaluate Stores.lookup { context with trigger := trigger } second).1 =
        (requirement.evaluate Stores.lookup context first).1 ∧
      ∀ (σ : Type) (lookup : Lookup σ) (state : σ), ∃ asked,
        requirement.evaluate lookup.noted context (state, []) =
          ((requirement.evaluate lookup context state).1,
            (requirement.evaluate lookup context state).2, asked) ∧
        ∀ query ∈ asked, requirement.Reads context query := by
  refine ⟨?_, fun _ lookup state => requirement.evaluate_noted lookup context state⟩
  have alike : requirement.RepliesAlike Stores.lookup Stores.lookup context
      { context with trigger := trigger }
      (AgreesOn fun kind => requirement.referencedNames kind) :=
    Requirement.repliesAlike_of_names (fun _ => rfl)
      fun kind name reads query formed _ _ related =>
        related.lookup (Requirement.mem_referencedNames.mpr reads) formed
  exact (alike first second agrees).1.symm

/-- The sample stores with more facts, none of which is an achievement named Beginner or an event
named login. -/
def enriched : Stores :=
  { of (⟨.text "Expert", .integer 5, [(.text subjectKey, .integer 2)], [], none⟩ ::
      sample.achievements)
      [⟨.text "login", .integer 7, [(.text subjectKey, .integer 2)], [], none⟩]
      [⟨.text "Beginner", .integer 1, [(.text subjectKey, .integer 2)], [], none⟩] with
    invocations := [⟨[], .integer 2, []⟩] }

/-- A requirement that refers to these two does not tell them from the sample. -/
theorem sample_reads :
    let requirement : Requirement :=
      .oneOf [.achievement "Beginner" (.atLeast 1), .event "login" (.atLeast 1) none]
    let context := Context.of (.integer 2) [] defaultScope
    (requirement.evaluate Stores.lookup { context with trigger := .text "login-1" } enriched).1 =
      (requirement.evaluate Stores.lookup context sample).1 :=
  (evaluate_reads _ _ _ ⟨fun kind => by cases kind <;> rfl, rfl⟩).1

end Stores

end Accolade
