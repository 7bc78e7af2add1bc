import Accolade.Context
import Accolade.Proofs.Fact.Parts
import Accolade.Rule.Requirement

/-!
# Awards in another order

Two ledgers are the same by name when under each name they hold the same records in the same
order, up to identifiers. No lookup and no award tells such ledgers apart, since each speaks of
one name only. Awards of rules with different names write under different names, so they may be
made in any order: the ledgers they leave are the same by name.

Both ledgers continue the one before the awards. They then hold the same in its places, and what
is appended is the same records in some order.
-/

namespace Accolade

open Classical in
/-- Whether a record has a name. -/
noncomputable def Fact.isNamed (name : Value) (fact : Fact) : Bool := decide (fact.name = name)

theorem Fact.isNamed_iff (name : Value) (fact : Fact) :
    fact.isNamed name = true ↔ fact.name = name := by
  simp [isNamed]

/-- Which records have a name depends neither on their amounts nor on their identifiers. -/
theorem Ledger.isNamed_isBlind (name : Value) : IsBlind (Fact.isNamed name) := fun _ _ _ => rfl

namespace Ledger

/-- Whether two ledgers hold the same records under each name, in the same order and up to their
identifiers. -/
def SameByName (first second : Ledger) : Prop :=
  ∀ name, first.part (Fact.isNamed name) = second.part (Fact.isNamed name)

namespace SameByName

variable {first second third : Ledger}

theorem refl (ledger : Ledger) : SameByName ledger ledger := fun _ => rfl

/-- A query finds the same records in ledgers that are the same by name, up to their identifiers. -/
theorem find (same : SameByName first second) (name : String) (scope : Entries) :
    (first.find (queryOf (.text name) scope)).map Fact.anonymous =
      (second.find (queryOf (.text name) scope)).map Fact.anonymous :=
  find_alike (fun _ matching => (Fact.isNamed_iff _ _).mpr (name_of_isMatch matching))
    (same (.text name))

/-- The first record of one has its counterpart in the other, behind records of other names. -/
theorem split {fact : Fact} {rest : Ledger} (same : SameByName (fact :: rest) second) :
    ∃ before twin after, second = before ++ twin :: after ∧ twin.anonymous = fact.anonymous ∧
      SameByName rest (before ++ after) := by
  have own : fact.isNamed fact.name = true := (Fact.isNamed_iff _ _).mpr rfl
  have found : second.part (Fact.isNamed fact.name) =
      fact.anonymous :: part (Fact.isNamed fact.name) rest := by
    rw [← same fact.name, part_cons, if_pos own]
  obtain ⟨chosen, more, filtered, alike, further⟩ := List.map_eq_cons_iff.mp found
  obtain ⟨before, after, shape, others, isOwn, kept⟩ := List.filter_eq_cons_iff.mp filtered
  refine ⟨before, chosen, after, shape, alike, fun name => ?_⟩
  by_cases named : fact.name = name
  · subst named
    have none : part (Fact.isNamed fact.name) before = [] := by
      simp only [part, List.map_eq_nil_iff, List.filter_eq_nil_iff]
      exact others
    rw [part_append, none, List.nil_append, ← further, ← kept]
    rfl
  · have chosenName : chosen.name = fact.name := (Fact.isNamed_iff _ _).mp isOwn
    have apart : fact.isNamed name = false :=
      Bool.eq_false_iff.mpr fun held => named ((Fact.isNamed_iff _ _).mp held)
    have apartToo : chosen.isNamed name = false :=
      Bool.eq_false_iff.mpr fun held => named (chosenName ▸ (Fact.isNamed_iff _ _).mp held)
    have whole := same name
    rw [shape, part_append, part_cons, part_cons, apart, apartToo] at whole
    simpa using whole

/-- Ledgers that are the same by name have the same records, up to their order and their
identifiers. -/
theorem perm (same : SameByName first second) :
    (first.map Fact.anonymous).Perm (second.map Fact.anonymous) := by
  induction first generalizing second with
  | nil =>
    cases second with
    | nil => exact .refl _
    | cons fact rest =>
      have own : fact.isNamed fact.name = true := (Fact.isNamed_iff _ _).mpr rfl
      have none := same fact.name
      rw [part_cons, if_pos own] at none
      contradiction
  | cons fact rest inductionHypothesis =>
    obtain ⟨before, twin, after, rfl, alike, further⟩ := same.split
    have moved : (List.map Fact.anonymous (before ++ twin :: after)).Perm
        (fact.anonymous :: List.map Fact.anonymous (before ++ after)) := by
      rw [← alike, ← List.map_cons]
      exact List.perm_middle.map Fact.anonymous
    exact ((inductionHypothesis further).cons _).trans moved.symm

end SameByName

/-- Whether two ledgers hold the same in so many places, and behind them the same records in some
order, up to their identifiers. -/
structure SameUpToNew (old : Nat) (first second : Ledger) : Prop where
  kept : List.take old first = List.take old second
  added : ((List.drop old first).map Fact.anonymous).Perm
    ((List.drop old second).map Fact.anonymous)

/-- Two ledgers that are the same by name and continue one ledger differ at most in the order and
the identifiers of the records they add to it. -/
theorem SameByName.sameUpToNew {touched : Value → Prop} {ledger first second : Ledger}
    (same : SameByName first second) (continued : Continues touched ledger first)
    (continuedToo : Continues touched ledger second) :
    SameUpToNew (List.length ledger) first second := by
  induction continued generalizing second with
  | appended added _ => exact ⟨rfl, by simpa using same.perm⟩
  | kept old new olds news equal _ _ inductionHypothesis =>
    cases continuedToo with
    | kept _ other _ others equalToo _ continuedToo =>
      have named : new.name = old.name := by rw [equal]
      have namedToo : other.name = old.name := by rw [equalToo]
      have own : new.isNamed old.name = true := (Fact.isNamed_iff _ _).mpr named
      have ownToo : other.isNamed old.name = true := (Fact.isNamed_iff _ _).mpr namedToo
      have heads := same old.name
      rw [part_cons, part_cons, if_pos own, if_pos ownToo] at heads
      have twins : new = other := by
        have amounts : new.amount = other.amount := by
          simpa using congrArg (·.amount) (List.cons.inj heads).1
        rw [equal, equalToo, amounts]
      have further : SameByName news others := by
        intro name
        have whole := same name
        rw [part_cons, part_cons, twins] at whole
        split at whole
        · exact (List.cons.inj whole).2
        · exact whole
      obtain ⟨kept, added⟩ := inductionHypothesis further continuedToo
      refine ⟨?_, by simpa using added⟩
      simp only [List.length_cons, List.take_succ_cons, twins, kept]

section Awards

variable (context : Context)

/-- The ledger after an award of a rule in a context, if the award goes through. -/
def afterAward (rule : Rule) (ledger : Ledger) : Ledger :=
  match ledger.recordAward context.subject (.text rule.name)
    (context.forScope rule.scope).boundValues with
  | .ok (_, later) => later
  | .error _ => ledger

/-- The ledger after awards of some rules, one after the other. -/
def afterAwards (rules : List Rule) (ledger : Ledger) : Ledger :=
  rules.foldl (fun ledger rule => afterAward context rule ledger) ledger

variable {context} {rule : Rule} {ledger : Ledger}

/-- In a counted ledger the award of a rule goes through, and leaves the ledger after that award. -/
theorem recordAward_afterAward (counted : ledger.IsCounted) (context : Context) (rule : Rule) :
    ∃ written, ledger.recordAward context.subject (.text rule.name)
        (context.forScope rule.scope).boundValues =
        .ok (written, ledger.afterAward context rule) ∧
      Awarded (.text rule.name)
        (awardScope context.subject (context.forScope rule.scope).boundValues) ledger written
        (ledger.afterAward context rule) := by
  obtain ⟨written, later, recorded, awarded⟩ := recordAward_awarded counted context.subject
    (.text rule.name) (context.forScope rule.scope).boundValues
  have reached : ledger.afterAward context rule = later := by simp only [afterAward, recorded]
  exact ⟨written, reached ▸ recorded, reached ▸ awarded⟩

/-- Awards keep a counted ledger counted and continue it. -/
theorem afterAwards_spec (counted : ledger.IsCounted) (context : Context) (rules : List Rule) :
    (ledger.afterAwards context rules).IsCounted ∧
      Continues (fun _ => True) ledger (ledger.afterAwards context rules) := by
  induction rules generalizing ledger with
  | nil => exact ⟨counted, .refl ledger⟩
  | cons rule rest inductionHypothesis =>
    obtain ⟨_, _, awarded⟩ := recordAward_afterAward counted context rule
    obtain ⟨ended, continued⟩ := inductionHypothesis (awarded.counted counted)
    exact ⟨ended, (awarded.continues.mono fun _ _ => trivial).trans continued⟩

/-- An award leaves the records of other names as they are. -/
theorem part_afterAward_other (counted : ledger.IsCounted) {name : Value}
    (different : Value.text rule.name ≠ name) :
    (ledger.afterAward context rule).part (Fact.isNamed name) =
      ledger.part (Fact.isNamed name) := by
  obtain ⟨written, _, awarded⟩ := recordAward_afterAward counted context rule
  refine awarded.part_of_outside (isNamed_isBlind name) (Bool.eq_false_iff.mpr fun held => ?_)
  exact different (awarded.written_name.symm.trans ((Fact.isNamed_iff _ _).mp held))

/-- An award does the same to the records of its name wherever they are the same. -/
theorem part_afterAward_own {second : Ledger} (counted : ledger.IsCounted)
    (countedToo : second.IsCounted)
    (common : ledger.part (Fact.isNamed (.text rule.name)) =
      second.part (Fact.isNamed (.text rule.name))) :
    (ledger.afterAward context rule).part (Fact.isNamed (.text rule.name)) =
      (second.afterAward context rule).part (Fact.isNamed (.text rule.name)) := by
  obtain ⟨_, recorded, _⟩ := recordAward_afterAward counted context rule
  obtain ⟨_, recordedToo, _⟩ := recordAward_afterAward countedToo context rule
  refine (recordAward_alike (isNamed_isBlind _) ?_ common recorded recordedToo).2
  intro fact holding
  simp only [holdsTotal, Bool.and_eq_true] at holding
  exact (Fact.isNamed_iff _ _).mpr (name_of_isMatch holding.1)

/-- Awards leave the records of names that none of the rules has. -/
theorem part_afterAwards_other (counted : ledger.IsCounted) {rules : List Rule} {name : Value}
    (different : ∀ rule ∈ rules, Value.text rule.name ≠ name) :
    (ledger.afterAwards context rules).part (Fact.isNamed name) =
      ledger.part (Fact.isNamed name) := by
  induction rules generalizing ledger with
  | nil => rfl
  | cons rule rest inductionHypothesis =>
    obtain ⟨here, further⟩ := List.forall_mem_cons.mp different
    obtain ⟨_, _, awarded⟩ := recordAward_afterAward counted context rule
    exact (inductionHypothesis (awarded.counted counted) further).trans
      (part_afterAward_other counted here)

/-- Of rules with distinct names, only the award of a rule itself touches the records of its
name. -/
theorem part_afterAwards_own (counted : ledger.IsCounted) {rules : List Rule}
    (distinct : (rules.map (·.name)).Nodup) (member : rule ∈ rules) :
    (ledger.afterAwards context rules).part (Fact.isNamed (.text rule.name)) =
      (ledger.afterAward context rule).part (Fact.isNamed (.text rule.name)) := by
  induction rules generalizing ledger with
  | nil => contradiction
  | cons first rest inductionHypothesis =>
    obtain ⟨absent, restDistinct⟩ := List.nodup_cons.mp distinct
    obtain ⟨_, _, awarded⟩ := recordAward_afterAward counted context first
    have next := awarded.counted counted
    rcases List.mem_cons.mp member with rfl | behind
    · refine part_afterAwards_other next ?_
      intro other inside same
      have named : other.name = rule.name := Scalar.text.inj (Value.scalar.inj same)
      exact absent (List.mem_map.mpr ⟨other, inside, named⟩)
    · have different : Value.text first.name ≠ .text rule.name := by
        intro same
        have named : first.name = rule.name := Scalar.text.inj (Value.scalar.inj same)
        exact absent (List.mem_map.mpr ⟨rule, behind, named.symm⟩)
      exact (inductionHypothesis next restDistinct behind).trans
        (part_afterAward_own next counted (part_afterAward_other counted different))

/-- Awards of rules with distinct names may be made in any order, on ledgers that are the same by
name. -/
theorem afterAwards_perm {first second : Ledger} (same : SameByName first second)
    (counted : first.IsCounted) (countedToo : second.IsCounted) {rules others : List Rule}
    (permuted : rules.Perm others) (distinct : (rules.map (·.name)).Nodup) :
    SameByName (first.afterAwards context rules) (second.afterAwards context others) := by
  have distinctToo : (others.map (·.name)).Nodup := (permuted.map Rule.name).nodup_iff.mp distinct
  intro name
  by_cases awarded : ∃ rule ∈ rules, Value.text rule.name = name
  · obtain ⟨rule, member, rfl⟩ := awarded
    calc (first.afterAwards context rules).part (Fact.isNamed (.text rule.name))
      _ = (first.afterAward context rule).part (Fact.isNamed (.text rule.name)) :=
        part_afterAwards_own counted distinct member
      _ = (second.afterAward context rule).part (Fact.isNamed (.text rule.name)) :=
        part_afterAward_own counted countedToo (same _)
      _ = (second.afterAwards context others).part (Fact.isNamed (.text rule.name)) :=
        (part_afterAwards_own countedToo distinctToo (permuted.mem_iff.mp member)).symm
  · have untouched : ∀ rule ∈ rules, Value.text rule.name ≠ name :=
      fun rule member named => awarded ⟨rule, member, named⟩
    rw [part_afterAwards_other counted untouched, same name, part_afterAwards_other countedToo]
    exact fun rule member => untouched rule (permuted.mem_iff.mpr member)

end Awards

end Ledger

end Accolade
