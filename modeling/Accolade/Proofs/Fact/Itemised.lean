import Accolade.Fact.Postings
import Accolade.Proofs.Cycle.Check
import Accolade.Proofs.Fact.Postings
import Accolade.Proofs.Fact.Stores
import Accolade.Proofs.Fact.Totals

/-!
# Running amounts and single records

It makes no difference to a rule whether its awards are kept as one running amount for each scope
or as one record for each award. The two ledgers have different records, and a retraction clears
whatever its query matches, of many scopes at once. So they are not compared for one query alone:
they are compared for every choice of records that does not tell apart what all queries match alike.
An amount posted goes to a record that matches the same queries in both, and the records that a
retraction leaves alone are such a choice again.
-/

namespace Accolade

namespace Value

/-- A proper value equals the same values as one that it is equal to. -/
theorem equals_congr {a b : Value} (proper : isProper a = true) (equal : equals a b = true)
    (c : Value) : equals a c = equals b c := by
  apply Bool.eq_iff_iff.mpr
  exact ⟨equals_trans (equals_symm proper equal), equals_trans equal⟩

/-- In entries that have their like in others, what is found under a key is like what is found
there. -/
theorem find_of_sameEntries {xs ys : Entries} (alike : sameEntries xs ys = true) {key : Scalar}
    {value : Value} (found : Entries.find? xs key = some value) :
    ∃ other, Entries.find? ys key = some other ∧ same value other = true := by
  obtain ⟨held, member, equal⟩ := Entries.mem_of_find found
  obtain ⟨other, there, alikeToo⟩ := (sameEntries_iff xs ys).mp alike (held, value) member
  exact ⟨other, Entries.find_congr equal ys ▸ there, alikeToo⟩

end Value

namespace Fact

/-- Whether two records match the same queries. -/
def Alike (first second : Fact) : Prop := ∀ query, first.isMatch query = second.isMatch query

/-- Records of equal addresses match the same queries. -/
theorem Alike.of_address {first second : Fact} (proper : first.address.isProper = true)
    (definite : first.address.isDefinite = true)
    (equal : first.address.equals second.address = true) : first.Alike second := by
  have alike := ((Value.equals_iff _ _).mp equal).2
  simp only [address, Ledger.address, Value.isProper, Value.isDefinite, Value.same,
    Bool.and_eq_true, decide_eq_true_eq] at proper definite alike
  obtain ⟨properName, distinct, properScope⟩ := proper
  obtain ⟨definiteName, definiteScope⟩ := definite
  obtain ⟨names, lengths, entries⟩ := alike
  have turned : Value.sameEntries second.scope first.scope = true :=
    Value.sameEntries_turned distinct (by simpa using lengths) entries
      (Value.entries_symm _ properScope)
  have agreeing : ∀ key expected, first.agrees key expected = second.agrees key expected := by
    intro key expected
    unfold agrees
    split
    · exact Value.equals_congr properName (Value.equals_of_same definiteName names) expected
    · cases found : Entries.find? first.scope key with
      | none =>
        have absent : Entries.find? second.scope key = none := by
          refine Option.eq_none_iff_forall_ne_some.mpr fun value there => ?_
          obtain ⟨_, here, _⟩ := Value.find_of_sameEntries turned there
          rw [found] at here
          contradiction
        rw [absent]
      | some value =>
        obtain ⟨other, there, same⟩ := Value.find_of_sameEntries entries found
        obtain ⟨held, member, _⟩ := Entries.mem_of_find found
        rw [there]
        exact Value.equals_congr ((Value.entriesProper_iff _).mp properScope _ member)
          (Value.equals_of_same ((Value.entriesDefinite_iff _).mp definiteScope _ member).2 same)
          expected
  exact fun query => congrArg (List.all query) (funext fun entry => agreeing entry.1 entry.2)

end Fact

namespace Ledger

/-- Whether a choice of records does not tell apart records that match the same queries. -/
def Fair (chosen : Fact → Bool) : Prop :=
  ∀ first second : Fact, first.Alike second → chosen first = chosen second

/-- What the chosen records of a ledger amount to. -/
def amountOf (chosen : Fact → Bool) (ledger : Ledger) : Int :=
  ((List.filter chosen ledger).map Fact.count).sum

/-- Whether two ledgers have the same total for every choice of records that tells apart none that
match the same queries. -/
def SameTotals (first second : Ledger) : Prop :=
  ∀ chosen, Fair chosen → amountOf chosen first = amountOf chosen second

/-- The choice of the records that match a query is fair: it does not tell records of equal
addresses apart. -/
theorem fair_isMatch (query : Entries) : Fair fun fact => fact.isMatch query :=
  fun _ _ alike => alike query

/-- The amounts of the records that match a query add up to the total of the query. -/
theorem amountOf_isMatch (query : Entries) (ledger : Ledger) :
    amountOf (fun fact => fact.isMatch query) ledger = ledger.total query := by
  rw [total_eq_foldr]
  rfl

/-- The choice of the records that a query leaves over of a fair choice is fair. -/
theorem Fair.without {chosen : Fact → Bool} (fair : Fair chosen) (query : Entries) :
    Fair fun fact => chosen fact && !fact.isMatch query :=
  fun first second alike => by simp only [fair first second alike, alike query]

section Totals

variable {chosen : Fact → Bool}

/-- The total of two parts is that of the first and that of the second. -/
theorem amountOf_append (first second : Ledger) :
    amountOf chosen (first ++ second) = amountOf chosen first + amountOf chosen second := by
  simp [amountOf]

/-- The total over a record and others is the amount of the record, if it is chosen, and the total
over the others. -/
theorem amountOf_cons (fact : Fact) (rest : Ledger) :
    amountOf chosen (fact :: rest) = (if chosen fact then fact.count else 0) +
      amountOf chosen rest := by
  by_cases inside : chosen fact = true <;> simp [amountOf, inside]

/-- A retraction leaves of a fair choice what its query does not match. -/
theorem amountOf_retractAward (fair : Fair chosen) (ledger : Ledger) (subject name : Value)
    (scope : Entries) :
    amountOf chosen (ledger.retractAward subject name scope) =
      amountOf (fun fact => chosen fact &&
        !fact.isMatch (queryOf name (awardScope subject scope))) ledger := by
  rw [retractAward_eq]
  induction ledger with
  | nil => rfl
  | cons fact rest inductionHypothesis =>
    have same : chosen fact.cleared = chosen fact := fair _ _ fun _ => rfl
    rw [List.map_cons, amountOf_cons, amountOf_cons, inductionHypothesis]
    by_cases matching : fact.isMatch (queryOf name (awardScope subject scope)) = true
    · simp [matching, same]
    · simp [matching]

end Totals

/-- Whether every record has a name and a scope that equal themselves and can be compared. -/
def IsClean (ledger : Ledger) : Prop :=
  ∀ fact ∈ ledger, fact.address.isProper = true ∧ fact.address.isDefinite = true

/-- An amount posted to a clean name and scope goes through, and every fair choice gains by it what
a record of its own would add.

Proof: either no record holds the total and the new one is like that of its own, or the first that
does is raised. That record has the same address, so a fair choice takes it exactly if it takes the
record of its own. -/
theorem increment_amountOf {ledger : Ledger} (counted : ledger.IsCounted) (clean : ledger.IsClean)
    {name : String} {scope : Entries}
    (own : (address (.text name) scope).isProper = true ∧
      (address (.text name) scope).isDefinite = true) (amount : Int) (itemised : Ledger) :
    ∃ written later, ledger.increment (.text name) scope (.integer amount) = .ok (written, later) ∧
      later.IsCounted ∧ later.IsClean ∧
      ∀ chosen, Fair chosen → amountOf chosen later = amountOf chosen ledger +
        amountOf chosen [itemised.newFact (.text name) scope (.integer amount) []] := by
  rcases addToFirst_cases counted (holdsTotal (.text name) scope) amount with
    ⟨none, _⟩ | ⟨before, old, after, rfl, holding, outcome⟩
  · refine ⟨_, _, by simp only [increment, none]; rfl, ?_, ?_, fun chosen fair => ?_⟩
    · exact List.forall_mem_append.mpr ⟨counted, List.forall_mem_singleton.mpr rfl⟩
    · exact List.forall_mem_append.mpr ⟨clean, List.forall_mem_singleton.mpr own⟩
    · have alike : (newFact ledger (.text name) scope (.integer amount) []).Alike
          (itemised.newFact (.text name) scope (.integer amount) []) := fun _ => rfl
      simp only [amountOf_append, amountOf_cons, fair _ _ alike]
      rfl
  · obtain ⟨countedEarly, countedLate⟩ := List.forall_mem_append.mp counted
    obtain ⟨cleanEarly, cleanLate⟩ := List.forall_mem_append.mp clean
    obtain ⟨_, countedAfter⟩ := List.forall_mem_cons.mp countedLate
    obtain ⟨cleanOld, cleanAfter⟩ := List.forall_mem_cons.mp cleanLate
    refine ⟨old.raised amount, before ++ old.raised amount :: after,
      by simp only [increment, outcome], ?_, ?_, fun chosen fair => ?_⟩
    · exact List.forall_mem_append.mpr
        ⟨countedEarly, List.forall_mem_cons.mpr ⟨rfl, countedAfter⟩⟩
    · exact List.forall_mem_append.mpr
        ⟨cleanEarly, List.forall_mem_cons.mpr ⟨cleanOld, cleanAfter⟩⟩
    · have addressed : old.address.equals (address (.text name) scope) = true :=
        holdsTotal_eq cleanOld.1 own.1 own.2 ▸ holding
      have alike : old.Alike (itemised.newFact (.text name) scope (.integer amount) []) :=
        .of_address cleanOld.1 cleanOld.2 addressed
      have raised : chosen (old.raised amount) = chosen old := fair _ _ fun _ => rfl
      simp only [amountOf_append, amountOf_cons, raised, ← fair _ _ alike, Fact.raised_count]
      by_cases inside : chosen old = true
      · simp only [inside, if_true]
        have one : (itemised.newFact (.text name) scope (.integer amount) []).count = amount := rfl
        have nothing : amountOf chosen [] = 0 := rfl
        omega
      · simp [inside, amountOf]

/-- Whether a ledger of running amounts and an itemised one agree: each choice of records that is
fair has the same total in both, and amounts can still be added to either. -/
structure Agree (running itemised : Ledger) : Prop where
  counted : running.IsCounted
  clean : running.IsClean
  countedToo : itemised.IsCounted
  totals : SameTotals running itemised

namespace Agree

variable {running itemised : Ledger} (agree : Agree running itemised)
include agree

/-- An amount for a clean name and scope goes through in the ledger of running amounts, and the
ledgers go on to agree with a record of it in the other. -/
theorem increment {name : String} {scope : Entries}
    (own : (address (.text name) scope).isProper = true ∧
      (address (.text name) scope).isDefinite = true) (amount : Int) :
    ∃ written later, running.increment (.text name) scope (.integer amount) = .ok (written, later) ∧
      Agree later (itemised.add (.text name) scope (.integer amount) []).2 := by
  obtain ⟨written, later, done, counted, clean, gained⟩ :=
    increment_amountOf agree.counted agree.clean own amount itemised
  refine ⟨written, later, done, counted, clean, ?_, fun chosen fair => ?_⟩
  · exact List.forall_mem_append.mpr ⟨agree.countedToo, List.forall_mem_singleton.mpr rfl⟩
  · rw [gained chosen fair, agree.totals chosen fair, add, amountOf_append]

/-- Ledgers that agree go on to agree after a retraction, which clears the records of the same
addresses in both. -/
theorem retraction (subject name : Value) (scope : Entries) :
    Agree (running.retractAward subject name scope) (itemised.retractAward subject name scope) where
  counted := retractAward_counted subject name scope agree.counted
  clean := by
    intro fact member
    obtain ⟨old, inside, rfl | ⟨_, rfl⟩⟩ := mem_retractAward running subject name scope member
    · exact agree.clean fact inside
    · exact agree.clean old inside
  countedToo := retractAward_counted subject name scope agree.countedToo
  totals := by
    intro chosen fair
    rw [amountOf_retractAward fair, amountOf_retractAward fair]
    exact agree.totals _ (fair.without _)

/-- Any clean posting goes through in the ledger of running amounts. The ledgers go on to agree once
it is entered in the other one as a record of its own. -/
theorem post (posting : Posting) (clean : Posting.AreClean [posting]) :
    ∃ later, running.post posting = .ok later ∧ Agree later (itemised.enter posting) := by
  cases posting with
  | increment name scope amount =>
    obtain ⟨_, later, done, next⟩ := agree.increment (clean _ List.mem_cons_self) amount
    exact ⟨later, by simp only [Ledger.post, done]; rfl, next⟩
  | award subject name scope =>
    obtain ⟨_, later, done, next⟩ := agree.increment (clean _ List.mem_cons_self) 1
    exact ⟨later, by simp only [Ledger.post, recordAward, done]; rfl, next⟩
  | retraction subject name scope =>
    exact ⟨_, rfl, agree.retraction subject (.text name) scope⟩

/-- Ledgers that agree go on to agree through any number of clean postings, each of which goes
through in the ledger of running amounts. -/
theorem postAll (postings : List Posting) (clean : Posting.AreClean postings) :
    ∃ later, Ledger.postAll postings running = .ok later ∧
      Agree later (itemised.enterAll postings) := by
  induction postings generalizing running itemised with
  | nil => exact ⟨running, rfl, agree⟩
  | cons posting rest inductionHypothesis =>
    unfold Posting.AreClean at clean
    rw [← List.singleton_append, Posting.addresses_append] at clean
    obtain ⟨first, further⟩ := List.forall_mem_append.mp clean
    obtain ⟨middle, posted, next⟩ := agree.post posting first
    obtain ⟨later, done, ended⟩ := inductionHypothesis next further
    refine ⟨later, ?_, ended⟩
    simp only [Ledger.postAll, List.foldlM_cons, posted]
    exact done

/-- Whatever a query finds in ledgers that agree, it amounts to the same. -/
theorem total (query : Entries) : running.total query = itemised.total query := by
  rw [← amountOf_isMatch, ← amountOf_isMatch]
  exact agree.totals _ (fair_isMatch query)

end Agree

end Ledger

/-- Whether two ledgers of awards are as good as each other for a rule in a context: the same amount
is awarded according to both, and the rule can be awarded according to both or to none. -/
structure Rule.CountsAlike (rule : Rule) (context : Context) (stores : Stores)
    (first second : Ledger) : Prop where
  amounts : ∃ total : Int,
    (awardedAmount Stores.lookup (context.forScope rule.scope) rule.name
      (stores.withAchievements first)).1 = .answer (.integer total) ∧
    (awardedAmount Stores.lookup (context.forScope rule.scope) rule.name
      (stores.withAchievements second)).1 = .answer (.integer total)
  awardable : (rule.canBeAwarded Stores.lookup context (stores.withAchievements first)).1 =
    (rule.canBeAwarded Stores.lookup context (stores.withAchievements second)).1

namespace Ledger

/-- Ledgers that agree count alike for every rule in every context that resolves its scope. -/
theorem Agree.countsAlike {running itemised : Ledger} (agree : Agree running itemised)
    {stores : Stores} (plain : stores.IsPlain) {rule : Rule} {context : Context}
    (resolves : (context.forScope rule.scope).Resolves) :
    rule.CountsAlike context stores running itemised := by
  have here := (plain.withAchievements running).awardedAmount_eq agree.counted resolves
  have there := (plain.withAchievements itemised).awardedAmount_eq agree.countedToo resolves
  have same : (stores.withAchievements itemised).achievements.awardedTo rule context =
      (stores.withAchievements running).achievements.awardedTo rule context :=
    (agree.total _).symm
  rw [same] at there
  exact ⟨⟨_, here, there⟩, Rule.canBeAwarded_congr (here.trans there.symm)⟩

/-- It makes no difference whether awards are kept as running amounts or as records of their own.
Any postings to scopes without numbers that have no place go through in a ledger of running amounts.
Wherever both ledgers began with the same records, they then count alike for every rule in every
context that resolves its scope. -/
theorem postAll_countsAlike (postings : List Posting) (clean : Posting.AreClean postings)
    {initial : Ledger} (counted : initial.IsCounted) (cleanInitial : initial.IsClean) :
    ∃ ledger, postAll postings initial = .ok ledger ∧
      ∀ (stores : Stores), stores.IsPlain → ∀ (rule : Rule) (context : Context),
        (context.forScope rule.scope).Resolves →
        rule.CountsAlike context stores ledger (enterAll postings initial) := by
  have start : Agree initial initial := ⟨counted, cleanInitial, counted, fun _ _ => rfl⟩
  obtain ⟨ledger, done, agree⟩ := start.postAll postings clean
  exact ⟨ledger, done, fun stores plain rule context resolves => agree.countsAlike plain resolves⟩

/-- The sample history gives three records of running amounts, but four when itemised. A rule that
is scoped by the subject alone finds two of each for the first subject, and they amount to two. -/
theorem samplePostings_countAlike :
    let rule : Rule := ⟨"starter", .allOf [], [], 5, ["user_id"], [], false⟩
    let context := Context.of (.text "ada") [] defaultScope
    ∃ ledger, postAll samplePostings [] = .ok ledger ∧
      rule.CountsAlike context (Stores.of [] [] []) ledger (enterAll samplePostings []) ∧
      ledger.length = 3 ∧ (enterAll samplePostings []).length = 4 ∧
      awardedTo rule context (enterAll samplePostings []) = 2 := by
  intro rule context
  have counted : IsCounted [] := by simp [IsCounted]
  have cleanInitial : IsClean [] := by simp [IsClean]
  obtain ⟨ledger, done, alike⟩ :=
    postAll_countsAlike samplePostings (by decide) counted cleanInitial
  have length : (postAll samplePostings []).map List.length = .ok 3 := by rfl
  rw [done] at length
  exact ⟨ledger, done, alike _ ⟨rfl, rfl⟩ rule context (by decide), Except.ok.inj length, rfl, rfl⟩

end Ledger

end Accolade
