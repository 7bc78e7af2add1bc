import Mathlib.Algebra.Ring.Int.Defs
import Mathlib.Data.List.Induction
import Accolade.Fact.Postings
import Accolade.Proofs.Context
import Accolade.Proofs.Fact.Ledger

/-!
# What a history of postings comes to

An amount is posted to the record with exactly the name and the scope posted to. A retraction
clears every record that its query matches, of whatever scope, as long as that has all its
entries. So the two select records in different ways, and still a ledger that starts empty tells
its whole history: it has one record for each name and scope posted to, in the order of the
first postings, and each holds what was added to it since the last retraction that cleared it.

All this is up to equality. A scope that is posted to again may have its entries in another
order, or a number written in another way, and the record keeps the scope of its first posting.
Equality is no such notion for a value with a number without a place in it, which may not even
equal itself; scopes posted to have none.
-/

namespace Accolade

section FirstOccurrences

variable {α : Type} (repeats : α → α → Bool) (items : List α)

/-- One more item is kept unless it repeats an item that was kept. -/
theorem eraseDupsBy_concat (item : α) :
    (items ++ [item]).eraseDupsBy repeats =
      if (items.eraseDupsBy repeats).any (repeats item) then items.eraseDupsBy repeats
      else items.eraseDupsBy repeats ++ [item] := by
  have looped : ∀ kept : List α, List.eraseDupsBy.loop repeats (items ++ [item]) kept =
      if (List.eraseDupsBy.loop repeats items kept).any (repeats item) then
        List.eraseDupsBy.loop repeats items kept
      else List.eraseDupsBy.loop repeats items kept ++ [item] := by
    induction items with
    | nil =>
      intro kept
      simp only [List.nil_append, List.eraseDupsBy.loop, List.any_reverse]
      cases kept.any (repeats item) <;> simp
    | cons first rest inductionHypothesis =>
      intro kept
      rw [List.cons_append, List.eraseDupsBy.loop, List.eraseDupsBy.loop]
      split
      · exact inductionHypothesis _
      · exact inductionHypothesis _
  exact looped []

/-- No item that is kept repeats an earlier one. -/
theorem pairwise_eraseDupsBy :
    (items.eraseDupsBy repeats).Pairwise fun earlier later => repeats later earlier = false := by
  induction items using List.reverseRecOn with
  | nil => exact .nil
  | append_singleton before item inductionHypothesis =>
    rw [eraseDupsBy_concat]
    split
    · exact inductionHypothesis
    · rename_i new
      refine List.pairwise_append.mpr ⟨inductionHypothesis, List.pairwise_singleton _ _, ?_⟩
      intro earlier kept later own
      obtain rfl := List.mem_singleton.mp own
      exact Bool.eq_false_iff.mpr fun again => new (List.any_eq_true.mpr ⟨earlier, kept, again⟩)

variable {items}

/-- An item that repeats itself repeats one that is kept. -/
theorem exists_mem_eraseDupsBy {item : α} (reflexive : repeats item item = true)
    (member : item ∈ items) : ∃ kept ∈ items.eraseDupsBy repeats, repeats item kept = true := by
  induction items using List.reverseRecOn with
  | nil => contradiction
  | append_singleton before last inductionHypothesis =>
    rw [eraseDupsBy_concat]
    rcases List.mem_append.mp member with earlier | own
    · obtain ⟨kept, inside, again⟩ := inductionHypothesis earlier
      refine ⟨kept, ?_, again⟩
      split
      · exact inside
      · exact List.mem_append_left _ inside
    · obtain rfl := List.mem_singleton.mp own
      split
      · rename_i again
        exact List.any_eq_true.mp again
      · exact ⟨item, List.mem_append_right _ List.mem_cons_self, reflexive⟩

variable {repeats}

/-- Items that are kept are among those there were. -/
theorem mem_of_mem_eraseDupsBy {item : α} (kept : item ∈ items.eraseDupsBy repeats) :
    item ∈ items := by
  induction items using List.reverseRecOn with
  | nil => exact kept
  | append_singleton before last inductionHypothesis =>
    rw [eraseDupsBy_concat] at kept
    split at kept
    · exact List.mem_append_left _ (inductionHypothesis kept)
    · exact List.mem_append.mpr ((List.mem_append.mp kept).imp inductionHypothesis id)

end FirstOccurrences

/-- A name and a scope as one value. -/
def Ledger.address (name : Value) (scope : Entries) : Value := .pair name (.mapping scope)

/-- The name and the scope of a record as one value. -/
def Fact.address (fact : Fact) : Value := Ledger.address fact.name fact.scope

namespace Posting

/-- The address that a posting adds to, and what it adds. A retraction adds to none. -/
def addition? : Posting → Option (Value × Int)
  | .increment name scope amount => some (Ledger.address (.text name) scope, amount)
  | .award subject name scope =>
    some (Ledger.address (.text name) (Ledger.awardScope subject scope), 1)
  | .retraction _ _ _ => none

/-- What a posting adds to a record. -/
def amountTo (fact : Fact) (posting : Posting) : Int :=
  match posting.addition? with
  | some (address, amount) => if fact.address.equals address then amount else 0
  | none => 0

/-- Whether a posting is a retraction whose query the record matches. -/
def clears (fact : Fact) : Posting → Bool
  | .retraction subject name scope =>
    fact.isMatch (Ledger.queryOf (.text name) (Ledger.awardScope subject scope))
  | _ => false

/-- The addresses that some postings add to, in the order of the postings. -/
def addresses (postings : List Posting) : List Value :=
  postings.filterMap fun posting => posting.addition?.map Prod.fst

/-- Whether every address that some postings add to is one value up to equality: its mappings
hold each key once, and there is no number without a place in it. -/
def AreClean (postings : List Posting) : Prop :=
  ∀ address ∈ addresses postings, address.isProper = true ∧ address.isDefinite = true

instance (postings : List Posting) : Decidable (AreClean postings) :=
  inferInstanceAs (Decidable (∀ address ∈ addresses postings, _))

/-- Postings in a row add to the addresses of the first ones, then to those of the others. -/
theorem addresses_append (postings further : List Posting) :
    addresses (postings ++ further) = addresses postings ++ addresses further :=
  List.filterMap_append

/-- One more posting may add to one more address. -/
theorem addresses_concat (postings : List Posting) (posting : Posting) :
    addresses (postings ++ [posting]) =
      addresses postings ++ (posting.addition?.map Prod.fst).toList := by
  rw [addresses_append]
  cases adds : posting.addition? <;> simp [addresses, adds]

/-- Where all postings are clean, the first of them are. -/
theorem AreClean.first {postings further : List Posting} (clean : AreClean (postings ++ further)) :
    AreClean postings := by
  unfold AreClean at clean
  rw [addresses_append] at clean
  exact (List.forall_mem_append.mp clean).1

/-- A posting that adds something clears nothing: only retractions clear. -/
theorem clears_of_addition {posting : Posting} {address : Value} {amount : Int}
    (adds : posting.addition? = some (address, amount)) (fact : Fact) :
    posting.clears fact = false := by
  cases posting with
  | retraction subject name scope => contradiction
  | _ => rfl

end Posting

namespace Fact

/-- What some postings added to a record since the last of them that cleared it. -/
def balance (fact : Fact) (postings : List Posting) : Int :=
  ((postings.reverse.takeWhile fun posting => !posting.clears fact).map (Posting.amountTo fact)).sum

/-- The balance after one more posting: nothing, if that clears the record. -/
theorem balance_concat (fact : Fact) (postings : List Posting) (posting : Posting) :
    fact.balance (postings ++ [posting]) =
      if posting.clears fact then 0 else fact.balance postings + posting.amountTo fact := by
  simp only [balance, List.reverse_append, List.reverse_singleton, List.singleton_append,
    List.takeWhile_cons]
  by_cases cleared : posting.clears fact = true
  · simp [cleared]
  · simp [cleared, Int.add_comm]

/-- A posting that adds something adds it to the records of its address. -/
theorem balance_addition (fact : Fact) (postings : List Posting) {posting : Posting}
    {address : Value} {amount : Int} (adds : posting.addition? = some (address, amount)) :
    fact.balance (postings ++ [posting]) =
      fact.balance postings + if fact.address.equals address then amount else 0 := by
  rw [balance_concat, Posting.clears_of_addition adds, Posting.amountTo, adds]
  rfl

/-- A posting that adds something adds nothing to the balance of a record of another address. -/
theorem balance_elsewhere {fact : Fact} {postings : List Posting} {posting : Posting}
    {address : Value} {amount : Int} (adds : posting.addition? = some (address, amount))
    (apart : fact.address.equals address = false) :
    fact.balance (postings ++ [posting]) = fact.balance postings := by
  rw [fact.balance_addition postings adds, apart]
  exact Int.add_zero _

/-- Where no posting adds to the address of a record, nothing is left for it. -/
theorem balance_of_apart {fact : Fact} {postings : List Posting}
    (apart : ∀ address ∈ Posting.addresses postings, fact.address.equals address = false) :
    fact.balance postings = 0 := by
  induction postings using List.reverseRecOn with
  | nil => rfl
  | append_singleton earlier last inductionHypothesis =>
    rw [Posting.addresses_concat] at apart
    obtain ⟨before, own⟩ := List.forall_mem_append.mp apart
    have nothing : last.amountTo fact = 0 := by
      cases adds : last.addition? with
      | none => simp [Posting.amountTo, adds]
      | some addition => simp_all [Posting.amountTo]
    rw [balance_concat, inductionHypothesis before, nothing]
    exact ite_self 0

end Fact

namespace Ledger

/-- A record matches the query for its name within a scope that is the same as its own. -/
theorem isMatch_of_same {fact : Fact} {name : String} {scope : Entries}
    (held : (Value.mapping fact.scope).isProper = true)
    (proper : (Value.mapping scope).isProper = true)
    (definite : (Value.mapping scope).isDefinite = true) (named : fact.name = .text name)
    (same : Entries.same fact.scope scope = true) :
    fact.isMatch (queryOf (.text name) scope) = true := by
  have turned : Value.same (.mapping scope) (.mapping fact.scope) = true :=
    Value.same_symm _ held same
  simp only [Value.same, Value.isProper, Value.isDefinite, Bool.and_eq_true,
    decide_eq_true_eq] at turned proper definite
  refine List.all_eq_true.mpr fun entry member => ?_
  rcases (Entries.mem_put_text proper.1 nameKey (.text name) entry).mp member with
    rfl | ⟨inside, different⟩
  · simp [Fact.agrees, Value.equals_text_iff, named]
  · have other : entry.1.same (.text nameKey) = false :=
      Bool.eq_false_iff.mpr fun equal => different ((Scalar.same_text_iff _ _).mp equal)
    obtain ⟨found, there, alike⟩ := (Value.sameEntries_iff _ _).mp turned.2 entry inside
    have equal : found.equals entry.2 = true :=
      Value.equals_symm ((Value.entriesProper_iff _).mp proper.2 entry inside)
        (Value.equals_of_same ((Value.entriesDefinite_iff _).mp definite entry inside).2 alike)
    simp only [Fact.agrees, other, there, equal, Bool.false_eq_true, if_false]

/-- The record that an amount is added to is the one of an equal address. The query for it does
not ask for a scope without further entries, and has the name in place of an entry of the scope
under that key; the comparison of the scopes does the rest. -/
theorem holdsTotal_eq {fact : Fact} {name : String} {scope : Entries}
    (held : fact.address.isProper = true) (proper : (address (.text name) scope).isProper = true)
    (definite : (address (.text name) scope).isDefinite = true) :
    holdsTotal (.text name) scope fact = fact.address.equals (address (.text name) scope) := by
  have split : fact.address.equals (address (.text name) scope) = true ↔
      fact.name = .text name ∧ Entries.same fact.scope scope = true := by
    simp only [Fact.address, address, Value.equals, Value.same, Value.same_text_iff,
      Entries.same, Bool.and_eq_true]
  rw [Fact.address, address, Value.isProper, Bool.and_eq_true] at held
  rw [address, Value.isProper, Bool.and_eq_true] at proper
  rw [address, Value.isDefinite, Bool.and_eq_true] at definite
  apply Bool.eq_iff_iff.mpr
  rw [split, holdsTotal, Bool.and_eq_true]
  constructor
  · rintro ⟨matching, same⟩
    exact ⟨name_of_isMatch matching, same⟩
  · rintro ⟨named, same⟩
    exact ⟨isMatch_of_same held.2 proper.2 definite.2 named same, same⟩

/-- Postings in a row are posted one part after the other, and the first that fails ends both. -/
theorem postAll_append (postings further : List Posting) (ledger : Ledger) :
    postAll (postings ++ further) ledger = (postAll postings ledger).bind (postAll further) :=
  List.foldlM_append

/-- Whether a ledger tells the history of some postings: there is a record for each address
added to, in the order of the first additions, and its amount is its balance. -/
structure Tells (postings : List Posting) (ledger : Ledger) : Prop where
  addresses : List.map Fact.address ledger =
    (Posting.addresses postings).eraseDupsBy fun later earlier => earlier.equals later
  amounts : ∀ fact ∈ ledger, fact.amount = .integer (fact.balance postings)

namespace Tells

variable {postings : List Posting} {ledger : Ledger}

/-- An empty ledger tells of no postings, and of nothing else. -/
theorem nil : Tells [] [] := ⟨rfl, by simp⟩

/-- In a ledger that tells postings every amount is a whole number. -/
theorem counted (tells : Tells postings ledger) : ledger.IsCounted := by
  intro fact member
  rw [tells.amounts fact member]
  rfl

/-- In a ledger that tells postings no two records have equal addresses. -/
theorem apart (tells : Tells postings ledger) :
    List.Pairwise (fun first second => first.address.equals second.address = false) ledger := by
  have listed := pairwise_eraseDupsBy (fun later earlier => Value.equals earlier later)
    (Posting.addresses postings)
  rw [← tells.addresses] at listed
  exact List.pairwise_map.mp listed

/-- The address of every record of a ledger that tells postings is one that they add to. -/
theorem address_mem (tells : Tells postings ledger) {fact : Fact} (member : fact ∈ ledger) :
    fact.address ∈ Posting.addresses postings :=
  mem_of_mem_eraseDupsBy (tells.addresses ▸ List.mem_map_of_mem member)

/-- An address that was added to and equals itself is that of a record. -/
theorem exists_record (tells : Tells postings ledger) {address : Value}
    (reflexive : address.equals address = true) (member : address ∈ Posting.addresses postings) :
    ∃ fact ∈ ledger, fact.address.equals address = true := by
  obtain ⟨kept, inside, equal⟩ :=
    exists_mem_eraseDupsBy (fun later earlier => Value.equals earlier later) reflexive member
  rw [← tells.addresses] at inside
  obtain ⟨fact, among, rfl⟩ := List.mem_map.mp inside
  exact ⟨fact, among, equal⟩

/-- After a retraction, a ledger that told postings tells them with the retraction behind them. -/
theorem retraction (tells : Tells postings ledger) (subject : Value) (name : String)
    (scope : Entries) :
    Tells (postings ++ [.retraction subject name scope])
      (ledger.retractAward subject (.text name) scope) where
  addresses := by
    rw [map_retractAward ledger subject (.text name) scope Fact.address fun _ => rfl,
      tells.addresses, Posting.addresses_concat]
    simp [Posting.addition?]
  amounts := by
    rw [retractAward_eq]
    refine List.forall_mem_map.mpr fun fact member => ?_
    by_cases cleared : fact.isMatch (queryOf (.text name) (awardScope subject scope)) = true
    · have nothing : fact.cleared.balance (postings ++ [.retraction subject name scope]) = 0 := by
        rw [Fact.balance_concat]
        exact if_pos cleared
      simp only [cleared, if_true, nothing]
      rfl
    · have kept : fact.balance (postings ++ [.retraction subject name scope]) =
          fact.balance postings := by
        rw [Fact.balance_concat, if_neg (by simpa [Posting.clears] using cleared)]
        exact Int.add_zero _
      simp only [cleared, Bool.false_eq_true, if_false, kept]
      exact tells.amounts fact member

section Clean

variable (clean : Posting.AreClean postings) {address : Value}
include clean

/-- In a ledger that tells postings no other record has the address of a given one, before it or
behind it. -/
theorem others_apart {before after : Ledger} {old : Fact}
    (tells : Tells postings (before ++ old :: after)) (own : old.address.equals address = true) :
    (∀ fact ∈ before, fact.address.equals address = false) ∧
      ∀ fact ∈ after, fact.address.equals address = false := by
  have turned : ∀ fact ∈ before ++ old :: after, fact.address.equals address = true →
      address.equals fact.address = true :=
    fun fact member equal => Value.equals_symm (clean _ (tells.address_mem member)).1 equal
  obtain ⟨_, late, across⟩ := List.pairwise_append.mp tells.apart
  constructor
  · intro fact early
    apply Bool.eq_false_iff.mpr
    intro equal
    have back := turned old (List.mem_append_right _ List.mem_cons_self) own
    exact Bool.eq_false_iff.mp (across fact early old List.mem_cons_self)
      (Value.equals_trans equal back)
  · intro fact behind
    apply Bool.eq_false_iff.mpr
    intro equal
    have back := turned fact (List.mem_append_right _ (List.mem_cons_of_mem _ behind)) equal
    exact Bool.eq_false_iff.mp ((List.pairwise_cons.mp late).1 fact behind)
      (Value.equals_trans own back)

/-- A ledger that tells postings has at most one record of an address. -/
theorem single (tells : Tells postings ledger) (address : Value) :
    (List.filter (fun fact => fact.address.equals address) ledger).length ≤ 1 := by
  by_cases found : ∃ old ∈ ledger, old.address.equals address = true
  · obtain ⟨old, member, own⟩ := found
    obtain ⟨before, after, rfl⟩ := List.append_of_mem member
    obtain ⟨early, behind⟩ := tells.others_apart clean own
    have noneEarly : List.filter (fun fact => fact.address.equals address) before = [] :=
      List.filter_eq_nil_iff.mpr fun fact among => Bool.eq_false_iff.mp (early fact among)
    have noneBehind : List.filter (fun fact => fact.address.equals address) after = [] :=
      List.filter_eq_nil_iff.mpr fun fact among => Bool.eq_false_iff.mp (behind fact among)
    simp [List.filter_append, own, noneEarly, noneBehind]
  · have none : List.filter (fun fact => fact.address.equals address) ledger = [] :=
      List.filter_eq_nil_iff.mpr fun fact among equal => found ⟨fact, among, equal⟩
    simp [none]

section Addition

variable {posting : Posting} {amount : Int}
  (adds : posting.addition? = some (address, amount))
include adds

/-- What was added to no record before makes a new one. -/
theorem appended (tells : Tells postings ledger) (proper : address.isProper = true)
    (definite : address.isDefinite = true)
    (new : ∀ fact ∈ ledger, fact.address.equals address = false) {fact : Fact}
    (addressed : fact.address = address) (holds : fact.amount = .integer amount) :
    Tells (postings ++ [posting]) (ledger ++ [fact]) where
  addresses := by
    have unlisted : ((Posting.addresses postings).eraseDupsBy fun later earlier =>
        earlier.equals later).any (fun earlier => earlier.equals address) = false := by
      rw [← tells.addresses, List.any_map, List.any_eq_false]
      exact fun other member => Bool.eq_false_iff.mp (new other member)
    rw [Posting.addresses_concat, adds]
    simp only [Option.map_some, Option.toList_some]
    rw [eraseDupsBy_concat, unlisted, ← tells.addresses]
    simp [addressed]
  amounts := by
    refine List.forall_mem_append.mpr ⟨fun other member => ?_, List.forall_mem_singleton.mpr ?_⟩
    · rw [Fact.balance_elsewhere adds (new other member)]
      exact tells.amounts other member
    · -- Nothing was added to this address before, or there would be a record of it.
      have unposted : ∀ posted ∈ Posting.addresses postings,
          fact.address.equals posted = false := by
        intro posted member
        apply Bool.eq_false_iff.mpr
        intro equal
        obtain ⟨properToo, definiteToo⟩ := clean posted member
        obtain ⟨other, among, same⟩ :=
          tells.exists_record (Value.equals_self properToo definiteToo) member
        rw [addressed] at equal
        have again : other.address.equals address = true :=
          Value.equals_trans same (Value.equals_symm proper equal)
        exact Bool.eq_false_iff.mp (new other among) again
      rw [fact.balance_addition postings adds, Fact.balance_of_apart unposted, addressed,
        Value.equals_self proper definite, holds]
      simp

/-- What is added to the address of a record is added to its amount and to that of no other. -/
theorem raised {before after : Ledger} {old : Fact}
    (tells : Tells postings (before ++ old :: after))
    (own : old.address.equals address = true) :
    Tells (postings ++ [posting]) (before ++ old.raised amount :: after) where
  addresses := by
    have listed : ((Posting.addresses postings).eraseDupsBy fun later earlier =>
        earlier.equals later).any (fun earlier => earlier.equals address) = true := by
      rw [← tells.addresses, List.any_map, List.any_eq_true]
      exact ⟨old, List.mem_append_right _ List.mem_cons_self, own⟩
    rw [Posting.addresses_concat, adds]
    simp only [Option.map_some, Option.toList_some]
    rw [eraseDupsBy_concat, listed, if_pos rfl, ← tells.addresses]
    simp [Fact.address, Fact.raised]
  amounts := by
    obtain ⟨early, behind⟩ := tells.others_apart clean own
    obtain ⟨told, toldLate⟩ := List.forall_mem_append.mp tells.amounts
    obtain ⟨toldOld, toldAfter⟩ := List.forall_mem_cons.mp toldLate
    refine List.forall_mem_append.mpr ⟨?_, List.forall_mem_cons.mpr ⟨?_, ?_⟩⟩
    · intro fact member
      rw [Fact.balance_elsewhere adds (early fact member)]
      exact told fact member
    · have more : (old.raised amount).balance (postings ++ [posting]) =
          old.balance postings + amount := by
        rw [Fact.balance_addition _ _ adds]
        exact congrArg (old.balance postings + ·) (if_pos own)
      rw [more]
      simp [Fact.raised, Fact.count, toldOld, Value.whole?]
    · intro fact member
      rw [Fact.balance_elsewhere adds (behind fact member)]
      exact toldAfter fact member

end Addition

end Clean

/-- An amount for a clean name and scope always goes through, the ledger goes on, and it tells of
that as well. -/
theorem increment (tells : Tells postings ledger) (clean : Posting.AreClean postings)
    (posting : Posting) {name : String} {scope : Entries} {amount : Int}
    (adds : posting.addition? = some (address (.text name) scope, amount))
    (own : (address (.text name) scope).isProper = true ∧
      (address (.text name) scope).isDefinite = true) :
    ∃ written later, ledger.increment (.text name) scope (.integer amount) = .ok (written, later) ∧
      Tells (postings ++ [posting]) later ∧ Continues (fun _ => True) ledger later := by
  obtain ⟨proper, definite⟩ := own
  have selecting : ∀ fact ∈ ledger, holdsTotal (.text name) scope fact =
      fact.address.equals (address (.text name) scope) :=
    fun fact member => holdsTotal_eq (clean _ (tells.address_mem member)).1 proper definite
  rcases addToFirst_cases tells.counted (holdsTotal (.text name) scope) amount with
    ⟨none, unselected⟩ | ⟨before, old, after, rfl, selected, outcome⟩
  · have new : ∀ fact ∈ ledger, fact.address.equals (address (.text name) scope) = false :=
      fun fact member => (selecting fact member).symm.trans (unselected fact member)
    have goes : Continues (fun _ => True) []
        [newFact ledger (.text name) scope (.integer amount) []] := .appended _ (by simp)
    refine ⟨_, _, by simp only [Ledger.increment, none]; rfl,
      tells.appended clean adds proper definite new rfl rfl, ?_⟩
    simpa using Continues.front ledger goes
  · have held : old.address.equals (address (.text name) scope) = true :=
      (selecting old (List.mem_append_right _ List.mem_cons_self)).symm.trans selected
    refine ⟨old.raised amount, _, by simp only [Ledger.increment, outcome],
      tells.raised clean adds held, ?_⟩
    exact Continues.front before (.kept old (old.raised amount) after after rfl (by simp)
      (Continues.refl after))

/-- Any posting to a clean address goes through, the ledger goes on, and it tells of that as
well. -/
theorem post (tells : Tells postings ledger) {posting : Posting}
    (clean : Posting.AreClean (postings ++ [posting])) :
    ∃ later, ledger.post posting = .ok later ∧ Tells (postings ++ [posting]) later ∧
      Continues (fun _ => True) ledger later := by
  have before : Posting.AreClean postings := clean.first
  unfold Posting.AreClean at clean
  rw [Posting.addresses_concat] at clean
  have own := (List.forall_mem_append.mp clean).2
  cases posting with
  | increment name scope amount =>
    obtain ⟨written, later, done, told, goes⟩ :=
      tells.increment before (.increment name scope amount) rfl (own _ List.mem_cons_self)
    exact ⟨later, by simp only [Ledger.post, done]; rfl, told, goes⟩
  | award subject name scope =>
    obtain ⟨written, later, done, told, goes⟩ :=
      tells.increment before (.award subject name scope) rfl (own _ List.mem_cons_self)
    exact ⟨later, by simp only [Ledger.post, recordAward, done]; rfl, told, goes⟩
  | retraction subject name scope =>
    exact ⟨_, rfl, tells.retraction subject name scope,
      (retractAward_continues ledger subject name scope).mono fun _ _ => trivial⟩

/-- A ledger that tells clean postings takes any number of further ones, tells them all, and only
continues what it held. -/
theorem postAll (tells : Tells postings ledger) (further : List Posting)
    (clean : Posting.AreClean (postings ++ further)) :
    ∃ later, Ledger.postAll further ledger = .ok later ∧ Tells (postings ++ further) later ∧
      Continues (fun _ => True) ledger later := by
  induction further generalizing postings ledger with
  | nil => exact ⟨ledger, rfl, by simpa using tells, Continues.refl ledger⟩
  | cons posting rest inductionHypothesis =>
    have joined : postings ++ posting :: rest = postings ++ [posting] ++ rest := by simp
    rw [joined] at clean ⊢
    obtain ⟨middle, posted, told, goes⟩ := tells.post clean.first
    obtain ⟨later, done, toldAll, goesOn⟩ := inductionHypothesis told clean
    refine ⟨later, ?_, toldAll, goes.trans goesOn⟩
    simp only [Ledger.postAll, List.foldlM_cons, posted]
    exact done

end Tells

/-- A ledger that starts empty takes any postings to scopes without numbers that have no place.
It then has at most one record for each name and scope. Its records stand in the order in which
their names and scopes were first posted to, and the amount of each is what was added to it since
the last retraction whose query it matched. Nothing but amounts ever changes in a record, and none
is removed. -/
theorem postAll_tells (postings : List Posting) (clean : Posting.AreClean postings) :
    ∃ ledger, postAll postings [] = .ok ledger ∧
      (∀ address, (List.filter (fun fact => fact.address.equals address) ledger).length ≤ 1) ∧
      List.map Fact.address ledger =
        (Posting.addresses postings).eraseDupsBy (fun later earlier => earlier.equals later) ∧
      (∀ fact ∈ ledger, fact.amount = .integer (fact.balance postings)) ∧
      ∀ earlier later, postings = earlier ++ later → ∃ before, postAll earlier [] = .ok before ∧
        Continues (fun _ => True) before ledger := by
  obtain ⟨ledger, done, tells, _⟩ := Tells.nil.postAll postings clean
  refine ⟨ledger, done, tells.single clean, tells.addresses, tells.amounts, ?_⟩
  rintro earlier later rfl
  obtain ⟨before, started, told, _⟩ := Tells.nil.postAll earlier clean.first
  obtain ⟨last, finished, _, goes⟩ := told.postAll later clean
  rw [postAll_append, started] at done
  obtain rfl : last = ledger := Except.ok.inj (finished.symm.trans done)
  exact ⟨before, started, goes⟩

/-- A history of one name: an award to a subject alone, amounts within a team whose scope is
written in two ways, a retraction that clears both records, and an award to another subject. -/
def samplePostings : List Posting :=
  let ada : Value := .text "ada"
  [.award ada "starter" [],
    .increment "starter" [(.text subjectKey, ada), (.text "team", .text "red")] 3,
    .retraction ada "starter" [],
    .increment "starter" [(.text "team", .text "red"), (.text subjectKey, ada)] 2,
    .award (.text "bob") "starter" []]

/-- The history of the sample goes through and leaves three records of different addresses, which
hold their balances: zero, two and one. -/
theorem samplePostings_told : Posting.AreClean samplePostings ∧
    ∃ ledger, postAll samplePostings [] = .ok ledger ∧
      (∀ address, (List.filter (fun fact => fact.address.equals address) ledger).length ≤ 1) ∧
      (∀ fact ∈ ledger, fact.amount = .integer (fact.balance samplePostings)) ∧
      ledger.map (·.amount) = [.integer 0, .integer 2, .integer 1] := by
  have clean : Posting.AreClean samplePostings := by decide
  obtain ⟨ledger, done, single, _, amounts, _⟩ := postAll_tells samplePostings clean
  refine ⟨clean, ledger, done, single, amounts, ?_⟩
  have known : (postAll samplePostings []).map (List.map (·.amount)) =
      .ok [.integer 0, .integer 2, .integer 1] := by rfl
  rw [done] at known
  exact Except.ok.inj known

end Ledger

end Accolade
