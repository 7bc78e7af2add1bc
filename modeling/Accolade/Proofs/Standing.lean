import Accolade.Profile
import Accolade.Proofs.Cycle.Visits
import Accolade.Proofs.Fact.Subjects

/-!
# Standing awards

A name may be awarded within several scopes, again and again, and retracted in between. Its awards
within a scope stand if some were made since the last retraction that cleared them. What stands of
a subject is read off the postings alone: the names and the scopes in the order of their first
awards, each once, with what is left of it.

Where a ledger tells of the postings, it has one record for each of these names and scopes, in the
same order, and the record has what is left as its amount.
-/

namespace Accolade

/-- The address of a name and a scope that are awarded. -/
def Ledger.place (award : String × Entries) : Value := Ledger.address (.text award.1) award.2

/-- A record of a name and a scope, before anything is added to it. -/
def Fact.blank (award : String × Entries) : Fact := ⟨.text award.1, .integer 0, award.2, [], none⟩

/-- The name and the scope of an award that a profile shows. -/
def AwardLine.award (line : AwardLine) : String × Entries := (line.name, line.scope)

namespace Posting

/-- The name and the scope that a posting awards. -/
def awarded? : Posting → Option (String × Entries)
  | .award subject name scope => some (name, Ledger.awardScope subject scope)
  | _ => none

/-- The names and scopes that some postings award, each once, in the order of the first awards. -/
def firstAwards (postings : List Posting) : List (String × Entries) :=
  (postings.filterMap awarded?).eraseDupsBy fun later earlier =>
    (Ledger.place earlier).equals (Ledger.place later)

/-- What is left of a name and a scope after some postings: the awards since the last retraction
that cleared them. -/
def remaining (postings : List Posting) (award : String × Entries) : Int :=
  (Fact.blank award).balance postings

/-- The line of a name and a scope after some postings, if they belong to a subject and have
something left. -/
def standingLine (subject : Value) (postings : List Posting) (award : String × Entries) :
    Option AwardLine :=
  if (Fact.blank award).belongsTo subject ∧ 0 < remaining postings award then
    some ⟨award.1, remaining postings award, award.2⟩
  else none

/-- The awards of a subject that are left standing by some postings. -/
def standing (subject : Value) (postings : List Posting) : List AwardLine :=
  (firstAwards postings).filterMap (standingLine subject postings)

end Posting

section FirstOccurrences

variable {α β : Type} (repeats : β → β → Bool) (image : α → β)

/-- The first of some images are the images of those whose images are the first. -/
theorem eraseDupsBy_map (items : List α) :
    (items.map image).eraseDupsBy repeats =
      (items.eraseDupsBy fun later earlier => repeats (image later) (image earlier)).map image := by
  induction items using List.reverseRecOn with
  | nil => rfl
  | append_singleton before last inductionHypothesis =>
    rw [List.map_append, List.map_singleton, eraseDupsBy_concat, eraseDupsBy_concat,
      inductionHypothesis, List.any_map]
    simp only [Function.comp_def]
    split
    · rfl
    · rw [List.map_append, List.map_singleton]

end FirstOccurrences

/-- A record of a subject is one that the query for the subject alone matches. -/
theorem Fact.isMatch_subject (fact : Fact) (subject : Value) :
    fact.isMatch [(.text subjectKey, subject)] = fact.belongsTo subject := by
  have apart : (Scalar.text subjectKey).same (.text nameKey) = false := by decide
  simp only [isMatch, List.all_cons, List.all_nil, Bool.and_true, agrees, apart,
    Bool.false_eq_true, if_false, belongsTo, subject?, Entries.field?]
  cases Entries.find? fact.scope (.text subjectKey) <;> rfl

/-- What happened before a record was cleared does not show in its balance. -/
theorem Fact.balance_behind {fact : Fact} {posting : Posting} (clears : posting.clears fact = true)
    (before after : List Posting) :
    fact.balance (before ++ posting :: after) = fact.balance after := by
  induction after using List.reverseRecOn with
  | nil =>
    rw [balance_concat, if_pos clears]
    rfl
  | append_singleton after last inductionHypothesis =>
    have joined :
        before ++ posting :: (after ++ [last]) = before ++ posting :: after ++ [last] := by simp
    rw [joined, balance_concat, balance_concat, inductionHypothesis]

section Equal

variable {award other : String × Entries}

/-- Names and scopes have equal addresses when the names are the same and the scopes are. -/
theorem Ledger.place_equals_iff :
    (place award).equals (place other) = true ↔
      award.1 = other.1 ∧ Entries.same award.2 other.2 = true := by
  simp [place, address, Value.equals, Value.same, Entries.same]

variable (clean : (Ledger.place award).isProper = true ∧ (Ledger.place award).isDefinite = true)
  (equal : (Ledger.place award).equals (Ledger.place other) = true)
include clean equal

/-- Where two names and scopes have equal addresses, records of the other match what records of the
one match. -/
theorem Fact.isMatch_of_equal {query : Entries} (matching : (blank award).isMatch query = true) :
    (blank other).isMatch query = true := by
  obtain ⟨proper, definite⟩ := clean
  simp only [Ledger.place, Ledger.address, Value.isProper, Value.isDefinite, Bool.and_eq_true,
    decide_eq_true_eq] at proper definite
  obtain ⟨named, same⟩ := Ledger.place_equals_iff.mp equal
  simp only [Entries.same, Value.same, Bool.and_eq_true] at same
  refine List.all_eq_true.mpr fun entry asked => ?_
  have agreeing := List.all_eq_true.mp matching entry asked
  by_cases ofName : entry.1.same (.text nameKey) = true
  · simpa [agrees, ofName, blank, named] using agreeing
  · cases found : Entries.find? award.2 entry.1 with
    | none => simp [agrees, ofName, blank, found] at agreeing
    | some value =>
      have held : value.equals entry.2 = true := by
        simpa [agrees, ofName, blank, found] using agreeing
      obtain ⟨key, inside, alike⟩ := Entries.mem_of_find found
      obtain ⟨counterpart, there, like⟩ := (Value.sameEntries_iff _ _).mp same.2 _ inside
      have turned : counterpart.equals value = true :=
        Value.equals_symm ((Value.entriesProper_iff _).mp proper.2.2 _ inside)
          (Value.equals_of_same ((Value.entriesDefinite_iff _).mp definite.2 _ inside).2 like)
      have present : Entries.find? other.2 entry.1 = some counterpart :=
        (Entries.find_congr alike other.2).symm.trans there
      simp [agrees, ofName, blank, present, Value.equals_trans turned held]

end Equal

section Remaining

variable {award other : String × Entries}
  (clean : (Ledger.place award).isProper = true ∧ (Ledger.place award).isDefinite = true)
  (cleanToo : (Ledger.place other).isProper = true ∧ (Ledger.place other).isDefinite = true)
  (equal : (Ledger.place award).equals (Ledger.place other) = true)
include clean cleanToo equal

/-- Records of equal names and scopes match the same queries. -/
theorem Fact.isMatch_blank_eq (query : Entries) :
    (blank award).isMatch query = (blank other).isMatch query := by
  apply Bool.eq_iff_iff.mpr
  constructor
  · exact isMatch_of_equal clean equal
  · exact isMatch_of_equal cleanToo (Value.equals_symm clean.1 equal)

/-- Of two awards of equal names and scopes, the same is left by any postings. -/
theorem Posting.remaining_eq (postings : List Posting) :
    remaining postings award = remaining postings other := by
  have cleared : ∀ posting : Posting,
      posting.clears (Fact.blank award) = posting.clears (Fact.blank other) := by
    intro posting
    cases posting with
    | retraction => exact Fact.isMatch_blank_eq clean cleanToo equal _
    | _ => rfl
  have added : ∀ posting : Posting,
      posting.amountTo (Fact.blank award) = posting.amountTo (Fact.blank other) := by
    intro posting
    have sameAddress : ∀ address : Value, (Fact.blank award).address.equals address =
        (Fact.blank other).address.equals address := by
      intro address
      apply Bool.eq_iff_iff.mpr
      constructor
      · exact Value.equals_trans (Value.equals_symm clean.1 equal)
      · exact Value.equals_trans equal
    simp only [amountTo, sameAddress]
  simp only [remaining, Fact.balance, cleared]
  exact congrArg List.sum (List.map_congr_left fun posting _ => added posting)

end Remaining

namespace Posting

variable {catalogue : Catalogue} {postings : List Posting}

/-- The line of a name and a scope has what is left of them, and there is one for a subject exactly
when something is left and they belong to the subject. -/
theorem standingLine_eq_some_iff {subject : Value} {award : String × Entries} {line : AwardLine} :
    standingLine subject postings award = some line ↔
      line.award = award ∧ line.amount = remaining postings award ∧
        (Fact.blank award).belongsTo subject = true ∧ 0 < remaining postings award := by
  obtain ⟨name, amount, scope⟩ := line
  obtain ⟨awardName, awardScope⟩ := award
  unfold standingLine
  split
  · rename_i left
    simp only [left, AwardLine.award, Option.some.injEq, AwardLine.mk.injEq, Prod.mk.injEq]
    tauto
  · rename_i nothing
    simp only [reduceCtorEq, false_iff]
    exact fun stands => nothing stands.2.2

/-- No two lines that stand are of one name and scope. -/
theorem standing_apart (subject : Value) (postings : List Posting) :
    (standing subject postings).Pairwise fun earlier later =>
      (Ledger.place earlier.award).equals (Ledger.place later.award) = false := by
  refine List.pairwise_filterMap.mpr ((pairwise_eraseDupsBy _ _).imp ?_)
  rintro _ _ apart earlier standsFirst later standsLast
  obtain ⟨rfl, _⟩ := standingLine_eq_some_iff.mp standsFirst
  obtain ⟨rfl, _⟩ := standingLine_eq_some_iff.mp standsLast
  exact apart

/-- The lines that stand are of what was awarded to the subject and has something left. -/
theorem mem_standing {subject : Value} {line : AwardLine}
    (stands : line ∈ standing subject postings) :
    line.award ∈ postings.filterMap awarded? ∧ (Fact.blank line.award).belongsTo subject = true ∧
      line.amount = remaining postings line.award ∧ 0 < line.amount := by
  obtain ⟨award, listed, stand⟩ := List.mem_filterMap.mp stands
  obtain ⟨rfl, amount, belongs, left⟩ := standingLine_eq_some_iff.mp stand
  exact ⟨mem_of_mem_eraseDupsBy listed, belongs, amount, amount ▸ left⟩

section Regular

variable (regular : ∀ posting ∈ postings, posting.IsRegular catalogue)
include regular

/-- Regular postings add to the addresses of what they award. -/
theorem addresses_eq : addresses postings = (postings.filterMap awarded?).map Ledger.place := by
  rw [List.map_filterMap]
  refine List.filterMap_congr fun posting member => ?_
  obtain ⟨_, _, asked⟩ := regular posting member
  cases asked <;> rfl

/-- What is awarded has a clean address, since a regular award is posted within the values of a
definite context. -/
theorem place_clean {award : String × Entries} (awarded : award ∈ postings.filterMap awarded?) :
    (Ledger.place award).isProper = true ∧ (Ledger.place award).isDefinite = true :=
  areClean_of_regular regular _ (addresses_eq regular ▸ List.mem_map_of_mem awarded)

/-- What is retracted has a clean address, since the scope of a regular retraction resolves in a
definite context. -/
theorem retracted_clean {subject : Value} {name : String} {scope : Entries}
    (retracted : .retraction subject name scope ∈ postings) :
    let place := Ledger.place (name, Ledger.awardScope subject scope)
    place.isProper = true ∧ place.isDefinite = true := by
  obtain ⟨context, definite, asked⟩ := regular _ retracted
  cases asked with
  | @retraction rule _ _ resolved some =>
    obtain ⟨_, rfl⟩ := (Context.scopeValues_eq_ok_iff _ _).mp resolved
    rw [Ledger.awardScope_of_ne_nil _ some]
    exact definite.address_clean rule.name rule.scope

/-- What was awarded to the subject and has something left has a line. -/
theorem exists_standing {subject : Value} {award : String × Entries}
    (awarded : award ∈ postings.filterMap awarded?)
    (belongs : (Fact.blank award).belongsTo subject = true)
    (left : 0 < remaining postings award) :
    ∃ line ∈ standing subject postings,
      (Ledger.place line.award).equals (Ledger.place award) = true ∧
      line.amount = remaining postings award := by
  have clean := place_clean regular awarded
  obtain ⟨kept, listed, equal⟩ := exists_mem_eraseDupsBy
    (fun later earlier => (Ledger.place earlier).equals (Ledger.place later))
    (Value.equals_self clean.1 clean.2) awarded
  have cleanToo := place_clean regular (mem_of_mem_eraseDupsBy listed)
  have amount := remaining_eq cleanToo clean equal postings
  have own : (Fact.blank kept).belongsTo subject = true := by
    rwa [← Fact.isMatch_subject, Fact.isMatch_blank_eq cleanToo clean equal, Fact.isMatch_subject]
  have stands : standingLine subject postings kept =
      some ⟨kept.1, remaining postings kept, kept.2⟩ :=
    standingLine_eq_some_iff.mpr ⟨rfl, rfl, own, amount ▸ left⟩
  exact ⟨_, List.mem_filterMap.mpr ⟨kept, listed, stands⟩, equal, amount⟩

/-- A name and a scope that were retracted, and not awarded since, do not stand. -/
theorem standing_retracted {before after : List Posting} {holder : Value} {name : String}
    {scope : Entries} (history : postings = before ++ .retraction holder name scope :: after)
    (since : ∀ award ∈ after.filterMap awarded?,
      (Ledger.place (name, Ledger.awardScope holder scope)).equals (Ledger.place award) = false)
    {subject : Value} {line : AwardLine} (stands : line ∈ standing subject postings) :
    (Ledger.place line.award).equals (Ledger.place (name, Ledger.awardScope holder scope)) =
      false := by
  obtain ⟨award, listed, stand⟩ := List.mem_filterMap.mp stands
  obtain ⟨rfl, _, _, left⟩ := standingLine_eq_some_iff.mp stand
  have proper := (place_clean regular (mem_of_mem_eraseDupsBy listed)).1
  have clean := retracted_clean regular (history ▸ List.mem_append_right _ List.mem_cons_self)
  apply Bool.eq_false_iff.mpr
  intro equal
  -- The retraction clears the record of the line, so what is left of it was awarded since.
  have clears : clears (Fact.blank line.award) (.retraction holder name scope) = true := by
    have holds := (@Ledger.holdsTotal_eq (Fact.blank line.award) _ _ proper clean.1 clean.2).trans
      equal
    rw [Ledger.holdsTotal, Bool.and_eq_true] at holds
    exact holds.1
  have apart : ∀ address ∈ addresses after,
      (Fact.blank line.award).address.equals address = false := by
    rw [addresses_eq fun posting member => regular posting
      (history ▸ List.mem_append_right _ (List.mem_cons_of_mem _ member))]
    refine List.forall_mem_map.mpr fun other awarded => Bool.eq_false_iff.mpr fun again => ?_
    exact Bool.eq_false_iff.mp (since other awarded)
      (Value.equals_trans (Value.equals_symm proper equal) again)
  rw [remaining, history, Fact.balance_behind clears, Fact.balance_of_apart apart] at left
  exact absurd left (Int.lt_irrefl 0)

end Regular

end Posting

/-- Whether a record is the one of a name and a scope after some postings: it has this name and this
scope, and what is left of them as its amount. -/
structure Fact.Records (postings : List Posting) (fact : Fact) (award : String × Entries) :
    Prop where
  named : fact.name = .text award.1
  within : fact.scope = award.2
  amount : fact.amount = .integer (Posting.remaining postings award)

/-- A ledger that tells of regular postings has one record for each name and scope awarded, in the
order of the first awards. -/
theorem TellsAwards.records {catalogue : Catalogue} {stores : Stores} {postings : List Posting}
    (told : TellsAwards catalogue (stores, postings)) :
    List.Forall₂ (Fact.Records postings) stores.achievements (Posting.firstAwards postings) := by
  have addressed : List.map Fact.address stores.achievements =
      (Posting.firstAwards postings).map Ledger.place := by
    rw [told.tells.addresses, Posting.addresses_eq told.regular, eraseDupsBy_map]
    rfl
  have aligned : List.Forall₂ (fun fact award => fact.address = Ledger.place award)
      stores.achievements (Posting.firstAwards postings) := by
    rw [← List.forall₂_eq_eq_eq] at addressed
    exact List.forall₂_map_right_iff.mp (List.forall₂_map_left_iff.mp addressed)
  refine ((List.forall₂_and_left _ _).mpr ⟨told.tells.amounts, aligned⟩).imp ?_
  rintro ⟨name, amount, scope, attributes, identifier⟩ award ⟨amounted, addressed⟩
  simp only [Fact.address, Ledger.place, Ledger.address, Value.pair.injEq,
    Value.mapping.injEq] at addressed
  obtain ⟨rfl, rfl⟩ := addressed
  exact ⟨rfl, rfl, amounted⟩

end Accolade
