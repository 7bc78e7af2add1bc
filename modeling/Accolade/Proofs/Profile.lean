import Accolade.Proofs.Fact.Totals
import Accolade.Proofs.Rule.Amount
import Accolade.Proofs.Standing

/-!
# Profiles of standing awards

A profile looks facts up by the subject alone. Still it shows each award once: where nothing but
cycles over one catalogue writes to the ledger of awards, the ledger has one record for each name
and scope awarded. Those of the subject that have something left are the awards that stand, and a
profile lists these. Awards of hidden rules may be left out of it; nothing else then changes.
-/

namespace Accolade

/-- Whether a catalogue has a hidden rule of a name. -/
def Catalogue.hides (catalogue : Catalogue) (name : String) : Bool :=
  catalogue.rules.any fun rule => rule.hidden && decide (rule.name = name)

/-- The names left out are those of hidden rules. -/
theorem Catalogue.mem_hiddenNames (catalogue : Catalogue) (name : String) :
    name ∈ Profile.hiddenNames (some catalogue) false ↔ catalogue.hides name = true := by
  simp [Profile.hiddenNames, hides, and_assoc]

/-- The profile of a subject with some awards, over the experience found. -/
def Profile.listing (subject : String) (awards : List AwardLine) (experience : List Fact) :
    Except ProfileError Profile :=
  (experience.mapM experienceLine).map fun lines => ⟨subject, awards, lines⟩

namespace Fact

/-- Whether a profile can show a record: its name is a text, its amount an integer, and the keys of
its scope are texts. -/
structure IsShowable (fact : Fact) : Prop where
  named : ∃ name, fact.name = .text name
  counted : ∃ amount, fact.amount = .integer amount
  keyed : AreTexts (Entries.keys fact.scope)

/-- The line of a record, if it stands and is not hidden. -/
def line? (hidden : List String) (fact : Fact) : Option AwardLine :=
  match fact.name, fact.amount with
  | .text name, .integer amount =>
    if 0 < amount ∧ name ∉ hidden then some ⟨name, amount, fact.scope⟩ else none
  | _, _ => none

/-- The line of the record of a name and a scope is the line of their standing award, with the
hidden names left out. -/
theorem Records.line?_eq {postings : List Posting} {fact : Fact} {award : String × Entries}
    (records : fact.Records postings award) (subject : Value) (hidden : List String) :
    (if fact.isMatch [(.text subjectKey, subject)] then fact.line? hidden else none) =
      (Posting.standingLine subject postings award).filter
        fun line => decide (line.name ∉ hidden) := by
  have own : (blank award).belongsTo subject = fact.belongsTo subject := by
    simp only [belongsTo, subject?, blank, records.within]
  rw [fact.isMatch_subject, Posting.standingLine, own, line?, records.named, records.amount,
    records.within]
  by_cases belongs : fact.belongsTo subject = true
  · by_cases left : 0 < Posting.remaining postings award
    · simp [belongs, left, Option.filter]
    · simp [belongs, left]
  · simp [belongs]

end Fact

namespace Profile

/-- A record with a text for a name and an integer amount is shown exactly when it stands and is not
hidden. -/
theorem isShown_eq {fact : Fact} {name : String} {amount : Int} (named : fact.name = .text name)
    (counted : fact.amount = .integer amount) (hidden : List String) :
    isShown hidden fact = .ok (decide (0 < amount ∧ name ∉ hidden)) := by
  have stand : stands fact = .ok (decide (0 < amount)) := by
    rw [stands, counted, AmountTest.holds_eq _ rfl]
    simp [AmountTest.isMetBy]
  have hide : isHidden hidden fact = .ok (decide (name ∈ hidden)) := by
    rw [isHidden, named, Value.text]
    refine congrArg Except.ok (Bool.eq_iff_iff.mpr ?_)
    simp
  by_cases positive : 0 < amount
  · simp [isShown, stand, hide, positive, bind, Except.bind, pure, Except.pure]
  · simp [isShown, stand, positive, bind, Except.bind, pure, Except.pure]

/-- Records that a profile can show all have their lines made, and those that stand and are not
hidden are listed. -/
theorem awardLines_eq {facts : List Fact} (showable : ∀ fact ∈ facts, fact.IsShowable)
    (hidden : List String) :
    awardLines hidden facts = .ok (facts.filterMap (Fact.line? hidden)) := by
  induction facts with
  | nil => rfl
  | cons fact rest inductionHypothesis =>
    obtain ⟨here, further⟩ := List.forall_mem_cons.mp showable
    obtain ⟨⟨name, named⟩, ⟨amount, counted⟩, keyed⟩ := here
    have faultless : scopeFaults fact.scope = [] := by
      refine List.filterMap_eq_nil_iff.mpr fun key inside => ?_
      obtain ⟨text, rfl⟩ := keyed key inside
      rfl
    have line : awardLine fact = .ok ⟨name, amount, fact.scope⟩ := by
      simp [awardLine, named, counted, Conversion.text, Conversion.integer, faultless]
    rw [awardLines, isShown_eq named counted, inductionHypothesis further]
    by_cases shown : 0 < amount ∧ name ∉ hidden
    · simp [shown, line, Fact.line?, named, counted, Except.mapError, bind, Except.bind, pure,
        Except.pure]
    · simp [shown, Fact.line?, named, counted, Except.mapError, bind, Except.bind]

end Profile

/-- The default scope has one value, that of the subject. -/
theorem Context.boundValues_default {context : Context} {value : Value}
    (given : Entries.field? context.attributes subjectKey = some value) :
    (context.forScope defaultScope).boundValues = [(.text subjectKey, value)] := by
  simp [boundValues, forScope, defaultScope, given, Entries.ofPairs, Entries.merge, Entries.put]

namespace TellsAwards

variable {catalogue : Catalogue} {stores : Stores} {postings : List Posting}

/-- Every record of awards is of a rule in force and has the values of its scope, in some context
with definite attributes. -/
theorem ofRule (told : TellsAwards catalogue (stores, postings)) {fact : Fact}
    (member : fact ∈ stores.achievements) :
    ∃ rule ∈ catalogue.rules, ∃ context : Context, context.IsDefinite ∧
      (context.forScope rule.scope).Resolves ∧ fact.name = .text rule.name ∧
      fact.scope = (context.forScope rule.scope).boundValues := by
  obtain ⟨rule, inForce, context, definite, resolves, addressed⟩ :=
    Posting.mem_addresses told.regular (told.tells.address_mem member)
  simp only [Fact.address, Ledger.address, Value.pair.injEq, Value.mapping.injEq] at addressed
  exact ⟨rule, inForce, context, definite, resolves, addressed⟩

/-- A profile can show every record of the awards: its name is that of a rule, and its scope has the
keys of the scope of that rule. -/
theorem showable (told : TellsAwards catalogue (stores, postings)) :
    ∀ fact ∈ stores.achievements, fact.IsShowable := by
  intro fact member
  obtain ⟨rule, _, context, _, _, named, bound⟩ := told.ofRule member
  refine ⟨⟨_, named⟩, ⟨_, told.tells.amounts fact member⟩, fun key inside => ?_⟩
  rw [bound] at inside
  obtain ⟨entry, listed, rfl⟩ := List.mem_map.mp inside
  obtain ⟨name, _, _, _, rfl⟩ :=
    ((context.forScope rule.scope).boundValues_entries.2 entry).mp listed
  exact ⟨name, rfl⟩

/-- The lines of the records of a subject are those of its standing awards. -/
theorem lines_eq (told : TellsAwards catalogue (stores, postings)) (subject : Value)
    (hidden : List String) :
    (stores.achievements.find [(.text subjectKey, subject)]).filterMap (Fact.line? hidden) =
      (Posting.standing subject postings).filter fun line => decide (line.name ∉ hidden) := by
  rw [Ledger.find, Posting.standing, List.filterMap_filter, List.filter_filterMap]
  have alike : ∀ ⦃fact : Fact⦄ ⦃award : String × Entries⦄, fact.Records postings award →
      Option.Rel (· = ·)
        (if fact.isMatch [(.text subjectKey, subject)] then fact.line? hidden else none)
        ((Posting.standingLine subject postings award).filter
          fun line => decide (line.name ∉ hidden)) := by
    intro fact award records
    rw [records.line?_eq subject hidden]
    generalize (Posting.standingLine subject postings award).filter _ = line
    cases line with
    | none => exact .none
    | some line => exact .some rfl
  rw [← List.forall₂_eq_eq_eq]
  exact List.rel_filterMap alike told.records

/-- The profile of a subject lists the standing awards that are not left out. -/
theorem build_eq (told : TellsAwards catalogue (stores, postings)) {context : Context}
    {subject : String} (own : context.subject = .text subject) (given : Option Catalogue)
    (includeHidden : Bool) :
    Profile.build Stores.lookup context given includeHidden stores =
      (.answer (Profile.listing subject
        ((Posting.standing (.text subject) postings).filter fun line =>
          decide (line.name ∉ Profile.hiddenNames given includeHidden))
        (stores.experience.find [(.text subjectKey, .text subject)])), stores) := by
  have shown : ∀ fact ∈ stores.achievements.find [(.text subjectKey, .text subject)],
      fact.IsShowable := fun fact found => told.showable fact (List.mem_filter.mp found).1
  simp only [Profile.build, own, told.plain.lookup, Stores.ledger, Profile.ofFacts,
    Profile.awardLines_eq shown, told.lines_eq]
  rfl

section DefaultScope

variable {rule : Rule} {context : Context} {subject : String}
  (own : Entries.field? context.attributes subjectKey = some (.text subject))
include own

/-- In a context of a subject, a record matches the query for a rule of the default scope when it
has the name of the rule and belongs to the subject. -/
theorem isMatch_default (byDefault : rule.scope = defaultScope) (fact : Fact) :
    fact.isMatch (Ledger.queryOf (.text rule.name) (context.forScope rule.scope).boundValues) =
        true ↔
      fact.name = .text rule.name ∧ fact.belongsTo (.text subject) = true := by
  refine (fact.isMatch_iff (context.forScope rule.scope) rule.name).trans
    (and_congr_right fun _ => ?_)
  have different : subjectKey ≠ nameKey := by decide
  simp only [Fact.LiesIn, Context.forScope, byDefault, defaultScope, List.mem_singleton,
    forall_eq, different, ne_eq, not_false_eq_true, true_implies, own, Option.some.injEq,
    forall_eq', Fact.belongsTo, Fact.subject?, Option.any_eq_true]

/-- The record of a rule of the default scope that belongs to a subject is the only one. -/
theorem single_default (told : TellsAwards catalogue (stores, postings))
    (wellFormed : catalogue.IsWellFormed) (inForce : rule ∈ catalogue.rules)
    (byDefault : rule.scope = defaultScope) :
    (stores.achievements.find (Ledger.queryOf (.text rule.name)
      (context.forScope rule.scope).boundValues)).length ≤ 1 := by
  let place := Ledger.address (.text rule.name) [(.text subjectKey, .text subject)]
  refine Nat.le_trans ?_ (told.tells.single (Posting.areClean_of_regular told.regular) place)
  rw [Ledger.find, ← List.countP_eq_length_filter, ← List.countP_eq_length_filter]
  refine List.countP_mono_left fun fact member matching => ?_
  obtain ⟨named, belongs⟩ := (isMatch_default own byDefault fact).mp matching
  obtain ⟨other, otherToo, holder, _, resolves, called, bound⟩ := told.ofRule member
  have same : other.name = rule.name :=
    Scalar.text.inj (Value.scalar.inj (called.symm.trans named))
  obtain rfl := Catalogue.eq_of_name wellFormed.distinct otherToo inForce same
  rw [byDefault] at resolves bound
  obtain ⟨value, given⟩ := Option.isSome_iff_exists.mp (resolves subjectKey List.mem_cons_self)
  have alone : fact.scope = [(.text subjectKey, value)] :=
    bound.trans (Context.boundValues_default given)
  have held : value = .text subject := by
    simpa [Fact.belongsTo, Fact.subject?, alone, Entries.field?, Entries.find?,
      Value.equals_text_iff] using belongs
  have addressed : fact.address = place := by rw [Fact.address, named, alone, held]
  obtain ⟨proper, definite⟩ :=
    Posting.areClean_of_regular told.regular _ (told.tells.address_mem member)
  rw [← addressed]
  exact Value.equals_self proper definite

/-- The lines of a rule of the default scope are those of the records that its query matches. -/
theorem lines_default (told : TellsAwards catalogue (stores, postings))
    (byDefault : rule.scope = defaultScope) :
    ((Posting.standing (.text subject) postings).filter fun line =>
        decide (line.name = rule.name)) =
      (stores.achievements.find (Ledger.queryOf (.text rule.name)
        (context.forScope rule.scope).boundValues)).filterMap (Fact.line? []) := by
  have all : (stores.achievements.find [(.text subjectKey, .text subject)]).filterMap
      (Fact.line? []) = Posting.standing (.text subject) postings := by
    simpa using told.lines_eq (.text subject) []
  rw [← all, List.filter_filterMap, Ledger.find, Ledger.find, List.filterMap_filter,
    List.filterMap_filter]
  refine List.filterMap_congr fun fact member => ?_
  obtain ⟨⟨name, named⟩, ⟨amount, counted⟩, _⟩ := told.showable fact member
  have matching : fact.isMatch (Ledger.queryOf (.text rule.name)
      (context.forScope rule.scope).boundValues) =
      (decide (name = rule.name) && fact.belongsTo (.text subject)) := by
    refine Bool.eq_iff_iff.mpr ((isMatch_default own byDefault fact).trans ?_)
    simp [named]
  rw [matching, fact.isMatch_subject, Fact.line?, named, counted]
  by_cases belongs : fact.belongsTo (.text subject) = true
  · by_cases positive : 0 < amount
    · simp [belongs, positive, Option.filter]
    · simp [belongs, positive]
  · simp [belongs]

/-- What is awarded under a rule of the default scope is what its only line shows, if it has one. -/
theorem awardedAmount_default (told : TellsAwards catalogue (stores, postings))
    (wellFormed : catalogue.IsWellFormed) (inForce : rule ∈ catalogue.rules)
    (byDefault : rule.scope = defaultScope) :
    ∃ amount : Int,
      (awardedAmount Stores.lookup (context.forScope rule.scope) rule.name stores).1 =
        .answer (.integer amount) ∧
      ((Posting.standing (.text subject) postings).filter fun line =>
          decide (line.name = rule.name)).map (·.amount) =
        if 0 < amount then [amount] else [] := by
  have resolves : (context.forScope rule.scope).Resolves := by
    intro key inside
    rw [byDefault] at inside
    obtain rfl := List.mem_singleton.mp inside
    exact Option.isSome_of_eq_some own
  refine ⟨_, told.plain.awardedAmount_eq told.tells.counted resolves, ?_⟩
  rw [told.lines_default own byDefault, Ledger.awardedTo, Ledger.total_eq_foldr]
  have single := told.single_default own wellFormed inForce byDefault
  generalize foundEq : stores.achievements.find (Ledger.queryOf (.text rule.name)
    (context.forScope rule.scope).boundValues) = found at single ⊢
  match found, single with
  | [], _ => rfl
  | [fact], _ =>
    obtain ⟨⟨name, named⟩, ⟨amount, counted⟩, _⟩ := told.showable fact
      (List.mem_filter.mp (foundEq ▸ List.mem_singleton_self fact)).1
    by_cases positive : 0 < amount
    · simp [Fact.line?, named, counted, Fact.count, Value.whole?, positive]
    · simp [Fact.line?, named, counted, Fact.count, Value.whole?, positive]

end DefaultScope

end TellsAwards

/-- Whether the profiles of a subject show the awards that some postings leave standing, in the
order of the first awards: all of them, or those of rules that are not hidden, and the same
experience beside them. A line is that of a name and a scope awarded, with what is left of it, and
of every such name and scope of the subject there is one line. None is of what was retracted and not
awarded since; and for a rule of the default scope the amount is what the rules find awarded. -/
structure Profile.ShowsStanding (catalogue : Catalogue) (subject : String) (stores : Stores)
    (postings : List Posting) : Prop where
  shown : ∀ context given includeHidden, context.subject = .text subject →
    (given = none ∨ includeHidden = true) →
    build Stores.lookup context given includeHidden stores =
      (.answer (listing subject (Posting.standing (.text subject) postings)
        (stores.experience.find [(.text subjectKey, .text subject)])), stores)
  unhidden : ∀ context, context.subject = .text subject →
    build Stores.lookup context (some catalogue) false stores =
      (.answer (listing subject
        ((Posting.standing (.text subject) postings).filter fun line => !catalogue.hides line.name)
        (stores.experience.find [(.text subjectKey, .text subject)])), stores)
  listed : ∀ award ∈ postings.filterMap Posting.awarded?,
    (Fact.blank award).belongsTo (.text subject) = true → 0 < Posting.remaining postings award →
    ∃ line ∈ Posting.standing (.text subject) postings,
      (Ledger.place line.award).equals (Ledger.place award) = true ∧
      line.amount = Posting.remaining postings award
  nothingElse : ∀ line ∈ Posting.standing (.text subject) postings,
    line.award ∈ postings.filterMap Posting.awarded? ∧
      (Fact.blank line.award).belongsTo (.text subject) = true ∧
      line.amount = Posting.remaining postings line.award ∧ 0 < line.amount
  once : (Posting.standing (.text subject) postings).Pairwise fun earlier later =>
    (Ledger.place earlier.award).equals (Ledger.place later.award) = false
  retracted : ∀ before after holder name scope,
    postings = before ++ .retraction holder name scope :: after →
    (∀ award ∈ after.filterMap Posting.awarded?,
      (Ledger.place (name, Ledger.awardScope holder scope)).equals (Ledger.place award) = false) →
    ∀ line ∈ Posting.standing (.text subject) postings,
      (Ledger.place line.award).equals (Ledger.place (name, Ledger.awardScope holder scope)) = false
  byDefault : ∀ rule ∈ catalogue.rules, rule.scope = defaultScope → ∀ context : Context,
    Entries.field? context.attributes subjectKey = some (.text subject) →
    ∃ amount : Int,
      (awardedAmount Stores.lookup (context.forScope rule.scope) rule.name stores).1 =
        .answer (.integer amount) ∧
      ((Posting.standing (.text subject) postings).filter fun line =>
          decide (line.name = rule.name)).map (·.amount) =
        if 0 < amount then [amount] else []

/-- Stores that hold the awards that regular postings tell of give such profiles. -/
theorem TellsAwards.showsStanding {catalogue : Catalogue} {stores : Stores}
    {postings : List Posting} (told : TellsAwards catalogue (stores, postings))
    (wellFormed : catalogue.IsWellFormed) (subject : String) :
    Profile.ShowsStanding catalogue subject stores postings where
  shown context given includeHidden own all := by
    rw [told.build_eq own]
    have none : Profile.hiddenNames given includeHidden = [] := by
      rcases all with rfl | rfl
      · rfl
      · cases given <;> rfl
    simp [none]
  unhidden context own := by
    simp only [told.build_eq own, Catalogue.mem_hiddenNames, decide_not, Bool.decide_eq_true]
  listed award awarded := Posting.exists_standing told.regular awarded
  nothingElse line stands := Posting.mem_standing stands
  once := Posting.standing_apart _ _
  retracted before after holder name scope history since line :=
    Posting.standing_retracted told.regular history since
  byDefault rule inForce standard context own :=
    awardedAmount_default own told wellFormed inForce standard

namespace Visit

/-- Where the ledger of awards starts empty and nothing but cycles over one loaded catalogue writes
to it, profiles show the standing awards after any cycles, for whomever they were and whatever
experience and events they came upon, provided that every attribute equals itself. -/
theorem profiles_showStanding {strictness : Strictness} {document : Value} {loaded : Loaded}
    (loading : Catalogue.load strictness document = .ok loaded) {visits : List Visit}
    (within : ∀ visit ∈ visits, visit.IsOver loaded.catalogue) (runs : Bool) {stores : Stores}
    (plain : stores.IsPlain) (empty : stores.achievements = []) (subject : String) :
    let postings := (postedAfter runs visits stores).2
    (postedAfter runs visits stores).1 = storesAfter runs visits stores ∧
      (∀ posting ∈ postings, posting.IsRegular loaded.catalogue) ∧
      Profile.ShowsStanding loaded.catalogue subject (storesAfter runs visits stores) postings := by
  have wellFormed := Catalogue.load_isWellFormed loading
  have same := postedAfter_stores runs visits stores
  have told : TellsAwards loaded.catalogue (storesAfter runs visits stores,
      (postedAfter runs visits stores).2) := by
    rw [← same]
    exact postedAfter_tellsAwards wellFormed within plain empty
  exact ⟨same, told.regular, told.showsStanding wellFormed subject⟩

/-- A document with two rules for a subject alone, one of which replaces the other, and a hidden one
for each team. -/
def teamDocument : Value :=
  .mapping [(.text "achievements", .mapping [
    (.text "Beginner", .mapping [(.text "maxAwarded", .integer 2)]),
    (.text "Expert", .mapping [
      (.text "requirements", .list [.mapping [(.text "achievement", .text "Beginner")]]),
      (.text "replaces", .list [.text "Beginner"])]),
    (.text "Secret", .mapping [
      (.text "hidden", .boolean true),
      (.text "scope", .list [.text "user_id", .text "team"])])])]

/-- The catalogue of the three rules. -/
def teamCatalogue : Catalogue :=
  ⟨[⟨"Beginner", .allOf [], [], 2, ["user_id"], [], false⟩,
    ⟨"Expert", .allOf [.achievement "Beginner" (.atLeast 1)], ["Beginner"], 1, ["user_id"], [],
      false⟩,
    ⟨"Secret", .allOf [], [], 1, ["user_id", "team"], [], true⟩]⟩

/-- A cycle for a subject in a team. -/
def ofTeam (team : String) : Visit :=
  let context := Context.of (.text "ada") [(.text "team", .text team)] defaultScope
  ⟨⟨⟨teamCatalogue, 10, none, none⟩, context, teamCatalogue.rules⟩, [], []⟩

/-- The visit of a team runs the rules of the catalogue with definite attributes. -/
theorem ofTeam_isOver (team : String) : (ofTeam team).IsOver teamCatalogue where
  inForce := rfl
  known _ := id
  definite entry inside := by
    have attributes : (ofTeam team).request.context.attributes =
        [(.text "team", .text team), (.text subjectKey, .text "ada")] := rfl
    rw [attributes] at inside
    rcases List.mem_pair.mp inside with rfl | rfl
    · exact ⟨rfl, rfl⟩
    · exact ⟨rfl, rfl⟩

/-- After a cycle in each of two teams, the rule that is replaced has been awarded again, the hidden
one stands in both teams, and all stand in the order of their first awards. -/
theorem ofTeam_shown :
    Catalogue.load .strict teamDocument = .ok ⟨teamCatalogue, []⟩ ∧
      (∀ visit ∈ [ofTeam "red", ofTeam "blue"], visit.IsOver teamCatalogue) ∧
      (Stores.of [] [] []).IsPlain ∧ (Stores.of [] [] []).achievements = [] ∧
      Profile.ShowsStanding teamCatalogue "ada"
        (storesAfter false [ofTeam "red", ofTeam "blue"] (Stores.of [] [] []))
        (postedAfter false [ofTeam "red", ofTeam "blue"] (Stores.of [] [] [])).2 ∧
      (Posting.standing (.text "ada")
        (postedAfter false [ofTeam "red", ofTeam "blue"] (Stores.of [] [] [])).2).map
        (fun line => (line.name, line.amount)) =
        [("Beginner", 2), ("Secret", 1), ("Expert", 1), ("Secret", 1)] ∧
      teamCatalogue.hides "Secret" = true := by
  have loading : Catalogue.load .strict teamDocument = .ok ⟨teamCatalogue, []⟩ := rfl
  have within : ∀ visit ∈ [ofTeam "red", ofTeam "blue"], visit.IsOver teamCatalogue := by
    simp [ofTeam_isOver]
  have plain : (Stores.of [] [] []).IsPlain := ⟨rfl, rfl⟩
  exact ⟨loading, within, plain, rfl,
    (profiles_showStanding loading within false plain rfl "ada").2.2, by decide +kernel, by decide⟩

end Visit

end Accolade
