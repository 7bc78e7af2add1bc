import Mathlib.Data.List.Nodup
import Accolade.Proofs.Cycle.Balance
import Accolade.Proofs.Cycle.Passes
import Accolade.Proofs.Likeness

/-!
# How often a rule is awarded

Where no rule replaces another and no requirement asks for achievements, an award changes nothing
that a requirement sees. What held at the start then holds in every pass, and each pass awards a
fulfilled rule once until its cap is reached. So the number of awards of a rule is its room below
the cap, or the pass limit if that is less; and one pass more is made than the largest room of any
rule, unless the limit comes first.

All this takes that evaluation does not have to write an integer that is too long for it. Where it
does, it does so in the first pass, and the cycle awards nothing.
-/

namespace Accolade

namespace Rule

/-- Whether the scope of a rule resolves and its requirement holds. -/
def IsOpen (context : Context) (stores : Stores) (rule : Rule) : Prop :=
  (context.forScope rule.scope).Resolves ∧
    (rule.isFulfilled Stores.lookup context stores).1 = .answer true

/-- How often a rule may be awarded until its cap is reached: never if its requirement does not
hold, or the amount awarded cannot be told. -/
def room (context : Context) (stores : Stores) (rule : Rule) : Nat :=
  match (rule.isFulfilled Stores.lookup context stores).1,
      (awardedAmount Stores.lookup (context.forScope rule.scope) rule.name stores).1 with
  | .answer true, .answer (.integer amount) => (rule.maxAwarded - amount).toNat
  | _, _ => 0

/-- The largest room of some rules. -/
def mostRoom (context : Context) (stores : Stores) (rules : List Rule) : Nat :=
  (rules.map (room context stores)).foldr max 0

/-- A number is below the largest room exactly if it is below the room of some rule. -/
theorem lt_mostRoom_iff {context : Context} {stores : Stores} {rules : List Rule} {count : Nat} :
    count < mostRoom context stores rules ↔ ∃ rule ∈ rules, count < rule.room context stores := by
  unfold mostRoom
  induction rules with
  | nil => simp
  | cons rule rest inductionHypothesis =>
    simp only [List.map_cons, List.foldr_cons, List.mem_cons, exists_eq_or_imp,
      ← inductionHypothesis]
    omega

/-- Whether awards leave what the rule asks for as it is: the rule replaces none, and its
requirement has no leaf about achievements. -/
def IsApart (rule : Rule) : Prop :=
  rule.replaces = [] ∧ rule.requirement.leafNames .achievement = []

instance (rule : Rule) : Decidable rule.IsApart :=
  inferInstanceAs (Decidable (_ ∧ _))

variable {context : Context} {stores : Stores} {rule : Rule}

/-- A rule that is not open has no room, as its total has reached the cap or is unknown. -/
theorem room_of_not_isOpen (closed : ¬ rule.IsOpen context stores) :
    rule.room context stores = 0 := by
  unfold room
  split
  · rename_i amount fulfilled told
    exact absurd ⟨resolves_of_awardedAmount told, fulfilled⟩ closed
  · rfl

/-- Over calm stores the room of an open rule is what its cap leaves. -/
theorem room_of_isOpen (calm : stores.IsCalm) (opened : rule.IsOpen context stores) :
    (awardedAmount Stores.lookup (context.forScope rule.scope) rule.name stores).1 =
        .answer (.integer (stores.achievements.awardedTo rule context)) ∧
      rule.room context stores =
        (rule.maxAwarded - stores.achievements.awardedTo rule context).toNat := by
  obtain ⟨resolves, fulfilled⟩ := opened
  have told := calm.toIsPlain.awardedAmount_eq calm.achievements resolves
  refine ⟨told, ?_⟩
  simp only [room, fulfilled, told]

/-- Whether the requirement of a rule holds is told by experience and events alone, if it has no
leaves about achievements and no faults are planned. -/
theorem IsApart.isFulfilled (apart : rule.IsApart) {later : Stores} (faultless : stores.faults = [])
    (faultlessToo : later.faults = []) (experience : later.experience = stores.experience)
    (events : later.events = stores.events) :
    (rule.isFulfilled Stores.lookup context later).1 =
      (rule.isFulfilled Stores.lookup context stores).1 := by
  have alike : rule.requirement.RepliesAlike Stores.lookup Stores.lookup
      (context.forScope rule.scope) (context.forScope rule.scope)
      fun first second => first = later ∧ second = stores := by
    refine Requirement.repliesAlike_of_names (fun _ => rfl) ?_
    rintro kind name reads query _ first second ⟨rfl, rfl⟩
    have same : first.ledger kind = second.ledger kind := by
      cases kind with
      | achievement => simp [apart.2] at reads
      | experience => exact experience
      | event => exact events
    rw [Stores.lookup_of_faultless faultless, Stores.lookup_of_faultless faultlessToo, same]
    exact ⟨rfl, rfl, rfl⟩
  exact (alike later stores ⟨rfl, rfl⟩).1

end Rule

namespace Engine

variable {engine : Engine} {context : Context} {candidates : List Rule} {stores : Stores}

/-- What a cycle over calm stores has come to after so many passes, if awards leave what its
candidates ask for as it is: each has been awarded once in every pass, up to its room. -/
structure Repeats (engine : Engine) (context : Context) (candidates : List Rule) (stores : Stores)
    (count : Nat) (progress : Progress Stores) (earlier : List Rule) : Prop where
  standing : Standing engine context progress earlier
  accounts : Accounts engine context stores progress
  among : ∀ rule ∈ earlier, rule ∈ candidates
  counted : ∀ rule ∈ candidates,
    progress.awarded.count rule.name = min count (rule.room context stores)

namespace Repeats

variable {count : Nat} {progress : Progress Stores} {earlier : List Rule}
  (repeated : Repeats engine context candidates stores count progress earlier)
  (apart : ∀ rule ∈ candidates, rule.IsApart)
include repeated apart

/-- Nothing has been retracted so far, since rules that stand apart replace nothing. -/
theorem retracted_eq_nil : progress.retracted = [] := by
  rw [repeated.standing.retracted]
  refine List.flatMap_eq_nil_iff.mpr fun rule made => ?_
  exact (apart rule (repeated.among rule made)).1

/-- Whether the requirement of a candidate holds is what it was at first. -/
theorem isFulfilled_eq (calm : stores.IsCalm) {rule : Rule} (member : rule ∈ candidates) :
    (rule.isFulfilled Stores.lookup context progress.state).1 =
      (rule.isFulfilled Stores.lookup context stores).1 :=
  (apart rule member).isFulfilled calm.faultless repeated.accounts.calm.faultless
    repeated.accounts.experience repeated.accounts.events

/-- A candidate is due exactly while it was awarded less often than it has room for. -/
theorem isDue_iff (calm : stores.IsCalm)
    (known : ∀ rule ∈ candidates, rule ∈ engine.catalogue.rules) {rule : Rule}
    (member : rule ∈ candidates) :
    rule.IsDue Stores.lookup context progress.state ↔ count < rule.room context stores := by
  have later := repeated.accounts.calm
  have fulfilled := repeated.isFulfilled_eq apart calm member
  by_cases opened : rule.IsOpen context stores
  · obtain ⟨_, room⟩ := Rule.room_of_isOpen calm opened
    have told := later.toIsPlain.awardedAmount_eq later.achievements opened.1
    have kept := repeated.accounts.kept rule (known rule member) opened.1
      (by simp [repeated.retracted_eq_nil apart])
    have below : progress.state.achievements.awardedTo rule context < rule.maxAwarded ↔
        count < rule.room context stores := by
      rw [kept, repeated.counted rule member, room]
      omega
    rw [← below]
    constructor
    · rintro ⟨_, total, amount, less⟩
      cases told.symm.trans amount
      exact less
    · exact fun less => ⟨fulfilled.trans opened.2, _, told, less⟩
  · rw [Rule.room_of_not_isOpen opened]
    refine ⟨fun ⟨holds, total, told, _⟩ => absurd ?_ opened, fun impossible => by omega⟩
    exact ⟨resolves_of_awardedAmount told, fulfilled.symm.trans holds⟩

end Repeats

section Names

variable {catalogue : Catalogue} (distinct : catalogue.names.Nodup) {rules : List Rule}
  (known : ∀ rule ∈ rules, rule ∈ catalogue.rules) {rule : Rule}
include distinct known

/-- Of rules in force that are listed once, the name is listed once. -/
theorem count_name_of_mem (once : rules.Nodup) (member : rule ∈ rules) :
    (rules.map (·.name)).count rule.name = 1 := by
  have names : (rules.map (·.name)).Nodup := once.map_on fun one made other madeToo =>
    Catalogue.eq_of_name distinct (known one made) (known other madeToo)
  exact List.count_eq_one_of_mem names (List.mem_map_of_mem member)

/-- The name of a rule in force that is not among some is not among their names. -/
theorem count_name_of_not_mem (inForce : rule ∈ catalogue.rules) (absent : rule ∉ rules) :
    (rules.map (·.name)).count rule.name = 0 := by
  refine List.count_eq_zero.mpr fun inside => ?_
  obtain ⟨other, made, same⟩ := List.mem_map.mp inside
  exact absent (Catalogue.eq_of_name distinct (known other made) inForce same ▸ made)

end Names

section Passes

variable (runs : Bool) (distinct : engine.catalogue.names.Nodup)
  (keyed : ∀ rule ∈ engine.catalogue.rules, rule.scope ≠ []) (once : candidates.Nodup)
  (known : ∀ rule ∈ candidates, rule ∈ engine.catalogue.rules)
  (apart : ∀ rule ∈ candidates, rule.IsApart)
  (texts : AreTexts (Entries.keys context.attributes))
  (reflexive : ∀ key value, Entries.field? context.attributes key = some value →
    value.equals value = true)
  (calm : stores.IsCalm)
  (sound : ∀ rule ∈ candidates, ¬ rule.Overruns Stores.lookup context stores)
include distinct once known apart texts calm sound

/-- The awards of a pass are those of the candidates that have been awarded less often than they
have room for. -/
theorem Repeats.awards {count : Nat} {progress : Progress Stores} {earlier : List Rule}
    (repeated : Repeats engine context candidates stores count progress earlier) :
    ∃ awards later,
      engine.pass (Stores.collaborators runs) context candidates progress =
        (.ok awards.length, later) ∧
      Standing engine context later (earlier ++ awards) ∧ awards.Sublist candidates ∧
      ∀ rule ∈ candidates, rule ∈ awards ↔ count < rule.room context stores := by
  obtain ⟨awards, later, passed, selected, standing, _⟩ :=
    (pass_calm runs distinct once known texts repeated.standing).resolve_right
      fun ⟨_, _, ⟨rule, member, overruns⟩, _⟩ =>
        sound rule member ((repeated.isFulfilled_eq apart calm member).symm.trans overruns)
  refine ⟨awards, later, passed, standing, selected.ordered, fun rule member => ?_⟩
  rw [selected.exactly rule member, repeated.isDue_iff apart calm known member]
  refine ⟨fun wanted => wanted.1.1, fun room => ⟨⟨room, ?_⟩, ?_⟩⟩
  · intro other _ replaced
    simp [(apart rule member).1] at replaced
  · intro other made replaced
    have candidate : other ∈ candidates :=
      made.elim (repeated.among other) fun now => selected.ordered.subset now.1
    simp [(apart other candidate).1] at replaced

include keyed reflexive

/-- A further pass awards once each candidate that still has room. -/
theorem Repeats.pass {count : Nat} {progress : Progress Stores} {earlier : List Rule}
    (repeated : Repeats engine context candidates stores count progress earlier) :
    ∃ awards later,
      engine.pass (Stores.collaborators runs) context candidates progress =
        (.ok awards.length, later) ∧
      (awards = [] ↔ Rule.mostRoom context stores candidates ≤ count) ∧
      Repeats engine context candidates stores (count + 1) later (earlier ++ awards) := by
  obtain ⟨awards, later, passed, standing, ordered, chosen⟩ :=
    repeated.awards runs distinct once known apart texts calm sound
  have accounts := repeated.accounts.pass distinct keyed known texts runs reflexive
  rw [passed] at accounts
  refine ⟨awards, later, passed, ?_, standing, accounts, ?_, ?_⟩
  · rw [← Nat.not_lt, Rule.lt_mostRoom_iff, List.eq_nil_iff_forall_not_mem]
    constructor
    · rintro none ⟨rule, member, room⟩
      exact none rule ((chosen rule member).mpr room)
    · intro full rule made
      have member := ordered.subset made
      exact full ⟨rule, member, (chosen rule member).mp made⟩
  · exact List.forall_mem_append.mpr ⟨repeated.among, fun rule made => ordered.subset made⟩
  · intro rule member
    have awarded : ∀ other ∈ awards, other ∈ engine.catalogue.rules :=
      fun other made => known other (ordered.subset made)
    rw [standing.awarded, List.map_append, List.count_append, ← repeated.standing.awarded,
      repeated.counted rule member]
    by_cases room : count < rule.room context stores
    · rw [count_name_of_mem distinct awarded (ordered.nodup once) ((chosen rule member).mpr room)]
      omega
    · rw [count_name_of_not_mem distinct awarded (known rule member)
        fun made => room ((chosen rule member).mp made)]
      omega

/-- After any number of passes each candidate has been awarded once in every pass, up to its room.
-/
theorem after_repeats (inTime : engine.startsExpired = false) (count : Nat) :
    ∃ earlier, Repeats engine context candidates stores count
      (engine.after (Stores.collaborators runs) context candidates stores count) earlier := by
  induction count with
  | zero =>
    refine ⟨[], ⟨calm, inTime, rfl, rfl, by simp, by simp [after, Progress.start]⟩,
      Accounts.start calm engine.startsExpired, by simp, ?_⟩
    simp [after, Progress.start]
  | succ count inductionHypothesis =>
    obtain ⟨earlier, repeated⟩ := inductionHypothesis
    obtain ⟨awards, later, passed, _, further⟩ :=
      repeated.pass runs distinct keyed once known apart texts reflexive calm sound
    refine ⟨earlier ++ awards, ?_⟩
    rw [after, passed]
    exact further

/-- A cycle ends after one pass more than the largest room of a candidate, or at the pass limit.

Proof: each pass awards the candidates that still have room once, so it awards something as long as
fewer passes were made than the largest room. No failure leaves a pass, and so this count alone
decides where the cycle ends. -/
theorem process_repeats (inTime : engine.startsExpired = false) :
    ∃ earlier happenings,
      let ended := min engine.maxPasses (1 + Rule.mostRoom context stores candidates)
      engine.process (Stores.collaborators runs) context candidates stores =
        (none, { engine.after (Stores.collaborators runs) context candidates stores ended with
          happenings := happenings }) ∧
      Repeats engine context candidates stores ended
        (engine.after (Stores.collaborators runs) context candidates stores ended) earlier := by
  have repeated :=
    after_repeats runs distinct keyed once known apart texts reflexive calm sound inTime
  have passed : ∀ count, ∃ number, (engine.pass (Stores.collaborators runs) context candidates
      (engine.after (Stores.collaborators runs) context candidates stores count)).1 = .ok number ∧
      (number = 0 ↔ Rule.mostRoom context stores candidates ≤ count) := by
    intro count
    obtain ⟨earlier, so⟩ := repeated count
    obtain ⟨awards, later, made, idle, _⟩ :=
      so.pass runs distinct keyed once known apart texts reflexive calm sound
    exact ⟨awards.length, congrArg Prod.fst made, List.length_eq_zero_iff.trans idle⟩
  obtain ⟨ended, ends, happenings, processed⟩ :=
    process_after engine (Stores.collaborators runs) context candidates stores fun count => by
      obtain ⟨_, so⟩ := repeated count
      exact so.standing.expired
  have goesOn : ∀ count, count < Rule.mostRoom context stores candidates ↔
      engine.Proceeds (Stores.collaborators runs) context candidates stores count := by
    intro count
    obtain ⟨number, made, idle⟩ := passed count
    rw [← Nat.not_le, ← idle, Proceeds, made]
    cases number <;> simp
  have whole : ∀ count,
      engine.brokenBy (Stores.collaborators runs) context candidates stores count = none := by
    intro count
    cases count with
    | zero => rfl
    | succ count =>
      obtain ⟨number, made, _⟩ := passed count
      simp only [brokenBy, made]
  have expected : EndsAt (· < Rule.mostRoom context stores candidates) 0 engine.maxPasses
      (min engine.maxPasses (1 + Rule.mostRoom context stores candidates)) :=
    ⟨by omega, by omega, by omega, fun count _ below => by omega⟩
  obtain rfl := (ends.congr goesOn).unique expected
  obtain ⟨earlier, so⟩ := repeated _
  exact ⟨earlier, happenings, whole _ ▸ processed, so⟩

end Passes

/-- Whether a cycle has awarded each of its candidates as often as its cap leaves room for, or as
often as there may be passes, if that is less, and made one pass more than the largest room of any
of them, or as many as there may be. Only open candidates have room. -/
structure AwardsByRoom (maxPasses : Int) (context : Context) (candidates : List Rule)
    (before : Stores) (ended : Progress Stores) : Prop where
  opened : ∀ rule ∈ candidates, rule.IsOpen context before → ∃ amount : Int,
    (awardedAmount Stores.lookup (context.forScope rule.scope) rule.name before).1 =
        .answer (.integer amount) ∧
      (rule.room context before : Int) = max 0 (rule.maxAwarded - amount) ∧
      (ended.awarded.count rule.name : Int) = min maxPasses (max 0 (rule.maxAwarded - amount))
  closed : ∀ rule ∈ candidates, ¬ rule.IsOpen context before →
    rule.room context before = 0 ∧ ended.awarded.count rule.name = 0
  passes : (ended.passes : Int) = min maxPasses (1 + Rule.mostRoom context before candidates)

/-- A document with a rule for visits, one for purchases, and one for nothing in particular. -/
def customerDocument : Value :=
  .mapping [(.text "achievements", .mapping [
    (.text "Visitor", .mapping [(.text "maxAwarded", .integer 3),
      (.text "requirements", .list [.mapping [(.text "event", .text "visit")]])]),
    (.text "Buyer", .mapping [(.text "maxAwarded", .integer 5),
      (.text "requirements", .list [.mapping [(.text "event", .text "purchase")]])]),
    (.text "Welcome", .mapping [])])]

/-- The catalogue of the three rules. -/
def customerCatalogue : Catalogue :=
  ⟨[⟨"Visitor", .allOf [.event "visit" (.atLeast 1) none], [], 3, ["user_id"], [], false⟩,
    ⟨"Buyer", .allOf [.event "purchase" (.atLeast 1) none], [], 5, ["user_id"], [], false⟩,
    ⟨"Welcome", .allOf [], [], 1, ["user_id"], [], false⟩]⟩

/-- Stores with a visit of the second subject, who has been awarded for one before. -/
def customerStores : Stores :=
  .of [⟨.text "Visitor", .integer 1, [(.text subjectKey, .integer 2)], [], none⟩] []
    [⟨.text "visit", .integer 1, [(.text subjectKey, .integer 2)], [], none⟩]

end Engine

end Accolade
