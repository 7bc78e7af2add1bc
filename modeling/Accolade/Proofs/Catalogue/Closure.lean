import Mathlib.Order.Bounds.Basic
import Accolade.Proofs.Catalogue.Definitions
import Accolade.Proofs.Document.Sameness

/-!
# The rules that stay in force

Lenient loading keeps the greatest set of names that is closed: each name has a definition
that can be read, and every rule that it replaces is in the set again. Rules that replace each
other stay together, and a rejection takes with it whatever replaces the rejected rule,
through any chain.

The rounds of dropping end, although nothing bounds their number beforehand: every round but
the last drops a rule. A round drops no rule of a closed set, since all targets of such a rule
are still there when it is looked at; and what the last round leaves is closed, since it looked
at every rule and dropped none. So it does not matter in which order the rules are looked at.
-/

namespace Accolade

namespace Catalogue

/-- Rounds of dropping until one drops nothing, however many it takes. -/
inductive Rounds : List Rule → List Rule → List (Rule × List String) → Prop
  | stop {rules kept : List Rule} (round : sweep rules rules = (kept, [])) : Rounds rules kept []
  | again {rules kept final : List Rule} {first : Rule × List String}
      {dropped later : List (Rule × List String)}
      (round : sweep rules rules = (kept, first :: dropped)) (rest : Rounds kept final later) :
      Rounds rules final (first :: dropped ++ later)

/-- Rules of distinct names are the one rule of a name and those of other names. -/
theorem perm_cons_others {rules : List Rule} (distinct : (rules.map (·.name)).Nodup) {rule : Rule}
    (member : rule ∈ rules) :
    rules.Perm (rule :: rules.filter fun other => other.name != rule.name) := by
  have once : rules.Nodup := distinct.of_map
  have fresh : (rule :: rules.filter fun other => other.name != rule.name).Nodup :=
    List.nodup_cons.mpr ⟨by simp, once.filter _⟩
  refine (List.perm_ext_iff_of_nodup once fresh).mpr fun other => ?_
  simp only [List.mem_cons, List.mem_filter, bne_iff_ne, ne_eq]
  constructor
  · intro inside
    by_cases same : other.name = rule.name
    · exact .inl (List.inj_on_of_nodup_map distinct inside member same)
    · exact .inr ⟨inside, same⟩
  · rintro (rfl | ⟨inside, _⟩)
    · exact member
    · exact inside

/-- No target of a rule is unknown exactly when rules of all their names are there. -/
theorem unknownTargets_eq_nil_iff (rules : List Rule) (rule : Rule) :
    unknownTargets rules rule = [] ↔ ∀ target ∈ rule.replaces, target ∈ rules.map (·.name) := by
  simp [unknownTargets, List.filter_eq_nil_iff]

/-- A round parts the rules into those it keeps and those it drops. -/
theorem sweep_perm {rules visited : List Rule} (distinct : (rules.map (·.name)).Nodup)
    (visitedDistinct : (visited.map (·.name)).Nodup) (there : visited ⊆ rules) :
    ((sweep rules visited).1 ++ (sweep rules visited).2.map Prod.fst).Perm rules := by
  fun_induction sweep rules visited with
  | case1 rules => simp
  | case2 rules rule rest _ inductionHypothesis =>
    exact inductionHypothesis distinct (List.nodup_cons.mp visitedDistinct).2
      fun other member => there (List.mem_cons_of_mem rule member)
  | case3 rules rule rest kept dropped swept _ inductionHypothesis =>
    obtain ⟨absent, restDistinct⟩ := List.nodup_cons.mp visitedDistinct
    have member : rule ∈ rules := there List.mem_cons_self
    have fewer : ((rules.filter fun other => other.name != rule.name).map (·.name)).Nodup :=
      (List.filter_sublist.map Rule.name).nodup distinct
    have remaining : rest ⊆ rules.filter fun other => other.name != rule.name := by
      intro other behind
      have different : other.name ≠ rule.name :=
        fun same => absent (List.mem_map.mpr ⟨other, behind, same⟩)
      exact List.mem_filter.mpr ⟨there (List.mem_cons_of_mem rule behind), by simpa using different⟩
    have parted := inductionHypothesis fewer restDistinct remaining
    rw [swept] at parted
    calc (kept ++ rule :: dropped.map Prod.fst).Perm (rule :: (kept ++ dropped.map Prod.fst)) :=
          List.perm_middle
      List.Perm _ (rule :: rules.filter fun other => other.name != rule.name) := parted.cons rule
      List.Perm _ rules := (perm_cons_others distinct member).symm

/-- A round that drops nothing leaves all rules, and has found every target of those visited. -/
theorem sweep_of_none {rules visited : List Rule} (none : (sweep rules visited).2 = []) :
    (sweep rules visited).1 = rules ∧
      ∀ rule ∈ visited, ∀ target ∈ rule.replaces, target ∈ rules.map (·.name) := by
  fun_induction sweep rules visited with
  | case1 rules => exact ⟨rfl, by simp⟩
  | case2 rules rule rest known inductionHypothesis =>
    obtain ⟨same, found⟩ := inductionHypothesis none
    exact ⟨same, List.forall_mem_cons.mpr ⟨(unknownTargets_eq_nil_iff rules rule).mp known, found⟩⟩
  | case3 => contradiction

/-- A round keeps every name of a closed set, since no target of such a rule can be missing. -/
theorem sweep_keeps {rules visited : List Rule} {names : Set String}
    (closed : ∀ rule ∈ visited, rule.name ∈ names → ∀ target ∈ rule.replaces, target ∈ names)
    (there : ∀ name ∈ names, name ∈ rules.map (·.name)) :
    ∀ name ∈ names, name ∈ (sweep rules visited).1.map (·.name) := by
  fun_induction sweep rules visited with
  | case1 rules => exact there
  | case2 rules rule rest _ inductionHypothesis =>
    exact inductionHypothesis (List.forall_mem_cons.mp closed).2 there
  | case3 rules rule rest kept dropped swept unknown inductionHypothesis =>
    obtain ⟨own, restClosed⟩ := List.forall_mem_cons.mp closed
    have outside : rule.name ∉ names := fun inside =>
      unknown ((unknownTargets_eq_nil_iff rules rule).mpr fun target member =>
        there target (own inside target member))
    rw [swept] at inductionHypothesis
    refine inductionHypothesis restClosed fun name inside => ?_
    obtain ⟨other, member, rfl⟩ := List.mem_map.mp (there name inside)
    have different : other.name ≠ rule.name := fun same => outside (same ▸ inside)
    exact List.mem_map.mpr ⟨other, List.mem_filter.mpr ⟨member, by simpa using different⟩, rfl⟩

/-- The rounds come to their end: as many of them as there are rules suffice, since each that goes
on drops one. -/
theorem settle_rounds {rules : List Rule} (distinct : (rules.map (·.name)).Nodup) :
    Rounds rules (settle rules).1 (settle rules).2 := by
  have ended : ∀ (rounds : Nat) (rules : List Rule), (rules.map (·.name)).Nodup →
      rules.length < rounds →
      Rounds rules (settleWithin rounds rules).1 (settleWithin rounds rules).2 := by
    intro rounds
    induction rounds with
    | zero =>
      intro rules _ enough
      contradiction
    | succ rounds inductionHypothesis =>
      intro rules distinct enough
      have parted := sweep_perm distinct distinct (List.Subset.refl rules)
      have ordered := sweep_sublist rules rules
      unfold settleWithin
      split
      · rename_i kept round
        exact .stop round
      · rename_i kept dropped some round
        obtain ⟨first, others, rfl⟩ := List.exists_cons_of_ne_nil some
        rw [round] at parted ordered
        have fewer : kept.length < rules.length := by
          rw [← parted.length_eq]
          simp
        exact .again round
          (inductionHypothesis kept ((ordered.map Rule.name).nodup distinct) (by omega))
  exact ended (rules.length + 1) rules distinct (Nat.lt_succ_self _)

namespace Rounds

variable {rules final : List Rule} {dropped : List (Rule × List String)}

/-- All rounds together part the rules into those left and those dropped. -/
theorem perm (rounds : Rounds rules final dropped) (distinct : (rules.map (·.name)).Nodup) :
    (final ++ dropped.map Prod.fst).Perm rules := by
  induction rounds with
  | stop round =>
    have parted := sweep_perm distinct distinct (List.Subset.refl _)
    rw [round] at parted
    exact parted
  | @again rules kept final first dropped later round _ inductionHypothesis =>
    have parted := sweep_perm distinct distinct (List.Subset.refl rules)
    have ordered := sweep_sublist rules rules
    rw [round] at parted ordered
    have deeper := inductionHypothesis ((ordered.map Rule.name).nodup distinct)
    rw [List.map_append]
    calc (final ++ ((first :: dropped).map Prod.fst ++ later.map Prod.fst)).Perm
          (final ++ (later.map Prod.fst ++ (first :: dropped).map Prod.fst)) :=
          List.perm_append_comm.append_left final
      List.Perm _ (final ++ later.map Prod.fst ++ (first :: dropped).map Prod.fst) := by
          rw [List.append_assoc]
      List.Perm _ (kept ++ (first :: dropped).map Prod.fst) := deeper.append_right _
      List.Perm _ rules := parted

/-- What is left at the end of the rounds is closed: every rule in it replaces only rules in it. -/
theorem closed (rounds : Rounds rules final dropped) :
    ∀ rule ∈ final, ∀ target ∈ rule.replaces, target ∈ final.map (·.name) := by
  induction rounds with
  | @stop rules kept round =>
    obtain ⟨same, found⟩ := sweep_of_none (congrArg Prod.snd round)
    obtain rfl : kept = rules := (congrArg Prod.fst round).symm.trans same
    exact found
  | again _ _ inductionHypothesis => exact inductionHypothesis

/-- Every name of a closed set is left at the end, as no round drops it. -/
theorem keeps (rounds : Rounds rules final dropped) {names : Set String}
    (closed : ∀ rule ∈ rules, rule.name ∈ names → ∀ target ∈ rule.replaces, target ∈ names)
    (there : ∀ name ∈ names, name ∈ rules.map (·.name)) :
    ∀ name ∈ names, name ∈ final.map (·.name) := by
  induction rounds with
  | stop round =>
    have kept := sweep_keeps closed there
    rw [round] at kept
    exact kept
  | @again rules kept final first dropped later round _ inductionHypothesis =>
    have remaining := sweep_keeps closed there
    have ordered := sweep_sublist rules rules
    rw [round] at remaining ordered
    exact inductionHypothesis (fun rule member => closed rule (ordered.subset member)) remaining

end Rounds

/-- Whether a name has a definition that is read as a rule. -/
def Defines (entries : Entries) (name : String) (rule : Rule) : Prop :=
  ∃ definition, lastDefinition? entries name = some definition ∧
    Rule.read name definition = .ok rule

/-- Whether all names of a set have rules, and the set holds whatever these replace. -/
def IsClosed (entries : Entries) (names : Set String) : Prop :=
  ∀ name ∈ names, ∃ rule, Defines entries name rule ∧ ∀ target ∈ rule.replaces, target ∈ names

/-- What a catalogue and its rejections have to be for the entries of a document: the rules of
the greatest closed set in document order, and one rejection with its own definition for every
other name. -/
structure IsSettled (entries : Entries) (loaded : Loaded) : Prop where
  greatest : IsGreatest {names | IsClosed entries names} {name | name ∈ loaded.catalogue.names}
  ordered : loaded.catalogue.names.Sublist (entries.map fun entry => entry.1.plain).eraseDups
  defined : ∀ rule ∈ loaded.catalogue.rules, Defines entries rule.name rule
  once : (loaded.rejections.map (·.rule)).Nodup
  rejected : ∀ name, name ∈ loaded.rejections.map (·.rule) ↔
    name ∈ (entries.map fun entry => entry.1.plain) ∧ name ∉ loaded.catalogue.names
  own : ∀ rejection ∈ loaded.rejections,
    lastDefinition? entries rejection.rule = some rejection.definition

variable {entries : Entries}

/-- A name defines at most one rule, the one that its last definition is read as. -/
theorem Defines.unique {name : String} {first second : Rule} (one : Defines entries name first)
    (other : Defines entries name second) : first = second := by
  obtain ⟨definition, last, reading⟩ := one
  obtain ⟨_, also, again⟩ := other
  obtain rfl := Option.some.inj (last.symm.trans also)
  exact Except.ok.inj (reading.symm.trans again)

/-- A rule is readable exactly when its name defines it. -/
theorem mem_readable (rule : Rule) : rule ∈ readable entries ↔ Defines entries rule.name rule := by
  have reads : ∀ entry : String × Value,
      ruleOf? entry = some rule ↔ Rule.read entry.1 entry.2 = .ok rule := by
    intro entry
    unfold ruleOf?
    cases Rule.read entry.1 entry.2 <;> simp [Except.toOption]
  simp only [readable, List.mem_filterMap, reads]
  constructor
  · rintro ⟨⟨name, definition⟩, member, reading⟩
    have named : rule.name = name := (Rule.read_spec reading).1
    subst named
    exact ⟨definition, (mem_namedDefinitions entries _ definition).mp member, reading⟩
  · rintro ⟨definition, last, reading⟩
    exact ⟨(rule.name, definition), (mem_namedDefinitions entries _ definition).mpr last, reading⟩

/-- The rejection of a dangling rule carries the definition of the rule. -/
theorem danglingRejection_own {rule : Rule} (defined : Defines entries rule.name rule)
    (unknown : List String) :
    lastDefinition? entries rule.name =
      some (danglingRejection (namedDefinitions entries) rule unknown).definition := by
  obtain ⟨definition, last, _⟩ := defined
  have member := (mem_namedDefinitions entries rule.name definition).mpr last
  have present : ((namedDefinitions entries).find? fun entry => entry.1 == rule.name).isSome =
      true := List.find?_isSome.mpr ⟨_, member, by simp⟩
  obtain ⟨⟨name, found⟩, here⟩ := Option.isSome_iff_exists.mp present
  have named : name = rule.name := by simpa using List.find?_some here
  subst named
  have stored := (mem_namedDefinitions entries rule.name found).mp (List.mem_of_find?_eq_some here)
  simp only [danglingRejection, here, Option.map_some, Option.getD_some]
  exact stored

/-- Every rule in force is defined by its name, since dropping rules changes none of those left. -/
theorem defines_of_mem_loadedFrom :
    ∀ rule ∈ (loadedFrom entries).catalogue.rules, Defines entries rule.name rule := by
  have kept : (settle (readable entries)).1.Sublist (readable entries) :=
    settleWithin_sublist _ (readable entries)
  exact fun rule member => (mem_readable rule).mp (kept.subset member)

section Reported

variable (reported : ∀ entry ∈ namedDefinitions entries, IsReported entry)
include reported

/-- The names of the rules that can be read stand in document order. -/
theorem readable_names :
    ((readable entries).map (·.name)).Sublist ((namedDefinitions entries).map Prod.fst) :=
  (readRules_spec ((readRules_lenient_iff _ _).mpr ⟨reported, rfl⟩)).1

/-- The rules that can be read have distinct names. -/
theorem readable_nodup : ((readable entries).map (·.name)).Nodup :=
  (readable_names reported).nodup (namedDefinitions_nodup entries)

/-- The names of a document are parted into those of its rules and those of its rejections. -/
theorem loadedFrom_names :
    ((loadedFrom entries).catalogue.names ++ (loadedFrom entries).rejections.map (·.rule)).Perm
      ((namedDefinitions entries).map Prod.fst) := by
  have parted := ((settle_rounds (readable_nodup reported)).perm (readable_nodup reported)).map
    Rule.name
  have read := reported_perm reported
  simp only [loadedFrom, names, List.map_append, List.map_map]
  rw [List.map_append, List.map_map] at parted
  calc List.Perm _ ((settle (readable entries)).1.map Rule.name ++
        ((settle (readable entries)).2.map (Rule.name ∘ Prod.fst) ++
          ((namedDefinitions entries).filterMap rejectionOf?).map Rejection.rule)) :=
        List.perm_append_comm.append_left _
    List.Perm _ ((settle (readable entries)).1.map Rule.name ++
        (settle (readable entries)).2.map (Rule.name ∘ Prod.fst) ++
          ((namedDefinitions entries).filterMap rejectionOf?).map Rejection.rule) := by
        rw [List.append_assoc]
    List.Perm _ ((readable entries).map Rule.name ++
          ((namedDefinitions entries).filterMap rejectionOf?).map Rejection.rule) :=
        parted.append_right _
    List.Perm _ ((namedDefinitions entries).map Prod.fst) := read

/-- The names of the rules in force are the greatest closed set of names that define rules: they are
closed, and every closed set is among them. -/
theorem loadedFrom_greatest :
    IsGreatest {names | IsClosed entries names}
      {name | name ∈ (loadedFrom entries).catalogue.names} := by
  have rounds := settle_rounds (readable_nodup reported)
  constructor
  · intro name member
    obtain ⟨rule, inside, rfl⟩ := List.mem_map.mp member
    exact ⟨rule, defines_of_mem_loadedFrom rule inside, rounds.closed rule inside⟩
  · intro others closed name member
    have remains : ∀ name ∈ others, name ∈ (settle (readable entries)).1.map (·.name) := by
      apply rounds.keeps
      · intro rule readable inside target replaced
        obtain ⟨same, own, all⟩ := closed rule.name inside
        obtain rfl := own.unique ((mem_readable rule).mp readable)
        exact all target replaced
      · intro other inside
        obtain ⟨rule, own, _⟩ := closed other inside
        have named : rule.name = other := by
          obtain ⟨definition, _, reading⟩ := own
          exact (Rule.read_spec reading).1
        exact List.mem_map.mpr ⟨rule, (mem_readable rule).mpr (named ▸ own), named⟩
    exact remains name member

/-- Every rejection carries the definition of its name, whether it was malformed or replaced a
missing rule. -/
theorem loadedFrom_own {rejection : Rejection}
    (member : rejection ∈ (loadedFrom entries).rejections) :
    lastDefinition? entries rejection.rule = some rejection.definition := by
  rcases List.mem_append.mp member with malformed | dangling
  · obtain ⟨⟨name, definition⟩, inside, given⟩ := List.mem_filterMap.mp malformed
    have last := (mem_namedDefinitions entries name definition).mp inside
    rcases (reported _ inside).cases with ⟨_, _, _, none, _⟩ | ⟨found, _, here, named, own⟩
    · rw [none] at given
      contradiction
    · obtain rfl := Option.some.inj (here.symm.trans given)
      rw [named, own]
      exact last
  · obtain ⟨⟨rule, unknown⟩, inside, rfl⟩ := List.mem_map.mp dangling
    have rounds := settle_rounds (readable_nodup reported)
    have member : rule ∈ readable entries :=
      (rounds.perm (readable_nodup reported)).subset
        (List.mem_append_right _ (List.mem_map.mpr ⟨_, inside, rfl⟩))
    exact danglingRejection_own ((mem_readable rule).mp member) unknown

/-- Entries whose definitions are all reported are settled by lenient loading. -/
theorem loadedFrom_isSettled : IsSettled entries (loadedFrom entries) := by
  have parted := loadedFrom_names reported
  have distinct := parted.nodup_iff.mpr (namedDefinitions_nodup entries)
  obtain ⟨_, once, apart⟩ := List.nodup_append.mp distinct
  refine ⟨loadedFrom_greatest reported, ?_, defines_of_mem_loadedFrom, once, ?_,
    fun rejection => loadedFrom_own reported⟩
  · have kept : (settle (readable entries)).1.Sublist (readable entries) :=
      settleWithin_sublist _ (readable entries)
    rw [← namedDefinitions_names]
    exact (kept.map Rule.name).trans (readable_names reported)
  · intro name
    have either : name ∈ (loadedFrom entries).catalogue.names ∨
        name ∈ (loadedFrom entries).rejections.map (·.rule) ↔
          name ∈ entries.map fun entry => entry.1.plain := by
      rw [← List.mem_append, parted.mem_iff, namedDefinitions_names, List.mem_eraseDups]
    rw [← either]
    constructor
    · exact fun inside => ⟨.inr inside, fun also => apart name also name inside rfl⟩
    · exact fun ⟨inside, outside⟩ => inside.resolve_left outside

end Reported

/-- Whether two loaded catalogues hold the same rules and leave out the same names. -/
def Agree (first second : Loaded) : Prop :=
  (∀ rule, rule ∈ first.catalogue.rules ↔ rule ∈ second.catalogue.rules) ∧
    ∀ name, name ∈ first.rejections.map (·.rule) ↔ name ∈ second.rejections.map (·.rule)

section Reordering

variable {reordered : Entries}
  (same : ∀ name, lastDefinition? reordered name = lastDefinition? entries name)
include same

/-- Entries with the same last definitions define the same rules. -/
theorem defines_congr (name : String) (rule : Rule) :
    Defines reordered name rule ↔ Defines entries name rule := by
  unfold Defines
  rw [same]

/-- What settles entries depends on nothing but their last definitions. -/
theorem IsSettled.agree {loaded again : Loaded} (settled : IsSettled entries loaded)
    (other : IsSettled reordered again) : Agree again loaded := by
  have closed : {names | IsClosed reordered names} = {names | IsClosed entries names} := by
    ext names
    simp only [Set.mem_ofPred_eq, IsClosed, defines_congr same]
  have greatest := other.greatest
  rw [closed] at greatest
  have one : {name | name ∈ again.catalogue.names} = {name | name ∈ loaded.catalogue.names} :=
    greatest.unique settled.greatest
  have names : ∀ name, name ∈ again.catalogue.names ↔ name ∈ loaded.catalogue.names :=
    fun name => iff_of_eq (congrFun one name)
  have texts : ∀ name, name ∈ (reordered.map fun entry => entry.1.plain) ↔
      name ∈ entries.map fun entry => entry.1.plain := by
    intro name
    rw [← lastDefinition?_isSome_iff, ← lastDefinition?_isSome_iff, same]
  constructor
  · intro rule
    constructor
    · intro inside
      obtain ⟨twin, there, named⟩ := List.mem_map.mp
        ((names rule.name).mp (List.mem_map.mpr ⟨rule, inside, rfl⟩))
      have own := (defines_congr same _ _).mp (other.defined rule inside)
      exact own.unique (named ▸ settled.defined twin there) ▸ there
    · intro inside
      obtain ⟨twin, there, named⟩ := List.mem_map.mp
        ((names rule.name).mpr (List.mem_map.mpr ⟨rule, inside, rfl⟩))
      have own := (defines_congr same _ _).mp (other.defined twin there)
      exact (named ▸ own).unique (settled.defined rule inside) ▸ there
  · intro name
    rw [other.rejected, settled.rejected, texts, names]

end Reordering

/-- Lenient loading of entries of which no two have keys of one text comes to its end with the
greatest closed set of rules in force and each other name rejected once. Reordering the entries
gives the same rules and the same rejected names. -/
theorem load_greatestClosed {top : Entries} {loaded : Loaded}
    (found : Entries.field? top definitionsKey = some (.mapping entries))
    (distinct : (entries.map fun entry => entry.1.plain).Nodup)
    (loading : load .lenient (.mapping top) = .ok loaded) :
    IsSettled entries loaded ∧
      (∃ dropped, Rounds (readable entries) loaded.catalogue.rules dropped) ∧
      ∀ reordered : Entries, reordered.Perm entries →
        ∀ again, Entries.field? again definitionsKey = some (.mapping reordered) →
        ∃ reloaded, load .lenient (.mapping again) = .ok reloaded ∧ Agree reloaded loaded := by
  obtain ⟨named, reported, rfl⟩ := (load_lenient_iff found loaded).mp loading
  have settled := loadedFrom_isSettled reported
  refine ⟨settled, ⟨_, settle_rounds (readable_nodup reported)⟩, ?_⟩
  intro reordered permuted again foundAgain
  have same := lastDefinition?_perm permuted distinct
  have namedAgain : CanBeNamed reordered :=
    fun key member => named key ((permuted.map Prod.fst).mem_iff.mp member)
  have reportedAgain : ∀ entry ∈ namedDefinitions reordered, IsReported entry := by
    rintro ⟨name, definition⟩ member
    refine reported _ ((mem_namedDefinitions entries name definition).mpr ?_)
    rw [← same]
    exact (mem_namedDefinitions reordered name definition).mp member
  exact ⟨loadedFrom reordered,
    (load_lenient_iff foundAgain _).mpr ⟨namedAgain, reportedAgain, rfl⟩,
    settled.agree same (loadedFrom_isSettled reportedAgain)⟩

/-- Entries with two rules that replace each other, a rule that cannot be read, and a chain of
rules that leads to it. -/
def tangledEntries : Entries :=
  [(.text "Last", .mapping [(.text "replaces", .list [.text "Middle"])]),
    (.text "Left", .mapping [(.text "replaces", .list [.text "Right"])]),
    (.text "Middle", .mapping [(.text "replaces", .list [.text "Broken", .text "Left"])]),
    (.text "Right", .mapping [(.text "replaces", .list [.text "Left"])]),
    (.text "Broken", .mapping [(.text "maxAwarded", .integer 0)])]

/-- Of the tangled entries the two that replace each other stay in force, in either order of the
document. -/
theorem load_tangled :
    let top : Entries := [(.text definitionsKey, .mapping tangledEntries)]
    let reversed : Entries := [(.text definitionsKey, .mapping tangledEntries.reverse)]
    let loaded := loadedFrom tangledEntries
    (tangledEntries.map fun entry => entry.1.plain).Nodup ∧
      load .lenient (.mapping top) = .ok loaded ∧ loaded.catalogue.names = ["Left", "Right"] ∧
      loaded.rejections.map (·.rule) = ["Broken", "Middle", "Last"] ∧
      IsSettled tangledEntries loaded ∧
      ∃ reloaded, load .lenient (.mapping reversed) = .ok reloaded ∧ Agree reloaded loaded := by
  intro top reversed loaded
  have distinct : (tangledEntries.map fun entry => entry.1.plain).Nodup := by decide
  have loading : load .lenient (.mapping top) = .ok loaded := rfl
  obtain ⟨settled, _, reordering⟩ := load_greatestClosed rfl distinct loading
  exact ⟨distinct, loading, rfl, rfl, settled, reordering _ (List.reverse_perm _) _ rfl⟩

/-- Two keys with one text, where only one of the definitions can be read. -/
def ambiguousEntries : Entries :=
  [(.integer 1, .mapping []), (.text "1", .mapping [(.text "maxAwarded", .integer 0)])]

/-- If two keys have one text, the order of the entries decides whether its rule is in force. -/
theorem order_matters :
    let load (entries : Entries) :=
      Catalogue.load .lenient (.mapping [(.text definitionsKey, .mapping entries)])
    load ambiguousEntries = .ok (loadedFrom ambiguousEntries) ∧
      load ambiguousEntries.reverse = .ok (loadedFrom ambiguousEntries.reverse) ∧
      ambiguousEntries.reverse.Perm ambiguousEntries ∧
      KeysDistinct (Entries.keys ambiguousEntries) ∧
      ¬ Agree (loadedFrom ambiguousEntries.reverse) (loadedFrom ambiguousEntries) := by
  intro load
  refine ⟨rfl, rfl, List.reverse_perm _, by decide, ?_⟩
  rintro ⟨_, rejected⟩
  have impossible := (rejected "1").mpr
    (show "1" ∈ (loadedFrom ambiguousEntries).rejections.map (·.rule) by decide)
  exact absurd impossible (by decide)

end Catalogue

end Accolade
