import Accolade.Proofs.Catalogue.Loader
import Accolade.Proofs.Cycle.Calm

/-!
# Accounting for the ledger

What a cycle over calm stores reports accounts for all that it changes. Experience and events
stay as they are. The achievements keep every record in its place, with nothing changed but
its amount, and get new ones behind; all that changed is of a name reported as awarded or
retracted. The total of a rule in the context grows by one for each time it is reported as
awarded, unless it is reported as retracted; then it is zero in the end.

The last point needs that nothing retracted is awarded again. Over calm stores no award breaks
off, so every rule that was retracted is settled.
-/

namespace Accolade

/-- Whether a name is that of a rule reported as awarded or retracted. -/
def Progress.Reports {σ : Type} (progress : Progress σ) (name : Value) : Prop :=
  ∃ rule ∈ progress.awarded ++ progress.retracted, name = .text rule

namespace Engine

/-- Whether the progress of a cycle accounts for all that changed since it began. -/
structure Accounts (engine : Engine) (context : Context) (initial : Stores)
    (progress : Progress Stores) : Prop where
  calm : progress.state.IsCalm
  experience : progress.state.experience = initial.experience
  events : progress.state.events = initial.events
  continues : Ledger.Continues progress.Reports initial.achievements progress.state.achievements
  settled : ∀ name ∈ progress.retracted, name ∈ progress.settled
  kept : ∀ rule ∈ engine.catalogue.rules, (context.forScope rule.scope).Resolves →
    rule.name ∉ progress.retracted →
    progress.state.achievements.awardedTo rule context =
      initial.achievements.awardedTo rule context + progress.awarded.count rule.name
  retracted : ∀ rule ∈ engine.catalogue.rules, (context.forScope rule.scope).Resolves →
    rule.name ∈ progress.retracted → progress.state.achievements.awardedTo rule context = 0

variable {engine : Engine} {context : Context} {initial : Stores}

/-- A cycle that has not begun accounts for nothing: its stores are those it started with, and it
has reported neither awards nor retractions. -/
theorem Accounts.start (calm : initial.IsCalm) (expired : Bool) :
    Accounts engine context initial (Progress.start initial expired) where
  calm := calm
  experience := rfl
  events := rfl
  continues := Ledger.Continues.refl _
  settled := by simp [Progress.start]
  kept := by simp [Progress.start]
  retracted := by simp [Progress.start]

/-- The accounts are of the stores, the settled rules, the awards and the retractions alone.
Whatever else a progress holds may change. -/
theorem Accounts.congr {progress later : Progress Stores}
    (accounts : Accounts engine context initial progress) (state : later.state = progress.state)
    (settled : later.settled = progress.settled) (awarded : later.awarded = progress.awarded)
    (retracted : later.retracted = progress.retracted) :
    Accounts engine context initial later where
  calm := state ▸ accounts.calm
  experience := state ▸ accounts.experience
  events := state ▸ accounts.events
  continues := by
    unfold Progress.Reports
    rw [state, awarded, retracted]
    exact accounts.continues
  settled := by
    rw [settled, retracted]
    exact accounts.settled
  kept := by
    rw [state, awarded, retracted]
    exact accounts.kept
  retracted := by
    rw [state, retracted]
    exact accounts.retracted

section Attempt

variable (distinct : engine.catalogue.names.Nodup)
  (keyed : ∀ rule ∈ engine.catalogue.rules, rule.scope ≠ [])
include distinct keyed

/-- The retractions of an attempt clear the totals of the rules that are replaced, and no
others. -/
theorem awardedTo_retractions {rule other : Rule} (member : other ∈ engine.catalogue.rules)
    (resolves : (context.forScope other.scope).Resolves) (ledger : Ledger) :
    (ledger.retractEach context.subject (engine.boundRetractions context rule)).awardedTo other
        context =
      if other.name ∈ rule.replaces then 0 else ledger.awardedTo other context := by
  have own : ∀ entry ∈ engine.boundRetractions context rule, entry.1 = other.name →
      Ledger.awardScope context.subject entry.2 = (context.forScope other.scope).boundValues := by
    intro entry among named
    obtain ⟨target, _, rfl⟩ := List.mem_map.mp among
    have target_eq : target = other.name := named
    subst target_eq
    have full : (context.forScope other.scope).boundValues ≠ [] :=
      Context.boundValues_ne_nil resolves (keyed other member)
    rw [retractionScope_of_mem distinct member]
    exact Ledger.awardScope_of_ne_nil context.subject full
  unfold Ledger.awardedTo
  rw [Ledger.total_retractEach context.subject own ledger, boundRetractions_targets]

section Award

variable {rule : Rule} (known : rule ∈ engine.catalogue.rules) {before ledger : Ledger}
  {written : Fact} (awarded : Ledger.Awarded (.text rule.name)
    (context.forScope rule.scope).boundValues before written ledger)
include awarded

omit keyed in
include known in
/-- An award moves the total of its own rule by one, and no other. -/
theorem awardedTo_award (reflexive : ∀ key value,
      Entries.field? context.attributes key = some value → value.equals value = true)
    {other : Rule} (member : other ∈ engine.catalogue.rules) :
    ledger.awardedTo other context =
      before.awardedTo other context + if rule.name = other.name then 1 else 0 := by
  by_cases same : rule.name = other.name
  · have one : other = rule := Catalogue.eq_of_name distinct member known same.symm
    subst one
    rw [awarded.awardedTo_own reflexive, if_pos rfl]
  · rw [awarded.awardedTo_other (fun equal => same equal.symm) context, if_neg same, Int.add_zero]

include known in
/-- An award with its retractions clears the totals of the rules that are replaced. It moves the
total of its own rule by one, unless the rule is among those, and no other. -/
theorem awardedTo_attempt (reflexive : ∀ key value,
      Entries.field? context.attributes key = some value → value.equals value = true)
    {other : Rule} (member : other ∈ engine.catalogue.rules)
    (resolves : (context.forScope other.scope).Resolves) :
    (ledger.retractEach context.subject (engine.boundRetractions context rule)).awardedTo other
        context =
      if other.name ∈ rule.replaces then 0
      else before.awardedTo other context + if rule.name = other.name then 1 else 0 := by
  rw [awardedTo_retractions distinct keyed member resolves ledger,
    awardedTo_award distinct known awarded reflexive member]

omit distinct keyed in
/-- An award with its retractions touches the names that were touched before, its own, and those
of the rules that are replaced. -/
theorem continues_award {first : Ledger} {names : List String}
    (continues : Ledger.Continues (fun name => ∃ rule ∈ names, name = .text rule) first before) :
    Ledger.Continues
      (fun name => ∃ other ∈ names ++ rule.name :: rule.replaces, name = .text other) first
      (ledger.retractEach context.subject (engine.boundRetractions context rule)) := by
  refine ((continues.mono ?_).trans (awarded.continues.mono ?_)).trans
    ((Ledger.retractEach_continues context.subject (engine.boundRetractions context rule)
      ledger).mono ?_)
  · rintro name ⟨reported, member, rfl⟩
    exact ⟨reported, List.mem_append_left _ member, rfl⟩
  · rintro name rfl
    exact ⟨rule.name, List.mem_append_right _ List.mem_cons_self, rfl⟩
  · rintro name ⟨target, member, rfl⟩
    rw [boundRetractions_targets] at member
    exact ⟨target, List.mem_append_right _ (List.mem_cons_of_mem _ member), rfl⟩

end Award

/-- An attempt to award a rule that is not settled keeps the accounts.

Proof: an attempt that fails over calm stores wrote nothing. One that goes through adds one to the
total of its own rule and clears those of the rules replaced. A rule that was retracted before is
settled, so its total is not the one that grows. -/
theorem Accounts.attempt {rule : Rule} (known : rule ∈ engine.catalogue.rules)
    (reflexive : ∀ key value, Entries.field? context.attributes key = some value →
      value.equals value = true)
    {progress later : Progress Stores} {error : Option Diagnosis}
    (accounts : Accounts engine context initial progress) (unsettled : rule.name ∉ progress.settled)
    (tried : Tried engine context rule progress error later) :
    Accounts engine context initial later := by
  have calm := tried.calm accounts.calm
  cases tried with
  | unresolved unresolved error happenings =>
    exact ⟨calm, accounts.experience, accounts.events, accounts.continues,
      fun name inside => List.mem_append_left _ (accounts.settled name inside), accounts.kept,
      accounts.retracted⟩
  | wentThrough resolved written ledger awarded invocations happenings =>
    have full : (context.forScope rule.scope).boundValues ≠ [] :=
      Context.boundValues_ne_nil resolved.1 (keyed rule known)
    rw [Ledger.awardScope_of_ne_nil context.subject full] at awarded
    have moved := @awardedTo_attempt engine context distinct keyed rule known _ _ _ awarded
      reflexive
    refine ⟨calm, accounts.experience, accounts.events, ?_, ?_, ?_, ?_⟩
    · refine (continues_award awarded accounts.continues).mono ?_
      rintro name ⟨other, member, rfl⟩
      exact ⟨other, by grind, rfl⟩
    · intro name inside
      rcases List.mem_append.mp inside with before | fresh
      · exact List.mem_append_left _ (accounts.settled name before)
      · exact List.mem_append_right _ fresh
    · intro other member resolves absent
      simp only [List.mem_append, not_or] at absent
      rw [moved member resolves, if_neg absent.2, accounts.kept other member resolves absent.1,
        List.count_append, List.count_singleton]
      simp only [beq_iff_eq]
      split <;> omega
    · intro other member resolves inside
      rw [moved member resolves]
      split
      · rfl
      · rename_i notReplaced
        have before : other.name ∈ progress.retracted :=
          (List.mem_append.mp inside).resolve_right notReplaced
        have different : rule.name ≠ other.name :=
          fun same => unsettled (accounts.settled rule.name (same ▸ before))
        rw [accounts.retracted other member resolves before, if_neg different, Int.add_zero]

variable {candidates : List Rule} (known : ∀ rule ∈ candidates, rule ∈ engine.catalogue.rules)
  (texts : AreTexts (Entries.keys context.attributes))
include known texts

omit distinct keyed in
/-- The checks of a pass keep the accounts, since they write nothing, and they check rules in force
only. -/
theorem Accounts.checks (runs : Bool) {progress : Progress Stores}
    (accounts : Accounts engine context initial progress) :
    Accounts engine context initial
        (engine.checks (Stores.collaborators runs) context candidates progress).2.2 ∧
      ((engine.checks (Stores.collaborators runs) context candidates progress).1 = none →
        ∀ item ∈ (engine.checks (Stores.collaborators runs) context candidates progress).2.1,
          item.1 ∈ engine.catalogue.rules) := by
  rcases @checks_of_calm Stores (Stores.collaborators runs) context candidates progress engine
    accounts.calm.lookup texts with ⟨outcomeOf, happenings, _, _, checked⟩ |
      ⟨_, _, _, checked⟩
  · rw [checked]
    refine ⟨accounts.congr rfl rfl rfl rfl, fun _ item member => ?_⟩
    obtain ⟨rule, among, rfl⟩ := List.mem_map.mp member
    exact known rule (List.mem_filter.mp among).1
  · rw [checked]
    exact ⟨accounts.congr rfl rfl rfl rfl, nofun⟩

/-- A pass keeps the accounts: its checks do, and so does each attempt on the rules that came out
for an award. -/
theorem Accounts.pass (runs : Bool)
    (reflexive : ∀ key value, Entries.field? context.attributes key = some value →
      value.equals value = true)
    {progress : Progress Stores} (accounts : Accounts engine context initial progress) :
    Accounts engine context initial
      (engine.pass (Stores.collaborators runs) context candidates progress).2 := by
  refine pass_induction (I := Accounts engine context initial)
    (P := fun items progress => (∀ item ∈ items, item.1 ∈ engine.catalogue.rules) ∧
      Accounts engine context initial progress)
    (fun _ kept => (Accounts.checks known texts runs kept).1)
    (fun _ kept complete =>
      have ⟨made, inForce⟩ := Accounts.checks known texts runs kept
      ⟨inForce complete, made⟩)
    ?_ ?_ ?_ accounts
  · rintro item rest _ ⟨inForce, kept⟩
    exact ⟨fun other member => inForce other (List.mem_cons_of_mem item member), kept⟩
  · rintro rule outcome rest progress _ unsettled ⟨inForce, kept⟩
    obtain ⟨error, later, attempted, tried⟩ := attempt_calm runs context rule engine kept.calm
    rw [attempted]
    exact ⟨fun other member => inForce other (List.mem_cons_of_mem _ member),
      kept.attempt distinct keyed (inForce _ List.mem_cons_self) reflexive unsettled tried⟩
  · rintro progress outcomes ⟨_, kept⟩
    exact kept.congr rfl rfl rfl rfl

/-- A whole cycle over calm stores keeps the accounts, from nothing at its start to all that it
reports at its end. -/
theorem process_accounts (runs : Bool)
    (reflexive : ∀ key value, Entries.field? context.attributes key = some value →
      value.equals value = true)
    {stores : Stores} (calm : stores.IsCalm) :
    Accounts engine context stores
        (engine.process (Stores.collaborators runs) context candidates stores).2 := by
  have passed : ∀ progress, Accounts engine context stores progress →
      Accounts engine context stores
        (engine.pass (Stores.collaborators runs) context candidates progress).2 :=
    fun _ kept => kept.pass distinct keyed known texts runs reflexive
  have start : Accounts engine context stores (Progress.start stores engine.startsExpired) :=
    Accounts.start calm engine.startsExpired
  exact process_induction passed (fun _ _ _ kept => kept.congr rfl rfl rfl rfl) start

end Attempt

/-- What is found under a key in proper and definite entries equals itself. -/
theorem equals_self_of_field? {entries : Entries} (proper : Value.entriesProper entries = true)
    (definite : Value.entriesDefinite entries = true) (key : String) (value : Value)
    (found : Entries.field? entries key = some value) : value.equals value = true := by
  obtain ⟨held, member, _⟩ := Entries.mem_of_find found
  exact Value.equals_self ((Value.entriesProper_iff _).mp proper _ member)
    ((Value.entriesDefinite_iff _).mp definite _ member).2

/-- Whether what a cycle reports in the end accounts for all that it changed: experience and
events are as they were, achievements only changed under reported names, and the amount
awarded of each rule grew by the number of its awards, or is zero if it was retracted. -/
structure Balances (catalogue : Catalogue) (context : Context) (before : Stores)
    (ended : Progress Stores) : Prop where
  experience : ended.state.experience = before.experience
  events : ended.state.events = before.events
  achievements :
    Ledger.Continues ended.Reports before.achievements ended.state.achievements
  amounts : ∀ rule ∈ catalogue.rules, (context.forScope rule.scope).Resolves →
    ∃ amount later : Int,
      (awardedAmount Stores.lookup (context.forScope rule.scope) rule.name before).1 =
        .answer (.integer amount) ∧
      (awardedAmount Stores.lookup (context.forScope rule.scope) rule.name ended.state).1 =
        .answer (.integer later) ∧
      (rule.name ∉ ended.retracted → later = amount + ended.awarded.count rule.name) ∧
      (rule.name ∈ ended.retracted → later = 0)

/-- Over calm stores and a loaded catalogue, in a context whose attributes hold no number that
is none, the result of a cycle accounts for all that it changed, and so does what has been done by
a cycle that a failure left. As far as the candidates are brief, the cycle comes to its end. -/
theorem process_balances {strictness : Strictness} {document : Value} {loaded : Loaded}
    (loading : Catalogue.load strictness document = .ok loaded) {maxPasses : Int}
    {retry : Option RetryPolicy}
    (engaged : Engine.of loaded.catalogue maxPasses none retry = .ok engine)
    {candidates : List Rule} (known : ∀ rule ∈ candidates, rule ∈ loaded.catalogue.rules)
    (texts : AreTexts (Entries.keys context.attributes))
    (proper : Value.entriesProper context.attributes = true)
    (definite : Value.entriesDefinite context.attributes = true)
    {stores : Stores} (calm : stores.IsCalm) (runs : Bool) :
    EndsIfBrief context candidates
        (engine.process (Stores.collaborators runs) context candidates stores).1 ∧
      Balances loaded.catalogue context stores
        (engine.process (Stores.collaborators runs) context candidates stores).2 := by
  have inForce : engine.catalogue = loaded.catalogue := (of_spec engaged).1
  have accounts := process_accounts (inForce ▸ Catalogue.load_names_nodup loading)
    (inForce ▸ Catalogue.load_keyed loading) (inForce ▸ known) texts runs
    (equals_self_of_field? proper definite) calm
  refine ⟨process_ends runs context engine candidates calm.isQuiet texts, accounts.experience,
    accounts.events, accounts.continues, ?_⟩
  intro rule member resolves
  have enforced : rule ∈ engine.catalogue.rules := inForce ▸ member
  refine ⟨_, _, congrArg Prod.fst (awardedAmount_eq calm.achievements
    (fun query => calm.toIsPlain.lookup .achievement query) resolves),
    congrArg Prod.fst (awardedAmount_eq accounts.calm.achievements
      (fun query => accounts.calm.toIsPlain.lookup .achievement query) resolves),
    accounts.kept rule enforced resolves, accounts.retracted rule enforced resolves⟩

/-- The result of a cycle over the sample catalogue accounts for all that it changed. -/
theorem sample_balances :
    let ended := (Engine.mk Catalogue.sample 10 none none).process (Stores.collaborators true)
      (Context.of (.integer 2) [] defaultScope) Catalogue.sample.rules Stores.sample
    ended.1 = none ∧ Balances Catalogue.sample (Context.of (.integer 2) [] defaultScope)
      Stores.sample ended.2 := by
  have texts : AreTexts
      (Entries.keys (Context.of (.integer 2) [] defaultScope).attributes) := by
    intro key member
    exact ⟨subjectKey, List.mem_singleton.mp member⟩
  have balanced := process_balances Catalogue.load_sample
    (show Engine.of Catalogue.sample 10 none none = .ok _ from rfl) (fun _ => id) texts rfl rfl
    Stores.sample_calm true
  exact ⟨balanced.1.eq_none (by decide), balanced.2⟩

end Engine

end Accolade
