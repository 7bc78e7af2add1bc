import Mathlib.Algebra.GroupWithZero.Nat
import Accolade.Proofs.Cycle.Check
import Accolade.Proofs.Fact.Stores
import Accolade.Proofs.Retry
import Accolade.Proofs.Truth

/-!
# Checks that outlast faults

Lookups falter when they fail now and then, in a way that another attempt may mend, and otherwise
find what they find in a state without faults. How many more of them can fail is the risk of a
state; each that fails lowers it.

No fault goes unnoticed. An evaluation that is answered without faults either is answered the same
and changes nothing, or it stops with a failed query and leaves a lower risk. Exactly-one looks at
all its children and may meet several faults at once; the first failure decides, and none of them
is of another kind. So a check that is made anew after each failed query is answered as without
faults, as soon as there are more attempts than lookups that can fail.
-/

namespace Accolade

section Faltering

variable {σ α : Type} {ready : σ → Prop} {risk : σ → Nat} {state : σ}

namespace Reply

/-- Whether a step came to what was expected and changed nothing, or met a fault: it stopped with
a failed query and left a lower risk. -/
def Falters (ready : σ → Prop) (risk : σ → Nat) (state : σ) (expected : Reply α)
    (result : Reply α × σ) : Prop :=
  result = (expected, state) ∨ ∃ failure later, result = (.failed failure, later) ∧
    failure.isTransient = true ∧ ready later ∧ risk later < risk state

/-- Whether steps came to the answers that were expected and changed nothing, or some met faults.
Those stopped with a failed query, and no other step failed. -/
def FalterEach (ready : σ → Prop) (risk : σ → Nat) (state : σ) (expected : List α)
    (result : List (Reply α) × σ) : Prop :=
  result = (expected.map .answer, state) ∨
    (∃ failure, .failed failure ∈ result.1) ∧
      (∀ failure, .failed failure ∈ result.1 → failure.isTransient = true) ∧
      ready result.2 ∧ risk result.2 < risk state

/-- A step that falters leads from states of some kind to such states, whether or not it met a
fault. -/
theorem Falters.kept {expected : Reply α} {result : Reply α × σ}
    (falters : Falters ready risk state expected result) (holding : ready state) :
    ready result.2 := by
  rcases falters with rfl | ⟨_, _, rfl, _, kept, _⟩
  · exact holding
  · exact kept

/-- Steps falter one after the other when the first does and those behind it do. -/
theorem Falters.cons {expected : α} {others : List α} {first : Reply α × σ}
    {rest : List (Reply α) × σ} (early : Falters ready risk state (.answer expected) first)
    (late : FalterEach ready risk first.2 others rest) :
    FalterEach ready risk state (expected :: others) (first.1 :: rest.1, rest.2) := by
  rcases early with rfl | ⟨failure, between, rfl, transient, kept, less⟩
  · rcases late with rfl | ⟨⟨failure, failed⟩, transient, met⟩
    · exact .inl rfl
    · refine .inr ⟨⟨failure, List.mem_cons_of_mem _ failed⟩, fun other member => ?_, met⟩
      exact transient other (by simpa using member)
  · have here : .failed failure ∈ (.failed failure : Reply α) :: rest.1 := List.mem_cons_self
    rcases late with rfl | ⟨_, further, keptToo, lessToo⟩
    · refine .inr ⟨⟨failure, here⟩, fun other member => ?_, kept, less⟩
      obtain rfl : other = failure := by simpa using member
      exact transient
    · refine .inr ⟨⟨failure, here⟩, fun other member => ?_, keptToo, Nat.lt_trans lessToo less⟩
      rcases List.mem_cons.mp member with own | behind
      · cases own
        exact transient
      · exact further other behind

end Reply

/-- Whether looking facts up in certain states falters. In the state without faults, no lookup
changes anything. -/
structure Lookup.Falters (lookup : Lookup σ) (faultless : σ) (ready : σ → Prop)
    (risk : σ → Nat) : Prop where
  still : lookup.IsStill faultless
  facts : ∀ kind query state, ready state →
    Reply.Falters ready risk state (Requirement.facts lookup kind query faultless).1
      (Requirement.facts lookup kind query state)

variable {lookup : Lookup σ} {faultless : σ}

namespace Requirement

/-- A leaf falters as its lookup does: a fault of the lookup is the failure of the leaf. -/
theorem evaluateLeaf_falters (falters : lookup.Falters faultless ready risk) (context : Context)
    (holding : ready state) (kind : FactKind) (name : String)
    (judge : Entries → List Fact → Reply Bool) :
    Reply.Falters ready risk state (evaluateLeaf lookup context kind name judge faultless).1
      (evaluateLeaf lookup context kind name judge state) := by
  unfold evaluateLeaf
  cases context.queryFor name with
  | error failure => exact .inl rfl
  | ok query =>
    have looked := falters.facts kind query state holding
    dsimp only
    generalize facts lookup kind query state = result at looked ⊢
    rcases looked with rfl | ⟨failure, later, rfl, met⟩
    · refine .inl ?_
      cases facts lookup kind query faultless with
      | mk reply after => cases reply <;> rfl
    · exact .inr ⟨failure, later, rfl, met⟩

/-- Exactly-one falters when its children do, since one failure among them is enough for it to fail.
-/
theorem exactlyOne_falters {expected : List Bool} {result : List (Reply Bool) × σ}
    (replied : Reply.FalterEach ready risk state expected result) :
    Reply.Falters ready risk state (exactlyOne (expected.map .answer))
      (exactlyOne result.1, result.2) := by
  rcases replied with rfl | ⟨⟨failure, failed⟩, transient, met⟩
  · exact .inl rfl
  · cases found : firstFailure? result.1 with
    | none => exact absurd failed (not_mem_of_firstFailure? found failure)
    | some first =>
      refine .inr ⟨first, result.2, ?_, transient first (mem_of_firstFailure? found), met⟩
      simp only [exactlyOne, found]

mutual

/-- A requirement that is answered without faults is answered the same with them, or fails in a way
that can be repeated with fewer faults left. -/
theorem evaluate_falters (falters : lookup.Falters faultless ready risk) (context : Context) :
    ∀ (requirement : Requirement) (state : σ) (fulfilled : Bool), ready state →
      (requirement.evaluate lookup context faultless).1 = .answer fulfilled →
      Reply.Falters ready risk state (.answer fulfilled)
        (requirement.evaluate lookup context state)
  | .achievement _ _, _, _, holding, told =>
    told ▸ evaluateLeaf_falters falters context holding .achievement _ _
  | .experience _ _, _, _, holding, told =>
    told ▸ evaluateLeaf_falters falters context holding .experience _ _
  | .event _ _ _, _, _, holding, told =>
    told ▸ evaluateLeaf_falters falters context holding .event _ _
  | .anyOf children, state, fulfilled, holding, told =>
    evaluateAny_falters falters context children state fulfilled holding told
  | .oneOf children, state, fulfilled, holding, told => by
    obtain ⟨answers, replied⟩ := answers_of_exactlyOne told
    have counted : exactlyOne (answers.map .answer) = .answer fulfilled := replied ▸ told
    exact counted ▸ exactlyOne_falters
      (evaluateEach_falters falters context children state answers holding replied)
  | .allOf children, state, fulfilled, holding, told =>
    evaluateAll_falters falters context children state fulfilled holding told

/-- A conjunction that comes to an answer without faults comes to the same answer with them, or a
child that meets a fault stops it with a failure that can be repeated. -/
theorem evaluateAll_falters (falters : lookup.Falters faultless ready risk) (context : Context) :
    ∀ (children : List Requirement) (state : σ) (fulfilled : Bool), ready state →
      (evaluateAll lookup context children faultless).1 = .answer fulfilled →
      Reply.Falters ready risk state (.answer fulfilled)
        (evaluateAll lookup context children state)
  | [], _, _, _, told => .inl (by rw [← told]; rfl)
  | child :: rest, state, fulfilled, holding, told => by
    rw [evaluateAll_cons falters.still] at told
    unfold evaluateAll
    split at told
    · rename_i passed
      have early := evaluate_falters falters context child state true holding passed
      have late := evaluateAll_falters falters context rest state fulfilled holding told
      generalize child.evaluate lookup context state = result at early ⊢
      rcases early with rfl | ⟨failure, later, rfl, met⟩
      · exact late
      · exact .inr ⟨failure, later, rfl, met⟩
    · rename_i other
      have early := evaluate_falters falters context child state fulfilled holding told
      generalize child.evaluate lookup context state = result at early ⊢
      rcases early with rfl | ⟨failure, later, rfl, met⟩
      · refine .inl ?_
        cases fulfilled with
        | true => exact absurd told other
        | false => rfl
      · exact .inr ⟨failure, later, rfl, met⟩

/-- A choice that comes to an answer without faults comes to the same answer with them, or a child
that meets a fault stops it with a failure that can be repeated. -/
theorem evaluateAny_falters (falters : lookup.Falters faultless ready risk) (context : Context) :
    ∀ (children : List Requirement) (state : σ) (fulfilled : Bool), ready state →
      (evaluateAny lookup context children faultless).1 = .answer fulfilled →
      Reply.Falters ready risk state (.answer fulfilled)
        (evaluateAny lookup context children state)
  | [], _, _, _, told => .inl (by rw [← told]; rfl)
  | child :: rest, state, fulfilled, holding, told => by
    rw [evaluateAny_cons falters.still] at told
    unfold evaluateAny
    split at told
    · rename_i refused
      have early := evaluate_falters falters context child state false holding refused
      have late := evaluateAny_falters falters context rest state fulfilled holding told
      generalize child.evaluate lookup context state = result at early ⊢
      rcases early with rfl | ⟨failure, later, rfl, met⟩
      · exact late
      · exact .inr ⟨failure, later, rfl, met⟩
    · rename_i other
      have early := evaluate_falters falters context child state fulfilled holding told
      generalize child.evaluate lookup context state = result at early ⊢
      rcases early with rfl | ⟨failure, later, rfl, met⟩
      · refine .inl ?_
        cases fulfilled with
        | true => rfl
        | false => exact absurd told other
      · exact .inr ⟨failure, later, rfl, met⟩

/-- Children that all come to answers without faults come to the same answers with them, or some of
them meet faults and fail with failures that can be repeated. -/
theorem evaluateEach_falters (falters : lookup.Falters faultless ready risk) (context : Context) :
    ∀ (children : List Requirement) (state : σ) (answers : List Bool), ready state →
      (evaluateEach lookup context children faultless).1 = answers.map .answer →
      Reply.FalterEach ready risk state answers (evaluateEach lookup context children state)
  | [], _, _, _, told => .inl (by rw [← told]; rfl)
  | child :: rest, state, answers, holding, told => by
    rw [evaluateEach_cons falters.still] at told
    obtain ⟨first, others, rfl, own, further⟩ := List.map_eq_cons_iff.mp told.symm
    have early := evaluate_falters falters context child state first holding own.symm
    exact early.cons (evaluateEach_falters falters context rest _ others (early.kept holding)
      further.symm)

end

end Requirement

/-- Adding up what was awarded falters as its one lookup does. -/
theorem awardedAmount_falters (falters : lookup.Falters faultless ready risk) (context : Context)
    (holding : ready state) (name : String) :
    Reply.Falters ready risk state (awardedAmount lookup context name faultless).1
      (awardedAmount lookup context name state) := by
  unfold awardedAmount
  cases context.queryFor name with
  | error failure => exact .inl rfl
  | ok query =>
    have looked := falters.facts .achievement query state holding
    dsimp only
    generalize Requirement.facts lookup .achievement query state = result at looked ⊢
    rcases looked with rfl | ⟨failure, later, rfl, met⟩
    · refine .inl ?_
      cases Requirement.facts lookup .achievement query faultless with
      | mk reply after =>
        cases reply with
        | answer found =>
          dsimp only
          cases totalAmount (found.map (·.amount)) <;> rfl
        | failed failure => rfl
        | pending => rfl
    · exact .inr ⟨failure, later, rfl, met⟩

namespace Rule

/-- The comparison with the cap falters as the lookup of the awards does. -/
theorem canBeAwarded_falters (falters : lookup.Falters faultless ready risk) (context : Context)
    (rule : Rule) (holding : ready state) :
    Reply.Falters ready risk state (rule.canBeAwarded lookup context faultless).1
      (rule.canBeAwarded lookup context state) := by
  have told := awardedAmount_falters falters (context.forScope rule.scope) holding rule.name
  unfold canBeAwarded
  generalize awardedAmount lookup (context.forScope rule.scope) rule.name state = result at told ⊢
  rcases told with rfl | ⟨failure, later, rfl, met⟩
  · refine .inl ?_
    cases awardedAmount lookup (context.forScope rule.scope) rule.name faultless with
    | mk reply after =>
      cases reply with
      | answer total =>
        dsimp only
        cases (AmountTest.mk .less rule.maxAwarded).holds total <;> rfl
      | failed failure => rfl
      | pending => rfl
  · exact .inr ⟨failure, later, rfl, met⟩

/-- A check that is answered without faults falters: it is answered the same, or it stops with a
failed query. -/
theorem check_falters (falters : lookup.Falters faultless ready risk) (context : Context)
    (rule : Rule) (holding : ready state) {fulfilled awardable : Bool}
    (told : (rule.check lookup context faultless).1 = .answer (fulfilled, awardable)) :
    Reply.Falters ready risk state (.answer (fulfilled, awardable))
      (rule.check lookup context state) := by
  have evaluated : ∀ passed, (rule.isFulfilled lookup context faultless).1 = .answer passed →
      Reply.Falters ready risk state (.answer passed) (rule.isFulfilled lookup context state) :=
    fun passed => Requirement.evaluate_falters falters _ rule.requirement state passed holding
  have compared := canBeAwarded_falters falters context rule holding
  rw [check_eq falters.still] at told
  unfold check
  split at told
  · rename_i passed
    have early := evaluated true passed
    generalize rule.isFulfilled lookup context state = result at early ⊢
    rcases early with rfl | ⟨failure, later, rfl, met⟩
    · split at told
      · rename_i below
        cases told
        rw [below] at compared
        dsimp only
        generalize rule.canBeAwarded lookup context state = result at compared ⊢
        rcases compared with rfl | ⟨failure, later, rfl, met⟩
        · exact .inl rfl
        · exact .inr ⟨failure, later, rfl, met⟩
      all_goals contradiction
    · exact .inr ⟨failure, later, rfl, met⟩
  · rename_i refused
    cases told
    have early := evaluated false refused
    generalize rule.isFulfilled lookup context state = result at early ⊢
    rcases early with rfl | ⟨failure, later, rfl, met⟩
    · exact .inl rfl
    · exact .inr ⟨failure, later, rfl, met⟩
  all_goals contradiction

end Rule

/-- Attempts of a call that falters end with the value expected, if there are more of them than the
risk, and few enough for a delay after each. -/
theorem attemptFrom_outlasts {policy : RetryPolicy} {draws : Nat → Draw}
    {call : σ → Reply α × σ} {value : α} (called : ∀ state, ready state →
      Reply.Falters ready risk state (.answer value) (call state))
    {left attempt : Nat} (positive : 0 < attempt) (few : attempt + left ≤ 1024)
    (holding : ready state) (enough : risk state ≤ left) :
    (attemptFrom policy draws Failure.isTransient call left attempt state).1.ending =
      .value value := by
  induction left generalizing attempt state with
  | zero =>
    unfold attemptFrom
    rcases called state holding with same | ⟨failure, later, _, _, _, less⟩
    · rw [same]
    · omega
  | succ left inductionHypothesis =>
    unfold attemptFrom
    rcases called state holding with same | ⟨failure, later, failed, transient, kept, less⟩
    · rw [same]
    · obtain ⟨delay, given⟩ :=
        policy.delay_of_le (draws attempt) positive (by omega : attempt ≤ 1024)
      simp only [failed, transient, if_true, given]
      exact inductionHypothesis (Nat.succ_pos attempt) (by omega) kept (by omega)

end Faltering

/-- Whether another attempt may succeed after a failure of a collaborator: it is a failure of the
collaborator's own, or a failed query. -/
def Failure.MayPass (failure : Failure) : Prop :=
  ∀ diagnosis, failure = .diagnosed diagnosis → diagnosis.isTransient = true

namespace Fault

/-- Whether a fault passes: if it strikes at lookups, it makes some of them fail in a way that may
pass, and keeps none from returning. -/
def Passes (fault : Fault) : Prop :=
  ∀ kind, fault.point = .lookup kind →
    ∃ times failure, fault.effect = .fail times failure ∧ failure.MayPass

/-- How many lookups a fault can still make fail. -/
def risk (fault : Fault) : Nat :=
  match fault.point, fault.effect with
  | .lookup _, .fail times _ => times
  | _, _ => 0

/-- A fault that passes and strikes at a lookup makes it fail, and has less left to strike with. -/
theorem effectAt_passes {fault later : Fault} {kind : FactKind} {name : Value}
    {effect : Option Failure} (passes : fault.Passes)
    (struck : fault.effectAt (.lookup kind) name = some (effect, later)) :
    (∃ failure, effect = some failure ∧ failure.MayPass) ∧ later.Passes ∧
      later.risk < fault.risk := by
  obtain ⟨point, target, effectLeft⟩ := fault
  simp only [effectAt, Bool.and_eq_true, decide_eq_true_eq] at struck
  split at struck
  · rename_i strikes
    obtain ⟨rfl, -⟩ := strikes
    obtain ⟨times, failure, rfl, may⟩ := passes kind rfl
    cases times with
    | zero => contradiction
    | succ times =>
      cases struck
      refine ⟨⟨failure, rfl, may⟩, fun _ _ => ⟨times, failure, rfl, may⟩, ?_⟩
      exact Nat.lt_succ_self times
  · contradiction

/-- When such faults are let strike at a lookup, none does, or the lookup fails in a way that may
pass and they have less left to strike with. -/
theorem strike_passes {faults : List Fault} (passing : ∀ fault ∈ faults, fault.Passes)
    (kind : FactKind) (name : Value) :
    strike (.lookup kind) name faults = (none, faults) ∨
      ∃ failure later, strike (.lookup kind) name faults = (some (some failure), later) ∧
        failure.MayPass ∧ (∀ fault ∈ later, fault.Passes) ∧
        (later.map risk).sum < (faults.map risk).sum := by
  induction faults with
  | nil => exact .inl rfl
  | cons fault rest inductionHypothesis =>
    obtain ⟨passes, others⟩ := List.forall_mem_cons.mp passing
    unfold strike
    cases struck : fault.effectAt (.lookup kind) name with
    | some outcome =>
      obtain ⟨effect, later⟩ := outcome
      obtain ⟨⟨failure, rfl, may⟩, kept, less⟩ := effectAt_passes passes struck
      refine .inr ⟨failure, later :: rest, rfl, may, List.forall_mem_cons.mpr ⟨kept, others⟩, ?_⟩
      simpa using less
    | none =>
      rcases inductionHypothesis others with same | ⟨failure, later, same, may, kept, less⟩
      · exact .inl (by rw [same])
      · refine .inr ⟨failure, fault :: later, by rw [same], may,
          List.forall_mem_cons.mpr ⟨passes, kept⟩, ?_⟩
        simpa using less

end Fault

namespace Stores

/-- The stores with other faults planned. -/
def withFaults (stores : Stores) (faults : List Fault) : Stores := { stores with faults := faults }

/-- Whether a state of stores differs from them by faults alone, and all of these pass. -/
def IsFaultyOf (stores state : Stores) : Prop :=
  ∃ faults, (∀ fault ∈ faults, fault.Passes) ∧ state = stores.withFaults faults

/-- How many lookups the planned faults can still make fail. -/
def risk (stores : Stores) : Nat := (stores.faults.map Fault.risk).sum

/-- Lookups in stores falter while the planned faults pass: each fault met is one fewer to come. -/
theorem lookup_falters (stores : Stores) :
    Stores.lookup.Falters (stores.withFaults []) stores.IsFaultyOf risk where
  still kind query := by rw [lookup_of_faultless rfl]
  facts kind query state holding := by
    obtain ⟨faults, passing, rfl⟩ := holding
    have found : (Requirement.facts Stores.lookup kind query (stores.withFaults [])).1 =
        .answer ((stores.ledger kind).find query) := by
      rw [Requirement.facts, lookup_of_faultless rfl]
      rfl
    rw [found]
    simp only [Requirement.facts, lookup, struck]
    rcases Fault.strike_passes passing kind ((Entries.field? query nameKey).getD .null) with
      same | ⟨failure, later, struck, may, kept, less⟩
    · refine .inl ?_
      simp only [withFaults, same]
      rfl
    · refine .inr ?_
      simp only [withFaults, struck]
      have left : stores.IsFaultyOf (stores.withFaults later) := ⟨later, kept, rfl⟩
      cases failure with
      | diagnosed diagnosis => exact ⟨_, _, rfl, may diagnosis rfl, left, less⟩
      | _ => exact ⟨_, _, rfl, rfl, left, less⟩

/-- A rule that looks at two kinds of facts, one of which must be there. -/
def eitherRule : Rule :=
  ⟨"Either", .oneOf [.achievement "Beginner" (.atLeast 1), .experience "Chat" (.atLeast 1)], [],
    1, defaultScope, [], false⟩

/-- Two faults that its first check meets, of different kinds. -/
def passingFaults : List Fault :=
  [⟨.lookup .achievement, .text "Beginner", .fail 1 (.foreign "boom")⟩,
    ⟨.lookup .experience, .text "Chat", .fail 1 (.diagnosed (.query "experience" "boom" []))⟩]

end Stores

end Accolade
