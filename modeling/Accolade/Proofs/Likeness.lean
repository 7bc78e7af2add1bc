import Accolade.Proofs.Truth

/-!
# Evaluations that come to the same

Two evaluations of a requirement may run on different lookups, in states that are related. They
come to the same and leave related states if all leaves of the requirement do, since what is asked
next depends on nothing but the replies so far. A leaf comes to the same if its one lookup does.

So it is enough to compare lookups, and only those for names that the requirement reads.
-/

namespace Accolade

variable {σ τ : Type}

/-- Whether two results are equal and what stands beside them is related. -/
def SameBeside {α β γ : Type} (R : β → γ → Prop) (first : α × β) (second : α × γ) : Prop :=
  first.1 = second.1 ∧ R first.2 second.2

/-- Two such results are one value with related things beside it. -/
theorem SameBeside.spread {α β γ : Type} {R : β → γ → Prop} {first : α × β} {second : α × γ}
    (same : SameBeside R first second) :
    ∃ value here there, first = (value, here) ∧ second = (value, there) ∧ R here there :=
  ⟨first.1, first.2, second.2, rfl, Prod.ext same.1.symm rfl, same.2⟩

namespace Requirement

mutual

/-- A name that a leaf of a tree reads is among the names that the tree reads. -/
theorem leafNames_of_leaf (kind : FactKind) (name : String) : ∀ (requirement : Requirement)
    (leaf : Requirement), leaf ∈ requirement.leaves → name ∈ leaf.leafNames kind →
    name ∈ requirement.leafNames kind
  | .achievement _ _, _, member, reads => List.mem_singleton.mp member ▸ reads
  | .experience _ _, _, member, reads => List.mem_singleton.mp member ▸ reads
  | .event _ _ _, _, member, reads => List.mem_singleton.mp member ▸ reads
  | .anyOf children, leaf, member, reads => leafNames_of_leafOf kind name children leaf member reads
  | .oneOf children, leaf, member, reads => leafNames_of_leafOf kind name children leaf member reads
  | .allOf children, leaf, member, reads => leafNames_of_leafOf kind name children leaf member reads

/-- A name that a leaf of some trees reads is among the names that the trees read. -/
theorem leafNames_of_leafOf (kind : FactKind) (name : String) : ∀ (children : List Requirement)
    (leaf : Requirement), leaf ∈ leavesOf children → name ∈ leaf.leafNames kind →
    name ∈ leafNamesOf kind children
  | [], _, member, _ => by simp [leavesOf] at member
  | child :: rest, leaf, member, reads => by
    rw [leafNamesOf]
    rcases List.mem_append.mp member with own | later
    · exact List.mem_append_left _ (leafNames_of_leaf kind name child leaf own reads)
    · exact List.mem_append_right _ (leafNames_of_leafOf kind name rest leaf later reads)

end

section Trees

variable {lookup : Lookup σ} {other : Lookup τ} {context contextToo : Context} {R : σ → τ → Prop}

/-- Whether a requirement comes to the same in all related states and leaves them related. -/
def RepliesAlike (lookup : Lookup σ) (other : Lookup τ) (context contextToo : Context)
    (R : σ → τ → Prop) (requirement : Requirement) : Prop :=
  ∀ first second, R first second →
    SameBeside R (requirement.evaluate lookup context first)
      (requirement.evaluate other contextToo second)

mutual

/-- A requirement replies alike when its leaves do. -/
theorem repliesAlike_of_leaves : ∀ requirement : Requirement,
    (∀ leaf ∈ requirement.leaves, leaf.RepliesAlike lookup other context contextToo R) →
    requirement.RepliesAlike lookup other context contextToo R
  | .achievement _ _, alike => alike _ (List.mem_singleton.mpr rfl)
  | .experience _ _, alike => alike _ (List.mem_singleton.mpr rfl)
  | .event _ _ _, alike => alike _ (List.mem_singleton.mpr rfl)
  | .anyOf children, alike => evaluateAny_of_leaves children alike
  | .oneOf children, alike => by
    intro first second related
    obtain ⟨replied, kept⟩ := evaluateEach_of_leaves children alike first second related
    exact ⟨congrArg exactlyOne replied, kept⟩
  | .allOf children, alike => evaluateAll_of_leaves children alike

/-- A conjunction whose leaves reply alike replies alike, and stops at the same child. -/
theorem evaluateAll_of_leaves : ∀ children : List Requirement,
    (∀ leaf ∈ leavesOf children, leaf.RepliesAlike lookup other context contextToo R) →
    ∀ first second, R first second →
      SameBeside R (evaluateAll lookup context children first)
        (evaluateAll other contextToo children second)
  | [], _, _, _, related => ⟨rfl, related⟩
  | child :: rest, alike, first, second, related => by
    obtain ⟨early, late⟩ := List.forall_mem_append.mp alike
    obtain ⟨reply, here, there, told, toldToo, kept⟩ :=
      (repliesAlike_of_leaves child early first second related).spread
    simp only [evaluateAll, told, toldToo]
    match reply with
    | .answer true => exact evaluateAll_of_leaves rest late here there kept
    | .answer false => exact ⟨rfl, kept⟩
    | .failed _ => exact ⟨rfl, kept⟩
    | .pending => exact ⟨rfl, kept⟩

/-- A choice whose leaves reply alike replies alike, and stops at the same child. -/
theorem evaluateAny_of_leaves : ∀ children : List Requirement,
    (∀ leaf ∈ leavesOf children, leaf.RepliesAlike lookup other context contextToo R) →
    ∀ first second, R first second →
      SameBeside R (evaluateAny lookup context children first)
        (evaluateAny other contextToo children second)
  | [], _, _, _, related => ⟨rfl, related⟩
  | child :: rest, alike, first, second, related => by
    obtain ⟨early, late⟩ := List.forall_mem_append.mp alike
    obtain ⟨reply, here, there, told, toldToo, kept⟩ :=
      (repliesAlike_of_leaves child early first second related).spread
    simp only [evaluateAny, told, toldToo]
    match reply with
    | .answer true => exact ⟨rfl, kept⟩
    | .answer false => exact evaluateAny_of_leaves rest late here there kept
    | .failed _ => exact ⟨rfl, kept⟩
    | .pending => exact ⟨rfl, kept⟩

/-- Children whose leaves reply alike all reply alike, one after the other. -/
theorem evaluateEach_of_leaves : ∀ children : List Requirement,
    (∀ leaf ∈ leavesOf children, leaf.RepliesAlike lookup other context contextToo R) →
    ∀ first second, R first second →
      SameBeside R (evaluateEach lookup context children first)
        (evaluateEach other contextToo children second)
  | [], _, _, _, related => ⟨rfl, related⟩
  | child :: rest, alike, first, second, related => by
    obtain ⟨early, late⟩ := List.forall_mem_append.mp alike
    obtain ⟨reply, here, there, told, toldToo, kept⟩ :=
      (repliesAlike_of_leaves child early first second related).spread
    obtain ⟨replied, keptToo⟩ := evaluateEach_of_leaves rest late here there kept
    simp only [evaluateEach, told, toldToo]
    exact ⟨congrArg (reply :: ·) replied, keptToo⟩

end

/-- Lookups that come to the same still do so with their failures wrapped. -/
theorem facts_sameBeside {kind : FactKind} {query : Entries} {first : σ} {second : τ}
    (looked : SameBeside R (lookup kind query first) (other kind query second)) :
    SameBeside R (facts lookup kind query first) (facts other kind query second) := by
  obtain ⟨reply, here, there, told, toldToo, kept⟩ := looked.spread
  simp only [facts, told, toldToo]
  cases reply with
  | answer found => exact ⟨rfl, kept⟩
  | failed failure => cases failure <;> exact ⟨rfl, kept⟩
  | pending => exact ⟨rfl, kept⟩

/-- A leaf comes to the same in two contexts that form the same query for its name, provided the
lookup comes to the same. -/
theorem evaluateLeaf_sameBeside {kind : FactKind} {name : String}
    {judge : Entries → List Fact → Reply Bool} {first : σ} {second : τ}
    (formed : contextToo.queryFor name = context.queryFor name)
    (looked : ∀ query, context.queryFor name = .ok query →
      SameBeside R (lookup kind query first) (other kind query second))
    (related : R first second) :
    SameBeside R (evaluateLeaf lookup context kind name judge first)
      (evaluateLeaf other contextToo kind name judge second) := by
  unfold evaluateLeaf
  rw [formed]
  cases asked : context.queryFor name with
  | error failure => exact ⟨rfl, related⟩
  | ok query =>
    obtain ⟨reply, here, there, told, toldToo, kept⟩ :=
      (facts_sameBeside (looked query asked)).spread
    simp only [told, toldToo]
    cases reply <;> exact ⟨rfl, kept⟩

/-- A requirement replies alike when the lookups for the names that it reads come to the same. -/
theorem repliesAlike_of_names {requirement : Requirement}
    (formed : ∀ name, contextToo.queryFor name = context.queryFor name)
    (looked : ∀ kind, ∀ name ∈ requirement.leafNames kind, ∀ query,
      context.queryFor name = .ok query → ∀ first second, R first second →
        SameBeside R (lookup kind query first) (other kind query second)) :
    requirement.RepliesAlike lookup other context contextToo R := by
  refine repliesAlike_of_leaves requirement fun leaf member first second related => ?_
  have read : ∀ kind name query, name ∈ leaf.leafNames kind → context.queryFor name = .ok query →
      SameBeside R (lookup kind query first) (other kind query second) :=
    fun kind name query own asked =>
      looked kind name (leafNames_of_leaf kind name requirement leaf member own) query asked
        first second related
  have known := leaves_isLeaf requirement leaf member
  cases leaf with
  | achievement name test =>
    exact evaluateLeaf_sameBeside (formed name)
      (fun query => read .achievement name query (by simp [leafNames])) related
  | experience name test =>
    exact evaluateLeaf_sameBeside (formed name)
      (fun query => read .experience name query (by simp [leafNames])) related
  | event name test conditions =>
    exact evaluateLeaf_sameBeside (formed name)
      (fun query => read .event name query (by simp [leafNames])) related
  | _ => contradiction

end Trees

end Requirement

/-- Adding up what was awarded comes to the same when its lookup does. -/
theorem awardedAmount_sameBeside {lookup : Lookup σ} {other : Lookup τ} {R : σ → τ → Prop}
    {context : Context} {name : String} {first : σ} {second : τ}
    (looked : ∀ query, context.queryFor name = .ok query →
      SameBeside R (lookup .achievement query first) (other .achievement query second))
    (related : R first second) :
    SameBeside R (awardedAmount lookup context name first)
      (awardedAmount other context name second) := by
  unfold awardedAmount
  cases asked : context.queryFor name with
  | error failure => exact ⟨rfl, related⟩
  | ok query =>
    obtain ⟨reply, here, there, told, toldToo, kept⟩ :=
      (Requirement.facts_sameBeside (looked query asked)).spread
    simp only [told, toldToo]
    cases reply with
    | answer found =>
      dsimp only
      cases totalAmount (found.map (·.amount)) <;> exact ⟨rfl, kept⟩
    | failed failure => exact ⟨rfl, kept⟩
    | pending => exact ⟨rfl, kept⟩

end Accolade
