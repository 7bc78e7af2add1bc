import Mathlib.Algebra.GroupWithZero.Nat
import Mathlib.Data.List.Basic
import Accolade.Rule.Requirement

/-!
# Walks over requirements

A walk takes the trees of a tree from a stack, and finds the names of the leaves in their order
from left to right, as a traversal of the tree does. What has been found and what the trees on the
stack still hold make up the same names after each round. A round takes one node off the stack,
and never more than that, so a walk ends after as many rounds as the tree has nodes and no sooner.

Names that come up again are left out of what a tree refers to. The rest keep their order, which is
that of their first places.
-/

namespace Accolade.Requirement

/-- The names in a list of trees are those in one after the other. -/
theorem leafNamesOf_eq (kind : FactKind) (trees : List Requirement) :
    leafNamesOf kind trees = trees.flatMap (leafNames kind) := by
  induction trees with
  | nil => rfl
  | cons tree rest inductionHypothesis => rw [leafNamesOf, inductionHypothesis, List.flatMap_cons]

/-- The nodes of a list of trees are those of each. -/
theorem sizeOfAll_eq (trees : List Requirement) : sizeOfAll trees = (trees.map size).sum := by
  induction trees with
  | nil => rfl
  | cons tree rest inductionHypothesis => rw [sizeOfAll, inductionHypothesis, List.map_cons,
      List.sum_cons]

/-- Every tree has a node, its root. -/
theorem size_pos (requirement : Requirement) : 0 < requirement.size := by
  cases requirement <;> simp [size]

namespace Walk

/-- How many nodes the trees on the stack have. -/
def work (walk : Walk) : Nat := (walk.stack.map size).sum

/-- The names of a kind that a walk has found and that it will find. -/
def names (walk : Walk) (kind : FactKind) : List String :=
  walk.found kind ++ walk.stack.reverse.flatMap (leafNames kind)

/-- A walk has ended when there are no nodes left. -/
theorem hasEnded_iff (walk : Walk) : walk.hasEnded = true ↔ walk.work = 0 := by
  unfold hasEnded work
  cases walk.stack with
  | nil => simp
  | cons tree rest =>
    have positive : 0 < tree.size := tree.size_pos
    simp only [List.isEmpty_cons, Bool.false_eq_true, List.map_cons, List.sum_cons, false_iff]
    omega

/-- A round does nothing at the end, and else looks at the tree on top of the stack. -/
theorem step_cases (walk : Walk) :
    (walk.stack = [] ∧ walk.step = walk) ∨
      ∃ rest next, walk.stack = rest ++ [next] ∧
        walk.step = visit { walk with stack := rest } next := by
  rcases List.eq_nil_or_concat' walk.stack with empty | ⟨rest, next, top⟩
  · exact .inl ⟨empty, by simp [step, empty]⟩
  · refine .inr ⟨rest, next, top, ?_⟩
    simp [step, top]

/-- Looking at a tree puts all of its nodes but one on the stack. -/
theorem visit_work (walk : Walk) (tree : Requirement) :
    (walk.visit tree).work + 1 = walk.work + tree.size := by
  cases tree <;>
    simp [visit, note, push, work, size, sizeOfAll_eq, List.sum_reverse, List.map_reverse] <;> omega

/-- Looking at a tree leaves its names to be found next, or finds them. -/
theorem visit_names (walk : Walk) (tree : Requirement) (kind : FactKind) :
    (walk.visit tree).names kind =
      walk.found kind ++ (leafNames kind tree ++ walk.stack.reverse.flatMap (leafNames kind)) := by
  cases tree with
  | achievement | experience | event =>
    simp only [visit, note, names, leafNames]
    split <;> simp
  | anyOf | oneOf | allOf =>
    simp [visit, push, names, leafNames, leafNamesOf_eq]

/-- A round takes one node off the work that is left, if there is one. -/
theorem step_work (walk : Walk) : walk.step.work = walk.work - 1 := by
  rcases walk.step_cases with ⟨empty, same⟩ | ⟨rest, next, top, looked⟩
  · rw [same]
    simp [work, empty]
  · have after := visit_work { walk with stack := rest } next
    have before : walk.work = work { walk with stack := rest } + next.size := by
      simp [work, top]
    rw [looked]
    omega

/-- A round changes nothing about the names that are found in all. -/
theorem step_names (walk : Walk) (kind : FactKind) : walk.step.names kind = walk.names kind := by
  rcases walk.step_cases with ⟨_, same⟩ | ⟨rest, next, top, looked⟩
  · rw [same]
  · rw [looked, visit_names]
    simp [names, top]

/-- Any number of rounds take as many nodes off the work that is left, as long as there are any. -/
theorem advance_work (rounds : Nat) (walk : Walk) :
    (advance rounds walk).work = walk.work - rounds := by
  induction rounds generalizing walk with
  | zero => rfl
  | succ rounds inductionHypothesis =>
    rw [advance, inductionHypothesis, step_work]
    omega

/-- No number of rounds changes the names that a walk will have collected at its end. -/
theorem advance_names (rounds : Nat) (walk : Walk) (kind : FactKind) :
    (advance rounds walk).names kind = walk.names kind := by
  induction rounds generalizing walk with
  | zero => rfl
  | succ rounds inductionHypothesis => rw [advance, inductionHypothesis, step_names]

/-- The walk over a tree ends after as many rounds as the tree has nodes, and no sooner. -/
theorem hasEnded_advance_iff (requirement : Requirement) (rounds : Nat) :
    (advance rounds (start requirement)).hasEnded = true ↔ requirement.size ≤ rounds := by
  have begun : (start requirement).work = requirement.size := by simp [work, start]
  rw [hasEnded_iff, advance_work, begun]
  omega

/-- By then it has found the names of all leaves, from left to right. -/
theorem found_advance {requirement : Requirement} {rounds : Nat}
    (enough : requirement.size ≤ rounds) (kind : FactKind) :
    (advance rounds (start requirement)).found kind = requirement.leafNames kind := by
  have ended := (hasEnded_advance_iff requirement rounds).mpr enough
  have empty : (advance rounds (start requirement)).stack = [] := List.isEmpty_iff.mp ended
  have kept := advance_names rounds (start requirement) kind
  rw [names, empty] at kept
  simpa [names, start] using kept

end Walk

/-- A tree refers to the names of its leaves, each listed where it first occurs. -/
theorem referencedNames_eq (kind : FactKind) (requirement : Requirement) :
    requirement.referencedNames kind = firstOccurrences (requirement.leafNames kind) := by
  rw [referencedNames, Walk.found_advance (Nat.le_refl _)]

/-- The first occurrences in a list are its members. -/
theorem mem_firstOccurrences {name : String} {names : List String} :
    name ∈ firstOccurrences names ↔ name ∈ names := by
  induction names with
  | nil => simp [firstOccurrences]
  | cons first rest inductionHypothesis =>
    by_cases same : name = first <;>
      simp [firstOccurrences, List.mem_filter, inductionHypothesis, same]

/-- The first occurrences stand in the order in which the list has them first. -/
theorem firstOccurrences_ordered (names : List String) :
    (firstOccurrences names).Pairwise fun a b => names.idxOf a < names.idxOf b := by
  induction names with
  | nil => exact .nil
  | cons first rest inductionHypothesis =>
    refine List.pairwise_cons.mpr ⟨?_, ?_⟩
    · intro later member
      have other : later ≠ first := by simpa using (List.mem_filter.mp member).2
      rw [List.idxOf_cons_self, List.idxOf_cons_ne rest other.symm]
      exact Nat.succ_pos _
    · refine List.pairwise_filter.mpr (inductionHypothesis.imp fun {a b} before keepA keepB => ?_)
      have otherA : a ≠ first := by simpa using keepA
      have otherB : b ≠ first := by simpa using keepB
      rw [List.idxOf_cons_ne rest otherA.symm, List.idxOf_cons_ne rest otherB.symm]
      exact Nat.succ_lt_succ before

end Accolade.Requirement
