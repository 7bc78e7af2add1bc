import Accolade.Proofs.Document.Positions
import Accolade.Proofs.Document.StrictSameness
import Accolade.Rule.Condition

/-!
# Booleans and numbers in condition values

An attribute that satisfies a condition has the shape of the condition's value at each position, and
a boolean as a whole is met by that boolean only. Below the root a boolean is compared as the number
it denotes. So a condition tells booleans from numbers at each position exactly when its value has
nothing below the root that a boolean could be taken for: no boolean, no zero and no one, be it as
an item, under a key, as a key or as a member.
-/

namespace Accolade

namespace Value

/-- Whether the booleans of two values stand at the same positions. -/
def BooleansAgree (a b : Value) : Prop :=
  ∀ path flag, a.at? path = some (.boolean flag) ↔ b.at? path = some (.boolean flag)

/-- Whether a value has a part that denotes what a boolean does. -/
def HoldsFlag (value : Value) : Prop :=
  ∃ path part flag, path ≠ [] ∧ value.at? path = some (.scalar part) ∧
    part.same (.boolean flag) = true

/-- Values that are strictly the same are the same. -/
theorem same_of_strictlySame {a b : Value} (strict : a.strictlySame b = true) :
    same a b = true :=
  ((equals_iff a b).mp ((strictlySame_iff a b).mp strict).1).2

/-- If one of two values that are strictly the same is a boolean, the other is that boolean. -/
theorem boolean_of_strictlySame {a b : Value} (strict : a.strictlySame b = true) (flag : Bool) :
    a = .boolean flag ↔ b = .boolean flag :=
  ((strictlySame_iff a b).mp strict).2 flag

/-- Values that are strictly the same have their booleans at the same positions, unless the second
has a part that denotes what a boolean does. -/
theorem booleansAgree_of_strictlySame {a b : Value} (strict : a.strictlySame b = true)
    (plain : ¬ b.HoldsFlag) : a.BooleansAgree b := by
  intro path flag
  cases path with
  | nil => simpa [at?] using boolean_of_strictlySame strict flag
  | cons step path =>
    have refused : ∀ part : Scalar, b.at? (step :: path) = some (.scalar part) →
        part.same (.boolean flag) = false := by
      intro part found
      cases equal : part.same (.boolean flag) with
      | false => rfl
      | true => exact absurd ⟨_, part, flag, List.cons_ne_nil _ _, found, equal⟩ plain
    constructor
    · intro found
      obtain ⟨other, there, alike⟩ := at?_of_same (same_of_strictlySame strict) found
      cases other with
      | scalar part =>
        have impossible := refused part there
        rw [Scalar.same_comm] at impossible
        exact absurd (alike.symm.trans impossible) (by decide)
      | _ => simp [same] at alike
    · intro found
      have impossible := refused _ found
      rw [Scalar.same_self rfl] at impossible
      contradiction

/-- A value with parts that denote what booleans do is strictly the same as another whose booleans
stand elsewhere: the value in disguise. -/
theorem disguised_of_holdsFlag {value : Value} (proper : value.isProper = true)
    (definite : value.isDefinite = true) (holds : value.HoldsFlag) :
    value.disguised.strictlySame value = true ∧ ¬ value.disguised.BooleansAgree value := by
  obtain ⟨path, part, flag, below, found, equal⟩ := holds
  have alike : same value.disguised value = true := by
    rw [same_disguised, same_self value proper definite]
  constructor
  · cases value with
    | scalar =>
      -- a scalar has no parts, so no path but the empty one leads anywhere
      cases path with
      | nil => contradiction
      | cons step path => simp [at?, part?] at found
    | list | mapping | pair | set | enclosing => exact alike
  · intro agree
    have changed : value.disguised.at? path = some (.scalar part.counterpart) := by
      rw [at?_disguised, found]
      rfl
    have kept : ∀ held, part.counterpart = .boolean held ↔ part = .boolean held := by
      intro held
      have here := agree path held
      rw [changed, found] at here
      simpa using here
    have apart := Scalar.counterpart_boolean_iff equal
    rw [exists_congr kept] at apart
    exact iff_not_self apart

end Value

namespace Condition

/-- An attribute that is strictly the same as a value has its shape at each position, and if either
is a boolean, so is the other, the same one. If no part of a value denotes what a boolean does, the
condition on it is satisfied only by attributes with booleans where the value has them. If some part
does, the condition is satisfied by an attribute with booleans elsewhere as well. -/
theorem parameter_tellsBooleans (name : String) (value : Value) :
    (∀ actual : Value, actual.isProper = true → actual.strictlySame value = true →
      (∀ path, Option.Rel Value.SameShape (actual.at? path) (value.at? path)) ∧
        ∀ flag, actual = .boolean flag ↔ value = .boolean flag) ∧
      (¬ value.HoldsFlag → ∀ attributes actual,
        Entries.field? attributes name = some actual →
          (parameter name value).holds attributes = true → actual.BooleansAgree value) ∧
      (value.isProper = true → value.isDefinite = true → value.HoldsFlag →
        ∃ attributes actual, Entries.field? attributes name = some actual ∧
          (parameter name value).holds attributes = true ∧ ¬ actual.BooleansAgree value) := by
  refine ⟨fun actual proper strict => ⟨?_, Value.boolean_of_strictlySame strict⟩, ?_, ?_⟩
  · exact Value.sameShape_at? proper (Value.same_of_strictlySame strict)
  · intro plain attributes actual found satisfied
    have strict : actual.strictlySame value = true := by simpa [holds, found] using satisfied
    exact Value.booleansAgree_of_strictlySame strict plain
  · intro proper definite holdsFlag
    obtain ⟨strict, differ⟩ := Value.disguised_of_holdsFlag proper definite holdsFlag
    have found : Entries.field? [(.text name, value.disguised)] name = some value.disguised := by
      simp [Entries.field?, Entries.find?]
    exact ⟨_, _, found, by simpa [holds, found] using strict, differ⟩

/-- A mapping with a one below its root has the shape of one with a boolean in its place, and the
condition on it is satisfied by an attribute whose booleans stand elsewhere. -/
theorem limits_taken_for_flags :
    let limits : Value := .mapping [(.text "daily", .integer 1), (.text "weekly", .integer 5)]
    let flags : Value := .mapping [(.text "weekly", .integer 5), (.text "daily", .boolean true)]
    flags.isProper = true ∧ flags.strictlySame limits = true ∧
      (∀ path, Option.Rel Value.SameShape (flags.at? path) (limits.at? path)) ∧
      limits.isProper = true ∧ limits.isDefinite = true ∧ limits.HoldsFlag ∧
      ∃ attributes actual, Entries.field? attributes "limits" = some actual ∧
        (parameter "limits" limits).holds attributes = true ∧ ¬ actual.BooleansAgree limits := by
  intro limits flags
  have flagsProper : flags.isProper = true := by decide
  have limitsProper : limits.isProper = true := by decide
  have definite : limits.isDefinite = true := by decide
  have strict : flags.strictlySame limits = true := rfl
  have holdsFlag : limits.HoldsFlag :=
    ⟨[.under (.text "daily")], .integer 1, true, by simp, rfl, rfl⟩
  obtain ⟨shaped, -, mistaken⟩ := parameter_tellsBooleans "limits" limits
  exact ⟨flagsProper, strict, (shaped flags flagsProper strict).1, limitsProper, definite,
    holdsFlag, mistaken limitsProper definite holdsFlag⟩

/-- A condition that asks for a list with a boolean is satisfied by a list with the number one. -/
theorem boolean_taken_for_one :
    let asked : Value := .list [.boolean true]
    let given : Value := .list [.integer 1]
    given.strictlySame asked = true ∧
      (parameter "flags" asked).holds [(.text "flags", given)] = true ∧
      asked.at? [.item 0] = some (.boolean true) ∧ given.at? [.item 0] = some (.integer 1) ∧
      ¬ given.BooleansAgree asked := by
  intro asked given
  refine ⟨rfl, rfl, rfl, rfl, fun agree => ?_⟩
  have impossible : some (Value.integer 1) = some (.boolean true) :=
    (agree [.item 0] true).mpr rfl
  simp at impossible

end Condition

end Accolade
