import Accolade.Proofs.Document.Sameness

/-!
# Strict sameness as a relation

Two values are strictly the same when they are equal as wholes and, if one of them is a boolean, the
other is the same boolean. Booleans are told from numbers at the root and nowhere else: below it a
boolean is the number that it denotes. The laws hold all the same. A boolean at the root has no
parts, so nothing but itself is strictly the same as it, and among all other values strict sameness
is equality.

So strict sameness is transitive without condition, and symmetric as soon as the first value is
proper. A value that is proper and definite is strictly the same as itself. Together it is an
equivalence of the values that are both.
-/

namespace Accolade

/-- A double has the place of a rational when that is its exact value. -/
theorem Double.place?_eq_at_iff (double : Double) (exact : Rat) :
    double.place? = some (.at exact) ↔ double.finiteValue? = some exact := by
  cases double with
  | notANumber mark => simp [place?, finiteValue?]
  | infinite negative => cases negative <;> simp [place?, finiteValue?]
  | finite negative significand exponent => simp [place?, finiteValue?]

/-- An integer and a double are the same when the integer is the exact value of the double. -/
theorem Scalar.same_integer_double_iff (number : Int) (double : Double) :
    (Scalar.integer number).same (.double double) = true ↔
      double.finiteValue? = some (number : Rat) := by
  rw [same_iff, ← Double.place?_eq_at_iff]
  cases double <;> simp [denotation?, Double.place?]

namespace Value

variable {a b c : Value}

/-- Values are strictly the same when they are equal, and booleans together. -/
theorem strictlySame_iff (a b : Value) :
    a.strictlySame b = true ↔
      equals a b = true ∧ ∀ flag, a = .boolean flag ↔ b = .boolean flag := by
  unfold strictlySame
  split
  · rename_i first second
    cases first <;> cases second <;> simp <;> decide
  · rename_i first other
    simp only [Bool.false_eq_true, false_iff]
    exact fun both => other first ((both.2 first).mp rfl)
  · rename_i second other
    simp only [Bool.false_eq_true, false_iff]
    exact fun both => other second ((both.2 second).mpr rfl)
  · rename_i notFirst notSecond _
    refine iff_self_and.mpr fun _ flag => ?_
    exact iff_of_false (notFirst flag) (notSecond flag)

/-- A proper and definite value is strictly the same as itself. -/
theorem strictlySame_self (proper : a.isProper = true) (definite : a.isDefinite = true) :
    a.strictlySame a = true :=
  (strictlySame_iff a a).mpr ⟨equals_self proper definite, fun _ => Iff.rfl⟩

/-- Strict sameness with a proper value can be turned round. -/
theorem strictlySame_symm (proper : a.isProper = true) (same : a.strictlySame b = true) :
    b.strictlySame a = true := by
  obtain ⟨equal, booleans⟩ := (strictlySame_iff a b).mp same
  exact (strictlySame_iff b a).mpr ⟨equals_symm proper equal, fun flag => (booleans flag).symm⟩

/-- Strict sameness is transitive: sameness is, and so is being the same boolean or none. -/
theorem strictlySame_trans (first : a.strictlySame b = true) (second : b.strictlySame c = true) :
    a.strictlySame c = true := by
  obtain ⟨equal, booleans⟩ := (strictlySame_iff a b).mp first
  obtain ⟨equalToo, booleansToo⟩ := (strictlySame_iff b c).mp second
  exact (strictlySame_iff a c).mpr
    ⟨equals_trans equal equalToo, fun flag => (booleans flag).trans (booleansToo flag)⟩

/-- A definite value is strictly the same as what it is the same as, if both are booleans or
neither is. -/
theorem strictlySame_iff_same (definite : a.isDefinite = true) (b : Value) :
    a.strictlySame b = true ↔
      same a b = true ∧ ∀ flag, a = .boolean flag ↔ b = .boolean flag := by
  rw [strictlySame_iff]
  refine and_congr_left fun _ => ⟨fun equal => ((equals_iff a b).mp equal).2, ?_⟩
  exact equals_of_same definite

/-- A proper and definite mapping is the same whatever the order of its entries. -/
theorem same_of_perm {entries others : Entries} (permuted : entries.Perm others)
    (proper : isProper (.mapping entries) = true)
    (definite : isDefinite (.mapping entries) = true) :
    same (.mapping entries) (.mapping others) = true := by
  simp only [isProper, isDefinite, Bool.and_eq_true, decide_eq_true_eq] at proper definite
  have distinct : KeysDistinct (Entries.keys others) := by
    refine ((permuted.map Prod.fst).pairwise_iff fun apart => ?_).mp proper.1
    rw [Scalar.same_comm]
    exact apart
  simp only [same, permuted.length_eq, beq_self_eq_true, Bool.true_and]
  refine (sameEntries_iff entries others).mpr fun entry member => ?_
  obtain ⟨named, alike⟩ := entries_self entries proper.2 definite entry member
  exact ⟨entry.2, Entries.find_of_mem distinct (permuted.mem_iff.mp member) named, alike⟩

end Value

/-- A value that is proper and definite: every mapping and every set in it has each key once, and
nothing in it is a number without a place. -/
structure CleanValue where
  value : Value
  proper : value.isProper = true
  definite : value.isDefinite = true

namespace CleanValue

/-- Strict sameness of clean values is an equivalence. It is sameness with booleans told apart at
the root, it does not depend on the order in which a mapping is written, and it takes an integer
for a double only if that is the exact value of the double. -/
theorem strictlySame_equivalence :
    Equivalence (fun a b : CleanValue => a.value.strictlySame b.value = true) ∧
    (∀ a b : CleanValue, a.value.strictlySame b.value = true ↔
      a.value.same b.value = true ∧
        ∀ flag, a.value = .boolean flag ↔ b.value = .boolean flag) ∧
    (∀ (a : CleanValue) (entries others : Entries), a.value = .mapping entries →
      entries.Perm others → a.value.strictlySame (.mapping others) = true) ∧
    ∀ (number : Int) (double : Double),
      (Value.integer number).strictlySame (.double double) = true ↔
        double.finiteValue? = some (number : Rat) := by
  refine ⟨⟨?_, ?_, ?_⟩, ?_, ?_, ?_⟩
  · exact fun a => Value.strictlySame_self a.proper a.definite
  · exact fun {a _} => Value.strictlySame_symm a.proper
  · exact Value.strictlySame_trans
  · exact fun a b => Value.strictlySame_iff_same a.definite b.value
  · rintro ⟨_, proper, definite⟩ entries others rfl permuted
    refine (Value.strictlySame_iff_same definite _).mpr ⟨?_, by simp⟩
    exact Value.same_of_perm permuted proper definite
  · intro number double
    rw [Value.strictlySame_iff_same rfl, Value.same, Scalar.same_integer_double_iff]
    simp

/-- Limits as they are written, with a flag and the first number that no double is. -/
def limits : CleanValue where
  value := .mapping [(.text "caps", .list [.boolean true, .integer 9007199254740993]),
    (.integer 1, .null)]
  proper := by decide
  definite := by decide

/-- The limits with numbers for the flags, and in another order. -/
def numbered : CleanValue where
  value := .mapping [(.boolean true, .null),
    (.text "caps", .list [.integer 1, .integer 9007199254740993])]
  proper := by decide
  definite := by decide

/-- The limits once more, with doubles for the flags. -/
def doubled : CleanValue where
  value := .mapping [(.double (.finite false 1 0), .null),
    (.text "caps", .list [.double (.finite false 2 (-1)), .integer 9007199254740993])]
  proper := by decide
  definite := by decide

/-- The limits are strictly the same as those with doubles, by way of those with numbers, and the
other way round. They may be written in any order. The double next to the number in them is
another. -/
theorem limits_strictlySame :
    limits.value.strictlySame limits.value = true ∧
      limits.value.strictlySame doubled.value = true ∧
      doubled.value.strictlySame limits.value = true ∧
      limits.value.strictlySame (.mapping [(.integer 1, .null),
        (.text "caps", .list [.boolean true, .integer 9007199254740993])]) = true ∧
      (Value.boolean true).strictlySame (.integer 1) = false ∧
      (Value.integer 9007199254740993).strictlySame (.double (.finite false 1 53)) = false := by
  obtain ⟨laws, -, permuted, exact⟩ := strictlySame_equivalence
  have first : limits.value.strictlySame numbered.value = true := by decide +kernel
  have second : numbered.value.strictlySame doubled.value = true := by decide +kernel
  have joined := laws.trans first second
  refine ⟨laws.refl limits, joined, laws.symm joined, ?_, rfl, ?_⟩
  · exact permuted limits _ _ rfl (.swap _ _ [])
  · refine Bool.eq_false_iff.mpr fun same => ?_
    have wrong := (exact _ _).mp same
    exact absurd wrong (by decide +kernel)

end CleanValue

end Accolade
