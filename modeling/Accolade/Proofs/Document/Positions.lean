import Accolade.Proofs.Document.Sameness

/-!
# Positions in values

A position in a value is a path to it: items of a list by their number, what a mapping holds under a
key, the two parts of a pair. The keys of a mapping and the members of a set have positions as well,
for they are values too. A key is told by what it denotes, so a path leads to corresponding
positions in values that are the same.

Two values that are the same have the same shape at each position, and the scalars there denote the
same. They need not be equal: a number may stand where the other value has a boolean. The
counterpart of a scalar is the one that shows this, a number for a boolean and a boolean for zero
or one. A value with all scalars replaced by their counterparts is the same as the value.
-/

namespace Accolade

namespace Value

/-- A step from a value to one of its parts. -/
inductive Step
  | item (index : Nat)
  | key (key : Scalar)
  | under (key : Scalar)
  | first
  | second
  | member (member : Scalar)

/-- The part that a step leads to. -/
def part? : Value → Step → Option Value
  | .list items, .item index => items[index]?
  | .mapping entries, .key key => ((Entries.keys entries).find? (·.same key)).map .scalar
  | .mapping entries, .under key => Entries.find? entries key
  | .pair first _, .first => some first
  | .pair _ second, .second => some second
  | .set members, .member member => (members.find? (·.same member)).map .scalar
  | _, _ => none

/-- What stands at the position that a path leads to. -/
def at? (value : Value) : List Step → Option Value
  | [] => some value
  | step :: path => (value.part? step).bind fun part => at? part path

/-- Whether two values are of one shape, as far as can be told without looking at their parts:
scalars that denote the same, or collections of one kind and size. -/
def SameShape : Value → Value → Prop
  | .scalar a, .scalar b => a.same b = true
  | .list xs, .list ys => xs.length = ys.length
  | .mapping xs, .mapping ys => xs.length = ys.length
  | .pair _ _, .pair _ _ => True
  | .set xs, .set ys => xs.length = ys.length
  | .enclosing a, .enclosing b => a = b
  | _, _ => False

/-- Lists of the same items are of one length, as the items are compared in pairs. -/
theorem length_of_sameItems {xs ys : List Value} (alike : sameItems xs ys = true) :
    xs.length = ys.length := by
  induction xs generalizing ys with
  | nil => cases ys <;> simp_all [sameItems]
  | cons x rest inductionHypothesis =>
    cases ys with
    | nil => simp [sameItems] at alike
    | cons y others =>
      simp only [sameItems, Bool.and_eq_true] at alike
      simp [inductionHypothesis alike.2]

/-- Values that are the same are of one shape. -/
theorem sameShape_of_same {a b : Value} (alike : same a b = true) : SameShape a b := by
  cases a <;> cases b <;>
    simp only [same, Bool.and_eq_true, beq_iff_eq, Bool.false_eq_true] at alike
  case scalar => exact alike
  case list => exact length_of_sameItems alike
  case mapping => exact alike.1
  case pair => trivial
  case set => exact alike.1
  case enclosing => exact alike

/-- Of two lists with the same items, those at one place are the same. -/
theorem getElem?_of_sameItems {xs ys : List Value} (alike : sameItems xs ys = true) {index : Nat}
    {part : Value} (found : xs[index]? = some part) :
    ∃ other, ys[index]? = some other ∧ same part other = true := by
  induction xs generalizing ys index with
  | nil => simp at found
  | cons x rest inductionHypothesis =>
    cases ys with
    | nil => simp [sameItems] at alike
    | cons y others =>
      simp only [sameItems, Bool.and_eq_true] at alike
      cases index with
      | zero =>
        obtain rfl : x = part := by simpa using found
        exact ⟨y, rfl, alike.1⟩
      | succ index => exact inductionHypothesis alike.2 (by simpa using found)

/-- If some scalars are found among others, so is the one that is the same as a scalar. -/
theorem find?_of_found {xs ys : List Scalar}
    (found : ∀ x ∈ xs, ∃ y ∈ ys, x.same y = true) {key held : Scalar}
    (here : xs.find? (·.same key) = some held) :
    ∃ other, ys.find? (·.same key) = some other ∧ held.same other = true := by
  have equal : held.same key = true := by simpa using List.find?_some here
  obtain ⟨y, member, alike⟩ := found held (List.mem_of_find?_eq_some here)
  have turned : y.same key = true := Scalar.same_trans (Scalar.same_comm held y ▸ alike) equal
  have present : (ys.find? (·.same key)).isSome = true :=
    List.find?_isSome.mpr ⟨y, member, turned⟩
  obtain ⟨other, there⟩ := Option.isSome_iff_exists.mp present
  have same : other.same key = true := by simpa using List.find?_some there
  exact ⟨other, there, Scalar.same_trans equal (Scalar.same_comm other key ▸ same)⟩

/-- A step that leads somewhere in a value leads in one that is the same to a part that is the
same.

Proof: cases on the value and the step. Items are found at the same places, values under keys that
are the same, and a key of the one among those of the other. -/
theorem part?_of_same {a b : Value} (alike : same a b = true) {step : Step} {part : Value}
    (found : a.part? step = some part) :
    ∃ other, b.part? step = some other ∧ same part other = true := by
  cases a with
  | scalar | enclosing => cases step <;> simp [part?] at found
  | list xs =>
    cases step <;> simp only [part?, reduceCtorEq] at found
    cases b <;> simp only [same, Bool.false_eq_true] at alike
    exact getElem?_of_sameItems alike found
  | pair first second =>
    cases b <;> simp only [same, Bool.and_eq_true, Bool.false_eq_true] at alike
    cases step <;> simp only [part?, Option.some.injEq, reduceCtorEq] at found
    · exact ⟨_, rfl, found ▸ alike.1⟩
    · exact ⟨_, rfl, found ▸ alike.2⟩
  | mapping xs =>
    cases b <;> simp only [same, Bool.and_eq_true, Bool.false_eq_true] at alike
    have entries := (sameEntries_iff _ _).mp alike.2
    cases step <;> simp only [part?, reduceCtorEq] at found
    case key ys key =>
      obtain ⟨held, here, rfl⟩ := Option.map_eq_some_iff.mp found
      have keysFound : ∀ x ∈ Entries.keys xs, ∃ y ∈ Entries.keys ys, x.same y = true := by
        intro x member
        obtain ⟨entry, inside, rfl⟩ := List.mem_map.mp member
        obtain ⟨_, there, _⟩ := entries entry inside
        obtain ⟨other, present, equal⟩ := Entries.mem_of_find there
        exact ⟨other, List.mem_map.mpr ⟨_, present, rfl⟩, Scalar.same_comm other _ ▸ equal⟩
      obtain ⟨other, there, equal⟩ := find?_of_found keysFound here
      exact ⟨.scalar other, by simp [part?, there], equal⟩
    case under ys key =>
      obtain ⟨held, member, equal⟩ := Entries.mem_of_find found
      obtain ⟨other, there, same⟩ := entries _ member
      rw [Entries.find_congr equal] at there
      exact ⟨other, there, same⟩
  | set xs =>
    cases b <;> simp only [same, Bool.and_eq_true, Bool.false_eq_true] at alike
    cases step <;> simp only [part?, reduceCtorEq] at found
    obtain ⟨held, here, rfl⟩ := Option.map_eq_some_iff.mp found
    obtain ⟨other, there, equal⟩ := find?_of_found (by simpa using alike.2) here
    exact ⟨.scalar other, by simp [part?, there], equal⟩

/-- In values that are the same, a path that leads to a part of the one leads to the same part of
the other. -/
theorem at?_of_same {a b : Value} (alike : same a b = true) {path : List Step} {part : Value}
    (found : a.at? path = some part) :
    ∃ other, b.at? path = some other ∧ same part other = true := by
  induction path generalizing a b with
  | nil =>
    obtain rfl : a = part := Option.some.inj found
    exact ⟨b, rfl, alike⟩
  | cons step path inductionHypothesis =>
    obtain ⟨child, here, further⟩ := Option.bind_eq_some_iff.mp found
    obtain ⟨other, there, same⟩ := part?_of_same alike here
    obtain ⟨last, reached, equal⟩ := inductionHypothesis same further
    exact ⟨last, Option.bind_eq_some_iff.mpr ⟨other, there, reached⟩, equal⟩

/-- A path leads somewhere in both of two values that are the same or in neither, and then to parts
of one shape. -/
theorem sameShape_at? {a b : Value} (proper : a.isProper = true) (alike : same a b = true)
    (path : List Step) : Option.Rel SameShape (a.at? path) (b.at? path) := by
  cases here : a.at? path with
  | some part =>
    obtain ⟨other, there, same⟩ := at?_of_same alike here
    rw [there]
    exact .some (sameShape_of_same same)
  | none =>
    cases there : b.at? path with
    | none => exact .none
    | some part =>
      obtain ⟨other, found, _⟩ := at?_of_same (same_symm a proper alike) there
      rw [found] at here
      contradiction

end Value

/-- The scalar that may be taken for another: a number for a boolean, a boolean for zero and one,
and otherwise the scalar itself. -/
def Scalar.counterpart : Scalar → Scalar
  | .boolean flag => .integer (if flag then 1 else 0)
  | scalar =>
    if scalar.same (.boolean true) then .boolean true
    else if scalar.same (.boolean false) then .boolean false
    else scalar

namespace Scalar

/-- A scalar and its counterpart denote the same, since a boolean counts as its number. -/
theorem counterpart_denotation (a : Scalar) : a.counterpart.denotation? = a.denotation? := by
  have taken : ∀ flag : Bool, a.same (.boolean flag) = true →
      (Scalar.boolean flag).denotation? = a.denotation? := by
    intro flag equal
    obtain ⟨denoted, left, right⟩ := (same_iff a _).mp equal
    rw [left, right]
  unfold counterpart
  split
  · rename_i flag
    cases flag <;> rfl
  · split
    · exact taken true ‹_›
    · split
      · exact taken false ‹_›
      · rfl

/-- The counterpart of a scalar is the same as exactly the scalars that it is the same as itself. -/
theorem counterpart_same (a b : Scalar) : a.counterpart.same b = a.same b := by
  simp only [same, counterpart_denotation]

/-- A scalar is the same as the counterpart of another one exactly when it is the same as that one
itself. -/
theorem same_counterpart (a b : Scalar) : a.same b.counterpart = a.same b := by
  rw [same_comm, counterpart_same, same_comm]

/-- Of a scalar that is the same as a boolean and its counterpart, one is a boolean and the other is
not. -/
theorem counterpart_boolean_iff {a : Scalar} {flag : Bool} (equal : a.same (.boolean flag) = true) :
    (∃ held, a.counterpart = .boolean held) ↔ ¬ ∃ held, a = .boolean held := by
  cases a with
  | boolean held => simp [counterpart]
  | _ => cases flag <;> simp [counterpart, equal]

end Scalar

namespace Value

mutual

/-- A value with its scalars replaced by their counterparts. -/
def disguised : Value → Value
  | .scalar value => .scalar value.counterpart
  | .list items => .list (disguisedItems items)
  | .mapping entries => .mapping (disguisedEntries entries)
  | .pair first second => .pair (disguised first) (disguised second)
  | .set members => .set (members.map Scalar.counterpart)
  | .enclosing kind => .enclosing kind

/-- Items with their scalars replaced. -/
def disguisedItems : List Value → List Value
  | [] => []
  | item :: rest => disguised item :: disguisedItems rest

/-- Entries with their scalars replaced. -/
def disguisedEntries : List (Scalar × Value) → List (Scalar × Value)
  | [] => []
  | (key, value) :: rest => (key.counterpart, disguised value) :: disguisedEntries rest

end

/-- Replacing the scalars of entries leaves the number of the entries. -/
theorem disguisedEntries_length (entries : List (Scalar × Value)) :
    (disguisedEntries entries).length = entries.length := by
  induction entries with
  | nil => rfl
  | cons entry rest inductionHypothesis => simp [disguisedEntries, inductionHypothesis]

/-- The keys of entries with their scalars replaced are the counterparts of the keys. -/
theorem keys_disguisedEntries (entries : List (Scalar × Value)) :
    Entries.keys (disguisedEntries entries) = (Entries.keys entries).map Scalar.counterpart := by
  induction entries with
  | nil => rfl
  | cons entry rest inductionHypothesis =>
    simpa [disguisedEntries, Entries.keys] using inductionHypothesis

/-- What is found under a key is found under its counterpart, which is the same key to a mapping. -/
theorem find?_counterpart (entries : Entries) (key : Scalar) :
    Entries.find? entries key.counterpart = Entries.find? entries key := by
  induction entries with
  | nil => rfl
  | cons entry rest inductionHypothesis =>
    simp only [Entries.find?, Scalar.same_counterpart, inductionHypothesis]

/-- Under a key now stands what stood there, with its scalars replaced. -/
theorem find?_disguisedEntries (entries : Entries) (key : Scalar) :
    Entries.find? (disguisedEntries entries) key = (Entries.find? entries key).map disguised := by
  induction entries with
  | nil => rfl
  | cons entry rest inductionHypothesis =>
    simp only [disguisedEntries, Entries.find?, Scalar.counterpart_same, inductionHypothesis]
    split <;> rfl

mutual

/-- A value with its scalars replaced is the same as the same values. -/
theorem same_disguised : ∀ a b : Value, same (disguised a) b = same a b
  | .scalar a, b => by
    cases b <;> simp [disguised, same, Scalar.counterpart_same]
  | .list xs, b => by
    cases b <;> simp [disguised, same, sameItems_disguised xs]
  | .mapping xs, b => by
    cases b <;> simp [disguised, same, disguisedEntries_length, sameEntries_disguised xs]
  | .pair a b, c => by
    cases c <;> simp [disguised, same, same_disguised a, same_disguised b]
  | .set xs, b => by
    have replaced : ∀ ys : List Scalar,
        ((xs.map Scalar.counterpart).all fun x => ys.any (x.same ·)) =
          xs.all fun x => ys.any (x.same ·) := by
      intro ys
      rw [List.all_map]
      refine congrArg xs.all (funext fun x => ?_)
      simp only [Function.comp_apply, Scalar.counterpart_same]
    cases b <;> simp [disguised, same, -List.all_map, replaced]
  | .enclosing _, b => by
    cases b <;> simp [disguised, same]

/-- Items with their scalars replaced are the same as exactly the items that they were the same as
before. -/
theorem sameItems_disguised : ∀ xs ys : List Value,
    sameItems (disguisedItems xs) ys = sameItems xs ys
  | [], _ => by rw [disguisedItems]
  | x :: rest, ys => by
    cases ys <;> simp [disguisedItems, sameItems, same_disguised x, sameItems_disguised rest]

/-- Entries with their scalars replaced are the same as exactly the entries that they were the same
as before. -/
theorem sameEntries_disguised : ∀ xs ys : List (Scalar × Value),
    sameEntries (disguisedEntries xs) ys = sameEntries xs ys
  | [], _ => by rw [disguisedEntries]
  | (key, value) :: rest, ys => by
    simp only [disguisedEntries, sameEntries, find?_counterpart, same_disguised value,
      sameEntries_disguised rest]

end

/-- An item is found where it was, with its scalars replaced. -/
theorem getElem?_disguisedItems (items : List Value) (index : Nat) :
    (disguisedItems items)[index]? = items[index]?.map disguised := by
  induction items generalizing index with
  | nil => simp [disguisedItems]
  | cons item rest inductionHypothesis =>
    cases index <;> simp [disguisedItems, inductionHypothesis]

/-- A scalar is found by its counterpart where it was. -/
theorem find?_map_counterpart (scalars : List Scalar) (key : Scalar) :
    (scalars.map Scalar.counterpart).find? (·.same key) =
      (scalars.find? (·.same key)).map Scalar.counterpart := by
  rw [List.find?_map]
  exact congrArg (fun test => (scalars.find? test).map Scalar.counterpart)
    (funext fun held => Scalar.counterpart_same held key)

/-- A step leads to the part it led to, with its scalars replaced. -/
theorem part?_disguised (value : Value) (step : Step) :
    value.disguised.part? step = (value.part? step).map disguised := by
  cases value with
  | scalar | enclosing => cases step <;> rfl
  | list items => cases step <;> simp [disguised, part?, getElem?_disguisedItems]
  | mapping entries =>
    cases step with
    | key key =>
      simp only [disguised, part?, keys_disguisedEntries, find?_map_counterpart, Option.map_map]
      rfl
    | under key => exact find?_disguisedEntries entries key
    | _ => rfl
  | pair first second => cases step <;> simp [disguised, part?]
  | set members =>
    cases step with
    | member member =>
      simp only [disguised, part?, find?_map_counterpart, Option.map_map]
      rfl
    | _ => rfl

/-- In a value with its scalars replaced, a path leads to what it led to before, with the scalars of
that part replaced. -/
theorem at?_disguised (value : Value) (path : List Step) :
    value.disguised.at? path = (value.at? path).map disguised := by
  induction path generalizing value with
  | nil => rfl
  | cons step path inductionHypothesis =>
    rw [at?, at?, part?_disguised, Option.bind_map, Option.map_bind]
    exact congrArg _ (funext fun part => inductionHypothesis part)

end Value

end Accolade
