import Accolade.Document.Sameness

/-!
# Sameness as a relation

Two scalars are the same when they denote the same, so sameness of scalars is symmetric
and transitive at once. For values it is transitive without condition. It is symmetric as
soon as the first value is proper: every mapping and every set in it holds each key once,
as all of them do that are built entry by entry. The point is one of counting. A mapping
that is found in another of its own size, key by key and without repetition, covers it.

Equality of wholes inherits both laws. A proper value is equal to itself when it is
definite: nothing in it is a number without a place.
-/

namespace Accolade

namespace Scalar

/-- Sameness of scalars does not depend on their order. -/
theorem same_comm (a b : Scalar) : a.same b = b.same a := by
  unfold same
  cases a.denotation? with
  | none => cases b.denotation? <;> rfl
  | some first =>
    cases b.denotation? with
    | none => rfl
    | some second => exact Bool.beq_comm

/-- Two scalars are the same exactly when both denote one thing, a number or something of their own
kind. -/
theorem same_iff (a b : Scalar) :
    a.same b = true ↔ ∃ denoted, a.denotation? = some denoted ∧ b.denotation? = some denoted := by
  unfold same
  cases a.denotation? with
  | none => simp
  | some first =>
    cases b.denotation? with
    | none => simp
    | some second =>
      simp only [beq_iff_eq, Option.some.injEq, exists_eq_left']
      exact eq_comm

/-- What is the same as a third scalar on either side is the same. -/
theorem same_trans {a b c : Scalar} (first : a.same b = true) (second : b.same c = true) :
    a.same c = true := by
  obtain ⟨denoted, left, middle⟩ := (same_iff a b).mp first
  obtain ⟨other, again, right⟩ := (same_iff b c).mp second
  have one : denoted = other := Option.some.inj (middle.symm.trans again)
  exact (same_iff a c).mpr ⟨denoted, left, one ▸ right⟩

/-- Scalars that are the same are the same as the same scalars. -/
theorem same_congr {a b : Scalar} (equal : a.same b = true) (c : Scalar) :
    a.same c = b.same c := by
  apply Bool.eq_iff_iff.mpr
  constructor
  · exact same_trans (same_comm a b ▸ equal)
  · exact same_trans equal

/-- Only a text is the same as a text, and only that very text. -/
theorem same_text_iff (a : Scalar) (name : String) :
    a.same (.text name) = true ↔ a = .text name := by
  rw [same_iff]
  cases a with
  | double value => cases value <;> simp [denotation?, Double.place?]
  | text value => simpa [denotation?] using eq_comm
  | _ => simp [denotation?]

/-- Texts are the same exactly when they are one text. -/
@[simp] theorem same_texts (a b : String) : (Scalar.text a).same (.text b) = decide (a = b) := by
  apply Bool.eq_iff_iff.mpr
  simp [same_text_iff]

/-- A scalar other than a number without a place is the same as itself. -/
theorem same_self {a : Scalar} (placed : a.isUndefined = false) : a.same a = true := by
  refine (same_iff a a).mpr ?_
  cases a with
  | double value =>
    cases value with
    | notANumber mark => simp [isUndefined] at placed
    | _ => simp [denotation?, Double.place?]
  | _ => simp [denotation?]

/-- Only a number without a place denotes a mark. -/
theorem undefined_of_denotation {a : Scalar} {mark : Nat}
    (denoted : a.denotation? = some (.undefined mark)) : a.isUndefined = true := by
  cases a with
  | double value =>
    cases value with
    | notANumber mark => rfl
    | _ => simp [denotation?, Double.place?] at denoted
  | _ => simp [denotation?] at denoted

/-- Same scalars are numbers without a place together. -/
theorem isUndefined_congr {a b : Scalar} (equal : a.same b = true) :
    a.isUndefined = b.isUndefined := by
  have carried : ∀ x y : Scalar, x.same y = true → x.isUndefined = true →
      y.isUndefined = true := by
    intro x y alike undefined
    obtain ⟨denoted, left, right⟩ := (same_iff x y).mp alike
    cases x with
    | double value =>
      cases value with
      | notANumber mark =>
        obtain ⟨number, _, rfl⟩ := Option.map_eq_some_iff.mp left
        exact undefined_of_denotation right
      | _ => simp [isUndefined] at undefined
    | _ => simp [isUndefined] at undefined
  exact Bool.eq_iff_iff.mpr ⟨carried a b equal, carried b a (same_comm a b ▸ equal)⟩

end Scalar

/-- No two of some keys are the same. -/
def KeysDistinct (keys : List Scalar) : Prop := keys.Pairwise fun a b => a.same b = false

instance (keys : List Scalar) : Decidable (KeysDistinct keys) :=
  inferInstanceAs (Decidable (keys.Pairwise fun a b => a.same b = false))

/-- Distinct keys that are all found among as many others cover them, and the others are
distinct too. Each key uses up the one it is found as: two keys with one partner would be
the same. -/
theorem covered_of_distinct {xs ys : List Scalar} (distinct : KeysDistinct xs)
    (length : xs.length = ys.length) (found : ∀ x ∈ xs, ∃ y ∈ ys, x.same y = true) :
    KeysDistinct ys ∧ ∀ y ∈ ys, ∃ x ∈ xs, x.same y = true := by
  induction xs generalizing ys with
  | nil =>
    have none : ys = [] := List.eq_nil_of_length_eq_zero length.symm
    subst none
    exact ⟨.nil, by simp⟩
  | cons x rest inductionHypothesis =>
    obtain ⟨apart, restDistinct⟩ := List.pairwise_cons.mp distinct
    obtain ⟨y, member, equal⟩ := found x List.mem_cons_self
    have reorder : ys.Perm (y :: ys.erase y) := List.perm_cons_erase member
    have fewer : rest.length = (ys.erase y).length := by
      rw [List.length_erase_of_mem member, ← length]
      rfl
    have others : ∀ other ∈ rest, ∃ partner ∈ ys.erase y, other.same partner = true := by
      intro other present
      obtain ⟨partner, inside, same⟩ := found other (List.mem_cons_of_mem x present)
      have different : partner ≠ y := by
        rintro rfl
        have joined : x.same other = true :=
          Scalar.same_trans equal (Scalar.same_comm other partner ▸ same)
        rw [apart other present] at joined
        contradiction
      exact ⟨partner, (List.mem_erase_of_ne different).mpr inside, same⟩
    obtain ⟨remaining, covered⟩ := inductionHypothesis restDistinct fewer others
    have headApart : ∀ other ∈ ys.erase y, y.same other = false := by
      intro other inside
      obtain ⟨source, present, same⟩ := covered other inside
      rw [← Scalar.same_congr equal other, Scalar.same_comm x other,
        ← Scalar.same_congr same x, Scalar.same_comm source x]
      exact apart source present
    constructor
    · refine (reorder.pairwise_iff ?_).mpr (List.pairwise_cons.mpr ⟨headApart, remaining⟩)
      intro a b separate
      rw [Scalar.same_comm]
      exact separate
    · intro other inside
      rcases List.mem_cons.mp (reorder.mem_iff.mp inside) with rfl | further
      · exact ⟨x, List.mem_cons_self, equal⟩
      · obtain ⟨source, present, same⟩ := covered other further
        exact ⟨source, List.mem_cons_of_mem x present, same⟩

namespace Entries

/-- What is found under a key is the value of an entry with the same key. -/
theorem mem_of_find {entries : Entries} {key : Scalar} {value : Value}
    (found : find? entries key = some value) :
    ∃ held, (held, value) ∈ entries ∧ held.same key = true := by
  induction entries with
  | nil => simp [find?] at found
  | cons entry rest inductionHypothesis =>
    obtain ⟨held, stored⟩ := entry
    by_cases equal : held.same key = true
    · have here : stored = value := by simpa [find?, equal] using found
      exact ⟨held, here ▸ List.mem_cons_self, equal⟩
    · have later : find? rest key = some value := by simpa [find?, equal] using found
      obtain ⟨other, member, same⟩ := inductionHypothesis later
      exact ⟨other, List.mem_cons_of_mem _ member, same⟩

/-- Under distinct keys every entry is the one found under its key. -/
theorem find_of_mem {entries : Entries} {held key : Scalar} {value : Value}
    (distinct : KeysDistinct (keys entries)) (member : (held, value) ∈ entries)
    (equal : held.same key = true) : find? entries key = some value := by
  induction entries with
  | nil => simp at member
  | cons entry rest inductionHypothesis =>
    obtain ⟨first, stored⟩ := entry
    obtain ⟨apart, restDistinct⟩ := List.pairwise_cons.mp distinct
    rcases List.mem_cons.mp member with here | later
    · obtain ⟨rfl, rfl⟩ := Prod.mk.inj here
      simp [find?, equal]
    · have different : first.same key = false := by
        rw [Scalar.same_comm, ← Scalar.same_congr equal first, Scalar.same_comm]
        exact apart held (List.mem_map.mpr ⟨(held, value), later, rfl⟩)
      simp only [find?, different, Bool.false_eq_true, if_false]
      exact inductionHypothesis restDistinct later

/-- Keys that are the same find the same value, whatever the entries are. -/
theorem find_congr {a b : Scalar} (equal : a.same b = true) (entries : Entries) :
    find? entries a = find? entries b := by
  induction entries with
  | nil => rfl
  | cons entry rest inductionHypothesis =>
    have alike : entry.1.same a = entry.1.same b := by
      rw [Scalar.same_comm entry.1 a, Scalar.same_congr equal, Scalar.same_comm]
    simp [find?, alike, inductionHypothesis]

/-- A value that is stored under a key is found under the same keys, and the others find what they
found. -/
theorem find?_put (entries : Entries) (key other : Scalar) (value : Value) :
    find? (put entries key value) other =
      if key.same other then some value else find? entries other := by
  induction entries with
  | nil => rfl
  | cons entry rest inductionHypothesis =>
    obtain ⟨held, stored⟩ := entry
    by_cases here : held.same key = true
    · have alike : held.same other = key.same other := Scalar.same_congr here other
      by_cases found : key.same other = true <;> simp [put, find?, here, alike, found]
    · by_cases found : held.same other = true
      · have apart : key.same other = false := by
          rw [Scalar.same_comm, ← Scalar.same_congr found, Bool.eq_false_iff]
          exact here
        simp [put, find?, here, found, apart]
      · simpa [put, find?, here, found] using inductionHypothesis

/-- Where all entries of a mapping are stored, a key finds what it finds there, or else what it
found. -/
theorem find?_merge (entries : Entries) {additions : Entries}
    (distinct : KeysDistinct (keys additions)) (key : Scalar) :
    find? (merge entries additions) key = (find? additions key).or (find? entries key) := by
  induction additions generalizing entries with
  | nil => rfl
  | cons entry rest inductionHypothesis =>
    obtain ⟨held, value⟩ := entry
    obtain ⟨apart, restDistinct⟩ := List.pairwise_cons.mp distinct
    have stored : find? (merge entries ((held, value) :: rest)) key =
        (find? rest key).or (find? (put entries held value) key) :=
      inductionHypothesis (put entries held value) restDistinct
    rw [stored, find?_put, find?]
    by_cases here : held.same key = true
    · -- No later entry has the key, so the value stays.
      have unique : find? rest key = none := by
        refine Option.eq_none_iff_forall_ne_some.mpr fun later found => ?_
        obtain ⟨other, member, same⟩ := mem_of_find found
        have clash := apart other (List.mem_map_of_mem member)
        rw [Scalar.same_comm, Scalar.same_congr same, Scalar.same_comm, here] at clash
        contradiction
      simp [here, unique]
    · simp [here]

end Entries

namespace Value

/-- Entries are found in another mapping when each has its like there. -/
theorem sameEntries_iff (xs ys : List (Scalar × Value)) :
    sameEntries xs ys = true ↔
      ∀ entry ∈ xs, ∃ found,
        Entries.find? ys entry.1 = some found ∧ same entry.2 found = true := by
  induction xs with
  | nil => simp [sameEntries]
  | cons entry rest inductionHypothesis =>
    obtain ⟨key, value⟩ := entry
    simp only [sameEntries, Bool.and_eq_true, inductionHypothesis, List.forall_mem_cons]
    cases Entries.find? ys key <;> simp

mutual

/-- Sameness of values is transitive. The induction follows the first value. -/
theorem same_trans : ∀ (a : Value) {b c : Value},
    same a b = true → same b c = true → same a c = true
  | .scalar a, b, c => by
    cases b <;> cases c <;> simp [same]
    exact Scalar.same_trans
  | .list xs, b, c => by
    cases b <;> cases c <;> simp [same]
    exact sameItems_trans xs
  | .mapping xs, b, c => by
    cases b <;> cases c <;> simp [same]
    intro firstLength first secondLength second
    exact ⟨firstLength.trans secondLength, sameEntries_trans xs first second⟩
  | .pair a b, c, d => by
    cases c <;> cases d <;> simp [same]
    intro left right left' right'
    exact ⟨same_trans a left left', same_trans b right right'⟩
  | .set xs, b, c => by
    cases b <;> cases c <;> simp [same]
    intro firstLength first secondLength second
    refine ⟨firstLength.trans secondLength, ?_⟩
    intro x member
    obtain ⟨y, inside, equal⟩ := first x member
    obtain ⟨z, within, further⟩ := second y inside
    exact ⟨z, within, Scalar.same_trans equal further⟩
  | .enclosing a, b, c => by
    cases b <;> cases c <;> simp [same]
    exact Eq.trans

/-- Sameness of items is transitive, item by item. -/
theorem sameItems_trans : ∀ (xs : List Value) {ys zs : List Value},
    sameItems xs ys = true → sameItems ys zs = true → sameItems xs zs = true
  | [], ys, zs => by
    cases ys <;> cases zs <;> simp [sameItems]
  | x :: xs, ys, zs => by
    cases ys <;> cases zs <;> simp [sameItems]
    intro head tail head' tail'
    exact ⟨same_trans x head head', sameItems_trans xs tail tail'⟩

/-- Entries found in entries that are found in a third mapping are found there. -/
theorem sameEntries_trans : ∀ (xs : List (Scalar × Value)) {ys zs : List (Scalar × Value)},
    sameEntries xs ys = true → sameEntries ys zs = true → sameEntries xs zs = true
  | [], _, _ => by simp [sameEntries]
  | (key, value) :: rest, ys, zs => by
    intro first second
    simp only [sameEntries, Bool.and_eq_true] at first ⊢
    obtain ⟨head, tail⟩ := first
    refine ⟨?_, sameEntries_trans rest tail second⟩
    cases found : Entries.find? ys key with
    | none => simp [found] at head
    | some middle =>
      simp only [found] at head
      obtain ⟨held, member, equal⟩ := Entries.mem_of_find found
      obtain ⟨last, there, alike⟩ := (sameEntries_iff ys zs).mp second _ member
      rw [← Entries.find_congr equal, there]
      exact same_trans value head alike

end

mutual

/-- Whether every mapping and every set in a value holds each key once. -/
def isProper : Value → Bool
  | .list items => areProper items
  | .mapping entries => decide (KeysDistinct (Entries.keys entries)) && entriesProper entries
  | .pair first second => isProper first && isProper second
  | .set members => decide (KeysDistinct members)
  | _ => true

/-- Whether every value of a list is proper. -/
def areProper : List Value → Bool
  | [] => true
  | item :: rest => isProper item && areProper rest

/-- Whether every value of some entries is proper. -/
def entriesProper : List (Scalar × Value) → Bool
  | [] => true
  | (_, value) :: rest => isProper value && entriesProper rest

end

/-- Entries are proper when each of their values is. -/
theorem entriesProper_iff (entries : List (Scalar × Value)) :
    entriesProper entries = true ↔ ∀ entry ∈ entries, isProper entry.2 = true := by
  induction entries with
  | nil => simp [entriesProper]
  | cons entry rest inductionHypothesis => simp [entriesProper, inductionHypothesis]

/-- If sameness with each value of a mapping can be turned round, so can sameness with the
mapping itself: its distinct keys cover the other mapping, whose keys are then distinct. -/
theorem sameEntries_turned {xs ys : List (Scalar × Value)}
    (distinct : KeysDistinct (Entries.keys xs)) (length : xs.length = ys.length)
    (contained : sameEntries xs ys = true)
    (turned : ∀ entry ∈ xs, ∀ other, same entry.2 other = true → same other entry.2 = true) :
    sameEntries ys xs = true := by
  have matched := (sameEntries_iff xs ys).mp contained
  have keysMatched : ∀ key ∈ Entries.keys xs, ∃ other ∈ Entries.keys ys,
      key.same other = true := by
    intro key member
    obtain ⟨entry, inside, rfl⟩ := List.mem_map.mp member
    obtain ⟨found, there, _⟩ := matched entry inside
    obtain ⟨held, present, equal⟩ := Entries.mem_of_find there
    exact ⟨held, List.mem_map.mpr ⟨_, present, rfl⟩, Scalar.same_comm held entry.1 ▸ equal⟩
  have keysLength : (Entries.keys xs).length = (Entries.keys ys).length := by
    simpa [Entries.keys] using length
  obtain ⟨othersDistinct, covered⟩ := covered_of_distinct distinct keysLength keysMatched
  refine (sameEntries_iff ys xs).mpr ?_
  rintro ⟨key, value⟩ member
  obtain ⟨partner, inside, equal⟩ := covered key (List.mem_map.mpr ⟨_, member, rfl⟩)
  obtain ⟨⟨_, stored⟩, present, rfl⟩ := List.mem_map.mp inside
  obtain ⟨found, there, alike⟩ := matched _ present
  have one : found = value := Option.some.inj (there.symm.trans
    (Entries.find_of_mem othersDistinct member (Scalar.same_comm _ key ▸ equal)))
  exact ⟨stored, Entries.find_of_mem distinct present equal, turned _ present _ (one ▸ alike)⟩

mutual

/-- Sameness with a proper value can be turned round: no two keys of it share an entry of the other.
-/
theorem same_symm : ∀ (a : Value) {b : Value},
    isProper a = true → same a b = true → same b a = true
  | .scalar a, b => by
    cases b <;> simp [same, Scalar.same_comm]
  | .list xs, b => by
    cases b <;> simp [same, isProper]
    exact sameItems_symm xs
  | .mapping xs, b => by
    cases b with
    | mapping ys =>
      simp only [isProper, same, Bool.and_eq_true, decide_eq_true_eq, beq_iff_eq]
      rintro ⟨distinct, proper⟩ ⟨length, found⟩
      exact ⟨length.symm, sameEntries_turned distinct length found (entries_symm xs proper)⟩
    | _ => simp [same]
  | .pair a b, c => by
    cases c <;> simp [same, isProper]
    intro properFirst properSecond first second
    exact ⟨same_symm a properFirst first, same_symm b properSecond second⟩
  | .set xs, b => by
    cases b <;> simp [same, isProper]
    intro distinct length found
    refine ⟨length.symm, ?_⟩
    intro y member
    obtain ⟨x, inside, equal⟩ := (covered_of_distinct distinct length found).2 y member
    exact ⟨x, inside, Scalar.same_comm x y ▸ equal⟩
  | .enclosing _, b => by
    cases b <;> simp [same]
    exact fun _ => Eq.symm

/-- Sameness with proper items can be turned round. -/
theorem sameItems_symm : ∀ (xs : List Value) {ys : List Value},
    areProper xs = true → sameItems xs ys = true → sameItems ys xs = true
  | [], ys => by
    cases ys <;> simp [sameItems]
  | x :: xs, ys => by
    cases ys <;> simp [sameItems, areProper]
    intro properHead properTail head tail
    exact ⟨same_symm x properHead head, sameItems_symm xs properTail tail⟩

/-- Sameness with each value of proper entries can be turned round. -/
theorem entries_symm : ∀ (xs : List (Scalar × Value)), entriesProper xs = true →
    ∀ entry ∈ xs, ∀ other, same entry.2 other = true → same other entry.2 = true
  | [], _ => by simp
  | (_, value) :: rest, proper => by
    simp only [entriesProper, Bool.and_eq_true] at proper
    intro entry member other alike
    rcases List.mem_cons.mp member with rfl | later
    · exact same_symm value proper.1 alike
    · exact entries_symm rest proper.2 entry later other alike

end

/-- A value that equals another is a number with a place, if it is a number. -/
theorem equals_iff (a b : Value) :
    equals a b = true ↔
      (∀ scalar, a = .scalar scalar → scalar.isUndefined = false) ∧ same a b = true := by
  cases a <;> simp [equals]

/-- Only a text is the same as a text, and only that very text. -/
theorem same_text_iff (a : Value) (name : String) :
    same a (.text name) = true ↔ a = .text name := by
  cases a with
  | scalar value => simp [same, Scalar.same_text_iff]
  | _ => simp [same]

/-- A value equals a text as a whole exactly when it is that text. -/
theorem equals_text_iff (a : Value) (name : String) :
    equals a (.text name) = true ↔ a = .text name := by
  rw [equals_iff, same_text_iff, and_iff_right_iff_imp]
  rintro rfl scalar found
  obtain rfl := Value.scalar.inj found
  rfl

/-- Equality of wholes is transitive, as sameness of values is. -/
theorem equals_trans {a b c : Value} (first : equals a b = true) (second : equals b c = true) :
    equals a c = true := by
  obtain ⟨placed, left⟩ := (equals_iff a b).mp first
  exact (equals_iff a c).mpr ⟨placed, same_trans a left ((equals_iff b c).mp second).2⟩

/-- Equality with a proper value can be turned round. A number that is the same as a number
with a place has that place. -/
theorem equals_symm {a b : Value} (proper : isProper a = true) (equal : equals a b = true) :
    equals b a = true := by
  obtain ⟨placed, alike⟩ := (equals_iff a b).mp equal
  refine (equals_iff b a).mpr ⟨?_, same_symm a proper alike⟩
  rintro scalar rfl
  cases a with
  | scalar other => exact Scalar.isUndefined_congr alike ▸ placed other rfl
  | _ => simp [same] at alike

mutual

/-- Whether nothing in a value is a number without a place. -/
def isDefinite : Value → Bool
  | .scalar value => !value.isUndefined
  | .list items => areDefinite items
  | .mapping entries => entriesDefinite entries
  | .pair first second => isDefinite first && isDefinite second
  | .set members => members.all fun member => !member.isUndefined
  | .enclosing _ => true

/-- Whether every value of a list is definite. -/
def areDefinite : List Value → Bool
  | [] => true
  | item :: rest => isDefinite item && areDefinite rest

/-- Whether every key and every value of some entries is definite. -/
def entriesDefinite : List (Scalar × Value) → Bool
  | [] => true
  | (key, value) :: rest => !key.isUndefined && isDefinite value && entriesDefinite rest

end

/-- Entries are definite when each of their keys and values is. -/
theorem entriesDefinite_iff (entries : List (Scalar × Value)) :
    entriesDefinite entries = true ↔
      ∀ entry ∈ entries, entry.1.isUndefined = false ∧ isDefinite entry.2 = true := by
  induction entries with
  | nil => simp [entriesDefinite]
  | cons entry rest inductionHypothesis => simp [entriesDefinite, inductionHypothesis]

mutual

/-- A proper and definite value is the same as itself. -/
theorem same_self : ∀ (a : Value), isProper a = true → isDefinite a = true → same a a = true
  | .scalar a => by
    intro _ definite
    exact Scalar.same_self (by simpa [isDefinite] using definite)
  | .list xs => by
    simpa [same, isProper, isDefinite] using sameItems_self xs
  | .mapping xs => by
    simp only [isProper, isDefinite, same, Bool.and_eq_true, decide_eq_true_eq, beq_self_eq_true,
      true_and]
    rintro ⟨distinct, proper⟩ definite
    refine (sameEntries_iff xs xs).mpr ?_
    intro entry member
    obtain ⟨named, alike⟩ := entries_self xs proper definite entry member
    exact ⟨entry.2, Entries.find_of_mem distinct member named, alike⟩
  | .pair a b => by
    simp only [isProper, isDefinite, same, Bool.and_eq_true]
    rintro ⟨properFirst, properSecond⟩ ⟨definiteFirst, definiteSecond⟩
    exact ⟨same_self a properFirst definiteFirst, same_self b properSecond definiteSecond⟩
  | .set xs => by
    simp only [isDefinite, same, List.all_eq_true, Bool.not_eq_true', beq_self_eq_true,
      Bool.true_and, List.any_eq_true]
    intro _ definite x member
    exact ⟨x, member, Scalar.same_self (definite x member)⟩
  | .enclosing _ => by simp [same]

/-- Proper and definite items are the same as themselves. -/
theorem sameItems_self : ∀ (xs : List Value), areProper xs = true → areDefinite xs = true →
    sameItems xs xs = true
  | [] => by simp [sameItems]
  | x :: xs => by
    simp only [areProper, areDefinite, sameItems, Bool.and_eq_true]
    rintro ⟨properHead, properTail⟩ ⟨definiteHead, definiteTail⟩
    exact ⟨same_self x properHead definiteHead, sameItems_self xs properTail definiteTail⟩

/-- The keys and values of proper and definite entries are the same as themselves. -/
theorem entries_self : ∀ (xs : List (Scalar × Value)), entriesProper xs = true →
    entriesDefinite xs = true → ∀ entry ∈ xs,
      entry.1.same entry.1 = true ∧ same entry.2 entry.2 = true
  | [], _, _ => by simp
  | (key, value) :: rest, proper, definite => by
    simp only [entriesProper, Bool.and_eq_true] at proper
    simp only [entriesDefinite, Bool.and_eq_true, Bool.not_eq_true'] at definite
    intro entry member
    rcases List.mem_cons.mp member with rfl | later
    · exact ⟨Scalar.same_self definite.1.1, same_self value proper.1 definite.1.2⟩
    · exact entries_self rest proper.2 definite.2 entry later

end

/-- A definite value equals what it is the same as. -/
theorem equals_of_same {a b : Value} (definite : isDefinite a = true) (alike : same a b = true) :
    equals a b = true := by
  refine (equals_iff a b).mpr ⟨?_, alike⟩
  rintro scalar rfl
  simpa [isDefinite] using definite

/-- A proper and definite value equals itself. -/
theorem equals_self {a : Value} (proper : isProper a = true) (definite : isDefinite a = true) :
    equals a a = true :=
  equals_of_same definite (same_self a proper definite)

end Value

end Accolade
