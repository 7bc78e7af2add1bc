import Accolade.Document.KeyOrder

/-!
# Which keys can be put in order

Two keys are like one another when both are numbers, both are texts, or both are bytes. Sorting
compares every key with at least one other, so keys can be put in order exactly when all of
them are alike. A key alone is in order whatever it is.
-/

namespace Accolade

namespace Scalar

/-- Likeness of keys goes both ways: a key is like another one exactly when that is like it. -/
theorem isLike_comm (a b : Scalar) : a.isLike b = b.isLike a := by
  cases a <;> cases b <;> rfl

/-- Keys that are like one key are like one another. -/
theorem isLike_trans {a b c : Scalar} (first : a.isLike b = true) (second : b.isLike c = true) :
    a.isLike c = true := by
  cases a <;> cases b <;> cases c <;> simp_all [isLike, isNumber]

/-- Two keys can be compared exactly when they are alike. -/
theorem precedes_ok_iff (a b : Scalar) :
    (∃ before, a.precedes b = .ok before) ↔ a.isLike b = true := by
  unfold precedes
  split
  · rename_i alike
    exact iff_of_true ⟨_, rfl⟩ alike
  · rename_i apart
    exact iff_of_false (by simp) apart

end Scalar

/-- Whether all of some keys are alike. -/
def AreAlike (keys : List Scalar) : Prop := keys.Pairwise fun a b => a.isLike b = true

instance (keys : List Scalar) : Decidable (AreAlike keys) :=
  inferInstanceAs (Decidable (keys.Pairwise _))

namespace AreAlike

variable {key before other : Scalar} {keys rest : List Scalar}

/-- Whether keys are alike does not depend on their order. -/
theorem perm (permuted : keys.Perm rest) : AreAlike keys ↔ AreAlike rest :=
  permuted.pairwise_iff fun alike => (Scalar.isLike_comm _ _).trans alike

/-- A key that is like one of the keys is like all of them. -/
theorem cons_of_mem (alike : AreAlike keys) (member : other ∈ keys)
    (like : key.isLike other = true) : AreAlike (key :: keys) := by
  have front : keys.Perm (other :: keys.erase other) := List.perm_cons_erase member
  have fronted := (perm front).mp alike
  have related := (List.pairwise_cons.mp fronted).1
  refine (perm (front.cons key)).mpr (List.pairwise_cons.mpr ⟨?_, fronted⟩)
  refine List.forall_mem_cons.mpr ⟨like, fun further inside => ?_⟩
  exact Scalar.isLike_trans like (related further inside)

/-- The length of the first run is found among keys that are all alike, rising or falling. -/
theorem runLength (falling : Bool) (alike : AreAlike (before :: keys)) :
    ∃ count, runLength falling before keys = .ok count := by
  induction keys generalizing before with
  | nil => exact ⟨0, rfl⟩
  | cons key rest inductionHypothesis =>
    obtain ⟨related, further⟩ := List.pairwise_cons.mp alike
    obtain ⟨lower, compared⟩ := (Scalar.precedes_ok_iff key before).mpr
      ((Scalar.isLike_comm _ _).trans (related key List.mem_cons_self))
    obtain ⟨count, counted⟩ := inductionHypothesis further
    simp only [Accolade.runLength, compared, counted, bind, Except.bind]
    split
    · exact ⟨count + 1, rfl⟩
    · exact ⟨0, rfl⟩

/-- The first run and the rest are found among keys that are all alike. -/
theorem firstRun (alike : AreAlike keys) : ∃ parts, firstRun keys = .ok parts := by
  match keys with
  | [] => exact ⟨_, rfl⟩
  | [only] => exact ⟨_, rfl⟩
  | a :: b :: rest =>
    obtain ⟨related, further⟩ := List.pairwise_cons.mp alike
    obtain ⟨falling, compared⟩ := (Scalar.precedes_ok_iff b a).mpr
      ((Scalar.isLike_comm _ _).trans (related b List.mem_cons_self))
    obtain ⟨count, counted⟩ := runLength falling further
    simp only [Accolade.firstRun, compared, counted, bind, Except.bind]
    exact ⟨_, rfl⟩

/-- The place of a key among keys like it is found. -/
theorem insertionPlace (low high : Nat) (alike : AreAlike (key :: keys)) :
    ∃ place, insertionPlace key keys low high = .ok place := by
  fun_induction Accolade.insertionPlace key keys low high with
  | case1 _ _ _ _ other _ _ inductionHypothesis => exact inductionHypothesis
  | case2 _ _ _ _ other _ _ inductionHypothesis => exact inductionHypothesis
  | case3 low high below middle other present kinds refused =>
    obtain ⟨before, compared⟩ := (Scalar.precedes_ok_iff key other).mpr
      ((List.pairwise_cons.mp alike).1 other (List.mem_of_getElem? present))
    rw [compared] at refused
    contradiction
  | case4 low => exact ⟨low, rfl⟩
  | case5 low => exact ⟨low, rfl⟩

/-- A key can be put in its place among keys like it. -/
theorem withKey (alike : AreAlike (key :: keys)) : ∃ more, withKey keys key = .ok more := by
  obtain ⟨place, found⟩ := alike.insertionPlace 0 keys.length
  simp only [Accolade.withKey, found, bind, Except.bind]
  exact ⟨_, rfl⟩

end AreAlike

/-- The keys of a first run that was found are alike, since each was compared with the one before
it. -/
theorem alike_of_runLength {falling : Bool} {before : Scalar} {keys : List Scalar} {count : Nat}
    (counted : runLength falling before keys = .ok count) :
    AreAlike ((before :: keys).take (count + 1)) := by
  induction keys generalizing before count with
  | nil => simp [AreAlike]
  | cons key rest inductionHypothesis =>
    cases compared : key.precedes before with
    | error kinds => simp [runLength, compared, bind, Except.bind] at counted
    | ok lower =>
      have like := (Scalar.precedes_ok_iff key before).mp ⟨lower, compared⟩
      simp only [runLength, compared, bind, Except.bind] at counted
      split at counted
      · split at counted
        · contradiction
        · rename_i further later
          cases counted
          have inside : key ∈ (key :: rest).take (further + 1) := by simp
          exact (inductionHypothesis later).cons_of_mem inside
            ((Scalar.isLike_comm _ _).trans like)
      · cases counted
        simp [AreAlike]

/-- A first run that was found and the rest are the keys. The run holds the first key, and its
keys are alike. -/
theorem firstRun_spec {keys run rest : List Scalar} (found : firstRun keys = .ok (run, rest)) :
    AreAlike run ∧ (run ++ rest).Perm keys ∧ (run = [] → rest = []) := by
  match keys with
  | [] =>
    cases found
    exact ⟨.nil, .refl [], fun _ => rfl⟩
  | [only] =>
    cases found
    exact ⟨List.pairwise_singleton _ only, .refl [only], fun _ => rfl⟩
  | a :: b :: others =>
    cases compared : b.precedes a with
    | error kinds => simp [firstRun, compared, bind, Except.bind] at found
    | ok falling =>
      cases counted : runLength falling b others with
      | error kinds => simp [firstRun, compared, counted, bind, Except.bind] at found
      | ok count =>
        have like := (Scalar.precedes_ok_iff b a).mp ⟨falling, compared⟩
        have alike : AreAlike ((a :: b :: others).take (count + 2)) := by
          have inside : b ∈ (b :: others).take (count + 1) := by simp
          exact (alike_of_runLength counted).cons_of_mem inside
            ((Scalar.isLike_comm _ _).trans like)
        have same : run.Perm ((a :: b :: others).take (count + 2)) ∧
            rest = (a :: b :: others).drop (count + 2) := by
          simp only [firstRun, compared, counted, bind, Except.bind, pure, Except.pure,
            Except.ok.injEq, Prod.mk.injEq] at found
          obtain ⟨rfl, rfl⟩ := found
          refine ⟨?_, rfl⟩
          split
          · exact List.reverse_perm _
          · exact .refl _
        obtain ⟨permuted, rfl⟩ := same
        refine ⟨(AreAlike.perm permuted).mpr alike, ?_, ?_⟩
        · calc (run ++ (a :: b :: others).drop (count + 2)).Perm
                ((a :: b :: others).take (count + 2) ++ (a :: b :: others).drop (count + 2)) :=
                permuted.append_right _
            List.Perm _ (a :: b :: others) := by rw [List.take_append_drop]
        · rintro rfl
          simp at permuted

/-- A key that found its place was compared with one of the keys there. -/
theorem exists_like_of_insertionPlace {key : Scalar} {keys : List Scalar} {low high place : Nat}
    (found : insertionPlace key keys low high = .ok place) (below : low < high)
    (within : high ≤ keys.length) : ∃ other ∈ keys, key.isLike other = true := by
  have inside : low + (high - low) / 2 < keys.length := by omega
  refine ⟨keys[low + (high - low) / 2], List.getElem_mem inside, ?_⟩
  unfold insertionPlace at found
  simp only [below, if_true, List.getElem?_eq_getElem inside] at found
  cases compared : key.precedes keys[low + (high - low) / 2] with
  | error kinds => simp [compared] at found
  | ok before => exact (Scalar.precedes_ok_iff _ _).mp ⟨before, compared⟩

/-- Keys with one more key are these keys and it, and it was compared with one of them. -/
theorem withKey_spec {keys more : List Scalar} {key : Scalar}
    (placed : withKey keys key = .ok more) :
    more.Perm (key :: keys) ∧ (keys ≠ [] → ∃ other ∈ keys, key.isLike other = true) := by
  cases found : insertionPlace key keys 0 keys.length with
  | error kinds => simp [withKey, found, bind, Except.bind] at placed
  | ok place =>
    simp only [withKey, found, bind, Except.bind, pure, Except.pure, Except.ok.injEq] at placed
    subst placed
    refine ⟨?_, fun filled => exists_like_of_insertionPlace found
      (List.length_pos_iff.mpr filled) (Nat.le_refl _)⟩
    calc (keys.take place ++ key :: keys.drop place).Perm
          (key :: (keys.take place ++ keys.drop place)) := List.perm_middle
      List.Perm _ (key :: keys) := by rw [List.take_append_drop]

/-- Keys can be put among alike keys one by one exactly when all of them are alike. -/
theorem foldlM_withKey_ok_iff {run rest : List Scalar} (alike : AreAlike run)
    (leads : run = [] → rest = []) :
    (∃ sorted, rest.foldlM withKey run = .ok sorted) ↔ AreAlike (run ++ rest) := by
  induction rest generalizing run with
  | nil => exact iff_of_true ⟨run, rfl⟩ (by simpa using alike)
  | cons key rest inductionHypothesis =>
    have filled : run ≠ [] := fun empty => by simpa using leads empty
    have front : (run ++ key :: rest).Perm (key :: run ++ rest) := List.perm_middle
    rw [AreAlike.perm front, List.foldlM_cons]
    cases placed : withKey run key with
    | error kinds =>
      refine iff_of_false (by simp [bind, Except.bind]) fun all => ?_
      obtain ⟨more, also⟩ := AreAlike.withKey (all.sublist (List.sublist_append_left _ rest))
      rw [also] at placed
      contradiction
    | ok more =>
      obtain ⟨permuted, compared⟩ := withKey_spec placed
      obtain ⟨other, member, like⟩ := compared filled
      have moreAlike := (AreAlike.perm permuted).mpr (alike.cons_of_mem member like)
      have moreFilled : more ≠ [] := fun empty => by simp [empty] at permuted
      rw [← AreAlike.perm (permuted.append_right rest)]
      exact inductionHypothesis moreAlike fun empty => absurd empty moreFilled

/-- Keys can be put in order exactly when all of them are alike. -/
theorem sortedKeys_ok_iff (keys : List Scalar) :
    (∃ sorted, sortedKeys keys = .ok sorted) ↔ AreAlike keys := by
  cases found : firstRun keys with
  | error kinds =>
    refine iff_of_false (by simp [sortedKeys, found, bind, Except.bind]) fun alike => ?_
    obtain ⟨parts, also⟩ := alike.firstRun
    rw [also] at found
    contradiction
  | ok parts =>
    obtain ⟨run, rest⟩ := parts
    obtain ⟨alike, permuted, leads⟩ := firstRun_spec found
    rw [← AreAlike.perm permuted, ← foldlM_withKey_ok_iff alike leads]
    simp only [sortedKeys, found, bind, Except.bind]

/-- Keys put among others one by one are these keys and the others. -/
theorem foldlM_withKey_perm {run rest sorted : List Scalar}
    (placed : rest.foldlM withKey run = .ok sorted) : sorted.Perm (run ++ rest) := by
  induction rest generalizing run with
  | nil =>
    cases placed
    simp
  | cons key rest inductionHypothesis =>
    rw [List.foldlM_cons] at placed
    cases more : withKey run key with
    | error kinds => simp [more, bind, Except.bind] at placed
    | ok joined =>
      simp only [more, bind, Except.bind] at placed
      calc sorted.Perm (joined ++ rest) := inductionHypothesis placed
        List.Perm _ (key :: run ++ rest) := (withKey_spec more).1.append_right rest
        List.Perm _ (run ++ key :: rest) := List.perm_middle.symm

/-- Putting keys in order neither adds nor loses any. -/
theorem sortedKeys_perm {keys sorted : List Scalar} (ordered : sortedKeys keys = .ok sorted) :
    sorted.Perm keys := by
  cases found : firstRun keys with
  | error kinds => simp [sortedKeys, found, bind, Except.bind] at ordered
  | ok parts =>
    simp only [sortedKeys, found, bind, Except.bind] at ordered
    exact (foldlM_withKey_perm ordered).trans (firstRun_spec found).2.1

/-- Whether all of some keys are texts. -/
def AreTexts (keys : List Scalar) : Prop := ∀ key ∈ keys, ∃ name, key = .text name

/-- Texts are alike, so keys that are all texts can be put in order. -/
theorem AreTexts.alike {keys : List Scalar} (texts : AreTexts keys) : AreAlike keys := by
  refine List.pairwise_of_forall_mem_list fun first one second other => ?_
  obtain ⟨_, rfl⟩ := texts first one
  obtain ⟨_, rfl⟩ := texts second other
  rfl

end Accolade
