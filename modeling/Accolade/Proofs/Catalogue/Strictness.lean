import Accolade.Proofs.Catalogue.Closure

/-!
# Strict and lenient loading

Both ways of loading read the same definitions in the same order and drop the same dangling rules
in the same rounds. They part at the first rejection: strict loading stops with it, lenient loading
keeps it and goes on. So what strict loading gives, lenient loading gives as well. Malformed
definitions are rejected before any dangling rule is, so the first rejection that lenient loading
keeps is the one that strict loading stops with.

A failure that is no diagnosis stops both. Where lenient loading gives a catalogue there is none,
and its rejections alone decide what strict loading comes to.
-/

namespace Accolade

namespace Catalogue

variable {document : Value} {loaded : Loaded}

/-- What is read strictly is read leniently as well, with the same rules and no rejections. -/
theorem readRules_lenient_of_strict {definitions : List (String × Value)}
    {outcome : List Rule × List Rejection}
    (reading : readRules .strict definitions = .ok outcome) :
    readRules .lenient definitions = .ok outcome := by
  induction definitions generalizing outcome with
  | nil => exact reading
  | cons entry rest inductionHypothesis =>
    unfold readRules at reading ⊢
    split at reading
    · cases later : readRules .strict rest with
      | error failure => simp [later, bind, Except.bind] at reading
      | ok found =>
        rw [later] at reading
        rw [inductionHypothesis later]
        exact reading
    · split at reading <;> contradiction

/-- What is loaded strictly is loaded leniently as well, since it had nothing to reject. -/
theorem load_lenient_of_strict (loading : load .strict document = .ok loaded) :
    load .lenient document = .ok loaded := by
  unfold load at loading ⊢
  cases found : definitionsOf document with
  | error failure => simp [found, bind, Except.bind] at loading
  | ok definitions =>
    cases reading : readRules .strict definitions with
    | error failure => simp [found, reading, bind, Except.bind] at loading
    | ok outcome =>
      simp only [found, reading, bind, Except.bind] at loading
      simp only [readRules_lenient_of_strict reading, bind, Except.bind]
      split at loading
      · contradiction
      · exact loading

/-- Whichever way a document is loaded, it has definitions that are all reported, and it comes
to their rules and rejections. -/
theorem load_entries {strictness : Strictness} (loading : load strictness document = .ok loaded) :
    ∃ entries, definitionsOf document = .ok (namedDefinitions entries) ∧
      (∀ entry ∈ namedDefinitions entries, IsReported entry) ∧ loaded = loadedFrom entries := by
  have leniently : load .lenient document = .ok loaded := by
    cases strictness with
    | lenient => exact loading
    | strict => exact load_lenient_of_strict loading
  obtain ⟨definitions, _, _, defined, _⟩ := load_rules leniently
  obtain ⟨top, entries, rfl, found, _, rfl⟩ := (definitionsOf_ok_iff _ _).mp defined
  exact ⟨entries, defined, ((load_lenient_iff found loaded).mp leniently).2⟩

/-- Reported definitions are read strictly as they are leniently, if none of them is rejected.
Otherwise the first rejection ends the reading. -/
theorem readRules_strict {definitions : List (String × Value)}
    (reported : ∀ entry ∈ definitions, IsReported entry) :
    readRules .strict definitions =
      match definitions.filterMap rejectionOf? with
      | [] => .ok (definitions.filterMap ruleOf?, [])
      | first :: _ => .error (.diagnosed first.diagnosis) := by
  induction definitions with
  | nil => rfl
  | cons entry rest inductionHypothesis =>
    obtain ⟨name, definition⟩ := entry
    obtain ⟨here, further⟩ := List.forall_mem_cons.mp reported
    rcases here.cases with ⟨rule, reading, given, none, _⟩ | ⟨rejection, _, given, _, _⟩
    · have later := inductionHypothesis further
      simp only [List.filterMap_cons, given, none, readRules, reading]
      rw [later]
      cases rest.filterMap rejectionOf? <;> rfl
    · simp only [List.filterMap_cons, given]
      unfold rejectionOf? at given
      split at given
      · contradiction
      · rename_i error reading
        obtain ⟨diagnosis, diagnosed⟩ := here error reading
        simp only [diagnosed, Failure.diagnosis?, Option.map_some, Option.some.injEq] at given
        simp only [readRules, reading, diagnosed, given]

/-- Strict loading comes to what lenient loading gives, if nothing was rejected, and stops with the
first rejection otherwise. -/
theorem load_strict (loading : load .lenient document = .ok loaded) :
    load .strict document =
      match loaded.rejections with
      | [] => .ok loaded
      | first :: _ => .error (.diagnosed first.diagnosis) := by
  obtain ⟨entries, defined, reported, rfl⟩ := load_entries loading
  have reading := readRules_strict reported
  unfold load
  simp only [defined, bind, Except.bind, reading, loadedFrom, readable]
  cases (namedDefinitions entries).filterMap rejectionOf? with
  | cons first others => rfl
  | nil =>
    dsimp only [List.nil_append]
    cases (settle ((namedDefinitions entries).filterMap ruleOf?)).2 <;> rfl

/-- Strict loading gives a catalogue exactly when lenient loading rejects nothing, and then the same
one. Otherwise it stops with the diagnosis of the first rejection. -/
theorem load_strict_agrees (loading : load .lenient document = .ok loaded) :
    (∀ strictly, load .strict document = .ok strictly ↔
      loaded.rejections = [] ∧ strictly = loaded) ∧
    ∀ first others, loaded.rejections = first :: others →
      load .strict document = .error (.diagnosed first.diagnosis) := by
  rw [load_strict loading]
  cases loaded.rejections with
  | nil => exact ⟨fun strictly => by simp [eq_comm], nofun⟩
  | cons first others =>
    refine ⟨fun strictly => by simp, ?_⟩
    rintro _ _ ⟨⟩
    rfl

/-- Of the tangled entries, strict loading stops with the rule that cannot be read. It is the last
in the document, but the others are found dangling only after it. The sample document is loaded
alike in both ways. -/
theorem load_tangled_strictly :
    let tangled : Value := .mapping [(.text definitionsKey, .mapping tangledEntries)]
    let broken : Rejection := ⟨"Broken", .mapping [(.text "maxAwarded", .integer 0)],
      "maxAwarded: Input should be greater than or equal to 1"⟩
    load .lenient tangled = .ok (loadedFrom tangledEntries) ∧
      load .strict tangled = .error (.diagnosed broken.diagnosis) ∧
      load .strict sampleDocument = load .lenient sampleDocument := by
  intro tangled broken
  have loading : load .lenient tangled = .ok (loadedFrom tangledEntries) := rfl
  have first : (loadedFrom tangledEntries).rejections =
      broken :: (loadedFrom tangledEntries).rejections.tail := rfl
  have sound : load .lenient sampleDocument = .ok ⟨sample, []⟩ := rfl
  refine ⟨loading, (load_strict_agrees loading).2 broken _ first, ?_⟩
  rw [sound]
  exact ((load_strict_agrees sound).1 _).mpr ⟨rfl, rfl⟩

end Catalogue

end Accolade
