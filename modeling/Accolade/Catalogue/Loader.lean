import Accolade.Catalogue.Basic
import Accolade.Rule.RuleReader

/-!
# Loading catalogues

A document defines rules by name under `achievements`. Each definition is read on its
own; a malformed one is rejected with its name and definition and takes no other rule
with it. A rule that replaces a rule not in force is rejected as well, and since that may
leave another one dangling, the check is repeated until it finds nothing.

Strict loading stops at the first rejection, lenient loading collects them. A failure that
is no diagnosis stops either. Before anything is read, every key is put into words; an integer
of too many digits cannot be.
-/

namespace Accolade

/-- A rule left out of a catalogue, its definition and why. -/
structure Rejection where
  rule : String
  definition : Value
  message : String
  deriving Repr

/-- A rejection as the diagnosis that strict loading stops with. -/
def Rejection.diagnosis (rejection : Rejection) : Diagnosis :=
  .configuration
    ("Invalid achievement rule " ++ Text.quoted rejection.rule ++ ": " ++ rejection.message)
    [("rule", .text rejection.rule), ("definition", rejection.definition)]

/-- A catalogue and the rejections on the way to it. -/
structure Loaded where
  catalogue : Catalogue
  rejections : List Rejection
  deriving Repr

namespace Loaded

/-- Whether nothing was rejected. -/
def isComplete (loaded : Loaded) : Bool := loaded.rejections.isEmpty

end Loaded

/-- How rejections are treated. -/
inductive Strictness
  | lenient | strict
  deriving DecidableEq, Repr

namespace Catalogue

/-- The key of the definitions in a document. -/
def definitionsKey : String := "achievements"

/-- The failure of a document without definitions. -/
def noDefinitions (document : Value) : Failure :=
  let keys := match document with
    | .mapping entries => .list ((Entries.keys entries).map .scalar)
    | _ => .null
  .diagnosed (.configuration "Rule document must contain an 'achievements' mapping"
    [("keys", keys)])

/-- Store a definition under a name: in place of the one before, else at the end. -/
def putDefinition (definitions : List (String × Value)) (name : String) (definition : Value) :
    List (String × Value) :=
  match definitions with
  | [] => [(name, definition)]
  | (other, existing) :: rest =>
    if other = name then (other, definition) :: rest
    else (other, existing) :: putDefinition rest name definition

/-- The definitions by name. Keys of one text are one name, whose last definition counts. -/
def namedDefinitions (entries : Entries) : List (String × Value) :=
  entries.foldl (fun definitions (key, definition) =>
    putDefinition definitions key.plain definition) []

/-- The definitions of a document, if all of their keys can be written. -/
def definitionsOf (document : Value) : Except Failure (List (String × Value)) :=
  match document with
  | .mapping entries =>
    match Entries.field? entries definitionsKey with
    | some (.mapping definitions) =>
      if (Entries.keys definitions).all (·.hasText) then .ok (namedDefinitions definitions)
      else .error .tooLongToWrite
    | _ => .error (noDefinitions document)
  | _ => .error (noDefinitions document)

/-- Read the definitions one after the other. -/
def readRules (strictness : Strictness) :
    List (String × Value) → Except Failure (List Rule × List Rejection)
  | [] => .ok ([], [])
  | (name, definition) :: rest =>
    match Rule.read name definition with
    | .ok rule => do
      let (rules, rejections) ← readRules strictness rest
      return (rule :: rules, rejections)
    | .error error =>
      match error.failure name with
      | .diagnosed diagnosis =>
        let rejection : Rejection := ⟨name, definition, diagnosis.message⟩
        match strictness with
        | .strict => .error (.diagnosed rejection.diagnosis)
        | .lenient => do
          let (rules, rejections) ← readRules strictness rest
          return (rules, rejection :: rejections)
      | failure => .error failure

/-- The rules that a rule replaces and that are not among the given ones. -/
def unknownTargets (rules : List Rule) (rule : Rule) : List String :=
  rule.replaces.filter fun target => !rules.any fun other => other.name == target

/-- One round over the rules: each one that replaces a rule no longer there is dropped at
once, so later ones already miss it. -/
def sweep (rules : List Rule) : List Rule → List Rule × List (Rule × List String)
  | [] => (rules, [])
  | rule :: rest =>
    match unknownTargets rules rule with
    | [] => sweep rules rest
    | unknown =>
      let (kept, dropped) := sweep (rules.filter fun other => other.name != rule.name) rest
      (kept, (rule, unknown) :: dropped)

/-- Rounds until one drops nothing. -/
def settleWithin : Nat → List Rule → List Rule × List (Rule × List String)
  | 0, rules => (rules, [])
  | rounds + 1, rules =>
    match sweep rules rules with
    | (kept, []) => (kept, [])
    | (kept, dropped) =>
      let (final, later) := settleWithin rounds kept
      (final, dropped ++ later)

/-- Drop dangling rules until none is left. Every round but the last drops a rule, so one
round more than there are rules is enough. -/
def settle (rules : List Rule) : List Rule × List (Rule × List String) :=
  settleWithin (rules.length + 1) rules

/-- The rejection of a dangling rule. -/
def danglingRejection (definitions : List (String × Value)) (rule : Rule)
    (unknown : List String) : Rejection :=
  let definition := ((definitions.find? fun entry => entry.1 == rule.name).map Prod.snd).getD .null
  ⟨rule.name, definition, "replaces unknown rules " ++ writtenTexts unknown⟩

/-- Load the catalogue that a document defines. -/
def load (strictness : Strictness) (document : Value) : Except Failure Loaded := do
  let definitions ← definitionsOf document
  let (rules, malformed) ← readRules strictness definitions
  let (kept, dropped) := settle rules
  let dangling := dropped.map fun (rule, unknown) => danglingRejection definitions rule unknown
  match strictness, dangling with
  | .strict, rejection :: _ => .error (.diagnosed rejection.diagnosis)
  | _, _ => .ok ⟨⟨kept⟩, malformed ++ dangling⟩

end Catalogue

end Accolade
