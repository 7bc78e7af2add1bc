import Accolade.Catalogue.Basic
import Accolade.Evaluation
import Accolade.Settings.Conversion

/-!
# Profiles

A profile shows the standing awards and the experience of one subject. Facts are looked up
by the subject alone, whatever other scope values they have. Awards whose amount is not
above zero are left out, as are awards of hidden rules when they are not asked for.

Every line of a profile is checked on its own and the first line at fault decides; all
faults of that line are reported.
-/

namespace Accolade

/-- An award as a profile shows it. -/
structure AwardLine where
  name : String
  amount : Int
  scope : Entries
  deriving Repr

/-- Experience as a profile shows it. -/
structure ExperienceLine where
  name : String
  amount : Int
  deriving Repr

/-- The awards and experience of a subject. -/
structure Profile where
  subject : String
  awards : List AwardLine
  experience : List ExperienceLine
  deriving Repr

/-- Why there is no profile. -/
inductive ProfileError
  | failed (failure : Failure)
  | invalid (inputs : List InvalidInput)
  deriving Repr

namespace Profile

/-- The fault of a conversion at a place, if it has one. -/
def faultAt {α : Type} (location : String) : Except InputFault α → List InvalidInput
  | .ok _ => []
  | .error fault => [⟨[.text location], fault⟩]

/-- The faults of scope keys that are no texts. -/
def scopeFaults (scope : Entries) : List InvalidInput := keyFaults "scope" scope

/-- The line of an award. -/
def awardLine (fact : Fact) : Except ProfileError AwardLine :=
  let name := Conversion.text fact.name
  let amount := Conversion.integer fact.amount
  match name, amount, scopeFaults fact.scope with
  | .ok name, .ok amount, [] => .ok ⟨name, amount, fact.scope⟩
  | _, _, faults => .error (.invalid (faultAt "name" name ++ faultAt "amount" amount ++ faults))

/-- The line of an experience total. -/
def experienceLine (fact : Fact) : Except ProfileError ExperienceLine :=
  let name := Conversion.text fact.name
  let amount := Conversion.integer fact.amount
  match name, amount with
  | .ok name, .ok amount => .ok ⟨name, amount⟩
  | _, _ => .error (.invalid (faultAt "name" name ++ faultAt "amount" amount))

/-- Whether an award stands: its amount is above zero. -/
def stands (fact : Fact) : Except Failure Bool :=
  (AmountTest.mk .greater 0).holds fact.amount

/-- Whether an award is among the hidden ones. Only scalars can be looked for. -/
def isHidden (hidden : List String) (fact : Fact) : Except Failure Bool :=
  match fact.name with
  | .scalar name => .ok (hidden.any fun other => name.same (.text other))
  | name => .error (.unhashable name.kind)

/-- Whether an award is shown: it stands and is not hidden. -/
def isShown (hidden : List String) (fact : Fact) : Except Failure Bool := do
  if ← stands fact then return !(← isHidden hidden fact) else return false

/-- The lines of the awards that are shown. -/
def awardLines (hidden : List String) : List Fact → Except ProfileError (List AwardLine)
  | [] => .ok []
  | fact :: rest => do
    if ← (isShown hidden fact).mapError .failed then
      let line ← awardLine fact
      return line :: (← awardLines hidden rest)
    else awardLines hidden rest

/-- The rules whose awards are left out. -/
def hiddenNames (catalogue : Option Catalogue) (includeHidden : Bool) : List String :=
  match catalogue with
  | some catalogue =>
    if includeHidden then [] else (catalogue.rules.filter (·.hidden)).map (·.name)
  | none => []

/-- The profile of a subject over the facts found. -/
def ofFacts (subject : Value) (hidden : List String) (awards experience : List Fact) :
    Except ProfileError Profile := do
  let awards ← awardLines hidden awards
  let experience ← experience.mapM experienceLine
  match Conversion.text subject with
  | .ok subject => return ⟨subject, awards, experience⟩
  | .error fault => .error (.invalid [⟨[.text subjectKey], fault⟩])

/-- Look up the facts of the subject of a context and make its profile. -/
def build {σ : Type} (lookup : Lookup σ) (context : Context) (catalogue : Option Catalogue)
    (includeHidden : Bool) (state : σ) : Reply (Except ProfileError Profile) × σ :=
  let query : Entries := [(.text subjectKey, context.subject)]
  match lookup .achievement query state with
  | (.failed failure, state) => (.answer (.error (.failed failure)), state)
  | (.pending, state) => (.pending, state)
  | (.answer awards, state) =>
    match lookup .experience query state with
    | (.failed failure, state) => (.answer (.error (.failed failure)), state)
    | (.pending, state) => (.pending, state)
    | (.answer experience, state) =>
      (.answer (ofFacts context.subject (hiddenNames catalogue includeHidden) awards experience),
        state)

end Profile

end Accolade
