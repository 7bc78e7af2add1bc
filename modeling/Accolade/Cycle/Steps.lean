import Accolade.Cycle.History

/-!
# Cycles step by step

A cycle gives way to others only between its steps. The checks of a pass are one step, which reads
the facts as they are then. To deal with an outcome that the checks have found is another: passing
over it, or trying to award its rule with all the writes of that award.

Two cycles that run at the same time take turns in any order. They share the state of the
collaborators and nothing else.
-/

namespace Accolade

/-- What a cycle does next. -/
inductive Phase
  /-- check the candidates, with so many passes left -/
  | checking (left : Nat)
  /-- deal with these outcomes, after those dealt with and the number of awards among them, with
  so many passes left when that is done -/
  | awarding (left : Nat) (items : List (Rule × Outcome)) (outcomes : List Outcome) (count : Nat)
  /-- nothing more, since a failure escaped a check or since there is nothing left to do -/
  | ended (escaped : Option Failure)
  deriving Repr

/-- A cycle on its way. -/
structure Run (σ : Type) where
  phase : Phase
  progress : Progress σ

namespace Run

variable {σ : Type}

/-- Whether nothing is left to do. -/
def hasEnded (run : Run σ) : Bool :=
  match run.phase with
  | .ended _ => true
  | _ => false

/-- What a run that has ended comes to. -/
def result? (run : Run σ) : Option (Option Failure × Progress σ) :=
  match run.phase with
  | .ended (some failure) => some (some failure, run.progress.note [.timed])
  | .ended none => some (none, run.progress.note [.timed, Engine.completion run.progress])
  | _ => none

/-- A run that goes on in another state. -/
def within (run : Run σ) (state : σ) : Run σ :=
  { run with progress := { run.progress with state := state } }

end Run

namespace CycleRequest

variable {σ : Type}

/-- A cycle that has not begun. -/
def start (request : CycleRequest) (state : σ) : Run σ :=
  ⟨.checking request.engine.maxPasses, .start state request.engine.startsExpired⟩

/-- The next step of a cycle. -/
def step (collaborators : Collaborators σ) (request : CycleRequest) (run : Run σ) : Run σ :=
  match run.phase with
  | .checking 0 =>
    ⟨.ended none, run.progress.note [.passLimitReached request.engine.maxPasses]⟩
  | .checking (left + 1) =>
    if run.progress.expired then ⟨.ended none, run.progress.note [.deadlineReached]⟩
    else
      match request.engine.checks collaborators request.context request.candidates
          run.progress with
      | (some failure, _, progress) => ⟨.ended (some failure), progress⟩
      | (none, items, progress) => ⟨.awarding left items [] 0, progress⟩
  | .awarding left [] outcomes count =>
    let progress := { run.progress with outcomes := run.progress.outcomes ++ outcomes }
    if count = 0 then ⟨.ended none, progress⟩ else ⟨.checking left, progress⟩
  | .awarding left ((rule, outcome) :: rest) outcomes count =>
    if !outcome.shouldAward || run.progress.settled.contains rule.name then
      ⟨.awarding left rest (outcomes ++ [outcome]) count, run.progress⟩
    else
      match request.engine.attempt collaborators request.context rule run.progress with
      | (some error, progress) =>
        ⟨.awarding left rest (outcomes ++ [{ outcome with error := some error }]) count, progress⟩
      | (none, progress) => ⟨.awarding left rest (outcomes ++ [outcome]) (count + 1), progress⟩
  | .ended _ => run

/-- So many steps of a cycle. -/
def advance (collaborators : Collaborators σ) (request : CycleRequest) : Nat → Run σ → Run σ
  | 0, run => run
  | steps + 1, run => advance collaborators request steps (request.step collaborators run)

end CycleRequest

/-- One of two cycles. -/
inductive Side
  | first
  | second
  deriving DecidableEq, Repr

/-- The other cycle. -/
def Side.other : Side → Side
  | .first => .second
  | .second => .first

/-- Two cycles on their way, and the state they share. -/
structure Crossing (σ : Type) where
  state : σ
  run : Side → Run σ

namespace Crossing

variable {σ : Type}

/-- Two cycles that have not begun. -/
def start (requests : Side → CycleRequest) (state : σ) : Crossing σ :=
  ⟨state, fun side => (requests side).start state⟩

/-- The run of a side, in the state that is shared. -/
def current (crossing : Crossing σ) (side : Side) : Run σ :=
  (crossing.run side).within crossing.state

/-- A side takes its next step. -/
def turn (collaborators : Collaborators σ) (requests : Side → CycleRequest)
    (crossing : Crossing σ) (side : Side) : Crossing σ :=
  let next := (requests side).step collaborators (crossing.current side)
  ⟨next.progress.state, fun other => if other = side then next else crossing.run other⟩

/-- The sides take turns. -/
def turns (collaborators : Collaborators σ) (requests : Side → CycleRequest)
    (crossing : Crossing σ) (sides : List Side) : Crossing σ :=
  sides.foldl (turn collaborators requests) crossing

/-- Whether both cycles have ended. -/
def hasEnded (crossing : Crossing σ) : Bool :=
  (crossing.run .first).hasEnded && (crossing.run .second).hasEnded

end Crossing

end Accolade
