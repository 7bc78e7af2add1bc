import Accolade.Yaml.Character

/-!
# Block scalars

A block scalar is the lines below its mark that are indented at least as deeply as its
first line, or as deeply as its header says. A literal one keeps its line breaks. A folded
one folds the breaks between lines that both begin with a word. The header also says
whether the last break and the empty lines at the end are kept.
-/

namespace Accolade.Yaml

/-- What becomes of the end of a block scalar. -/
inductive Chomping
  /-- the last break is kept -/
  | clip
  /-- the last break and the empty lines are kept -/
  | keep
  /-- nothing is kept -/
  | strip
  deriving DecidableEq, Repr

/-- The header of a block scalar. -/
structure BlockHeader where
  chomping : Chomping
  /-- how much deeper than its surroundings the scalar is indented, if the header says -/
  increment : Option Nat
  deriving DecidableEq, Repr

/-- The chomping that a character asks for. -/
def chomping? : Char → Option Chomping
  | '+' => some .keep
  | '-' => some .strip
  | _ => none

/-- Read the header of a block scalar, and the text behind its marks. The two marks stand
in any order. -/
def BlockHeader.read (text : List Char) : Except Fault (BlockHeader × List Char) := do
  let (chomping, text) := readChomping text
  let (increment, text) ← readIncrement text
  let (chomping, text) := match chomping with
    | some _ => (chomping, text)
    | none => if increment.isSome then readChomping text else (none, text)
  if !startsSpace text then .error .malformed
  return (⟨chomping.getD .clip, increment⟩, text)
where
  readChomping (text : List Char) : Option Chomping × List Char :=
    match text with
    | c :: rest =>
      match chomping? c with
      | some chomping => (some chomping, rest)
      | none => (none, text)
    | [] => (none, [])
  readIncrement (text : List Char) : Except Fault (Option Nat × List Char) :=
    match text with
    | c :: rest =>
      if c = '0' then .error .malformed
      else if c.isDigit then .ok (some (c.toNat - '0'.toNat), rest)
      else .ok (none, text)
    | [] => .ok (none, [])

/-- The empty lines at the start of a text, seen from a column: their breaks, how many
characters they and the indentation of the next line take, and how wide that is, up to a
limit. -/
def emptyBlockLines (limit : Nat) : Nat → List Char → List Char × Nat × Nat
  | column, [] => ([], 0, column)
  | column, c :: rest =>
    if c = ' ' ∧ column < limit then
      let (breaks, count, width) := emptyBlockLines limit (column + 1) rest
      (breaks, count + 1, width)
    else if isBreak c then
      let (breaks, count, width) := emptyBlockLines limit 0 rest
      (breakText c :: breaks, count + 1, width)
    else ([], 0, column)

/-- The widest indentation among the empty lines at the start of a text, seen from a
column, and the line behind them. -/
def widestIndentation : Nat → List Char → Nat
  | column, [] => column
  | column, c :: rest =>
    if c = ' ' then widestIndentation (column + 1) rest
    else if isBreak c then max column (widestIndentation 0 rest)
    else column

/-- The lines of a block scalar, up to the last one with a word. -/
structure BlockLines where
  text : List Char
  /-- the break of the last line, if it has one -/
  lastBreak : List Char
  /-- the breaks of the empty lines behind -/
  emptyLines : List Char
  count : Nat

/-- What becomes of the break between two lines of a block scalar. -/
def lineGlue (isFolded : Bool) (first lineBreak next : Char) (emptyLines : List Char) :
    List Char :=
  if isFolded && breakText lineBreak = '\n' && !isBlank first && !isBlank next then
    (if emptyLines.isEmpty then [' '] else []) ++ emptyLines
  else breakText lineBreak :: emptyLines

/-- Read the lines of a block scalar from behind the indentation of the first one. -/
def blockLines (isFolded : Bool) (indentation : Nat) (text : List Char) : BlockLines :=
  match text with
  | [] => ⟨[], [], [], 0⟩
  | c :: rest =>
    let line := rest.takeWhile (!isBreak ·)
    match h : rest.drop line.length with
    | [] => ⟨c :: line, [], [], line.length + 1⟩
    | b :: more =>
      let (breaks, count, column) := emptyBlockLines indentation 0 more
      match more.drop count with
      | [] => ⟨c :: line, [breakText b], breaks, line.length + 2 + count⟩
      | next :: _ =>
        if column = indentation then
          let lines := blockLines isFolded indentation (more.drop count)
          { lines with
            text := c :: line ++ lineGlue isFolded c b next breaks ++ lines.text
            count := line.length + 2 + count + lines.count }
        else ⟨c :: line, [breakText b], breaks, line.length + 2 + count⟩
termination_by text.length
decreasing_by
  have := congrArg List.length h
  simp only [List.length_drop, List.length_cons] at this ⊢
  omega

/-- Read a block scalar behind its mark: its text, and how many characters it takes.
`least` is the least indentation of its lines. -/
def blockScalar (isFolded : Bool) (least : Nat) (text : List Char) :
    Except Fault (List Char × Nat) := do
  let (header, rest) ← BlockHeader.read text
  let body ← afterLine rest
  let indentation := match header.increment with
    | some increment => least + increment - 1
    | none => max least (widestIndentation 0 body)
  let limit := if header.increment.isSome then indentation else body.length
  let (breaks, count, column) := emptyBlockLines limit 0 body
  let first := body.drop count
  let lines :=
    if column = indentation then blockLines isFolded indentation first else ⟨[], [], [], 0⟩
  let kept := match header.chomping with
    | .clip => lines.lastBreak
    | .keep => lines.lastBreak ++ (if lines.count = 0 then breaks else lines.emptyLines)
    | .strip => []
  let leading := if lines.count = 0 then [] else breaks
  return (leading ++ lines.text ++ kept, text.length - body.length + count + lines.count)

end Accolade.Yaml
