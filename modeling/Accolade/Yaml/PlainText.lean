import Accolade.Yaml.Cursor

/-!
# Plain scalars

A plain scalar is words without quotes. It may go on over lines that are indented deeply
enough; a line break between words is folded. It ends before a colon with a gap behind it,
before a comment, before a document mark, before a tab, and in a flow collection before the
marks of the collection.
-/

namespace Accolade.Yaml

/-- Whether a character ends a plain scalar in a flow collection. -/
def isFlowMark (c : Char) : Bool :=
  c == ',' || c == '?' || c == '[' || c == ']' || c == '\x7b' || c == '\x7d'

/-- Whether a colon with this text behind it is no part of a plain scalar. -/
def isValueMark (inFlow : Bool) (rest : List Char) : Bool :=
  startsGap rest || (inFlow && rest.head?.any fun c => c != '?' && isFlowMark c)

/-- The word of a plain scalar at the start of a text. -/
def plainWord (inFlow : Bool) : List Char → List Char
  | [] => []
  | c :: rest =>
    if isGap c || (c = ':' && isValueMark inFlow rest) || (inFlow && isFlowMark c) then []
    else c :: plainWord inFlow rest

/-- The lines without words at the start of a text: how many characters they and the
spaces before the next word take, their breaks, and whether a document mark follows. -/
def emptyPlainLines : List Char → Nat × List Char × Bool
  | [] => (0, [], false)
  | c :: rest =>
    if c = ' ' then
      let (count, breaks, isMarked) := emptyPlainLines rest
      (count + 1, breaks, isMarked)
    else if isBreak c then
      if startsDocumentMark rest then (1, [breakText c], true)
      else
        let (count, breaks, isMarked) := emptyPlainLines rest
        (count + 1, breakText c :: breaks, isMarked)
    else (0, [], false)

/-- What stands between two words of a plain scalar. -/
structure PlainGap where
  /-- what the gap is in the scalar; nothing if the scalar ends here -/
  text : List Char
  count : Nat
  crossesLine : Bool

/-- The gap at the start of a text. -/
def PlainGap.ofText (text : List Char) : PlainGap :=
  let spaces := text.takeWhile (· == ' ')
  match text.drop spaces.length with
  | [] => ⟨spaces, spaces.length, false⟩
  | c :: rest =>
    if isBreak c then
      if startsDocumentMark rest then ⟨[], spaces.length + 1, true⟩
      else
        let (count, breaks, isMarked) := emptyPlainLines rest
        ⟨if isMarked then [] else foldedBreak c breaks, spaces.length + 1 + count, true⟩
    else ⟨spaces, spaces.length, false⟩

/-- A plain scalar that was read, and the place behind it. -/
structure PlainScalar where
  text : List Char
  cursor : Cursor
  /-- whether the last thing read was a line break -/
  crossesLine : Bool

/-- Read the words of a plain scalar from a place on, which is behind a gap. Outside flow
collections the words stand at the indentation or right of it. -/
def plainWords (inFlow : Bool) (indentation : Nat) (gap : PlainGap) (cursor : Cursor) :
    PlainScalar :=
  match _h : plainWord inFlow cursor.rest with
  | [] => ⟨[], cursor, gap.crossesLine⟩
  | c :: word =>
    let next := PlainGap.ofText (cursor.rest.drop (word.length + 1))
    let after := cursor.advance (word.length + 1 + next.count)
    if next.text.isEmpty || after.rest.head? == some '#' ||
        (!inFlow && after.column < indentation) then
      ⟨gap.text ++ c :: word, after, next.crossesLine⟩
    else
      let scalar := plainWords inFlow indentation next after
      { scalar with text := gap.text ++ c :: word ++ scalar.text }
termination_by cursor.rest.length
decreasing_by
  have nonempty : cursor.rest ≠ [] := by
    intro empty
    simp [empty, plainWord] at _h
  have := List.length_pos_iff.mpr nonempty
  simp only [Cursor.rest_advance, List.length_drop]
  omega

/-- Read a plain scalar. -/
def plainScalar (inFlow : Bool) (indentation : Nat) (cursor : Cursor) : PlainScalar :=
  plainWords inFlow indentation ⟨[], 0, false⟩ cursor

end Accolade.Yaml
