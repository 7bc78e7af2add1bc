import Accolade.Yaml.Character

/-!
# Places in a document

A place is the text still to come, how many characters came before, and the line and
column. Columns count characters, save the byte order mark, which has no width.
-/

namespace Accolade.Yaml

/-- A place in a document. -/
structure Cursor where
  rest : List Char
  index : Nat
  line : Nat
  column : Nat
  deriving Repr

namespace Cursor

/-- The mark of byte order. -/
def byteOrderMark : Char := '\ufeff'

/-- The place at the start of a text, behind a byte order mark. -/
def start (text : List Char) : Cursor :=
  match text with
  | c :: rest => if c = byteOrderMark then ⟨rest, 1, 0, 0⟩ else ⟨text, 0, 0, 0⟩
  | [] => ⟨[], 0, 0, 0⟩

/-- The place behind the next character. -/
def next (cursor : Cursor) : Cursor :=
  match cursor.rest with
  | [] => cursor
  | c :: rest =>
    if isBreak c then ⟨rest, cursor.index + 1, cursor.line + 1, 0⟩
    else if c = byteOrderMark then ⟨rest, cursor.index + 1, cursor.line, cursor.column⟩
    else ⟨rest, cursor.index + 1, cursor.line, cursor.column + 1⟩

/-- The place so many characters further on. -/
def advance (cursor : Cursor) : Nat → Cursor
  | 0 => cursor
  | count + 1 => advance cursor.next count

/-- Going on drops characters. -/
theorem rest_advance (cursor : Cursor) (count : Nat) :
    (cursor.advance count).rest = cursor.rest.drop count := by
  induction count generalizing cursor with
  | zero => rfl
  | succ count ih =>
    rw [advance, ih]
    unfold next
    split
    · rename_i h; simp [h]
    · rename_i h; split <;> try split
      all_goals simp [h]

end Cursor

end Accolade.Yaml
