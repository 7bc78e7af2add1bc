/-!
# Characters as bytes

A character takes one to four bytes. The first byte tells how many follow it; the next one
must be within bounds that depend on the first, so that every character has one form only
and halves of surrogate pairs have none.
-/

namespace Accolade.Text

/-- How many bytes follow a first byte, its part of the character, and the bounds of the
byte behind it. -/
def leadingByte? (byte : Nat) : Option (Nat × Nat × Nat × Nat) :=
  if byte < 0x80 then some (0, byte, 0x80, 0xbf)
  else if byte < 0xc2 then none
  else if byte < 0xe0 then some (1, byte - 0xc0, 0x80, 0xbf)
  else if byte < 0xf0 then
    some (2, byte - 0xe0, if byte = 0xe0 then 0xa0 else 0x80, if byte = 0xed then 0x9f else 0xbf)
  else if byte < 0xf5 then
    some (3, byte - 0xf0, if byte = 0xf0 then 0x90 else 0x80, if byte = 0xf4 then 0x8f else 0xbf)
  else none

/-- What reading bytes as characters came to. -/
structure Decoded where
  characters : List Char
  /-- the index of the byte that fits no character; it is the count of all bytes when the
  last character is not complete -/
  fault : Option Nat
  deriving Repr

/-- The character that bytes complete, within bounds for the next of them. -/
def characterOf (value low high : Nat) : Nat → List UInt8 → Nat → Except Nat (Char × List UInt8)
  | 0, bytes, _ => .ok (Char.ofNat value, bytes)
  | _ + 1, [], index => .error index
  | missing + 1, byte :: rest, index =>
    if low ≤ byte.toNat ∧ byte.toNat ≤ high then
      characterOf (value * 64 + (byte.toNat - 0x80)) 0x80 0xbf missing rest (index + 1)
    else .error index

/-- Read bytes as characters, at most so many. -/
def decodeWithin : Nat → Nat → List UInt8 → Decoded
  | 0, _, _ => ⟨[], none⟩
  | _ + 1, _, [] => ⟨[], none⟩
  | count + 1, index, byte :: rest =>
    match leadingByte? byte.toNat with
    | none => ⟨[], some index⟩
    | some (missing, value, low, high) =>
      match characterOf value low high missing rest (index + 1) with
      | .error index => ⟨[], some index⟩
      | .ok (c, rest) =>
        let decoded := decodeWithin count (index + missing + 1) rest
        { decoded with characters := c :: decoded.characters }

/-- Read bytes as characters. -/
def decodeUtf8 (bytes : List UInt8) : Decoded := decodeWithin bytes.length 0 bytes

end Accolade.Text
