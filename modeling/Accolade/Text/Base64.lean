/-!
# Bytes as characters

Four characters of an alphabet of sixty-four write three bytes, six bits each. Characters
outside the alphabet are passed over. A last group of two or three characters is filled up
with equals signs, behind which nothing counts; without them it is incomplete. Only
characters of seven bits may stand in such a text at all.
-/

namespace Accolade.Text

/-- The six bits of a character. -/
def sextet? (c : Char) : Option Nat :=
  if 'A' ≤ c ∧ c ≤ 'Z' then some (c.toNat - 'A'.toNat)
  else if 'a' ≤ c ∧ c ≤ 'z' then some (c.toNat - 'a'.toNat + 26)
  else if c.isDigit then some (c.toNat - '0'.toNat + 52)
  else if c = '+' then some 62
  else if c = '/' then some 63
  else none

/-- The bytes of a text behind so many characters of a group, with the bits left over from
them and the equals signs since. -/
def base64From (position left signs : Nat) : List Char → Option (List UInt8)
  | [] => if position = 0 then some [] else none
  | c :: rest =>
    if c = '=' then
      if position < 2 then base64From position left signs rest
      else if 4 ≤ position + signs + 1 then some []
      else base64From position left (signs + 1) rest
    else
      match sextet? c, position with
      | none, _ => base64From position left signs rest
      | some bits, 0 => base64From 1 bits 0 rest
      | some bits, 1 => (base64From 2 (bits % 16) 0 rest).map (.ofNat (left * 4 + bits / 16) :: ·)
      | some bits, 2 => (base64From 3 (bits % 4) 0 rest).map (.ofNat (left * 16 + bits / 4) :: ·)
      | some bits, _ => (base64From 0 0 0 rest).map (.ofNat (left * 64 + bits) :: ·)

/-- The bytes that a text writes. -/
def base64Bytes? (text : List Char) : Option (List UInt8) :=
  if text.all fun c => c.toNat < 0x80 then base64From 0 0 0 text else none

end Accolade.Text
