/-!
# Why a document cannot be read

Nearly every fault of a document is that it breaks a rule of the format. The others arise
where bytes are no text, where a scalar is tagged as a number or a truth value and its text
is none, where an escape names a number that is no character, or where collections stand
too deep inside one another.
-/

namespace Accolade.Yaml

/-- Why a text is not read as a document. -/
inductive Fault
  /-- a rule of the format is broken -/
  | malformed
  /-- the bytes are no text -/
  | undecodable
  /-- an escape gives the number of no character -/
  | noCharacter (code : Nat)
  /-- a text tagged as a number is none -/
  | noNumber
  /-- a text tagged as a number has nothing but underscores and a sign -/
  | noDigits
  /-- a text tagged as a truth value is none -/
  | noTruthValue
  /-- a number has more digits than are read -/
  | tooManyDigits (count : Nat)
  /-- a power of sixty is beyond the doubles -/
  | overflow
  /-- collections stand too deep inside one another -/
  | tooDeep
  deriving DecidableEq, Repr

end Accolade.Yaml
