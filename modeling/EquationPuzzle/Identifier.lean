import EquationPuzzle.Text.Numeral

/-!
# Identifiers

Identifiers of 128 bits.  They are written as 32 hexadecimal digits in five groups, and read in four
forms: plain, in groups, in groups between braces, and in groups behind `urn:uuid:`.
-/

namespace EquationPuzzle

structure Identifier where
  value : BitVec 128
  deriving DecidableEq, Hashable

namespace Identifier

/-- The bits that mark an identifier as random: the version 4 and the variant 2. -/
def randomMark : BitVec 128 := 0x00000000000040008000000000000000

/-- The places of those bits. -/
def markPlaces : BitVec 128 := 0x000000000000f000c000000000000000

/-- Any bits as a random identifier. -/
def ofRandomBits (bits : BitVec 128) : Identifier :=
  ⟨(bits &&& ~~~markPlaces) ||| randomMark⟩

/-- The lengths of the groups. -/
def groups : List Nat := [8, 4, 4, 4, 12]

def digits (identifier : Identifier) : List Char :=
  let written := Nat.toDigits 16 identifier.value.toNat
  List.replicate (32 - written.length) '0' ++ written

/-- The characters cut into groups of the given lengths. -/
def split : List Nat → List Char → List (List Char)
  | [], _ => []
  | length :: rest, characters =>
    characters.take length :: split rest (characters.drop length)

def text (identifier : Identifier) : String :=
  "-".intercalate ((split groups identifier.digits).map String.ofList)

instance : ToString Identifier := ⟨text⟩

/-- Thirty-two hexadecimal digits. -/
def ofDigits? (characters : List Char) : Option Identifier :=
  if characters.length = 32 then
    (Text.natural? 16 characters).map fun value => ⟨BitVec.ofNat 128 value⟩
  else none

/-- Digits in groups with hyphens between them. -/
def ofGroups? (characters : List Char) : Option Identifier :=
  let parts := characters.splitOn '-'
  if parts.map List.length = groups then ofDigits? parts.flatten else none

def ofText? (text : String) : Option Identifier :=
  let characters := text.toList
  let urn := "urn:uuid:".toList
  if characters.length = 32 then ofDigits? characters
  else if urn.isPrefixOf characters then ofGroups? (characters.drop urn.length)
  else match characters with
    | '\x7b' :: rest =>
      if rest.getLast? = some '\x7d' then ofGroups? rest.dropLast else none
    | _ => ofGroups? characters

end Identifier

end EquationPuzzle
