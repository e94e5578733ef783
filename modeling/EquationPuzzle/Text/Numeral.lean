/-!
# Numerals

Numbers in a row of characters: digits of decimal and other bases, and numbers written with a least
number of digits.
-/

namespace EquationPuzzle.Text

/-- The value of a digit in a base up to sixteen; letters may be small or capital. -/
def digit? (base : Nat) (c : Char) : Option Nat :=
  let value :=
    if c.isDigit then c.toNat - '0'.toNat
    else if 'a' ≤ c ∧ c ≤ 'f' then c.toNat - 'a'.toNat + 10
    else if 'A' ≤ c ∧ c ≤ 'F' then c.toNat - 'A'.toNat + 10
    else base
  if value < base then some value else none

/-- The number that characters write in a base, of which there must be one and all must be
digits. -/
def natural? (base : Nat) (characters : List Char) : Option Nat :=
  if characters.isEmpty then none
  else characters.foldlM (fun value c => (digit? base c).map fun digit => value * base + digit) 0

/-- The number that decimal digits write. -/
def naturalOfDigits (digits : List Char) : Nat :=
  digits.foldl (fun value c => value * 10 + (c.toNat - '0'.toNat)) 0

/-- The digits at the start of the characters, and what follows them. -/
def spanDigits (characters : List Char) : List Char × List Char :=
  (characters.takeWhile Char.isDigit, characters.dropWhile Char.isDigit)

/-- A number of at least one and at most so many digits, and what follows it. -/
def readNatural (most : Nat) (characters : List Char) : Option (Nat × List Char) :=
  let digits := (characters.take most).takeWhile Char.isDigit
  if digits.isEmpty then none
  else some (naturalOfDigits digits, characters.drop digits.length)

/-- A number with zeros in front up to a width. -/
def padded (width value : Nat) : String :=
  let digits := Nat.toDigits 10 value
  String.ofList (List.replicate (width - digits.length) '0' ++ digits)

end EquationPuzzle.Text
