/-!
# Blank characters

The characters with the Unicode property White_Space, and texts without them at their ends.
-/

namespace EquationPuzzle.Text

/-- The code points of blank characters, as ranges with both ends. -/
def blankRanges : List (Nat × Nat) :=
  [(0x09, 0x0D), (0x20, 0x20), (0x85, 0x85), (0xA0, 0xA0), (0x1680, 0x1680), (0x2000, 0x200A),
    (0x2028, 0x2029), (0x202F, 0x202F), (0x205F, 0x205F), (0x3000, 0x3000)]

def isBlank (c : Char) : Bool :=
  blankRanges.any fun (first, last) => first ≤ c.toNat && c.toNat ≤ last

/-- The characters from the first that is not blank on. -/
def skipBlanks (characters : List Char) : List Char :=
  characters.dropWhile isBlank

/-- A text without the blanks at its two ends. -/
def trim (text : String) : String :=
  String.ofList (skipBlanks (skipBlanks text.toList).reverse).reverse

end EquationPuzzle.Text
