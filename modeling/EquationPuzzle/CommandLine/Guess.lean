import EquationPuzzle.Text.Blank

/-!
# Typed guesses

Guesses as they come from an ordinary keyboard: blanks around them do not matter, `*`, `x` and `X`
stand for the multiplication sign, and `/` for the division sign.
-/

namespace EquationPuzzle.CommandLine

def normalizeChar (c : Char) : Char :=
  if c = '*' ∨ c = 'x' ∨ c = 'X' then '×'
  else if c = '/' then '÷'
  else c

def normalizeGuess (typed : String) : String :=
  String.ofList ((Text.trim typed).toList.map normalizeChar)

end EquationPuzzle.CommandLine
