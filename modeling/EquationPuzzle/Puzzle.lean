import EquationPuzzle.Difficulty

/-!
# Puzzles

What is handed to a player: an equation to find and the number it yields.
-/

namespace EquationPuzzle

structure Puzzle where
  equation : Equation
  targetNumber : UInt32
  deriving DecidableEq

def Puzzle.difficulty (puzzle : Puzzle) : Difficulty :=
  Difficulty.classify puzzle.equation puzzle.targetNumber

end EquationPuzzle
