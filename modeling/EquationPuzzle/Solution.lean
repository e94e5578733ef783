import EquationPuzzle.Equation

/-!
# Accepted solutions

A guess solves a puzzle if it is an equation with the value of the target and uses the target's
symbols equally often.  The target's text need not be an equation itself: any six symbols with a
value will do.
-/

namespace EquationPuzzle

/-- Whether a guess solves the puzzle whose solution is written as the given text. -/
def isAcceptedSolution (guess target : String) : Bool :=
  match Equation.ofText guess, Spelling.ofText target, evaluateText target with
  | .ok equation, .ok spelling, .ok value =>
    equation.value = value && equation.tally == spelling.tally
  | _, _, _ => false

/-- Whether a guess solves the puzzle with the given solution. -/
def Equation.accepts (target : Equation) (guess : String) : Bool :=
  match ofText guess with
  | .ok equation => equation.value = target.value && equation.isPermutationOf target
  | .error _ => false

end EquationPuzzle
