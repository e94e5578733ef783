import EquationPuzzle.Equation

/-!
# Difficulty

Three levels of difficulty.  An equation is hard if it divides, if it multiplies beside another
operation, or if its target number is above fifty; otherwise it is of medium difficulty if it
multiplies or has several operations, and easy if not.
-/

namespace EquationPuzzle

inductive Difficulty where
  | easy
  | medium
  | hard
  deriving DecidableEq, Repr

namespace Difficulty

def all : List Difficulty := [easy, medium, hard]

def name : Difficulty → String
  | easy => "easy"
  | medium => "medium"
  | hard => "hard"

def ofName? (name : String) : Option Difficulty :=
  all.find? fun difficulty => difficulty.name = name

/-- What is said of a text that names no difficulty. -/
def unknownMessage (name : String) : String :=
  "unknown difficulty '" ++ name ++ "': expected easy, medium or hard"

def classify (equation : Equation) (target : UInt32) : Difficulty :=
  let operators := equation.operators
  let divides := operators.contains .divide
  let multiplies := operators.contains .multiply
  let several := 1 < operators.length
  if divides || (multiplies && several) || 50 < target then hard
  else if multiplies || several then medium
  else easy

end Difficulty

end EquationPuzzle
