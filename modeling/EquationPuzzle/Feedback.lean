import EquationPuzzle.Equation

/-!
# Feedback

The tiles that answer a guess.  A symbol in its right place is correct.  Of the other symbols of the
target, each answers at most one misplaced symbol of the guess, from left to right; a symbol that
finds none left is absent.
-/

namespace EquationPuzzle

/-- The three answers to one symbol, from the least to the most informative. -/
inductive Tile where
  | absent
  | present
  | correct
  deriving DecidableEq, Repr

namespace Tile

def all : List Tile := [absent, present, correct]

def name : Tile → String
  | absent => "absent"
  | present => "present"
  | correct => "correct"

def ofName? (name : String) : Option Tile :=
  all.find? fun tile => tile.name = name

/-- The place of a tile in the order of what it tells. -/
def rank : Tile → Nat
  | absent => 0
  | present => 1
  | correct => 2

/-- The more informative of two tiles. -/
def better (a b : Tile) : Tile :=
  if a.rank ≤ b.rank then b else a

end Tile

abbrev Feedback := Vector Tile equationLength

namespace Feedback

/-- The target's symbols that the guess does not have in place. -/
def leftover : List (Symbol × Symbol) → List Symbol
  | [] => []
  | (guessed, wanted) :: rest =>
    if guessed = wanted then leftover rest else wanted :: leftover rest

/-- The tiles of guessed symbols beside the wanted ones, while the given symbols of the target are
still to be found elsewhere. -/
def mark (available : List Symbol) : List (Symbol × Symbol) → List Tile
  | [] => []
  | (guessed, wanted) :: rest =>
    if guessed = wanted then .correct :: mark available rest
    else if guessed ∈ available then .present :: mark (available.erase guessed) rest
    else .absent :: mark available rest

theorem length_mark (available : List Symbol) (pairs : List (Symbol × Symbol)) :
    (mark available pairs).length = pairs.length := by
  induction pairs generalizing available with
  | nil => rfl
  | cons pair rest ih =>
    rw [mark]
    split
    · simp [ih]
    · split <;> simp [ih]

def ofSpellings (guess target : Spelling) : Feedback :=
  let pairs := guess.toList.zip target.toList
  ⟨(mark (leftover pairs) pairs).toArray, by simp [length_mark, pairs]⟩

/-- The feedback for a guess that need not be an equation.  The guess is read first. -/
def ofTexts (guess target : String) : Except Malformed Feedback := do
  let guessed ← Spelling.ofText guess
  return ofSpellings guessed (← Spelling.ofText target)

def isSolved (feedback : Feedback) : Bool :=
  feedback.all fun tile => tile = .correct

end Feedback

end EquationPuzzle
