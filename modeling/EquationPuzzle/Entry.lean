import EquationPuzzle.Calendar.Timestamp
import EquationPuzzle.Identifier
import EquationPuzzle.Puzzle

/-!
# Entries

What a store keeps: the entries of the pool, from which daily equations are taken, and the daily
equations themselves.
-/

namespace EquationPuzzle

structure PoolEntry where
  id : Identifier
  equation : Equation
  targetNumber : UInt32
  difficulty : Difficulty
  used : Bool
  created : Timestamp
  deriving DecidableEq

namespace PoolEntry

def puzzle (entry : PoolEntry) : Puzzle := ⟨entry.equation, entry.targetNumber⟩

/-- A puzzle as a new entry of the pool. -/
def ofPuzzle (id : Identifier) (created : Timestamp) (puzzle : Puzzle) (used : Bool) :
    PoolEntry where
  id := id
  equation := puzzle.equation
  targetNumber := puzzle.targetNumber
  difficulty := puzzle.difficulty
  used := used
  created := created

end PoolEntry

structure DailyEquation where
  id : Identifier
  date : Day
  equation : Equation
  targetNumber : UInt32
  difficulty : Difficulty
  created : Timestamp
  deriving DecidableEq

namespace DailyEquation

def puzzle (daily : DailyEquation) : Puzzle := ⟨daily.equation, daily.targetNumber⟩

/-- The equation of a day, taken from an entry of the pool. -/
def ofEntry (id : Identifier) (created : Timestamp) (date : Day) (entry : PoolEntry) :
    DailyEquation where
  id := id
  date := date
  equation := entry.equation
  targetNumber := entry.targetNumber
  difficulty := entry.difficulty
  created := created

end DailyEquation

end EquationPuzzle
