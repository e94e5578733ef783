import EquationPuzzle.Calendar.Timestamp
import EquationPuzzle.Chance
import EquationPuzzle.Identifier

/-!
# Supplies

Where new records get their randomness, their identifiers and their times from.  All of it is fixed
when a supply is made, so that whatever draws on a supply is a function of it.
-/

namespace EquationPuzzle

structure Supply where
  words : WordSource
  identifier : Nat → Identifier
  moment : Nat → Timestamp
  /-- How many records have been made. -/
  issued : Nat := 0

namespace Supply

/-- Four words of a source, as the bits of an identifier. -/
def identifierBits (source : WordSource) (number : Nat) : BitVec 128 :=
  let word (place : Nat) : BitVec 32 := (source.word (4 * number + place)).toBitVec
  word 0 ++ word 1 ++ word 2 ++ word 3

/-- The supply that two seeds determine.  All its records are made at one time. -/
def seeded (wordSeed identifierSeed : UInt64) (now : Timestamp) : Supply where
  words := .splitMix wordSeed
  identifier number := .ofRandomBits (identifierBits (.splitMix identifierSeed) number)
  moment _ := now

end Supply

end EquationPuzzle
