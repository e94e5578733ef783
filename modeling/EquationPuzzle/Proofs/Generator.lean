import EquationPuzzle.Generator
import EquationPuzzle.Proofs.Equation

/-!
# Generated puzzles are fit to be played

Whatever words a generator draws, the puzzle it answers has the target number of its own equation,
and that number is small.
-/

namespace EquationPuzzle

/-- The target number is the one of the equation and lies within the bounds of generated puzzles. -/
structure Puzzle.Fits (puzzle : Puzzle) : Prop where
  target_eq : puzzle.equation.targetNumber = some puzzle.targetNumber
  one_le : 1 ≤ puzzle.targetNumber
  le_max : puzzle.targetNumber ≤ Generator.maxTarget

namespace Generator

theorem puzzle?_eq_some_iff {spelling : Spelling} {puzzle : Puzzle} :
    puzzle? spelling = some puzzle ↔
      puzzle.equation.spelling = spelling ∧
        puzzle.equation.targetNumber = some puzzle.targetNumber ∧
          puzzle.targetNumber ≤ maxTarget := by
  constructor
  · intro hpuzzle
    unfold puzzle? at hpuzzle
    split at hpuzzle
    next => contradiction
    next equation hread =>
      split at hpuzzle
      next => contradiction
      next target htarget =>
        simp only [Option.ite_none_right_eq_some, Option.some.injEq] at hpuzzle
        obtain ⟨hmax, rfl⟩ := hpuzzle
        exact ⟨Equation.ofSpelling_eq_ok_iff.mp hread, htarget, hmax⟩
  · rintro ⟨rfl, htarget, hmax⟩
    rw [puzzle?, puzzle.equation.ofSpelling_spelling]
    simp only [htarget, hmax, if_true]

theorem fits_of_puzzle?_eq_some {spelling : Spelling} {puzzle : Puzzle}
    (hpuzzle : puzzle? spelling = some puzzle) : puzzle.Fits := by
  obtain ⟨_, htarget, hmax⟩ := puzzle?_eq_some_iff.mp hpuzzle
  have hpositive := ((puzzle.equation.targetNumber_eq_some_iff _).mp htarget).2
  exact ⟨htarget, UInt32.le_iff_toNat_le.mpr hpositive, hmax⟩

/-- A puzzle that was found comes from a row that a template drew. -/
def Drawn (puzzle : Puzzle) : Prop :=
  ∃ (template : Template) (source : WordSource),
    puzzle? (template.instantiate.run source).1 = some puzzle

theorem drawn_of_attempt {source : WordSource} {puzzle : Puzzle}
    (hfound : (attempt.run source).1 = some puzzle) : Drawn puzzle :=
  ⟨(drawTemplate.run source).1, (drawTemplate.run source).2, hfound⟩

theorem run_search_succ (attempts : Nat) (source : WordSource) :
    (search (attempts + 1)).run source =
      match attempt.run source with
      | (some puzzle, rest) => (some puzzle, rest)
      | (none, rest) => (search attempts).run rest := by
  rw [search, StateT.run_bind]
  rcases attempt.run source with ⟨found, rest⟩
  cases found <;> rfl

theorem drawn_of_search {attempts : Nat} {source : WordSource} {puzzle : Puzzle}
    (hfound : ((search attempts).run source).1 = some puzzle) : Drawn puzzle := by
  induction attempts generalizing source with
  | zero => contradiction
  | succ attempts ih =>
      rw [run_search_succ] at hfound
      rcases hattempt : attempt.run source with ⟨found, rest⟩
      rw [hattempt] at hfound
      cases found with
      | some first =>
          obtain rfl : first = puzzle := Option.some.inj hfound
          exact drawn_of_attempt (congrArg Prod.fst hattempt)
      | none => exact ih hfound

theorem run_generate (generator : Generator) (source : WordSource) :
    generator.generate.run source =
      match (search generator.maxAttempts).run source with
      | (some puzzle, rest) => (.ok puzzle, rest)
      | (none, rest) => (.error ⟨generator.maxAttempts⟩, rest) := by
  rw [generate, StateT.run_bind]
  rcases (search generator.maxAttempts).run source with ⟨found, rest⟩
  cases found <;> rfl

theorem drawn_of_generate {generator : Generator} {source rest : WordSource} {puzzle : Puzzle}
    (hmade : generator.generate.run source = (.ok puzzle, rest)) : Drawn puzzle := by
  rw [run_generate] at hmade
  rcases hsearch : (search generator.maxAttempts).run source with ⟨found, left⟩
  rw [hsearch] at hmade
  cases found with
  | none =>
      obtain ⟨hfirst, _⟩ := Prod.mk.inj hmade
      contradiction
  | some first =>
      obtain ⟨hfirst, _⟩ := Prod.mk.inj hmade
      obtain rfl : first = puzzle := Except.ok.inj hfirst
      exact drawn_of_search (congrArg Prod.fst hsearch)

/-- A generator gives up after all of its attempts only. -/
theorem eq_of_generate_error {generator : Generator} {source rest : WordSource}
    {cause : GenerationExhausted} (hmade : generator.generate.run source = (.error cause, rest)) :
    cause = ⟨generator.maxAttempts⟩ := by
  rw [run_generate] at hmade
  rcases hsearch : (search generator.maxAttempts).run source with ⟨found, left⟩
  rw [hsearch] at hmade
  cases found with
  | none => exact (Except.error.inj (Prod.mk.inj hmade).1).symm
  | some first =>
      obtain ⟨hfirst, _⟩ := Prod.mk.inj hmade
      contradiction

theorem fits_of_drawn {puzzle : Puzzle} (hdrawn : Drawn puzzle) : puzzle.Fits := by
  obtain ⟨template, before, hpuzzle⟩ := hdrawn
  exact fits_of_puzzle?_eq_some hpuzzle

theorem fits_of_generate {generator : Generator} {source rest : WordSource} {puzzle : Puzzle}
    (hmade : generator.generate.run source = (.ok puzzle, rest)) : puzzle.Fits :=
  fits_of_drawn (drawn_of_generate hmade)

end Generator

end EquationPuzzle
