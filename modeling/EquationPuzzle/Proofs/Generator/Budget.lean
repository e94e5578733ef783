import EquationPuzzle.Proofs.Generator
import EquationPuzzle.Proofs.Generator.Layouts

/-!
# Budgets of attempts

A generator tries one candidate after the other, so a budget may be split: what is left of it takes
up where the first part was exhausted.  A larger budget therefore finds what a smaller one has
found.  No draw looks at a word without taking it, which tells the words of the rejected candidates
from those of the accepted one.
-/

namespace EquationPuzzle

/-! ## Words of a candidate -/

namespace Template

theorem Place.frugal_drawDigit (place : Place) : place.drawDigit.Frugal := by
  cases place with
  | nonzero => exact (Draw.frugal_below 9 _).bind fun value => Draw.frugal_pure _
  | anyDigit => exact (Draw.frugal_below 10 _).bind fun value => Draw.frugal_pure _
  | fixed op => exact Draw.frugal_pure _
  | additive => exact Draw.frugal_pure _

theorem Place.frugal_drawOperator (drawn : Symbol) (place : Place) :
    (place.drawOperator drawn).Frugal := by
  cases place with
  | additive =>
      apply Draw.frugal_coin.bind
      intro side
      cases side with
      | true => exact Draw.frugal_pure _
      | false => exact Draw.frugal_pure _
  | nonzero => exact Draw.frugal_pure _
  | anyDigit => exact Draw.frugal_pure _
  | fixed op => exact Draw.frugal_pure _

theorem frugal_instantiate (template : Template) : template.instantiate.Frugal := by
  have hsymbols : (drawSymbols template.places.toList).Frugal := by
    apply (Draw.frugal_mapM Place.frugal_drawDigit _).bind
    intro drafts
    exact Draw.frugal_mapM (fun pair : Symbol × Place => pair.2.frugal_drawOperator pair.1) _
  intro source
  have hrow : ((drawSymbols template.places.toList).run source).1 =
      (template.instantiate.run source).1.toList := by
    rw [← toList_instantiate]
    rfl
  rcases hsymbols source with ⟨words, hwords, hanswer⟩
  rw [hrow] at hanswer
  exact ⟨words, hwords, answers_instantiate hanswer⟩

end Template

namespace Generator

/-- The row that is tried next. -/
def drawCandidate : Draw Spelling := do
  (← drawTemplate).instantiate

theorem run_attempt (source : WordSource) :
    attempt.run source =
      (puzzle? (drawCandidate.run source).1, (drawCandidate.run source).2) := rfl

theorem frugal_drawCandidate : drawCandidate.Frugal := by
  apply Draw.Frugal.bind
  · exact (Draw.frugal_below _ _).bind fun choice => Draw.frugal_pure _
  · exact Template.frugal_instantiate

/-! ## Budgets in a row -/

section Search

variable {source rest : WordSource} {puzzle : Puzzle} {attempts : Nat}

theorem run_search_add_of_some (hfound : (search attempts).run source = (some puzzle, rest))
    (more : Nat) : (search (attempts + more)).run source = (some puzzle, rest) := by
  induction attempts generalizing source with
  | zero => cases hfound
  | succ attempts ih =>
      rw [Nat.succ_add, run_search_succ]
      rw [run_search_succ] at hfound
      rcases hattempt : attempt.run source with ⟨found, left⟩
      rw [hattempt] at hfound
      cases found with
      | some first => exact hfound
      | none => exact ih hfound

theorem run_search_add_of_none (hnone : (search attempts).run source = (none, rest))
    (more : Nat) : (search (attempts + more)).run source = (search more).run rest := by
  induction attempts generalizing source with
  | zero =>
      cases hnone
      rw [Nat.zero_add]
  | succ attempts ih =>
      rw [Nat.succ_add, run_search_succ]
      rw [run_search_succ] at hnone
      rcases hattempt : attempt.run source with ⟨found, left⟩
      rw [hattempt] at hnone
      cases found with
      | some first => cases hnone
      | none => exact ih hnone

theorem run_search_add_eq_none_iff {more : Nat} :
    (search (attempts + more)).run source = (none, rest) ↔ ∃ middle,
      (search attempts).run source = (none, middle) ∧ (search more).run middle = (none, rest) := by
  rcases hearlier : (search attempts).run source with ⟨found, middle⟩
  cases found with
  | some first =>
      rw [run_search_add_of_some hearlier]
      constructor
      · intro hnone
        cases hnone
      · rintro ⟨_, hnone, _⟩
        cases hnone
  | none =>
      rw [run_search_add_of_none hearlier]
      constructor
      · intro hnone
        exact ⟨middle, rfl, hnone⟩
      · rintro ⟨_, hsame, hnone⟩
        cases hsame
        exact hnone

theorem exists_accepted_of_search (hfound : (search attempts).run source = (some puzzle, rest)) :
    ∃ rejections < attempts, ∃ middle, (search rejections).run source = (none, middle) ∧
      attempt.run middle = (some puzzle, rest) := by
  induction attempts with
  | zero => cases hfound
  | succ attempts ih =>
      rcases hearlier : (search attempts).run source with ⟨found, middle⟩
      cases found with
      | some first =>
          rw [run_search_add_of_some hearlier] at hfound
          rw [hfound] at hearlier
          rcases ih hearlier with ⟨rejections, hless, haccepted⟩
          exact ⟨rejections, Nat.lt_succ_of_lt hless, haccepted⟩
      | none =>
          refine ⟨attempts, Nat.lt_succ_self _, middle, hearlier, ?_⟩
          rw [run_search_add_of_none hearlier, run_search_succ] at hfound
          rcases hattempt : attempt.run middle with ⟨last, left⟩
          rw [hattempt] at hfound
          cases last with
          | some last => exact hfound
          | none => cases hfound

/-- A search answers the first candidate that is accepted, if it gets as far as that. -/
theorem run_search_eq_some_iff :
    (search attempts).run source = (some puzzle, rest) ↔ ∃ rejections < attempts, ∃ middle,
      (search rejections).run source = (none, middle) ∧
        attempt.run middle = (some puzzle, rest) := by
  constructor
  · exact exists_accepted_of_search
  · rintro ⟨rejections, hless, middle, hrejected, haccepted⟩
    rcases Nat.exists_eq_add_of_lt hless with ⟨more, rfl⟩
    rw [Nat.add_assoc, run_search_add_of_none hrejected, run_search_succ, haccepted]

end Search

section Generate

variable {source rest : WordSource} {puzzle : Puzzle} {attempts : Nat}

theorem run_generate_eq_ok_iff :
    (generate ⟨attempts⟩).run source = (.ok puzzle, rest) ↔
      (search attempts).run source = (some puzzle, rest) := by
  rw [run_generate]
  rcases (search attempts).run source with ⟨found, left⟩
  cases found with
  | none =>
      constructor
      · intro hmade
        cases hmade
      · intro hfound
        cases hfound
  | some first =>
      constructor
      · intro hmade
        cases hmade
        rfl
      · intro hfound
        cases hfound
        rfl

theorem run_generate_eq_error_iff {cause : GenerationExhausted} :
    (generate ⟨attempts⟩).run source = (.error cause, rest) ↔
      cause = ⟨attempts⟩ ∧ (search attempts).run source = (none, rest) := by
  rw [run_generate]
  rcases (search attempts).run source with ⟨found, left⟩
  cases found with
  | none =>
      constructor
      · intro hmade
        cases hmade
        exact ⟨rfl, rfl⟩
      · rintro ⟨rfl, hnone⟩
        cases hnone
        rfl
  | some first =>
      constructor
      · intro hmade
        cases hmade
      · rintro ⟨rfl, hnone⟩
        cases hnone

end Generate

/-- A second draw takes up where the first was exhausted; the attempts of both are counted. -/
def takeUp (first second : Draw (Except GenerationExhausted Puzzle)) :
    Draw (Except GenerationExhausted Puzzle) := do
  match ← first with
  | .ok puzzle => return .ok puzzle
  | .error early =>
    match ← second with
    | .ok puzzle => return .ok puzzle
    | .error late => return .error ⟨early.attempts + late.attempts⟩

section TakeUp

variable {first second : Draw (Except GenerationExhausted Puzzle)} {source middle rest : WordSource}
  {early late : GenerationExhausted} {puzzle : Puzzle}

theorem run_takeUp_of_ok (hfirst : first.run source = (.ok puzzle, rest)) :
    (takeUp first second).run source = (.ok puzzle, rest) := by
  rw [takeUp, StateT.run_bind, hfirst]
  rfl

theorem run_takeUp_of_error_of_ok (hfirst : first.run source = (.error early, middle))
    (hsecond : second.run middle = (.ok puzzle, rest)) :
    (takeUp first second).run source = (.ok puzzle, rest) := by
  rw [takeUp, StateT.run_bind, hfirst]
  change (second >>= _).run middle = _
  rw [StateT.run_bind, hsecond]
  rfl

theorem run_takeUp_of_errors (hfirst : first.run source = (.error early, middle))
    (hsecond : second.run middle = (.error late, rest)) :
    (takeUp first second).run source = (.error ⟨early.attempts + late.attempts⟩, rest) := by
  rw [takeUp, StateT.run_bind, hfirst]
  change (second >>= _).run middle = _
  rw [StateT.run_bind, hsecond]
  rfl

end TakeUp

theorem generate_eq_takeUp (attempts more : Nat) :
    generate ⟨attempts + more⟩ = takeUp (generate ⟨attempts⟩) (generate ⟨more⟩) := by
  funext source
  change (generate ⟨attempts + more⟩).run source = (takeUp _ _).run source
  rcases hfirst : (generate ⟨attempts⟩).run source with ⟨early, middle⟩
  cases early with
  | ok puzzle =>
      rw [run_takeUp_of_ok hfirst, run_generate_eq_ok_iff]
      exact run_search_add_of_some (run_generate_eq_ok_iff.mp hfirst) more
  | error early =>
      rcases run_generate_eq_error_iff.mp hfirst with ⟨rfl, hnone⟩
      rcases hsecond : (generate ⟨more⟩).run middle with ⟨late, rest⟩
      cases late with
      | ok puzzle =>
          rw [run_takeUp_of_error_of_ok hfirst hsecond, run_generate_eq_ok_iff,
            run_search_add_of_none hnone]
          exact run_generate_eq_ok_iff.mp hsecond
      | error late =>
          rcases run_generate_eq_error_iff.mp hsecond with ⟨rfl, hlast⟩
          rw [run_takeUp_of_errors hfirst hsecond, run_generate_eq_error_iff,
            run_search_add_of_none hnone]
          exact ⟨rfl, hlast⟩

theorem frugal_search (attempts : Nat) : (search attempts).Frugal := by
  induction attempts with
  | zero => exact Draw.frugal_pure none
  | succ attempts ih =>
      have hattempt : attempt.Frugal := frugal_drawCandidate.bind fun row => Draw.frugal_pure _
      apply hattempt.bind
      intro found
      cases found with
      | some puzzle => exact Draw.frugal_pure _
      | none => exact ih

theorem frugal_generate (generator : Generator) : generator.generate.Frugal := by
  apply (frugal_search generator.maxAttempts).bind
  intro found
  cases found with
  | some puzzle => exact Draw.frugal_pure _
  | none => exact Draw.frugal_pure _

/-- Candidates are told by words: those of the rejected ones, and those of the accepted one. -/
theorem exists_middle_iff_exists_words {source rest : WordSource} {puzzle : Puzzle}
    {rejections : Nat} :
    (∃ middle, (search rejections).run source = (none, middle) ∧
        attempt.run middle = (some puzzle, rest)) ↔
      ∃ (rejected accepted : List UInt32) (row : Spelling), source.Next (rejected ++ accepted) ∧
        (generate ⟨rejections⟩).Answers rejected (.error ⟨rejections⟩) ∧
        drawCandidate.Answers accepted row ∧ puzzle? row = some puzzle ∧
        rest = source.skip (rejected ++ accepted).length := by
  constructor
  · rintro ⟨middle, hrejected, haccepted⟩
    have hexhausted := run_generate_eq_error_iff.mpr ⟨rfl, hrejected⟩
    rcases frugal_generate ⟨rejections⟩ source with ⟨rejected, hnext, hanswer⟩
    rw [hexhausted] at hanswer
    have hmiddle : middle = source.skip rejected.length := by
      have hrun := hanswer source hnext
      rw [hexhausted] at hrun
      exact (Prod.mk.inj hrun).2
    rcases frugal_drawCandidate middle with ⟨accepted, hmore, hrow⟩
    rw [run_attempt, hrow middle hmore] at haccepted
    rcases Prod.mk.inj haccepted with ⟨hpuzzle, hrest⟩
    rw [hmiddle] at hmore
    refine ⟨rejected, accepted, _, hnext.append hmore, hanswer, hrow, hpuzzle, ?_⟩
    rw [← hrest, hmiddle, WordSource.skip_skip, List.length_append]
  · rintro ⟨rejected, accepted, row, hnext, hanswer, hrow, hpuzzle, rfl⟩
    have hexhausted := hanswer source hnext.left
    have hdrawn := hrow _ hnext.right
    refine ⟨source.skip rejected.length, (run_generate_eq_error_iff.mp hexhausted).2, ?_⟩
    rw [run_attempt, hdrawn, hpuzzle, WordSource.skip_skip, List.length_append]

/-- A budget may be split: a generator with a larger budget draws as one with the first part of it
does, and only if that is exhausted, as one with the second part does on the words that are left.
So the puzzle of a smaller budget is the puzzle of a larger one and takes the same words.  These are
the words on which a number of candidates, fewer than the budget, are rejected, and behind them the
words of the candidate that is accepted, but no further ones. -/
theorem generate_add (attempts more : Nat) :
    generate ⟨attempts + more⟩ = takeUp (generate ⟨attempts⟩) (generate ⟨more⟩) ∧
      ∀ source rest : WordSource,
        (∀ cause, (generate ⟨attempts + more⟩).run source = (.error cause, rest) ↔
          cause = ⟨attempts + more⟩ ∧ ∃ middle,
            (generate ⟨attempts⟩).run source = (.error ⟨attempts⟩, middle) ∧
              (generate ⟨more⟩).run middle = (.error ⟨more⟩, rest)) ∧
        ∀ puzzle,
          ((generate ⟨attempts⟩).run source = (.ok puzzle, rest) →
            (generate ⟨attempts + more⟩).run source = (.ok puzzle, rest)) ∧
          ((generate ⟨attempts⟩).run source = (.ok puzzle, rest) ↔
            ∃ rejections < attempts, ∃ (rejected accepted : List UInt32) (row : Spelling),
              source.Next (rejected ++ accepted) ∧
                (generate ⟨rejections⟩).Answers rejected (.error ⟨rejections⟩) ∧
                drawCandidate.Answers accepted row ∧ puzzle? row = some puzzle ∧
                rest = source.skip (rejected ++ accepted).length) := by
  refine ⟨generate_eq_takeUp attempts more, ?_⟩
  intro source rest
  constructor
  · intro cause
    rw [run_generate_eq_error_iff, run_search_add_eq_none_iff]
    simp only [run_generate_eq_error_iff, true_and]
  · intro puzzle
    constructor
    · intro hmade
      have hfound := run_generate_eq_ok_iff.mp hmade
      exact run_generate_eq_ok_iff.mpr (run_search_add_of_some hfound more)
    · rw [run_generate_eq_ok_iff, run_search_eq_some_iff]
      simp only [exists_middle_iff_exists_words]

end Generator

end EquationPuzzle
