import EquationPuzzle.Proofs.Generator.Candidates

/-!
# What a generator can find

A generator finds rows with the layout of a template, and the number it asks for is the exact value
of the row.  On the right words its first attempt finds any such row whose value is positive and
whole.
-/

namespace EquationPuzzle

namespace Generator

open Expression

/-- The row of the puzzle has a layout, and the target number is its exact value. -/
structure Genuine (puzzle : Puzzle) : Prop where
  spells : ∃ template : Template, template.Spells puzzle.equation.spelling.toList
  not_leadingZero : ¬Template.LeadingZero puzzle.equation.spelling.toList
  ofText_text : Equation.ofText puzzle.equation.text = .ok puzzle.equation
  worth : Worth puzzle.equation.spelling.toList puzzle.targetNumber.toNat
  one_le : 1 ≤ puzzle.targetNumber.toNat
  le_max : puzzle.targetNumber.toNat ≤ 9999

theorem genuine_of_drawn {puzzle : Puzzle} (hdrawn : Drawn puzzle) : Genuine puzzle := by
  obtain ⟨template, source, hpuzzle⟩ := hdrawn
  have hspells := template.spells_of_instantiate source
  generalize (template.instantiate.run source).1 = spelling at hpuzzle hspells
  obtain ⟨equation, value, hcandidate⟩ := exists_candidate hspells
  obtain ⟨rfl, htarget, hmax⟩ := puzzle?_eq_some_iff.mp hpuzzle
  obtain rfl := hcandidate.eq
  obtain ⟨rfl, hpositive⟩ := (hcandidate.targetNumber_iff _).mp htarget
  exact ⟨⟨template, hspells⟩, hspells.not_leadingZero, puzzle.equation.ofText_text,
    hcandidate.worth, hpositive, UInt32.le_iff_toNat_le.mp hmax⟩

/-! ## Words for a row -/

theorem reaches_drawTemplate (template : Template) : drawTemplate.Reaches template := by
  have hmem : template ∈ Template.all := by cases template <;> decide
  obtain ⟨choice, hchoice⟩ := List.mem_iff_get.mp hmem
  exact (Draw.reaches_below (by decide) _ choice).bind (hchoice ▸ Draw.reaches_pure _)

theorem reaches_attempt {template : Template} {spelling : Spelling}
    (hspells : template.Spells spelling.toList) : attempt.Reaches (puzzle? spelling) :=
  (reaches_drawTemplate template).bind
    ((Template.reaches_instantiate hspells).bind (Draw.reaches_pure _))

/-- A generator that may try at all finds what its first attempt finds. -/
theorem generate_answers {words : List UInt32} {puzzle : Puzzle}
    (hattempt : attempt.Answers words (some puzzle)) {generator : Generator}
    (hbudget : 1 ≤ generator.maxAttempts) : generator.generate.Answers words (.ok puzzle) := by
  intro source hsource
  obtain ⟨attempts, hattempts⟩ := Nat.exists_eq_add_of_le' hbudget
  rw [run_generate, hattempts, run_search_succ, hattempt source hsource]

theorem exists_source {template : Template} {equation : Equation} {number : Nat}
    (hspells : template.Spells equation.spelling.toList)
    (hworth : Worth equation.spelling.toList number) (hpositive : 1 ≤ number) :
    ∃ source : WordSource, ∀ generator : Generator, 1 ≤ generator.maxAttempts →
      ∃ target rest, target.toNat = number ∧
        generator.generate.run source = (.ok ⟨equation, target⟩, rest) := by
  obtain ⟨other, value, hcandidate⟩ := exists_candidate hspells
  obtain rfl := hcandidate.eq
  obtain rfl := hworth.eq hcandidate.worth
  have hkept : puzzle? equation.spelling ≠ none := by
    rw [ne_eq, hcandidate.puzzle?_eq_none_iff]
    push Not
    exact ⟨by exact_mod_cast hpositive, number, (Int.cast_natCast number).symm⟩
  obtain ⟨puzzle, hpuzzle⟩ := Option.ne_none_iff_exists'.mp hkept
  obtain ⟨hspelling, htarget, _⟩ := puzzle?_eq_some_iff.mp hpuzzle
  obtain rfl : puzzle.equation = equation := Equation.ext hspelling
  have hnumber := ((hcandidate.targetNumber_iff _).mp htarget).1
  obtain ⟨words, hwords⟩ := reaches_attempt hspells
  rw [hpuzzle] at hwords
  refine ⟨.ofWords words, fun generator hbudget => ?_⟩
  have hmade := generate_answers hwords hbudget _ (WordSource.next_ofWords words)
  exact ⟨puzzle.targetNumber, _, by exact_mod_cast hnumber.symm, hmade⟩

/-- A generator answers nothing but rows with a layout and a small positive whole number as exact
value, rejects a candidate for its exact value only, and can answer every such row. -/
theorem generate_sound_and_complete :
    (∀ (generator : Generator) (source rest : WordSource) (puzzle : Puzzle),
      generator.generate.run source = (.ok puzzle, rest) → Genuine puzzle) ∧
    (∀ (template : Template) (source : WordSource), ∃ equation value,
      Candidate (template.instantiate.run source).1 equation value ∧
        (∀ target, equation.targetNumber = some target → target ≤ maxTarget) ∧
          (puzzle? (template.instantiate.run source).1 = none ↔
            value < 1 ∨ ∀ whole : Int, value ≠ whole)) ∧
    ∀ (template : Template) (equation : Equation) (number : Nat),
      template.Spells equation.spelling.toList → Worth equation.spelling.toList number →
        1 ≤ number → ∃ source : WordSource, ∀ generator : Generator, 1 ≤ generator.maxAttempts →
          ∃ target rest, target.toNat = number ∧
            generator.generate.run source = (.ok ⟨equation, target⟩, rest) := by
  refine ⟨fun generator source rest puzzle hmade => genuine_of_drawn (drawn_of_generate hmade),
    fun template source => ?_, fun template equation number => exists_source⟩
  obtain ⟨equation, value, hcandidate⟩ := exists_candidate (template.spells_of_instantiate source)
  exact ⟨equation, value, hcandidate, fun target => hcandidate.le_maxTarget,
    hcandidate.puzzle?_eq_none_iff⟩

end Generator

end EquationPuzzle
