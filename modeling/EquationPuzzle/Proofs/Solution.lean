import EquationPuzzle.Solution
import EquationPuzzle.Proofs.Evaluation.Simple
import EquationPuzzle.Proofs.Generator.Reach
import EquationPuzzle.Proofs.Grammar.Reading
import EquationPuzzle.Proofs.Tally

/-!
# Solutions of generated puzzles

A guess is accepted if what is computed of it equals what is computed of the target.  The rows of
generated puzzles have one multiplication or division at most, and a rearrangement of their symbols
has no more.  So for these puzzles rounding makes no difference: the guesses that are accepted are
the rearrangements whose exact value is the target number.
-/

namespace EquationPuzzle

/-! ## Accepted guesses -/

theorem evaluateText_text (equation : Equation) :
    evaluateText equation.text = .ok equation.value := by
  rw [Equation.text, Spelling.text, evaluateText_eq (String.toList_ofList ..)]
  exact equation.evaluates

/-- The characters of an equation are rearranged as its symbols are. -/
theorem Equation.perm_text_iff {guess : String} {equation : Equation}
    (hread : Equation.ofText guess = .ok equation) (target : Equation) :
    guess.toList.Perm target.text.toList ↔
      equation.spelling.toList.Perm target.spelling.toList := by
  rw [← Equation.text_eq_of_ofText hread, Equation.text, Equation.text, Spelling.text,
    Spelling.text, String.toList_ofList, String.toList_ofList]
  exact List.map_perm_map_iff Symbol.toChar_injective

theorem Equation.isPermutationOf_iff (a b : Equation) :
    a.isPermutationOf b = true ↔ a.spelling.toList.Perm b.spelling.toList := by
  rw [Equation.isPermutationOf, beq_iff_eq]
  exact Tally.of_eq_iff_perm a.spelling.toList b.spelling.toList

/-- A guess is accepted if it is an equation with the value of the target and rearranges the symbols
of the target. -/
theorem isAcceptedSolution_iff (guess target : String) :
    isAcceptedSolution guess target = true ↔
      ∃ equation spelling, Equation.ofText guess = .ok equation ∧
        Spelling.ofText target = .ok spelling ∧ evaluateText target = .ok equation.value ∧
        equation.spelling.toList.Perm spelling.toList := by
  unfold isAcceptedSolution
  cases hread : Equation.ofText guess with
  | error cause => simp
  | ok equation =>
      cases hspelling : Spelling.ofText target with
      | error cause => simp
      | ok spelling =>
          cases hvalue : evaluateText target with
          | error cause => simp
          | ok value =>
              simp [Equation.tally, Spelling.tally, Tally.of_eq_iff_perm, @eq_comm _ value]

theorem isAcceptedSolution_text_iff (guess : String) (target : Equation) :
    isAcceptedSolution guess target.text = true ↔
      ∃ equation, Equation.ofText guess = .ok equation ∧
        guess.toList.Perm target.text.toList ∧ equation.value = target.value := by
  rw [isAcceptedSolution_iff, evaluateText_text, Equation.text, Spelling.ofText_text]
  constructor
  · rintro ⟨equation, spelling, hread, hspelling, hvalue, hperm⟩
    obtain rfl := Except.ok.inj hspelling
    exact ⟨equation, hread, (Equation.perm_text_iff hread target).mpr hperm,
      (Except.ok.inj hvalue).symm⟩
  · rintro ⟨equation, hread, hperm, hvalue⟩
    exact ⟨equation, target.spelling, hread, rfl, congrArg Except.ok hvalue.symm,
      (Equation.perm_text_iff hread target).mp hperm⟩

/-! ## Generated puzzles -/

open Expression

/-- With one product at most, the value of an equation is a whole number exactly if its exact value
is that number. -/
theorem Equation.value_eq_iff_worth {equation : Equation}
    (hproducts : products equation.spelling.toList ≤ 1) (whole : Int) :
    equation.value = whole ↔ Worth equation.spelling.toList whole := by
  obtain ⟨sum, hsymbols, hvalue⟩ := equation.exists_sum
  have hlength : sum.symbols.length = 6 := by
    rw [hsymbols]
    exact equation.spelling.length_toList
  rw [← hsymbols] at hproducts ⊢
  rw [Sum.value_eq_iff_exact_eq hproducts hvalue (by omega) whole]
  constructor
  · intro hexact
    exact hexact ▸ worth_symbols sum
  · intro hworth
    exact (worth_symbols sum).eq hworth

theorem Template.Spells.products_le_one {template : Template} {symbols : List Symbol}
    (hspells : template.Spells symbols) : products symbols ≤ 1 := by
  cases hspells with
  | productPlusDigit ha hc hd => exact Nat.le_refl 1
  | digitsPlusTens ha hb hc hop =>
      rcases hop with hop | hop <;> subst hop <;> exact Nat.zero_le 1
  | tensPlusDigits ha hc hd hop =>
      rcases hop with hop | hop <;> subst hop <;> exact Nat.zero_le 1
  | productPlusTens ha hb hc => exact Nat.le_refl 1
  | digitPlusProduct ha hb hc => exact Nat.le_refl 1
  | quotientPlusTens ha hb hc hop =>
      rcases hop with hop | hop <;> subst hop <;> exact Nat.le_refl 1

/-- Of the guesses at a generated puzzle exactly those are accepted that are equations, use the
target's characters equally often and have the target number as their exact value. -/
theorem isAcceptedSolution_iff_of_generate {generator : Generator} {source : WordSource}
    {puzzle : Puzzle} (hmade : (generator.generate.run source).1 = .ok puzzle) (guess : String) :
    isAcceptedSolution guess puzzle.equation.text = true ↔
      ∃ equation, Equation.ofText guess = .ok equation ∧
        guess.toList.Perm puzzle.equation.text.toList ∧
        Worth equation.spelling.toList puzzle.targetNumber.toNat := by
  have hrun : generator.generate.run source = (.ok puzzle, (generator.generate.run source).2) :=
    Prod.ext hmade rfl
  obtain ⟨template, hspells⟩ :=
    (Generator.genuine_of_drawn (Generator.drawn_of_generate hrun)).spells
  have htarget : puzzle.equation.value = (puzzle.targetNumber.toNat : Int) :=
    ((puzzle.equation.targetNumber_eq_some_iff _).mp (Generator.fits_of_generate hrun).target_eq).1
  have hagrees : ∀ equation, Equation.ofText guess = .ok equation →
      guess.toList.Perm puzzle.equation.text.toList →
      (equation.value = puzzle.equation.value ↔
        Worth equation.spelling.toList puzzle.targetNumber.toNat) := by
    intro equation hread hperm
    -- A rearrangement of the target has as many products.
    have hsymbols := (Equation.perm_text_iff hread _).mp hperm
    have hproducts : products equation.spelling.toList ≤ 1 :=
      (hsymbols.countP_eq _).trans_le hspells.products_le_one
    rw [htarget, Equation.value_eq_iff_worth hproducts, Int.cast_natCast]
  rw [isAcceptedSolution_text_iff]
  constructor
  · intro haccepted
    rcases haccepted with ⟨equation, hread, hperm, hvalue⟩
    exact ⟨equation, hread, hperm, (hagrees equation hread hperm).mp hvalue⟩
  · intro hsolves
    rcases hsolves with ⟨equation, hread, hperm, hworth⟩
    exact ⟨equation, hread, hperm, (hagrees equation hread hperm).mpr hworth⟩

/-- The quotient of a puzzle may stand behind the sum. -/
theorem isAcceptedSolution_iff_of_quotient :
    let source : WordSource :=
      .cycle 3937053354 [2624702236, 1193046471, 715827882, 2362232012, 0, 0]
    let equation : Equation := ⟨#v[.digit 6, .operator .divide, .digit 3, .operator .add, .digit 2,
      .digit 5], 27, by decide, by decide +kernel⟩
    ((⟨1⟩ : Generator).generate.run source).1 = .ok ⟨equation, 27⟩ ∧
      (isAcceptedSolution "25+6÷3" equation.text = true ↔
        ∃ other, Equation.ofText "25+6÷3" = .ok other ∧
          "25+6÷3".toList.Perm equation.text.toList ∧
          Worth other.spelling.toList (27 : UInt32).toNat) := by
  intro source equation
  have hmade : ((⟨1⟩ : Generator).generate.run source).1 = .ok ⟨equation, 27⟩ := by
    decide +kernel
  exact ⟨hmade, isAcceptedSolution_iff_of_generate hmade "25+6÷3"⟩

end EquationPuzzle
