import EquationPuzzle.Proofs.Feedback.Counts
import EquationPuzzle.Proofs.Solution

/-!
# Rearrangements have no absent symbol

The feedback finds the symbols of a guess one by one in the target; the check of a solution compares
how often they occur.  A symbol of the guess is absent exactly if it stands wrong more often than
the target has it left.  Guess and target have the same length, so nothing is absent exactly if the
guess rearranges the target.
-/

namespace EquationPuzzle

namespace Feedback

/-! ## Rows of pairs -/

theorem strays_cons (symbol : Symbol) (pair : Symbol × Symbol) (rest : List (Symbol × Symbol)) :
    strays symbol (pair :: rest) =
      strays symbol rest + if pair.1 = symbol ∧ pair.2 ≠ symbol then 1 else 0 := by
  simp [strays, List.countP_cons]

/-- Nothing is absent as long as no symbol stands wrong more often than it is available. -/
theorem absent_notMem_mark_iff {available : List Symbol} {pairs : List (Symbol × Symbol)} :
    Tile.absent ∉ mark available pairs ↔
      ∀ symbol, strays symbol pairs ≤ available.count symbol := by
  induction pairs generalizing available with
  | nil => simp [mark, strays]
  | cons pair rest ih =>
      rcases pair with ⟨guessed, wanted⟩
      simp only [strays_cons]
      by_cases hsame : guessed = wanted
      · subst wanted
        have hplaced : ∀ symbol, ¬(guessed = symbol ∧ guessed ≠ symbol) :=
          fun symbol hboth => hboth.2 hboth.1
        simp [mark, ih, hplaced]
      · by_cases hmem : guessed ∈ available
        · -- One stray symbol less, and one less that is available.
          have hcount : 0 < available.count guessed := List.count_pos_iff.mpr hmem
          rw [mark, if_neg hsame, if_pos hmem, List.mem_cons, not_or, ih]
          simp only [List.count_erase]
          grind
        · have hcount : available.count guessed = 0 := List.count_eq_zero_of_not_mem hmem
          rw [mark, if_neg hsame, if_neg hmem]
          grind

/-! ## Spellings -/

section Spellings

variable {guess target : Spelling}

/-- What stands wrong and what the target has left are what both have, less what stands right. -/
theorem strays_le_count_leftover_iff (symbol : Symbol) :
    strays symbol (guess.toList.zip target.toList) ≤
        (leftover (guess.toList.zip target.toList)).count symbol ↔
      guess.toList.count symbol ≤ target.toList.count symbol := by
  have hguess := count_fst_eq symbol (guess.toList.zip target.toList)
  have htarget := count_snd_eq symbol (guess.toList.zip target.toList)
  rw [List.map_fst_zip (by simp)] at hguess
  rw [List.map_snd_zip (by simp)] at htarget
  omega

theorem absent_notMem_ofSpellings_iff :
    Tile.absent ∉ ofSpellings guess target ↔ guess.toList.Perm target.toList := by
  rw [← Vector.mem_toList_iff, toList_ofSpellings, absent_notMem_mark_iff]
  simp only [strays_le_count_leftover_iff]
  constructor
  · intro hle
    have hsubperm : guess.toList.Subperm target.toList :=
      List.subperm_ext_iff.mpr fun symbol _ => hle symbol
    exact hsubperm.perm_of_length_le (by simp)
  · intro hperm symbol
    exact (hperm.count_eq symbol).le

theorem ofTexts_eq_ok {guessText targetText : String}
    (hguess : Spelling.ofText guessText = .ok guess)
    (htarget : Spelling.ofText targetText = .ok target) :
    ofTexts guessText targetText = .ok (ofSpellings guess target) := by
  rw [ofTexts, hguess, htarget]
  rfl

end Spellings

end Feedback

/-- The check of a solution and the feedback agree.  A guess that is accepted has feedback without
an absent symbol, be its target an equation or not.  Between two equations of one value there always
is feedback, and the one is accepted as a solution of the other exactly if no symbol is absent. -/
theorem isAcceptedSolution_iff_absent_notMem :
    (∀ guess target : String, isAcceptedSolution guess target = true →
        ∃ feedback, Feedback.ofTexts guess target = .ok feedback ∧ Tile.absent ∉ feedback) ∧
      ∀ (guess target : String) (equation solution : Equation),
        Equation.ofText guess = .ok equation → Equation.ofText target = .ok solution →
        equation.value = solution.value →
        ∃ feedback, Feedback.ofTexts guess target = .ok feedback ∧
          (isAcceptedSolution guess target = true ↔ Tile.absent ∉ feedback) := by
  constructor
  · intro guess target haccepted
    obtain ⟨equation, spelling, hguess, htarget, _, hperm⟩ :=
      (isAcceptedSolution_iff guess target).mp haccepted
    obtain rfl := Equation.text_eq_of_ofText hguess
    exact ⟨_, Feedback.ofTexts_eq_ok equation.spelling.ofText_text htarget,
      Feedback.absent_notMem_ofSpellings_iff.mpr hperm⟩
  · intro guess target equation solution hguess htarget hvalue
    obtain rfl := Equation.text_eq_of_ofText hguess
    obtain rfl := Equation.text_eq_of_ofText htarget
    refine ⟨_, Feedback.ofTexts_eq_ok equation.spelling.ofText_text solution.spelling.ofText_text,
      ?_⟩
    rw [Feedback.absent_notMem_ofSpellings_iff, isAcceptedSolution_text_iff,
      ← Equation.perm_text_iff hguess]
    constructor
    · rintro ⟨_, _, hperm, _⟩
      exact hperm
    · exact fun hperm => ⟨equation, hguess, hperm, hvalue⟩

/-- Terms that change places, with a zero in front of one of them. -/
theorem isAcceptedSolution_iff_absent_notMem_swapped :
    let equation : Equation := ⟨#v[.digit 0, .digit 4, .operator .add, .digit 8, .operator .divide,
      .digit 2], 8, by decide, by decide +kernel⟩
    let solution : Equation := ⟨#v[.digit 8, .operator .divide, .digit 2, .operator .add, .digit 0,
      .digit 4], 8, by decide, by decide +kernel⟩
    isAcceptedSolution "04+8÷2" "8÷2+04" = true ∧
      (∃ feedback, Feedback.ofTexts "04+8÷2" "8÷2+04" = .ok feedback ∧ Tile.absent ∉ feedback) ∧
      Equation.ofText "04+8÷2" = .ok equation ∧ Equation.ofText "8÷2+04" = .ok solution ∧
      equation.value = solution.value ∧
      ∃ feedback, Feedback.ofTexts "04+8÷2" "8÷2+04" = .ok feedback ∧
        (isAcceptedSolution "04+8÷2" "8÷2+04" = true ↔ Tile.absent ∉ feedback) := by
  intro equation solution
  have haccepted : isAcceptedSolution "04+8÷2" "8÷2+04" = true := by decide +kernel
  have hguess : Equation.ofText "04+8÷2" = .ok equation := by decide +kernel
  have htarget : Equation.ofText "8÷2+04" = .ok solution := by decide +kernel
  exact ⟨haccepted, isAcceptedSolution_iff_absent_notMem.1 _ _ haccepted, hguess, htarget, rfl,
    isAcceptedSolution_iff_absent_notMem.2 _ _ equation solution hguess htarget rfl⟩

end EquationPuzzle
