import EquationPuzzle.Feedback
import Mathlib.Tactic.Common

/-!
# What a guess is told

Every symbol of a guess is answered by a tile.  Correct tiles stand where guess and target have the
same symbol.  A symbol of the target that has been guessed is recognised at least once, however many
of its repetitions are marked as absent: the first of them finds it among what is left of the target
unless it stands in its place already.
-/

namespace EquationPuzzle

namespace Feedback

/-- The guessed symbols, each with the tile that answers it. -/
def answers (available : List Symbol) (pairs : List (Symbol × Symbol)) : List (Symbol × Tile) :=
  (pairs.map Prod.fst).zip (mark available pairs)

@[simp] theorem answers_nil (available : List Symbol) : answers available [] = [] := rfl

section Answers

variable {available : List Symbol} {guessed wanted symbol : Symbol}
  {rest pairs : List (Symbol × Symbol)}

theorem answers_cons_of_eq :
    answers available ((guessed, guessed) :: rest) =
      (guessed, .correct) :: answers available rest := by
  simp [answers, mark]

theorem answers_cons_of_mem (hne : guessed ≠ wanted) (hmem : guessed ∈ available) :
    answers available ((guessed, wanted) :: rest) =
      (guessed, .present) :: answers (available.erase guessed) rest := by
  simp [answers, mark, hne, hmem]

theorem answers_cons_of_notMem (hne : guessed ≠ wanted) (hmem : guessed ∉ available) :
    answers available ((guessed, wanted) :: rest) =
      (guessed, .absent) :: answers available rest := by
  simp [answers, mark, hne, hmem]

theorem exists_mem_answers_iff :
    (∃ tile, (symbol, tile) ∈ answers available pairs) ↔ symbol ∈ pairs.map Prod.fst := by
  have hfirst : (answers available pairs).map Prod.fst = pairs.map Prod.fst := by
    unfold answers
    apply List.map_fst_zip
    simp [length_mark]
  rw [← hfirst]
  simp

theorem correct_mem_answers_iff :
    (symbol, .correct) ∈ answers available pairs ↔ (symbol, symbol) ∈ pairs := by
  induction pairs generalizing available with
  | nil => simp
  | cons pair rest ih =>
      rcases pair with ⟨guessed, wanted⟩
      by_cases heq : guessed = wanted
      · subst wanted
        simp [answers_cons_of_eq, ih]
      · have hpair : (symbol, symbol) ≠ (guessed, wanted) := by
          intro hsame
          simp only [Prod.mk.injEq] at hsame
          exact heq (hsame.1.symm.trans hsame.2)
        by_cases hmem : guessed ∈ available
        · simp [answers_cons_of_mem heq hmem, ih, hpair]
        · simp [answers_cons_of_notMem heq hmem, ih, hpair]

/-- Only what is left of the target is present elsewhere. -/
theorem mem_available_of_present (hpresent : (symbol, .present) ∈ answers available pairs) :
    symbol ∈ available := by
  induction pairs generalizing available with
  | nil => simp at hpresent
  | cons pair rest ih =>
      rcases pair with ⟨guessed, wanted⟩
      by_cases heq : guessed = wanted
      · subst wanted
        apply ih
        simpa [answers_cons_of_eq] using hpresent
      · by_cases hmem : guessed ∈ available
        · rw [answers_cons_of_mem heq hmem, List.mem_cons] at hpresent
          rcases hpresent with hfirst | hrest
          · have hsame : symbol = guessed := congrArg Prod.fst hfirst
            subst symbol
            exact hmem
          · exact List.mem_of_mem_erase (ih hrest)
        · apply ih
          simpa [answers_cons_of_notMem heq hmem] using hpresent

/-- What is left of the target is recognised the first time that it is guessed. -/
theorem exists_recognised (havailable : symbol ∈ available)
    (hguessed : symbol ∈ pairs.map Prod.fst) :
    ∃ tile, tile ≠ .absent ∧ (symbol, tile) ∈ answers available pairs := by
  induction pairs generalizing available with
  | nil => simp at hguessed
  | cons pair rest ih =>
      rcases pair with ⟨guessed, wanted⟩
      by_cases hsymbol : symbol = guessed
      · subst guessed
        by_cases heq : symbol = wanted
        · subst wanted
          exact ⟨.correct, by simp, by simp [answers_cons_of_eq]⟩
        · exact ⟨.present, by simp, by simp [answers_cons_of_mem heq havailable]⟩
      · have hrest : symbol ∈ rest.map Prod.fst := by
          simpa [hsymbol] using hguessed
        by_cases heq : guessed = wanted
        · subst wanted
          obtain ⟨tile, htile, hmem⟩ := ih havailable hrest
          exact ⟨tile, htile, by simp [answers_cons_of_eq, hmem]⟩
        · by_cases hmem : guessed ∈ available
          · have hleft : symbol ∈ available.erase guessed :=
              (List.mem_erase_of_ne hsymbol).mpr havailable
            obtain ⟨tile, htile, hrecognised⟩ := ih hleft hrest
            exact ⟨tile, htile, by simp [answers_cons_of_mem heq hmem, hrecognised]⟩
          · obtain ⟨tile, htile, hrecognised⟩ := ih havailable hrest
            exact ⟨tile, htile, by simp [answers_cons_of_notMem heq hmem, hrecognised]⟩

theorem mem_leftover_iff :
    symbol ∈ leftover pairs ↔ ∃ guessed, guessed ≠ symbol ∧ (guessed, symbol) ∈ pairs := by
  induction pairs with
  | nil => simp [leftover]
  | cons pair rest ih =>
      rcases pair with ⟨guessed, wanted⟩
      by_cases heq : guessed = wanted
      · subst wanted
        simp only [leftover, if_true, ih, List.mem_cons, Prod.mk.injEq]
        grind
      · simp only [leftover, heq, if_false, ih, List.mem_cons, Prod.mk.injEq]
        constructor
        · intro hleft
          rcases hleft with hwanted | ⟨other, hother, hmem⟩
          · subst wanted
            exact ⟨guessed, heq, Or.inl ⟨rfl, rfl⟩⟩
          · exact ⟨other, hother, Or.inr hmem⟩
        · intro hleft
          rcases hleft with ⟨other, hother, ⟨_, hwanted⟩ | hmem⟩
          · exact Or.inl hwanted
          · exact Or.inr ⟨other, hother, hmem⟩

end Answers

/-! ## Feedback for a spelling -/

/-- The symbols of a guess, each with the tile that answers it. -/
def answersTo (guess target : Spelling) : List (Symbol × Tile) :=
  guess.toList.zip (ofSpellings guess target).toList

section Spellings

variable {guess target : Spelling} {symbol : Symbol}

theorem answersTo_eq (guess target : Spelling) :
    answersTo guess target = answers (leftover (guess.toList.zip target.toList))
      (guess.toList.zip target.toList) := by
  have hfirst : (guess.toList.zip target.toList).map Prod.fst = guess.toList := by
    apply List.map_fst_zip
    simp
  rw [answers, hfirst]
  rfl

theorem exists_mem_answersTo_iff :
    (∃ tile, (symbol, tile) ∈ answersTo guess target) ↔ symbol ∈ guess := by
  rw [answersTo_eq, exists_mem_answers_iff, List.map_fst_zip (by simp), Vector.mem_toList_iff]

theorem correct_mem_answersTo_iff :
    (symbol, .correct) ∈ answersTo guess target ↔
      ∃ place : Fin equationLength, guess.get place = symbol ∧ target.get place = symbol := by
  rw [answersTo_eq, correct_mem_answers_iff, List.mem_iff_getElem]
  simp only [List.getElem_zip, Vector.getElem_toList, Prod.mk.injEq, List.length_zip,
    Vector.length_toList, Nat.min_self]
  constructor
  · intro hmem
    rcases hmem with ⟨place, hplace, hboth⟩
    exact ⟨⟨place, hplace⟩, hboth⟩
  · intro hplaced
    rcases hplaced with ⟨place, hboth⟩
    exact ⟨place.val, place.isLt, hboth⟩

theorem mem_target_of_recognised {tile : Tile} (htile : tile ≠ .absent)
    (hanswer : (symbol, tile) ∈ answersTo guess target) : symbol ∈ target := by
  rw [answersTo_eq] at hanswer
  have hzip : ∀ guessed, (guessed, symbol) ∈ guess.toList.zip target.toList →
      symbol ∈ target := by
    intro guessed hmem
    exact Vector.mem_toList_iff.mp (List.of_mem_zip hmem).2
  cases tile with
  | absent => contradiction
  | correct => exact hzip symbol (correct_mem_answers_iff.mp hanswer)
  | present =>
      obtain ⟨guessed, _, hmem⟩ := mem_leftover_iff.mp (mem_available_of_present hanswer)
      exact hzip guessed hmem

/-- However often a symbol of the target is repeated in a guess, one of its tiles tells of it. -/
theorem exists_recognised_of_mem (hguess : symbol ∈ guess) (htarget : symbol ∈ target) :
    ∃ tile, tile ≠ .absent ∧ (symbol, tile) ∈ answersTo guess target := by
  rw [answersTo_eq]
  by_cases hplaced : (symbol, symbol) ∈ guess.toList.zip target.toList
  · exact ⟨.correct, by simp, correct_mem_answers_iff.mpr hplaced⟩
  · have hsecond : symbol ∈ (guess.toList.zip target.toList).map Prod.snd := by
      rw [List.map_snd_zip (by simp)]
      exact Vector.mem_toList_iff.mpr htarget
    obtain ⟨⟨guessed, wanted⟩, hmem, hwanted⟩ := List.mem_map.mp hsecond
    change wanted = symbol at hwanted
    subst wanted
    apply exists_recognised
    · apply mem_leftover_iff.mpr
      refine ⟨guessed, ?_, hmem⟩
      intro hsame
      exact hplaced (hsame ▸ hmem)
    · rw [List.map_fst_zip (by simp)]
      exact Vector.mem_toList_iff.mpr hguess

end Spellings

end Feedback

end EquationPuzzle
