import EquationPuzzle.Proofs.Feedback
import EquationPuzzle.Proofs.Feedback.Scoring

/-!
# How often a symbol is recognised

The places where a guess has a symbol that the target does not have there are answered from left to
right: the first of them are present, as many as the target has of the symbol besides those in their
places, and all others are absent.  So a symbol is recognised as often as guess and target both have
it.
-/

namespace EquationPuzzle

namespace Feedback

/-! ## Rows of pairs -/

section Rows

variable {available : List Symbol} {pairs : List (Symbol × Symbol)}

theorem map_correct_mark :
    (mark available pairs).map (fun tile => decide (tile = .correct)) =
      pairs.map fun pair => decide (pair.1 = pair.2) := by
  induction pairs generalizing available with
  | nil => rfl
  | cons pair rest ih =>
      rcases pair with ⟨guessed, wanted⟩
      rw [mark]
      split
      · next hsame => simp [ih, hsame]
      · next hsame => split <;> simp [ih, hsame]

variable (symbol : Symbol)

/-- The tiles of a symbol that stands wrong, from left to right. -/
def strayTiles (pairs : List (Symbol × Symbol)) (tiles : List Tile) : List Tile :=
  ((pairs.zip tiles).filter fun entry => entry.1.1 = symbol ∧ entry.1.2 ≠ symbol).map Prod.snd

theorem strayTiles_cons_of_stray {wanted : Symbol} (hwanted : wanted ≠ symbol) (tile : Tile)
    (rest : List (Symbol × Symbol)) (tiles : List Tile) :
    strayTiles symbol ((symbol, wanted) :: rest) (tile :: tiles) =
      tile :: strayTiles symbol rest tiles := by
  simp [strayTiles, hwanted]

theorem strayTiles_cons_of_not_stray {pair : Symbol × Symbol}
    (hpair : ¬(pair.1 = symbol ∧ pair.2 ≠ symbol)) (tile : Tile)
    (rest : List (Symbol × Symbol)) (tiles : List Tile) :
    strayTiles symbol (pair :: rest) (tile :: tiles) = strayTiles symbol rest tiles := by
  rw [strayTiles, List.zip_cons_cons, List.filter_cons_of_neg (by simpa using hpair)]
  rfl

def strays (pairs : List (Symbol × Symbol)) : Nat :=
  pairs.countP fun pair => pair.1 = symbol ∧ pair.2 ≠ symbol

/-- The first strays are present, as many as are available, and the others are absent. -/
theorem strayTiles_mark :
    strayTiles symbol pairs (mark available pairs) =
      List.replicate (min (strays symbol pairs) (available.count symbol)) .present ++
        List.replicate (strays symbol pairs - available.count symbol) .absent := by
  induction pairs generalizing available with
  | nil => simp [strays, strayTiles, mark]
  | cons pair rest ih =>
      by_cases hstray : pair.1 = symbol ∧ pair.2 ≠ symbol
      · rcases pair with ⟨guessed, wanted⟩
        rcases hstray with ⟨hguessed, hwanted⟩
        simp only at hguessed hwanted
        subst guessed
        have hstrays : strays symbol ((symbol, wanted) :: rest) = strays symbol rest + 1 := by
          simp [strays, hwanted]
        rw [mark, if_neg (Ne.symm hwanted), hstrays]
        by_cases hmem : symbol ∈ available
        · have hcount : 0 < available.count symbol := List.count_pos_iff.mpr hmem
          have hmin : min (strays symbol rest + 1) (available.count symbol) =
              min (strays symbol rest) (available.count symbol - 1) + 1 := by omega
          have hrest : strays symbol rest + 1 - available.count symbol =
              strays symbol rest - (available.count symbol - 1) := by omega
          rw [if_pos hmem, strayTiles_cons_of_stray symbol hwanted, ih, List.count_erase_self, hmin,
            hrest, List.replicate_succ]
          rfl
        · have hcount : available.count symbol = 0 := List.count_eq_zero_of_not_mem hmem
          rw [if_neg hmem, strayTiles_cons_of_stray symbol hwanted, ih, hcount]
          simp [List.replicate_succ]
      · have hstrays : strays symbol (pair :: rest) = strays symbol rest := by
          rw [strays, List.countP_cons_of_neg (by simpa using hstray)]
          rfl
        rw [mark, hstrays]
        split
        · rw [strayTiles_cons_of_not_stray symbol hstray, ih]
        · next hne =>
            have hother : pair.1 ≠ symbol := by
              intro hsymbol
              exact hstray ⟨hsymbol, fun hwanted => hne (hsymbol.trans hwanted.symm)⟩
            split
            · rw [strayTiles_cons_of_not_stray symbol hstray, ih,
                List.count_erase_of_ne hother.symm]
            · rw [strayTiles_cons_of_not_stray symbol hstray, ih]

def hits (pairs : List (Symbol × Symbol)) : Nat :=
  pairs.countP fun pair => pair.1 = symbol ∧ pair.2 = symbol

theorem count_fst_eq (pairs : List (Symbol × Symbol)) :
    (pairs.map Prod.fst).count symbol = hits symbol pairs + strays symbol pairs := by
  induction pairs with
  | nil => rfl
  | cons pair rest ih =>
      simp only [hits, strays, List.map_cons, List.count_cons, List.countP_cons] at ih ⊢
      grind

theorem count_snd_eq (pairs : List (Symbol × Symbol)) :
    (pairs.map Prod.snd).count symbol = hits symbol pairs + (leftover pairs).count symbol := by
  rw [Scoring.count_leftover]
  induction pairs with
  | nil => rfl
  | cons pair rest ih =>
      simp only [hits, List.map_cons, List.count_cons, List.countP_cons] at ih ⊢
      grind

theorem count_correct_answers :
    (answers available pairs).count (symbol, .correct) = hits symbol pairs := by
  induction pairs generalizing available with
  | nil => rfl
  | cons pair rest ih =>
      rcases pair with ⟨guessed, wanted⟩
      by_cases hsame : guessed = wanted
      · subst wanted
        simp [answers_cons_of_eq, ih, hits, List.count_cons, List.countP_cons]
      · have hmiss : ¬(guessed = symbol ∧ wanted = symbol) :=
          fun hboth => hsame (hboth.1.trans hboth.2.symm)
        by_cases hmem : guessed ∈ available
        · simp [answers_cons_of_mem hsame hmem, ih, hits, hmiss]
        · simp [answers_cons_of_notMem hsame hmem, ih, hits, hmiss]

theorem countP_recognised_answers :
    (answers available pairs).countP (fun answer => answer.1 = symbol ∧ answer.2 ≠ .absent) =
      hits symbol pairs + min (strays symbol pairs) (available.count symbol) := by
  induction pairs generalizing available with
  | nil => simp [hits, strays]
  | cons pair rest ih =>
      rcases pair with ⟨guessed, wanted⟩
      by_cases hsame : guessed = wanted
      · subst wanted
        rw [answers_cons_of_eq, List.countP_cons, ih]
        simp only [hits, strays, List.countP_cons]
        grind
      · by_cases hmem : guessed ∈ available
        · have hcount : 0 < available.count guessed := List.count_pos_iff.mpr hmem
          rw [answers_cons_of_mem hsame hmem, List.countP_cons, ih, List.count_erase]
          simp only [hits, strays, List.countP_cons]
          grind
        · have hcount : available.count guessed = 0 := List.count_eq_zero_of_not_mem hmem
          rw [answers_cons_of_notMem hsame hmem, List.countP_cons, ih]
          simp only [hits, strays, List.countP_cons]
          grind

end Rows

/-! ## Spellings -/

section Spellings

variable (guess target : Spelling) (symbol : Symbol)

/-- The places where the guess has the symbol and the target has another one. -/
def misplaced : List (Fin equationLength) :=
  (List.finRange equationLength).filter fun place =>
    guess.get place = symbol ∧ target.get place ≠ symbol

/-- How many of these places the target can answer: as many as it has of the symbol, less those
that are correct. -/
def answerable : Nat :=
  min (misplaced guess target symbol).length
    (target.toList.count symbol - (answersTo guess target).count (symbol, .correct))

theorem toList_ofSpellings : (ofSpellings guess target).toList =
    mark (leftover (guess.toList.zip target.toList)) (guess.toList.zip target.toList) := rfl

theorem get_eq_correct_iff (place : Fin equationLength) :
    (ofSpellings guess target).get place = .correct ↔ guess.get place = target.get place := by
  have hrow := @map_correct_mark (leftover (guess.toList.zip target.toList))
    (guess.toList.zip target.toList)
  rw [← toList_ofSpellings, Scoring.toList_eq_map_get, Scoring.zip_toList_eq, List.map_map,
    List.map_map, List.map_inj_left] at hrow
  exact decide_eq_decide.mp (hrow place (List.mem_finRange place))

theorem strayTiles_ofSpellings :
    strayTiles symbol (guess.toList.zip target.toList) (ofSpellings guess target).toList =
      (misplaced guess target symbol).map (ofSpellings guess target).get := by
  rw [strayTiles, Scoring.zip_toList_eq, Scoring.toList_eq_map_get (ofSpellings guess target),
    List.zip_map', List.filter_map, List.map_map]
  rfl

theorem length_misplaced : (misplaced guess target symbol).length =
    strays symbol (guess.toList.zip target.toList) := by
  rw [misplaced, ← List.countP_eq_length_filter, strays, Scoring.zip_toList_eq, List.countP_map]
  rfl

theorem count_correct_answersTo : (answersTo guess target).count (symbol, .correct) =
    hits symbol (guess.toList.zip target.toList) := by
  rw [answersTo_eq, count_correct_answers]

/-- The tiles of a guess.  Scoring on arrays comes to them, and while it lasts no counter has to go
below zero and no search for a symbol that is still counted fails.  The symbols in their places are
correct.  Of the other places with a symbol the leftmost are present, as far as the target has more
of the symbol than are correct.  A symbol is recognised as often as guess and target both have
it. -/
theorem ofSpellings_scored (guess target : Spelling) :
    (∀ count, ∃ scoring, Scoring.after guess target count = some scoring ∧
        ∀ symbol, scoring.remaining.get symbol.index ≠ 0 →
          (scoring.search target symbol).isSome) ∧
      (Scoring.after guess target visits.length).map Scoring.tiles =
        some (ofSpellings guess target) ∧
      (∀ place, (ofSpellings guess target).get place = .correct ↔
        guess.get place = target.get place) ∧
      ∀ symbol,
        (misplaced guess target symbol).map (ofSpellings guess target).get =
            List.replicate (answerable guess target symbol) .present ++
              List.replicate ((misplaced guess target symbol).length -
                answerable guess target symbol) .absent ∧
          (answersTo guess target).countP
              (fun answer => answer.1 = symbol ∧ answer.2 ≠ .absent) =
            min (guess.toList.count symbol) (target.toList.count symbol) := by
  refine ⟨?_, Scoring.map_tiles_after, get_eq_correct_iff guess target, ?_⟩
  · intro count
    rcases @Scoring.exists_after_eq guess target count with ⟨scoring, hafter, hbalanced⟩
    refine ⟨scoring, hafter, ?_⟩
    intro symbol hpositive
    rcases hbalanced.exists_search_eq hpositive with ⟨found, hsearch, _⟩
    rw [hsearch]
    rfl
  · intro symbol
    have hguess := count_fst_eq symbol (guess.toList.zip target.toList)
    have htarget := count_snd_eq symbol (guess.toList.zip target.toList)
    rw [List.map_fst_zip (by simp)] at hguess
    rw [List.map_snd_zip (by simp)] at htarget
    constructor
    · have hleft : target.toList.count symbol - (answersTo guess target).count (symbol, .correct) =
          (leftover (guess.toList.zip target.toList)).count symbol := by
        rw [count_correct_answersTo]
        omega
      have hrest : ∀ places found : Nat, places - min places found = places - found := by omega
      rw [answerable, hleft, hrest, ← strayTiles_ofSpellings, toList_ofSpellings, strayTiles_mark,
        length_misplaced]
    · rw [answersTo_eq, countP_recognised_answers, hguess, htarget]
      omega

end Spellings

end Feedback

end EquationPuzzle
