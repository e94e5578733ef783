import EquationPuzzle.Keyboard
import EquationPuzzle.Proofs.Feedback
import EquationPuzzle.Proofs.Grammar.Reading

/-!
# What a keyboard shows

A keyboard shows for each symbol the most informative of the tiles that it has had, in whatever
order they came.  One answer more is one step; the invariant of a step is that what is shown was
answered once and that nothing better ever was.  After guesses at one target the keyboard therefore
tells what is known of the target, and the absent tiles of repeated symbols are forgotten.
-/

namespace EquationPuzzle

theorem Tile.better_cases (a b : Tile) :
    a.rank ≤ b.rank ∧ a.better b = b ∨ b.rank ≤ a.rank ∧ a.better b = a := by
  unfold Tile.better
  by_cases hle : a.rank ≤ b.rank
  · simp [hle]
  · simp only [hle, if_false, false_and, and_true, false_or]
    omega

namespace Keyboard

/-! ## One key -/

private theorem lookup_cons_eq_ite (key known : Char) (shown : Tile) (rest : List (Char × Tile)) :
    ((known, shown) :: rest).lookup key = if key = known then some shown else rest.lookup key := by
  by_cases hsame : key = known
  · simp [hsame]
  · simp [List.lookup_cons, beq_eq_false_iff_ne.mpr hsame, hsame]

private theorem lookup_eq_none_of_lt {key : Char} {keys : List (Char × Tile)}
    (habove : ∀ entry ∈ keys, key < entry.1) : keys.lookup key = none := by
  rw [List.lookup_eq_none_iff]
  intro entry hentry
  have hlt := habove entry hentry
  simp only [bne_iff_ne, ne_eq]
  intro hsame
  subst key
  exact Char.lt_irrefl _ hlt

theorem lookup_updated {key : Char} {tile : Option Tile → Tile} {keys : List (Char × Tile)}
    (hascending : keys.Pairwise (·.1 < ·.1)) (other : Char) :
    (updated key tile keys).lookup other =
      if other = key then some (tile (keys.lookup key)) else keys.lookup other := by
  induction keys with
  | nil => simp only [updated, lookup_cons_eq_ite, List.lookup_nil]
  | cons first rest ih =>
      rcases first with ⟨known, shown⟩
      have hrest := List.pairwise_cons.mp hascending
      unfold updated
      by_cases hbefore : key < known
      · have hnone : ((known, shown) :: rest).lookup key = none := by
          apply lookup_eq_none_of_lt
          intro entry hentry
          rcases List.mem_cons.mp hentry with hfirst | hlater
          · subst entry
            exact hbefore
          · exact Char.lt_trans hbefore (hrest.1 entry hlater)
        rw [if_pos hbefore, lookup_cons_eq_ite, hnone]
      · rw [if_neg hbefore]
        by_cases hafter : known < key
        · have hne : key ≠ known := by
            intro hsame
            subst known
            exact Char.lt_irrefl _ hafter
          rw [if_pos hafter, lookup_cons_eq_ite, lookup_cons_eq_ite, lookup_cons_eq_ite,
            ih hrest.2, if_neg hne]
          by_cases hknown : other = known
          · subst other
            simp [hne.symm]
          · simp [hknown]
        · have hsame : key = known :=
            Char.le_antisymm (Char.not_lt.mp hafter) (Char.not_lt.mp hbefore)
          subst known
          rw [if_neg hafter, lookup_cons_eq_ite, lookup_cons_eq_ite, lookup_cons_eq_ite,
            if_pos rfl]
          by_cases hother : other = key <;> simp [hother]

theorem state_learn (keyboard : Keyboard) (symbol other : Symbol) (tile : Tile) :
    (keyboard.learn symbol.toChar tile).state other =
      if other = symbol then some ((keyboard.state symbol).elim tile (Tile.better · tile))
      else keyboard.state other := by
  unfold state find? learn update
  rw [lookup_updated keyboard.ascending]
  by_cases hother : other = symbol
  · simp [hother]
  · have hkey : other.toChar ≠ symbol.toChar := by
      intro hsame
      exact hother (Symbol.toChar_injective hsame)
    simp [hother, hkey]

@[simp] theorem state_empty (symbol : Symbol) : empty.state symbol = none := rfl

/-! ## Any number of answers -/

/-- The keyboard after some answers more. -/
def learnAll (keyboard : Keyboard) (answers : List (Symbol × Tile)) : Keyboard :=
  answers.foldl (fun keyboard answer => keyboard.learn answer.1.toChar answer.2) keyboard

theorem learnAll_append (keyboard : Keyboard) (answers more : List (Symbol × Tile)) :
    keyboard.learnAll (answers ++ more) = (keyboard.learnAll answers).learnAll more :=
  List.foldl_append

/-- The keyboard after the feedback for some guesses more. -/
def recordAll (keyboard : Keyboard) (rounds : List (Spelling × Feedback)) : Keyboard :=
  rounds.foldl (fun keyboard round => keyboard.record round.1 round.2) keyboard

/-- The symbols of all guesses, each with the tile that answers it. -/
def answersOf (rounds : List (Spelling × Feedback)) : List (Symbol × Tile) :=
  rounds.flatMap fun round => round.1.toList.zip round.2.toList

theorem recordAll_eq_learnAll (keyboard : Keyboard) (rounds : List (Spelling × Feedback)) :
    keyboard.recordAll rounds = keyboard.learnAll (answersOf rounds) := by
  induction rounds generalizing keyboard with
  | nil => rfl
  | cons round rest ih =>
      have hrest := ih (keyboard.record round.1 round.2)
      rw [answersOf, List.flatMap_cons, learnAll_append]
      exact hrest

/-- A tile that the symbol has been answered with, such that none was more informative; nothing if
it has not been answered. -/
def IsBest (answers : List (Symbol × Tile)) (symbol : Symbol) : Option Tile → Prop
  | none => ∀ tile, (symbol, tile) ∉ answers
  | some best => (symbol, best) ∈ answers ∧ ∀ tile, (symbol, tile) ∈ answers → tile.rank ≤ best.rank

theorem IsBest.concat {answers : List (Symbol × Tile)} {symbol : Symbol} {known : Option Tile}
    (hbest : IsBest answers symbol known) (tile : Tile) :
    IsBest (answers ++ [(symbol, tile)]) symbol (some (known.elim tile (Tile.better · tile))) := by
  cases known with
  | none =>
      constructor
      · simp
      · intro other hother
        rcases List.mem_append.mp hother with hearlier | hlast
        · exact absurd hearlier (hbest other)
        · have hsame : other = tile := by simpa using hlast
          exact Nat.le_of_eq (congrArg Tile.rank hsame)
  | some best =>
      rcases hbest with ⟨hmem, hmost⟩
      have hall : ∀ other, (symbol, other) ∈ answers ++ [(symbol, tile)] →
          other.rank ≤ best.rank ∨ other = tile := by
        intro other hother
        rcases List.mem_append.mp hother with hearlier | hlast
        · exact Or.inl (hmost other hearlier)
        · exact Or.inr (by simpa using hlast)
      change IsBest _ _ (some (best.better tile))
      rcases best.better_cases tile with ⟨hle, hbetter⟩ | ⟨hle, hbetter⟩
      · rw [hbetter]
        constructor
        · simp
        · intro other hother
          rcases hall other hother with hearlier | hlast
          · exact hearlier.trans hle
          · exact Nat.le_of_eq (congrArg Tile.rank hlast)
      · rw [hbetter]
        constructor
        · simp [hmem]
        · intro other hother
          rcases hall other hother with hearlier | hlast
          · exact hearlier
          · exact hlast ▸ hle

theorem IsBest.concat_of_ne {answers : List (Symbol × Tile)} {symbol other : Symbol}
    {known : Option Tile} (hbest : IsBest answers symbol known) (hne : symbol ≠ other)
    (tile : Tile) : IsBest (answers ++ [(other, tile)]) symbol known := by
  cases known with
  | none => simpa [IsBest, hne] using hbest
  | some best => simpa [IsBest, hne] using hbest

/-- What is shown of a symbol is the most informative of its answers. -/
theorem isBest_state_learnAll (answers : List (Symbol × Tile)) (symbol : Symbol) :
    IsBest answers symbol ((empty.learnAll answers).state symbol) := by
  -- The answers are taken from their end, since the last of them is learnt last.
  induction answers using List.reverseRecOn with
  | nil => simp [learnAll, IsBest]
  | append_singleton answers answer ih =>
      rcases answer with ⟨other, tile⟩
      rw [learnAll_append]
      change IsBest _ _ (((empty.learnAll answers).learn other.toChar tile).state symbol)
      rw [state_learn]
      by_cases hsymbol : symbol = other
      · subst other
        rw [if_pos rfl]
        exact ih.concat tile
      · rw [if_neg hsymbol]
        exact ih.concat_of_ne hsymbol tile

/-! ## Guesses at one target -/

/-- The keyboard after guesses that were answered with the feedback for one target. -/
def afterGuesses (target : Spelling) (guesses : List Spelling) : Keyboard :=
  guesses.foldl (fun keyboard guess => keyboard.record guess (.ofSpellings guess target)) empty

/-- The symbol has been guessed in a place where the target has it. -/
def Placed (target : Spelling) (guesses : List Spelling) (symbol : Symbol) : Prop :=
  ∃ guess ∈ guesses, ∃ place : Fin equationLength,
    guess.get place = symbol ∧ target.get place = symbol

/-- What guesses tell of a symbol, as it should be shown. -/
def Tells (target : Spelling) (guesses : List Spelling) (symbol : Symbol) : Option Tile → Prop
  | none => ∀ guess ∈ guesses, symbol ∉ guess
  | some .absent => (∃ guess ∈ guesses, symbol ∈ guess) ∧ symbol ∉ target
  | some .present =>
    (∃ guess ∈ guesses, symbol ∈ guess) ∧ symbol ∈ target ∧ ¬Placed target guesses symbol
  | some .correct => Placed target guesses symbol

theorem Placed.guessed {target : Spelling} {guesses : List Spelling} {symbol : Symbol}
    (hplaced : Placed target guesses symbol) :
    (∃ guess ∈ guesses, symbol ∈ guess) ∧ symbol ∈ target := by
  rcases hplaced with ⟨guess, hguess, place, hguessed, hwanted⟩
  exact ⟨⟨guess, hguess, hguessed ▸ Vector.getElem_mem _⟩, hwanted ▸ Vector.getElem_mem _⟩

/-- At most one thing is told. -/
theorem Tells.eq {target : Spelling} {guesses : List Spelling} {symbol : Symbol}
    {known other : Option Tile} (hknown : Tells target guesses symbol known)
    (hother : Tells target guesses symbol other) : known = other := by
  have hplaced := @Placed.guessed target guesses symbol
  have hnone : (∀ guess ∈ guesses, symbol ∉ guess) ↔ ¬∃ guess ∈ guesses, symbol ∈ guess := by
    push Not
    rfl
  rcases known with _ | _ | _ | _ <;> rcases other with _ | _ | _ | _ <;>
    simp only [Tells, hnone] at hknown hother <;> tauto

section History

variable {target : Spelling} {guesses : List Spelling} {symbol : Symbol}

/-- All answers to a number of guesses. -/
def history (target : Spelling) (guesses : List Spelling) : List (Symbol × Tile) :=
  guesses.flatMap fun guess => Feedback.answersTo guess target

theorem exists_mem_history_iff :
    (∃ tile, (symbol, tile) ∈ history target guesses) ↔ ∃ guess ∈ guesses, symbol ∈ guess := by
  simp only [history, List.mem_flatMap, ← @Feedback.exists_mem_answersTo_iff _ target]
  constructor
  · intro hanswer
    rcases hanswer with ⟨tile, guess, hguess, htile⟩
    exact ⟨guess, hguess, tile, htile⟩
  · intro hguessed
    rcases hguessed with ⟨guess, hguess, tile, htile⟩
    exact ⟨tile, guess, hguess, htile⟩

theorem correct_mem_history_iff :
    (symbol, .correct) ∈ history target guesses ↔ Placed target guesses symbol := by
  simp only [history, List.mem_flatMap, Feedback.correct_mem_answersTo_iff, Placed]

theorem mem_target_of_mem_history {tile : Tile} (htile : tile ≠ .absent)
    (hanswer : (symbol, tile) ∈ history target guesses) : symbol ∈ target := by
  obtain ⟨guess, _, hmem⟩ := List.mem_flatMap.mp hanswer
  exact Feedback.mem_target_of_recognised htile hmem

theorem exists_recognised_mem_history (hguessed : ∃ guess ∈ guesses, symbol ∈ guess)
    (htarget : symbol ∈ target) :
    ∃ tile, tile ≠ .absent ∧ (symbol, tile) ∈ history target guesses := by
  rcases hguessed with ⟨guess, hguess, hsymbol⟩
  obtain ⟨tile, htile, hmem⟩ := Feedback.exists_recognised_of_mem hsymbol htarget
  exact ⟨tile, htile, List.mem_flatMap.mpr ⟨guess, hguess, hmem⟩⟩

theorem afterGuesses_eq_learnAll (target : Spelling) (guesses : List Spelling) :
    afterGuesses target guesses = empty.learnAll (history target guesses) := by
  have hrounds : afterGuesses target guesses =
      empty.recordAll (guesses.map fun guess => (guess, .ofSpellings guess target)) := by
    rw [recordAll, List.foldl_map]
    rfl
  rw [hrounds, recordAll_eq_learnAll, answersOf, List.flatMap_map]
  rfl

/-- The most informative answer to a symbol tells what the guesses tell. -/
theorem IsBest.tells {known : Option Tile} (hbest : IsBest (history target guesses) symbol known) :
    Tells target guesses symbol known := by
  cases known with
  | none =>
      intro guess hguess hmem
      obtain ⟨tile, htile⟩ := exists_mem_history_iff.mpr ⟨guess, hguess, hmem⟩
      exact hbest tile htile
  | some best =>
      rcases hbest with ⟨hanswer, hmost⟩
      have hguessed := exists_mem_history_iff.mp ⟨best, hanswer⟩
      cases best with
      | absent =>
          refine ⟨hguessed, fun htarget => ?_⟩
          obtain ⟨tile, htile, hmem⟩ := exists_recognised_mem_history hguessed htarget
          have hrank := hmost tile hmem
          cases tile <;> simp [Tile.rank] at htile hrank
      | present =>
          refine ⟨hguessed, mem_target_of_mem_history (by simp) hanswer, fun hplaced => ?_⟩
          have hrank := hmost .correct (correct_mem_history_iff.mpr hplaced)
          simp [Tile.rank] at hrank
      | correct => exact correct_mem_history_iff.mp hanswer

end History

/-- After any guesses at a target, the keyboard shows nothing of a symbol that has not been guessed,
and of a guessed one that it is absent just if the target lacks it, that it is correct just if some
guess has put it in its place, and else that it is present.  No symbol of the target is ever shown
as absent, whichever of its repetitions have been marked so. -/
theorem afterGuesses_shows (target : Spelling) (guesses : List Spelling) (symbol : Symbol) :
    let shown := (afterGuesses target guesses).state symbol
    let guessed := ∃ guess ∈ guesses, symbol ∈ guess
    let placed := ∃ guess ∈ guesses, ∃ place : Fin equationLength,
      guess.get place = symbol ∧ target.get place = symbol
    (shown = none ↔ ∀ guess ∈ guesses, symbol ∉ guess) ∧
      (shown = some .absent ↔ guessed ∧ symbol ∉ target) ∧
      (shown = some .correct ↔ placed) ∧
      (shown = some .present ↔ guessed ∧ symbol ∈ target ∧ ¬placed) ∧
      (symbol ∈ target → shown ≠ some .absent) := by
  intro shown guessed placed
  have htells : Tells target guesses symbol shown := by
    have hbest := isBest_state_learnAll (history target guesses) symbol
    rw [← afterGuesses_eq_learnAll] at hbest
    exact hbest.tells
  have hiff : ∀ known, shown = known ↔ Tells target guesses symbol known := by
    intro known
    constructor
    · intro hshown
      exact hshown ▸ htells
    · exact htells.eq
  refine ⟨hiff none, hiff (some .absent), hiff (some .correct), hiff (some .present), ?_⟩
  intro htarget habsent
  exact ((hiff (some .absent)).mp habsent).2 htarget

end Keyboard

end EquationPuzzle
