import EquationPuzzle.Proofs.Keyboard
import Mathlib.Data.List.Sort

/-!
# Answers merged into a keyboard

A keyboard is the set of answers that it has learnt, seen through their best tiles: whichever
feedback is recorded, and however often, the order does not matter.  This is shown for single
answers.  A keyboard has no keys but those of answered symbols and shows the best answer of each,
its keys ascend, and so it is determined by which answers there have been.
-/

namespace EquationPuzzle

theorem Tile.rank_injective : Function.Injective Tile.rank := by
  intro a b hrank
  cases a <;> cases b <;> simp [Tile.rank] at hrank ⊢

namespace Keyboard

/-! ## The best answer -/

section Best

variable {answers others : List (Symbol × Tile)} {symbol : Symbol} {known other : Option Tile}

theorem isBest_none_iff :
    IsBest answers symbol none ↔ ∀ tile, (symbol, tile) ∉ answers := Iff.rfl

theorem isBest_some_iff {best : Tile} :
    IsBest answers symbol (some best) ↔
      (symbol, best) ∈ answers ∧ ∀ tile, (symbol, tile) ∈ answers → tile.rank ≤ best.rank := Iff.rfl

theorem IsBest.eq (hknown : IsBest answers symbol known) (hother : IsBest answers symbol other) :
    known = other := by
  cases known with
  | none =>
      cases other with
      | none => rfl
      | some best => exact absurd hother.1 (hknown best)
  | some best =>
      cases other with
      | none => exact absurd hknown.1 (hother best)
      | some tile =>
          have hle := hother.2 best hknown.1
          have hge := hknown.2 tile hother.1
          rw [Tile.rank_injective (Nat.le_antisymm hle hge)]

theorem IsBest.congr (hmem : ∀ answer, answer ∈ others ↔ answer ∈ answers)
    (hbest : IsBest answers symbol known) : IsBest others symbol known := by
  cases known with
  | none =>
      intro tile htile
      exact hbest tile ((hmem _).mp htile)
  | some best =>
      constructor
      · exact (hmem _).mpr hbest.1
      · intro tile htile
        exact hbest.2 tile ((hmem _).mp htile)

/-- The best of more answers is no less informative. -/
theorem IsBest.exists_rank_le {best : Tile} (hbest : IsBest answers symbol (some best))
    (hsubset : answers ⊆ others) (hother : IsBest others symbol other) :
    ∃ tile, other = some tile ∧ best.rank ≤ tile.rank := by
  cases other with
  | none => exact absurd (hsubset hbest.1) (hother best)
  | some tile => exact ⟨tile, rfl, hother.2 best (hsubset hbest.1)⟩

theorem state_learnAll_eq_iff :
    (empty.learnAll answers).state symbol = known ↔ IsBest answers symbol known := by
  have hbest := isBest_state_learnAll answers symbol
  constructor
  · intro hknown
    exact hknown ▸ hbest
  · exact hbest.eq

end Best

/-! ## The keys -/

theorem mem_keys_iff (keyboard : Keyboard) (key : Char) (tile : Tile) :
    (key, tile) ∈ keyboard.keys ↔ keyboard.find? key = some tile := by
  unfold find?
  rw [List.lookup_eq_some_iff]
  constructor
  · intro hmem
    rcases List.append_of_mem hmem with ⟨before, after, hkeys⟩
    refine ⟨before, after, hkeys, ?_⟩
    intro entry hentry
    have hascending := keyboard.ascending
    rw [hkeys, List.pairwise_append] at hascending
    have hlt : entry.1 < key := hascending.2.2 entry hentry (key, tile) List.mem_cons_self
    rw [bne_iff_ne]
    exact (Char.ne_of_lt hlt).symm
  · intro hfound
    rcases hfound with ⟨before, after, hkeys, _⟩
    rw [hkeys]
    simp

/-- A key is there because a symbol was answered. -/
theorem exists_answer_of_mem_keys {answers : List (Symbol × Tile)} {entry : Char × Tile}
    (hentry : entry ∈ (empty.learnAll answers).keys) :
    ∃ answer ∈ answers, entry.1 = answer.1.toChar := by
  induction answers using List.reverseRecOn generalizing entry with
  | nil => simp [learnAll, empty] at hentry
  | append_singleton answers answer ih =>
      rw [learnAll_append] at hentry
      rcases mem_updated hentry with hnew | ⟨known, hknown, hsame⟩
      · exact ⟨answer, by simp, hnew⟩
      · rcases ih hknown with ⟨other, hother, hkey⟩
        exact ⟨other, List.mem_append_left _ hother, hsame.symm.trans hkey⟩

/-- The keys of a keyboard are the symbols that were answered, each with its best tile. -/
theorem mem_keys_learnAll_iff (answers : List (Symbol × Tile)) (key : Char) (tile : Tile) :
    (key, tile) ∈ (empty.learnAll answers).keys ↔
      ∃ symbol : Symbol, symbol.toChar = key ∧ IsBest answers symbol (some tile) := by
  constructor
  · intro hmem
    rcases exists_answer_of_mem_keys hmem with ⟨answer, _, hkey⟩
    have hkey : key = answer.1.toChar := hkey
    rw [mem_keys_iff, hkey] at hmem
    exact ⟨answer.1, hkey.symm, state_learnAll_eq_iff.mp hmem⟩
  · intro hexists
    rcases hexists with ⟨symbol, hkey, hbest⟩
    rw [mem_keys_iff, ← hkey]
    exact state_learnAll_eq_iff.mpr hbest

theorem ext_of_mem_keys_iff {a b : Keyboard} (hmem : ∀ entry, entry ∈ a.keys ↔ entry ∈ b.keys) :
    a = b := by
  have hirrefl : Std.Irrefl fun a b : Char × Tile => a.1 < b.1 :=
    ⟨fun entry => Char.lt_irrefl entry.1⟩
  have hantisymm : Std.Antisymm fun a b : Char × Tile => a.1 < b.1 :=
    ⟨fun a b hlt hgt => absurd hgt (Char.lt_asymm hlt)⟩
  have hkeys : a.keys = b.keys := a.ascending.eq_of_mem_iff b.ascending hmem
  rcases a with ⟨keys, _⟩
  rcases b with ⟨others, _⟩
  have hkeys : keys = others := hkeys
  subst others
  rfl

/-- Which answers there have been determines the keyboard. -/
theorem learnAll_eq_of_mem_iff {answers others : List (Symbol × Tile)}
    (hmem : ∀ answer, answer ∈ others ↔ answer ∈ answers) :
    empty.learnAll others = empty.learnAll answers := by
  apply ext_of_mem_keys_iff
  intro entry
  rcases entry with ⟨key, tile⟩
  rw [mem_keys_learnAll_iff, mem_keys_learnAll_iff]
  constructor
  · intro hexists
    rcases hexists with ⟨symbol, hkey, hbest⟩
    exact ⟨symbol, hkey, hbest.congr fun answer => (hmem answer).symm⟩
  · intro hexists
    rcases hexists with ⟨symbol, hkey, hbest⟩
    exact ⟨symbol, hkey, hbest.congr hmem⟩

/-- No key is lost by more answers. -/
theorem map_fst_keys_subset {answers others : List (Symbol × Tile)} (hsubset : answers ⊆ others) :
    (empty.learnAll answers).keys.map Prod.fst ⊆ (empty.learnAll others).keys.map Prod.fst := by
  intro key hkey
  rcases List.mem_map.mp hkey with ⟨⟨shown, tile⟩, hentry, hfirst⟩
  rcases (mem_keys_learnAll_iff answers shown tile).mp hentry with ⟨symbol, hsymbol, hbest⟩
  rcases hbest.exists_rank_le hsubset (isBest_state_learnAll others symbol) with
    ⟨later, hlater, _⟩
  have hmem := (mem_keys_learnAll_iff others shown later).mpr
    ⟨symbol, hsymbol, state_learnAll_eq_iff.mp hlater⟩
  exact List.mem_map.mpr ⟨(shown, later), hmem, hfirst⟩

/-- A keyboard shows keys as soon as anything has been guessed. -/
theorem keys_afterGuesses_eq_nil_iff (target : Spelling) (guesses : List Spelling) :
    (afterGuesses target guesses).keys = [] ↔ guesses = [] := by
  constructor
  · intro hkeys
    apply List.eq_nil_iff_forall_not_mem.mpr
    intro guess hguess
    have hnone : (afterGuesses target guesses).state guess[0] = none := by
      rw [state, find?, hkeys]
      rfl
    rw [afterGuesses_eq_learnAll, state_learnAll_eq_iff, isBest_none_iff] at hnone
    rcases exists_mem_history_iff.mpr ⟨guess, hguess, Vector.getElem_mem _⟩ with ⟨tile, htile⟩
    exact hnone tile htile
  · intro hnone
    subst guesses
    rfl

/-! ## Rounds of feedback -/

section Rounds

variable {rounds : List (Spelling × Feedback)} {symbol : Symbol} {tile : Tile}

theorem mem_answersOf_iff :
    (symbol, tile) ∈ answersOf rounds ↔ ∃ round ∈ rounds, ∃ place : Fin equationLength,
      round.1.get place = symbol ∧ round.2.get place = tile := by
  have hzip : ∀ (guess : Spelling) (feedback : Feedback),
      (symbol, tile) ∈ guess.toList.zip feedback.toList ↔
        ∃ place : Fin equationLength, guess.get place = symbol ∧ feedback.get place = tile := by
    intro guess feedback
    rw [List.mem_iff_getElem]
    constructor
    · intro hplace
      rcases hplace with ⟨place, hbound, hpair⟩
      rw [List.getElem_zip, Prod.mk.injEq] at hpair
      have hbound : place < equationLength := by simpa using hbound
      exact ⟨⟨place, hbound⟩, hpair⟩
    · intro hplace
      rcases hplace with ⟨place, hsymbol, htile⟩
      refine ⟨place, by simp, ?_⟩
      rw [List.getElem_zip, Prod.mk.injEq]
      exact ⟨hsymbol, htile⟩
  simp only [answersOf, List.mem_flatMap, hzip]

theorem exists_mem_answersOf_iff :
    (∃ tile, (symbol, tile) ∈ answersOf rounds) ↔ ∃ round ∈ rounds, symbol ∈ round.1 := by
  simp only [mem_answersOf_iff, Vector.mem_iff_getElem]
  constructor
  · intro hanswer
    rcases hanswer with ⟨_, round, hround, place, hsymbol, _⟩
    exact ⟨round, hround, place, place.isLt, hsymbol⟩
  · intro hguessed
    rcases hguessed with ⟨round, hround, place, hplace, hsymbol⟩
    exact ⟨round.2.get ⟨place, hplace⟩, round, hround, ⟨place, hplace⟩, hsymbol, rfl⟩

end Rounds

/-- Whatever feedback is recorded for whatever guesses, a keyboard shows of each symbol the best of
the tiles that have been recorded for it, and nothing if it has not been guessed, and it has no keys
but those of guessed symbols.  So the keyboard stays the same if the rounds are recorded in another
order or some of them again, and no further rounds lower what is shown or remove a key. -/
theorem recordAll_shows_best (rounds : List (Spelling × Feedback)) :
    let keyboard := empty.recordAll rounds
    let recorded (symbol : Symbol) (tile : Tile) := ∃ round ∈ rounds,
      ∃ place : Fin equationLength, round.1.get place = symbol ∧ round.2.get place = tile
    (∀ symbol, keyboard.state symbol = none ↔ ∀ round ∈ rounds, symbol ∉ round.1) ∧
      (∀ symbol tile, keyboard.state symbol = some tile ↔
        recorded symbol tile ∧ ∀ other, recorded symbol other → other.rank ≤ tile.rank) ∧
      (∀ entry ∈ keyboard.keys, ∃ symbol : Symbol, entry.1 = symbol.toChar ∧
        ∃ round ∈ rounds, symbol ∈ round.1) ∧
      (∀ others : List (Spelling × Feedback), (∀ round, round ∈ others ↔ round ∈ rounds) →
        empty.recordAll others = keyboard) ∧
      (∀ more symbol tile, keyboard.state symbol = some tile →
        ∃ later, (keyboard.recordAll more).state symbol = some later ∧ tile.rank ≤ later.rank) ∧
      ∀ more, keyboard.keys.map Prod.fst ⊆ (keyboard.recordAll more).keys.map Prod.fst := by
  intro keyboard recorded
  have hkeyboard : keyboard = empty.learnAll (answersOf rounds) := recordAll_eq_learnAll _ _
  have hmore : ∀ more, keyboard.recordAll more =
      empty.learnAll (answersOf rounds ++ answersOf more) := by
    intro more
    rw [recordAll_eq_learnAll, hkeyboard, learnAll_append]
  have hrecorded : ∀ symbol tile, recorded symbol tile ↔ (symbol, tile) ∈ answersOf rounds := by
    intro symbol tile
    exact mem_answersOf_iff.symm
  have hsubset : ∀ more, answersOf rounds ⊆ answersOf rounds ++ answersOf more := by
    intro more
    exact List.subset_append_left _ _
  rw [hkeyboard]
  refine ⟨?_, ?_, ?_, ?_, ?_, ?_⟩
  · intro symbol
    rw [state_learnAll_eq_iff, isBest_none_iff, ← not_exists, exists_mem_answersOf_iff]
    push Not
    rfl
  · intro symbol tile
    rw [state_learnAll_eq_iff, isBest_some_iff]
    simp only [hrecorded]
  · intro entry hentry
    rcases exists_answer_of_mem_keys hentry with ⟨answer, hanswer, hkey⟩
    exact ⟨answer.1, hkey, exists_mem_answersOf_iff.mp ⟨answer.2, hanswer⟩⟩
  · intro others hothers
    rw [recordAll_eq_learnAll]
    apply learnAll_eq_of_mem_iff
    intro answer
    rcases answer with ⟨symbol, tile⟩
    simp only [mem_answersOf_iff, hothers]
  · intro more symbol tile htile
    have hbest := state_learnAll_eq_iff.mp htile
    rw [← hkeyboard, hmore]
    exact hbest.exists_rank_le (hsubset more) (isBest_state_learnAll _ symbol)
  · intro more
    rw [← hkeyboard, hmore, hkeyboard]
    exact map_fst_keys_subset (hsubset more)

end Keyboard

end EquationPuzzle
