import EquationPuzzle.Feedback
import EquationPuzzle.Proofs.Tally
import Mathlib.Data.Fintype.Card

/-!
# Scoring place by place

A guess can be scored on arrays.  A counter for each symbol says how often it is still to be found
in the target.  One pass over the places marks the symbols that stand right and takes their places;
a second pass looks for each of the others among the places of the target that are not taken.

Before every visit of a place, each counter is the number of untaken places with its symbol.  So no
counter has to go below zero, a search succeeds as long as the counter of its symbol is positive,
and in the end the tiles are the ones that the guess is answered with.
-/

namespace EquationPuzzle

namespace Feedback

/-- The tiles so far, the places of the guess that are settled, the places of the target that are
taken, and how often each symbol is still to be found. -/
structure Scoring where
  tiles : Feedback
  settled : Vector Bool equationLength
  taken : Vector Bool equationLength
  remaining : Tally

inductive Visit where
  | inPlace (place : Fin equationLength)
  | elsewhere (place : Fin equationLength)

def visits : List Visit :=
  (List.finRange equationLength).map .inPlace ++ (List.finRange equationLength).map .elsewhere

namespace Scoring

def start (target : Spelling) : Scoring where
  tiles := Vector.replicate equationLength .absent
  settled := Vector.replicate equationLength false
  taken := Vector.replicate equationLength false
  remaining := Tally.of target.toList

/-- One symbol less to be found.  A counter at zero cannot be lowered. -/
def spend? (remaining : Tally) (symbol : Symbol) : Option Tally :=
  if remaining.get symbol.index = 0 then none
  else some (remaining.set symbol.index.val (remaining.get symbol.index - 1) symbol.index.isLt)

def search (target : Spelling) (scoring : Scoring) (symbol : Symbol) :
    Option (Fin equationLength) :=
  (List.finRange equationLength).find? fun place =>
    !scoring.taken.get place && target.get place = symbol

def settle (scoring : Scoring) (place : Fin equationLength) (remaining : Tally) : Scoring where
  tiles := scoring.tiles.set place.val .correct place.isLt
  settled := scoring.settled.set place.val true place.isLt
  taken := scoring.taken.set place.val true place.isLt
  remaining := remaining

def recognise (scoring : Scoring) (place found : Fin equationLength) (remaining : Tally) :
    Scoring where
  tiles := scoring.tiles.set place.val .present place.isLt
  settled := scoring.settled
  taken := scoring.taken.set found.val true found.isLt
  remaining := remaining

def visit (guess target : Spelling) (scoring : Scoring) : Visit → Option Scoring
  | .inPlace place =>
    if guess.get place = target.get place then
      (spend? scoring.remaining (guess.get place)).map (scoring.settle place)
    else some scoring
  | .elsewhere place =>
    if scoring.settled.get place || scoring.remaining.get (guess.get place).index = 0 then
      some scoring
    else
      (scoring.search target (guess.get place)).elim (some scoring) fun found =>
        (spend? scoring.remaining (guess.get place)).map (scoring.recognise place found)

/-- The state after so many visits, if no counter had to go below zero. -/
def after (guess target : Spelling) (count : Nat) : Option Scoring :=
  (visits.take count).foldlM (visit guess target) (start target)

/-! ## Counters and places -/

theorem get_eq_getElem {α : Type} {size : Nat} (vector : Vector α size) (place : Fin size) :
    vector.get place = vector[place.val] := rfl

theorem get_set {α : Type} {size : Nat} (vector : Vector α size) (value : α)
    (place other : Fin size) :
    (vector.set place.val value place.isLt).get other =
      if place = other then value else vector.get other := by
  simp only [get_eq_getElem, Vector.getElem_set, Fin.ext_iff]

def untaken (target : Spelling) (scoring : Scoring) (symbol : Symbol) :
    Finset (Fin equationLength) :=
  Finset.univ.filter fun place => scoring.taken.get place = false ∧ target.get place = symbol

/-- Every counter is the number of untaken places with its symbol. -/
def Balanced (target : Spelling) (scoring : Scoring) : Prop :=
  ∀ symbol, scoring.remaining.get symbol.index = (scoring.untaken target symbol).card

section Balanced

variable {target : Spelling} {scoring : Scoring} {symbol : Symbol} {place : Fin equationLength}

theorem mem_untaken_iff : place ∈ scoring.untaken target symbol ↔
    scoring.taken.get place = false ∧ target.get place = symbol := by
  simp [untaken]

/-- While its counter is positive, a symbol is found. -/
theorem Balanced.exists_search_eq (hbalanced : scoring.Balanced target)
    (hpositive : scoring.remaining.get symbol.index ≠ 0) :
    ∃ found, scoring.search target symbol = some found ∧
      found ∈ scoring.untaken target symbol := by
  rw [hbalanced, Finset.card_ne_zero] at hpositive
  rcases hpositive with ⟨place, hplace⟩
  have hfound : (scoring.search target symbol).isSome := by
    rw [search, List.find?_isSome]
    exact ⟨place, List.mem_finRange place, by simpa [mem_untaken_iff] using hplace⟩
  rcases Option.isSome_iff_exists.mp hfound with ⟨found, hsearch⟩
  refine ⟨found, hsearch, ?_⟩
  have hholds := List.find?_some hsearch
  simpa [mem_untaken_iff] using hholds

theorem untaken_set {next : Scoring} (found : Fin equationLength)
    (htaken : next.taken = scoring.taken.set found.val true found.isLt) :
    next.untaken target symbol = (scoring.untaken target symbol).erase found := by
  ext place
  rw [Finset.mem_erase, mem_untaken_iff, mem_untaken_iff, htaken, get_set]
  by_cases hsame : found = place
  · simp [hsame]
  · simp [hsame, Ne.symm hsame]

/-- A counter is lowered together with taking one of the places that it counts. -/
theorem Balanced.exists_spend?_eq (hbalanced : scoring.Balanced target)
    (hplace : place ∈ scoring.untaken target symbol) :
    ∃ remaining, spend? scoring.remaining symbol = some remaining ∧
      ∀ next : Scoring, next.remaining = remaining →
        next.taken = scoring.taken.set place.val true place.isLt → next.Balanced target := by
  have hpositive : scoring.remaining.get symbol.index ≠ 0 := by
    rw [hbalanced, Finset.card_ne_zero]
    exact ⟨place, hplace⟩
  refine ⟨_, if_neg hpositive, ?_⟩
  intro next hremaining htaken other
  rw [hremaining, get_set, untaken_set place htaken]
  by_cases hsame : symbol = other
  · subst other
    rw [if_pos rfl, Finset.card_erase_of_mem hplace, hbalanced]
  · have hindex : symbol.index ≠ other.index := fun h => hsame (Symbol.index_injective h)
    have hnot : place ∉ scoring.untaken target other := by
      intro hother
      rw [mem_untaken_iff] at hplace hother
      exact hsame (hplace.2.symm.trans hother.2)
    rw [if_neg hindex, Finset.erase_eq_of_notMem hnot, hbalanced]

theorem toList_eq_map_get {α : Type} {size : Nat} (vector : Vector α size) :
    vector.toList = (List.finRange size).map vector.get := by
  apply List.ext_getElem
  · simp
  · intro index hleft hright
    simp [get_eq_getElem]

theorem card_filter_eq_countP {size : Nat} (holds : Fin size → Bool) :
    (Finset.univ.filter fun place => holds place = true).card =
      (List.finRange size).countP holds := by
  rw [Finset.card_def, Finset.filter_val, Fin.univ_def, Multiset.filter_coe, Multiset.coe_card,
    List.countP_eq_length_filter]
  simp

theorem balanced_start (target : Spelling) : (start target).Balanced target := by
  intro symbol
  have huntaken : (start target).untaken target symbol =
      Finset.univ.filter fun place => (decide (target.get place = symbol)) = true := by
    ext place
    simp [untaken, start, get_eq_getElem]
  rw [huntaken, card_filter_eq_countP]
  change (Tally.of target.toList)[symbol.index] = _
  rw [Tally.getElem_of, toList_eq_map_get, List.count, List.countP_map]
  rfl

end Balanced

/-! ## The first pass -/

def firstTile (guess target : Spelling) (place : Fin equationLength) : Tile :=
  if guess.get place = target.get place then .correct else .absent

/-- Of the visited places, those with the same symbol in guess and target are settled. -/
structure Placed (guess target : Spelling) (visited : List (Fin equationLength))
    (scoring : Scoring) : Prop where
  balanced : scoring.Balanced target
  taken_iff : ∀ place, scoring.taken.get place = true ↔
    place ∈ visited ∧ guess.get place = target.get place
  settled_iff : ∀ place, scoring.settled.get place = true ↔
    place ∈ visited ∧ guess.get place = target.get place
  tile_eq : ∀ place, scoring.tiles.get place =
    if place ∈ visited then firstTile guess target place else .absent

section Placed

variable {guess target : Spelling} {scoring : Scoring} {visited : List (Fin equationLength)}

theorem placed_start (guess target : Spelling) : Placed guess target [] (start target) := by
  constructor
  · exact balanced_start target
  · intro place
    simp [start, get_eq_getElem]
  · intro place
    simp [start, get_eq_getElem]
  · intro place
    simp [start, get_eq_getElem]

theorem Placed.exists_visit_eq (hplaced : Placed guess target visited scoring)
    {place : Fin equationLength} (hnew : place ∉ visited) :
    ∃ next, scoring.visit guess target (.inPlace place) = some next ∧
      Placed guess target (visited ++ [place]) next := by
  by_cases hsame : guess.get place = target.get place
  · have huntaken : place ∈ scoring.untaken target (guess.get place) := by
      rw [mem_untaken_iff]
      refine ⟨?_, hsame.symm⟩
      rw [Bool.eq_false_iff]
      intro htaken
      exact hnew ((hplaced.taken_iff place).mp htaken).1
    rcases hplaced.balanced.exists_spend?_eq huntaken with ⟨remaining, hspend, hbalanced⟩
    refine ⟨scoring.settle place remaining, ?_, ?_⟩
    · rw [visit, if_pos hsame, hspend]
      rfl
    · constructor
      · exact hbalanced _ rfl rfl
      · intro other
        rw [settle, get_set]
        grind [hplaced.taken_iff other]
      · intro other
        rw [settle, get_set]
        grind [hplaced.settled_iff other]
      · intro other
        rw [settle, get_set, hplaced.tile_eq]
        grind [firstTile]
  · refine ⟨scoring, ?_, ?_⟩
    · rw [visit, if_neg hsame]
    · constructor
      · exact hplaced.balanced
      · intro other
        grind [hplaced.taken_iff other]
      · intro other
        grind [hplaced.settled_iff other]
      · intro other
        rw [hplaced.tile_eq]
        grind [firstTile]

/-- The first pass lowers no counter below zero. -/
theorem Placed.exists_foldlM_eq (hplaced : Placed guess target visited scoring)
    {places : List (Fin equationLength)} (hnodup : (visited ++ places).Nodup) :
    ∃ next, (places.map .inPlace).foldlM (visit guess target) scoring = some next ∧
      Placed guess target (visited ++ places) next := by
  induction places generalizing visited scoring with
  | nil =>
      rw [List.append_nil]
      exact ⟨scoring, rfl, hplaced⟩
  | cons place rest ih =>
      have hnew : place ∉ visited := by
        intro hmem
        exact (List.nodup_append.mp hnodup).2.2 place hmem place (by simp) rfl
      rcases hplaced.exists_visit_eq hnew with ⟨middle, hvisit, hmiddle⟩
      rw [List.append_cons] at hnodup ⊢
      rcases ih hmiddle hnodup with ⟨next, hrest, hnext⟩
      refine ⟨next, ?_, hnext⟩
      rw [List.map_cons, List.foldlM_cons, hvisit]
      exact hrest

end Placed

/-! ## The second pass -/

/-- The symbols that are available elsewhere are counted, and the symbols in their places are
settled. -/
structure Seeks (guess target : Spelling) (available : List Symbol) (scoring : Scoring) :
    Prop where
  balanced : scoring.Balanced target
  remaining_eq : ∀ symbol, scoring.remaining.get symbol.index = available.count symbol
  settled_iff : ∀ place, scoring.settled.get place = true ↔ guess.get place = target.get place

def pairAt (guess target : Spelling) (place : Fin equationLength) : Symbol × Symbol :=
  (guess.get place, target.get place)

section Seeks

variable {guess target : Spelling} {scoring : Scoring} {available : List Symbol}
  {place : Fin equationLength}

theorem Seeks.visit_eq_self (hseeks : Seeks guess target available scoring)
    (hidle : guess.get place ≠ target.get place → guess.get place ∉ available) :
    scoring.visit guess target (.elsewhere place) = some scoring := by
  by_cases hsame : guess.get place = target.get place
  · have hsettled := (hseeks.settled_iff place).mpr hsame
    rw [visit, hsettled]
    rfl
  · have hzero : scoring.remaining.get (guess.get place).index = 0 := by
      rw [hseeks.remaining_eq]
      exact List.count_eq_zero_of_not_mem (hidle hsame)
    rw [visit, if_pos (by simp [hzero])]

theorem mark_cons_of_idle
    (hidle : guess.get place ≠ target.get place → guess.get place ∉ available)
    (pairs : List (Symbol × Symbol)) :
    mark available (pairAt guess target place :: pairs) =
      firstTile guess target place :: mark available pairs := by
  rw [pairAt, mark, firstTile]
  by_cases hsame : guess.get place = target.get place
  · rw [if_pos hsame, if_pos hsame]
  · rw [if_neg hsame, if_neg hsame, if_neg (hidle hsame)]

theorem Seeks.exists_visit_eq (hseeks : Seeks guess target available scoring)
    (hne : guess.get place ≠ target.get place) (hmem : guess.get place ∈ available) :
    ∃ next, scoring.visit guess target (.elsewhere place) = some next ∧
      Seeks guess target (available.erase (guess.get place)) next ∧
      next.tiles = scoring.tiles.set place.val .present place.isLt := by
  have hpositive : scoring.remaining.get (guess.get place).index ≠ 0 := by
    rw [hseeks.remaining_eq]
    exact (List.count_pos_iff.mpr hmem).ne'
  have hsettled : scoring.settled.get place = false := by
    rw [Bool.eq_false_iff]
    intro hsettled
    exact hne ((hseeks.settled_iff place).mp hsettled)
  rcases hseeks.balanced.exists_search_eq hpositive with ⟨found, hsearch, huntaken⟩
  rcases hseeks.balanced.exists_spend?_eq huntaken with ⟨remaining, hspend, hbalanced⟩
  refine ⟨scoring.recognise place found remaining, ?_, ?_, rfl⟩
  · rw [visit, if_neg (by simp [hsettled, hpositive]), hsearch, Option.elim_some, hspend]
    rfl
  · constructor
    · exact hbalanced _ rfl rfl
    · intro symbol
      have hremaining : remaining = scoring.remaining.set (guess.get place).index.val
          (scoring.remaining.get (guess.get place).index - 1) (guess.get place).index.isLt := by
        rw [spend?, if_neg hpositive] at hspend
        exact (Option.some.inj hspend).symm
      change remaining.get symbol.index = _
      rw [hremaining, get_set, List.count_erase]
      by_cases hsymbol : guess.get place = symbol
      · subst symbol
        simp [hseeks.remaining_eq]
      · have hindex : (guess.get place).index ≠ symbol.index :=
          fun h => hsymbol (Symbol.index_injective h)
        simp [hindex, hsymbol, hseeks.remaining_eq]
    · exact hseeks.settled_iff

/-- The second pass marks the places as the symbols that are left allow. -/
theorem Seeks.exists_foldlM_eq (hseeks : Seeks guess target available scoring)
    {places : List (Fin equationLength)} (hnodup : places.Nodup)
    (htiles : ∀ place ∈ places, scoring.tiles.get place = firstTile guess target place) :
    ∃ next, (places.map .elsewhere).foldlM (visit guess target) scoring = some next ∧
      next.Balanced target ∧
      (∀ place ∉ places, next.tiles.get place = scoring.tiles.get place) ∧
      places.map next.tiles.get = mark available (places.map (pairAt guess target)) := by
  -- A place is not visited again, so its tile stays; the cases are those of the marks.
  induction places generalizing available scoring with
  | nil => exact ⟨scoring, rfl, hseeks.balanced, fun _ _ => rfl, rfl⟩
  | cons place rest ih =>
      rw [List.nodup_cons] at hnodup
      have hfirst := htiles place (List.mem_cons_self ..)
      simp only [List.map_cons, List.foldlM_cons]
      by_cases hfound : guess.get place ≠ target.get place ∧ guess.get place ∈ available
      · rcases hseeks.exists_visit_eq hfound.1 hfound.2 with ⟨middle, hvisit, hmiddle, hset⟩
        have hothers : ∀ other ∈ rest, place ≠ other := by
          rintro other hother rfl
          exact hnodup.1 hother
        have hmiddleTiles : ∀ other ∈ rest,
            middle.tiles.get other = firstTile guess target other := by
          intro other hother
          rw [hset, get_set, if_neg (hothers other hother)]
          exact htiles other (List.mem_cons_of_mem _ hother)
        rcases ih hmiddle hnodup.2 hmiddleTiles with ⟨next, hrest, hbalanced, hkept, hmarked⟩
        refine ⟨next, ?_, hbalanced, ?_, ?_⟩
        · rw [hvisit]
          exact hrest
        · intro other hother
          rw [List.mem_cons, not_or] at hother
          rw [hkept other hother.2, hset, get_set, if_neg (Ne.symm hother.1)]
        · rw [hkept place hnodup.1, hset, get_set, if_pos rfl, hmarked]
          conv_rhs => rw [pairAt, mark, if_neg hfound.1, if_pos hfound.2]
      · have hidle : guess.get place ≠ target.get place → guess.get place ∉ available :=
          fun hne hmem => hfound ⟨hne, hmem⟩
        rcases ih hseeks hnodup.2 (fun other hother => htiles other (List.mem_cons_of_mem _ hother))
          with ⟨next, hrest, hbalanced, hkept, hmarked⟩
        refine ⟨next, ?_, hbalanced, ?_, ?_⟩
        · rw [hseeks.visit_eq_self hidle]
          exact hrest
        · intro other hother
          exact hkept other fun hmem => hother (List.mem_cons_of_mem _ hmem)
        · rw [hkept place hnodup.1, hfirst, hmarked, mark_cons_of_idle hidle]

end Seeks

/-! ## Both passes -/

/-- What is left of the target are its symbols that the guess has not in place. -/
theorem count_leftover (pairs : List (Symbol × Symbol)) (symbol : Symbol) :
    (leftover pairs).count symbol =
      pairs.countP fun pair => pair.1 ≠ pair.2 ∧ pair.2 = symbol := by
  induction pairs with
  | nil => rfl
  | cons pair rest ih =>
      rcases pair with ⟨guessed, wanted⟩
      by_cases hsame : guessed = wanted
      · simp [leftover, hsame, ih]
      · simp [leftover, hsame, ih, List.count_cons, List.countP_cons]

section Run

variable (guess target : Spelling)

theorem zip_toList_eq : guess.toList.zip target.toList =
    (List.finRange equationLength).map (pairAt guess target) := by
  rw [toList_eq_map_get, toList_eq_map_get, List.zip_map']
  rfl

variable {guess target}

theorem Placed.seeks {scoring : Scoring}
    (hplaced : Placed guess target (List.finRange equationLength) scoring) :
    Seeks guess target (leftover (guess.toList.zip target.toList)) scoring := by
  constructor
  · exact hplaced.balanced
  · intro symbol
    have huntaken : scoring.untaken target symbol = Finset.univ.filter fun place =>
        (decide (guess.get place ≠ target.get place ∧ target.get place = symbol)) = true := by
      ext place
      have htaken := hplaced.taken_iff place
      simp only [List.mem_finRange, true_and] at htaken
      rw [mem_untaken_iff, Bool.eq_false_iff, ne_eq, htaken]
      simp
    rw [hplaced.balanced, huntaken, card_filter_eq_countP, count_leftover, zip_toList_eq,
      List.countP_map]
    rfl
  · intro place
    simpa using hplaced.settled_iff place

theorem exists_foldlM_visits_eq {places : List (Fin equationLength)} (hnodup : places.Nodup) :
    ∃ scoring, ((List.finRange equationLength).map Visit.inPlace ++
        places.map Visit.elsewhere).foldlM (visit guess target) (start target) = some scoring ∧
      scoring.Balanced target ∧
      places.map scoring.tiles.get =
        mark (leftover (guess.toList.zip target.toList)) (places.map (pairAt guess target)) := by
  have hall : ([] ++ List.finRange equationLength).Nodup := List.nodup_finRange equationLength
  rcases (placed_start guess target).exists_foldlM_eq hall with ⟨middle, hfirst, hplaced⟩
  rw [List.nil_append] at hplaced
  have htiles : ∀ place ∈ places, middle.tiles.get place = firstTile guess target place := by
    intro place _
    rw [hplaced.tile_eq, if_pos (List.mem_finRange place)]
  rcases hplaced.seeks.exists_foldlM_eq hnodup htiles
    with ⟨scoring, hsecond, hbalanced, _, hmarked⟩
  refine ⟨scoring, ?_, hbalanced, hmarked⟩
  rw [List.foldlM_append, hfirst]
  exact hsecond

/-- The counters are balanced before and after every visit. -/
theorem exists_after_eq (count : Nat) :
    ∃ scoring, after guess target count = some scoring ∧ scoring.Balanced target := by
  unfold after visits
  by_cases hcount : count ≤ equationLength
  · rw [List.take_append_of_le_length (by simpa using hcount), ← List.map_take]
    have hnodup : ([] ++ (List.finRange equationLength).take count).Nodup :=
      (List.nodup_finRange equationLength).sublist (List.take_sublist _ _)
    rcases (placed_start guess target).exists_foldlM_eq hnodup with ⟨scoring, hrun, hplaced⟩
    exact ⟨scoring, hrun, hplaced.balanced⟩
  · have hnodup : ((List.finRange equationLength).take (count - equationLength)).Nodup :=
      (List.nodup_finRange equationLength).sublist (List.take_sublist _ _)
    rcases @exists_foldlM_visits_eq guess target _ hnodup with ⟨scoring, hrun, hbalanced, _⟩
    refine ⟨scoring, ?_, hbalanced⟩
    rw [List.take_append, List.take_of_length_le (by simp; omega), ← List.map_take, List.length_map,
      List.length_finRange]
    exact hrun

theorem map_tiles_after :
    (after guess target visits.length).map tiles = some (ofSpellings guess target) := by
  rcases @exists_foldlM_visits_eq guess target _ (List.nodup_finRange equationLength)
    with ⟨scoring, hrun, _, hmarked⟩
  rw [after, List.take_length, visits, hrun, Option.map_some, Option.some.injEq,
    ← Vector.toList_inj, toList_eq_map_get, hmarked, ← zip_toList_eq]
  rfl

end Run

end Scoring

end Feedback

end EquationPuzzle
