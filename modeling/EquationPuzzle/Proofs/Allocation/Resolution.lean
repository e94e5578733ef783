import EquationPuzzle.Proofs.Allocation.Effect
import EquationPuzzle.Proofs.Tally
import Mathlib.Algebra.BigOperators.Fin
import Mathlib.Data.Fintype.Card

/-!
# How a day is given its equation

Over a store in memory the answer to a day follows from the records.  A day that has an equation is
given that one.  Otherwise the unused entry that was inserted first is claimed, and nothing can come
between.  If there is none, a generated equation that the pool does not have yet enters it as used.
Only then may the request be refused, and it leaves the store as it was.  It must be refused once
the pool has all equations, as it may well have, since there are finitely many.
-/

namespace EquationPuzzle

/-- The daily equation is that of an entry. -/
structure DailyEquation.Carries (daily : DailyEquation) (date : Day) (entry : PoolEntry) :
    Prop where
  date_eq : daily.date = date
  equation_eq : daily.equation = entry.equation
  targetNumber_eq : daily.targetNumber = entry.targetNumber
  difficulty_eq : daily.difficulty = entry.difficulty

namespace Inventory

/-- The entry at the position is unused, and those before it are used. -/
structure FirstUnused (inventory : Inventory) (position : Nat) (entry : PoolEntry) : Prop where
  getElem?_eq : inventory.pool[position]? = some entry
  not_used : entry.used = false
  used_before : ∀ earlier < position, ∀ known, inventory.pool[earlier]? = some known → known.used

/-- The pool has become the given row, its indexes describe it, and the days are as before but for
one, which has been given the equation. -/
structure Gives (before : Inventory) (row : List PoolEntry) (daily : DailyEquation)
    (after : Inventory) : Prop where
  wellFormed : after.WellFormed
  pool_eq : after.pool.toList = row
  findDaily?_eq :
    ∀ date, after.findDaily? date = if daily.date = date then some daily else before.findDaily? date

/-- Every equation that a generator can find is in the pool. -/
def Saturated (inventory : Inventory) : Prop :=
  ∀ puzzle, Generator.Drawn puzzle → ∃ known ∈ inventory.pool, known.equation = puzzle.equation

section Unused

variable {inventory : Inventory}

theorem WellFormed.firstUnused?_eq_some_iff (hwell : inventory.WellFormed) (entry : PoolEntry) :
    inventory.firstUnused? = some entry ↔ ∃ position, inventory.FirstUnused position entry := by
  rw [hwell.firstUnused?_eq, List.find?_eq_some_iff_getElem]
  constructor
  · rintro ⟨hunused, position, hbound, hentry, hbefore⟩
    have hposition := Array.getElem?_eq_some_iff.mpr
      ⟨by simpa using hbound, by simpa using hentry⟩
    refine ⟨position, hposition, by simpa using hunused, ?_⟩
    intro earlier hearlier known hknown
    obtain ⟨_, rfl⟩ := Array.getElem?_eq_some_iff.mp hknown
    simpa using hbefore earlier hearlier
  · rintro ⟨position, hentry, hunused, hbefore⟩
    obtain ⟨hbound, hentry⟩ := Array.getElem?_eq_some_iff.mp hentry
    refine ⟨by simp [hunused], position, by simpa using hbound, by simpa using hentry, ?_⟩
    intro earlier hearlier
    simpa using hbefore earlier hearlier inventory.pool[earlier] (by simp)

theorem WellFormed.exists_firstUnused (hwell : inventory.WellFormed)
    (hunused : ∃ known ∈ inventory.pool, known.used = false) :
    ∃ position entry, inventory.FirstUnused position entry := by
  cases hfirst : inventory.firstUnused? with
  | none =>
      obtain ⟨known, hknown, hunused⟩ := hunused
      have hused := hwell.firstUnused?_eq_none_iff.mp hfirst known hknown
      simp [hunused] at hused
  | some entry =>
      obtain ⟨position, hposition⟩ := (hwell.firstUnused?_eq_some_iff entry).mp hfirst
      exact ⟨position, entry, hposition⟩

end Unused

/-! ## What has changed -/

section Gives

variable {before taken : Inventory}

theorem gives_withDaily (hwell : taken.WellFormed) (hdaily : taken.findDaily? = before.findDaily?)
    (daily : DailyEquation) : before.Gives taken.pool.toList daily (taken.withDaily daily) where
  wellFormed := hwell.withDaily daily
  pool_eq := rfl
  findDaily?_eq date := by rw [findDaily?_withDaily, hdaily]

theorem WellFormed.gives_markAt (hwell : before.WellFormed) {position : Nat} {entry : PoolEntry}
    (hentry : before.pool[position]? = some entry) (daily : DailyEquation) :
    before.Gives (before.pool.toList.set position { entry with used := true }) daily
      ((before.markAt position entry).withDaily daily) := by
  have hpool := before.toList_pool_markAt position entry
  rw [PoolEntry.claimed] at hpool
  rw [← hpool]
  exact gives_withDaily (hwell.markAt hentry) (show _ = before.findDaily? from rfl) daily

theorem WellFormed.gives_push (hwell : before.WellFormed) {entry : PoolEntry}
    (hadmits : before.Admits [entry]) (daily : DailyEquation) :
    before.Gives (before.pool.toList ++ [entry]) daily ((before.push entry).withDaily daily) := by
  have hpool : (before.push entry).pool.toList = before.pool.toList ++ [entry] := by simp
  have hpushed : (before.push entry).WellFormed :=
    hwell.push (hadmits.new_id entry (by simp)) (hadmits.new_equation entry (by simp))
  rw [← hpool]
  exact gives_withDaily hpushed (show _ = before.findDaily? from rfl) daily

end Gives

end Inventory

/-! ## A pool of all equations -/

/-- The six symbols as the digits of a number. -/
def Equation.number (equation : Equation) : Fin (Symbol.count ^ equationLength) :=
  finFunctionFinEquiv fun place => (equation.spelling.get place).index

theorem Equation.number_injective : Function.Injective number := by
  intro a b hnumber
  have hindexes := finFunctionFinEquiv.injective hnumber
  refine Equation.ext (Vector.ext fun place hplace => ?_)
  exact Symbol.index_injective (congrFun hindexes ⟨place, hplace⟩)

instance : Finite Equation := .of_injective Equation.number Equation.number_injective

/-- A used entry for an equation, whose identifier is the number of the equation. -/
def Equation.usedEntry (created : Timestamp) (equation : Equation) : PoolEntry :=
  .ofPuzzle ⟨BitVec.ofNat 128 equation.number⟩ created ⟨equation, 1⟩ true

theorem Equation.usedEntry_id_injective (created : Timestamp) :
    Function.Injective fun equation => (usedEntry created equation).id := by
  intro a b hid
  have hbits := congrArg (fun id : Identifier => id.value.toNat) hid
  have hbound : Symbol.count ^ equationLength ≤ 2 ^ 128 := by decide
  have ha : a.number.val < 2 ^ 128 := by omega
  have hb : b.number.val < 2 ^ 128 := by omega
  simp only [usedEntry, PoolEntry.ofPuzzle, BitVec.toNat_ofNat, Nat.mod_eq_of_lt ha,
    Nat.mod_eq_of_lt hb] at hbits
  exact number_injective (Fin.ext hbits)

namespace Inventory

/-- Every equation there is can be in the pool, and used. -/
theorem exists_saturated (created : Timestamp) :
    ∃ batch : List PoolEntry, (empty.updates [.insertPool batch]).Saturated ∧
      (∀ known ∈ (empty.updates [.insertPool batch]).pool, known.used) ∧
        ∀ date, (empty.updates [.insertPool batch]).findDaily? date = none := by
  obtain ⟨equations, hnodup, hall⟩ := Finite.exists_univ_list Equation
  have hadmits : empty.Admits (equations.map (Equation.usedEntry created)) := by
    refine ⟨?_, ?_, by simp [empty], by simp [empty]⟩
    · rw [List.map_map]
      exact hnodup.map (Equation.usedEntry_id_injective created)
    · rw [List.map_map]
      exact hnodup.map fun _ _ hsame => hsame
  have hinsert := (insertPool_eq_ok_iff _ _ _).mpr ⟨hadmits, rfl⟩
  have hupdates : empty.updates [.insertPool (equations.map (Equation.usedEntry created))] =
      (equations.map (Equation.usedEntry created)).foldl push empty := by
    simp [updates, update, hinsert, Except.toOption]
  refine ⟨equations.map (Equation.usedEntry created), ?_⟩
  rw [hupdates]
  refine ⟨fun puzzle _ => ⟨Equation.usedEntry created puzzle.equation, ?_, rfl⟩, ?_, ?_⟩
  · rw [← Array.mem_toList_iff, pool_pushAll]
    exact List.mem_append_right _ (List.mem_map_of_mem (hall puzzle.equation))
  · intro known hknown
    rw [← Array.mem_toList_iff, pool_pushAll] at hknown
    obtain ⟨equation, _, rfl⟩ := List.mem_map.mp (by simpa [empty] using hknown)
    rfl
  · intro date
    simp

end Inventory

namespace Allocator

open Session

variable {session : Session Inventory}

/-! ## Each case -/

/-- The first unused entry becomes the equation of a day that has none. -/
theorem outcome_resolve_of_firstUnused (hwell : session.store.WellFormed) (allocator : Allocator)
    {date : Day} (hnew : session.store.findDaily? date = none) {position : Nat} {entry : PoolEntry}
    (hfirst : session.store.FirstUnused position entry) :
    Yields (allocator.resolve date) session fun answer next =>
      ∃ daily, answer = .ok daily ∧ daily.Carries date entry ∧
        next.store = (session.store.markAt position entry).withDaily daily := by
  have hunused := (hwell.firstUnused?_eq_some_iff entry).mpr ⟨position, hfirst⟩
  unfold resolve
  refine Yields.of_outcome
    (outcome_require_read (Inventory.outcome_findDaily session.store date)) ?_
  rw [hnew]
  rcases outcome_claimEntry hwell allocator.patience with
    ⟨hnone, _⟩ | ⟨place, claimed, hclaimed, hplace, _, hclaim⟩
  · rw [hunused] at hnone
    contradiction
  · obtain rfl : entry = claimed := Option.some.inj (hunused.symm.trans hclaimed)
    obtain rfl := hwell.position_eq_of_id_eq hplace hfirst.getElem?_eq rfl
    refine Yields.of_outcome hclaim ?_
    refine Yields.of_outcome (outcome_pure entry.claimed _) ?_
    change Yields (assign date entry.claimed) _ _
    have hassign := @outcome_assign date
      { session with store := session.store.markAt place entry } hnew entry.claimed
    unfold Yields
    rw [hassign]
    exact ⟨_, rfl, ⟨rfl, rfl, rfl, rfl⟩, rfl⟩

/-- A day that has no equation is given a new one if all entries are used, unless none is found or
its identifier is taken. -/
theorem outcome_resolve_of_used (hwell : session.store.WellFormed) (allocator : Allocator)
    {date : Day} (hnew : session.store.findDaily? date = none)
    (hused : ∀ known ∈ session.store.pool, known.used) :
    Yields (allocator.resolve date) session fun answer next =>
      (answer = .error (.exhausted ⟨allocator.generator.maxAttempts⟩) ∧
          next.store = session.store) ∨
        ∃ puzzle, Generator.Drawn puzzle ∧
          (∀ known ∈ session.store.pool, known.equation ≠ puzzle.equation) ∧
            ((∃ id, answer = .error (.store (.duplicateIdentifier id)) ∧
                next.store = session.store) ∨
              ∃ entry daily, answer = .ok daily ∧ daily.Carries date entry ∧
                session.store.Admits [entry] ∧ entry.puzzle = puzzle ∧ entry.used ∧
                  next.store = (session.store.push entry).withDaily daily) := by
  have hfirst := hwell.firstUnused?_eq_none_iff.mpr hused
  unfold resolve
  refine Yields.of_outcome
    (outcome_require_read (Inventory.outcome_findDaily session.store date)) ?_
  rw [hnew]
  rcases outcome_claimEntry hwell allocator.patience with
    ⟨_, hclaim⟩ | ⟨_, claimed, hclaimed, _⟩
  · refine Yields.of_outcome hclaim ?_
    refine Yields.of_outcome
      (outcome_require_read (Inventory.outcome_poolEquations session.store)) ?_
    change Yields (_ >>= assign date) _ _
    unfold Yields
    rw [outcome_bind]
    obtain ⟨supply, _, houtcome | ⟨id, number, puzzle, hdrawn, hnotMem, houtcome⟩⟩ :=
      generateEntry_cases allocator.generator session.store.poolEquations
        allocator.generator.maxAttempts session
    · rw [houtcome]
      exact Or.inl ⟨rfl, rfl⟩
    · have hequation : ∀ known ∈ session.store.pool, known.equation ≠ puzzle.equation := by
        intro known hknown hsame
        exact hnotMem ((hwell.mem_poolEquations_iff _).mpr ⟨known, hknown, hsame⟩)
      refine Or.inr ⟨puzzle, hdrawn, hequation, ?_⟩
      rcases houtcome with houtcome | ⟨hadmits, houtcome⟩
      · rw [houtcome]
        exact Or.inl ⟨id, rfl, rfl⟩
      · generalize hentry : PoolEntry.ofPuzzle id _ puzzle true = entry at houtcome hadmits
        have hassign := @outcome_assign date
          { session with store := session.store.push entry, supply } hnew entry
        rw [houtcome]
        dsimp only
        rw [hassign]
        subst hentry
        exact Or.inr ⟨_, _, rfl, ⟨rfl, rfl, rfl, rfl⟩, hadmits, rfl, rfl, rfl⟩
  · rw [hfirst] at hclaimed
    contradiction

/-- Whatever has been asked of a store in memory, a day that has an equation keeps it.  A day that
has none is given that of the unused entry that was inserted first; if there is none, it is given a
new equation, or the request is refused and changes nothing.  Nothing is left to give once the pool
has every equation that the templates can produce. -/
theorem resolve_memory_cases (sequence : List Inventory.Update) (allocator : Allocator) (date : Day)
    (supply : Supply) (progress : Nat) :
    let before := Inventory.empty.updates sequence
    let result := outcome (allocator.resolve date) ⟨before, supply, progress⟩
    let after := result.2.store
    (∀ daily, before.findDaily? date = some daily → result.1 = .ok daily ∧ after = before) ∧
      (before.findDaily? date = none →
        ((∃ known ∈ before.pool, known.used = false) →
          ∃ position entry daily, before.FirstUnused position entry ∧
            result.1 = .ok daily ∧ daily.Carries date entry ∧
              before.Gives (before.pool.toList.set position { entry with used := true }) daily
                after) ∧
        ((∀ known ∈ before.pool, known.used) →
          ((∃ entry daily, result.1 = .ok daily ∧ daily.Carries date entry ∧ entry.used ∧
                (∀ known ∈ before.pool, known.equation ≠ entry.equation) ∧
                  before.Gives (before.pool.toList ++ [entry]) daily after) ∨
              (result.1 = .error (.exhausted ⟨allocator.generator.maxAttempts⟩) ∨
                ∃ id, result.1 = .error (.store (.duplicateIdentifier id))) ∧ after = before) ∧
            (before.Saturated →
              result.1 = .error (.exhausted ⟨allocator.generator.maxAttempts⟩) ∧
                after = before))) := by
  intro before result after
  have hwell : before.WellFormed := Inventory.wellFormed_empty.updates sequence
  refine ⟨fun daily hdaily => ?_, fun hnew => ⟨fun hunused => ?_, fun hused => ?_⟩⟩
  · have hknown := @outcome_resolve_of_some ⟨before, supply, progress⟩ allocator date daily hdaily
    exact ⟨congrArg Prod.fst hknown, congrArg (fun reached => reached.2.store) hknown⟩
  · obtain ⟨position, entry, hfirst⟩ := hwell.exists_firstUnused hunused
    obtain ⟨daily, hanswer, hcarries, hafter⟩ :=
      @outcome_resolve_of_firstUnused ⟨before, supply, progress⟩ hwell allocator date hnew _ _
        hfirst
    refine ⟨position, entry, daily, hfirst, hanswer, hcarries, ?_⟩
    change before.Gives _ daily result.2.store
    rw [hafter]
    exact hwell.gives_markAt hfirst.getElem?_eq daily
  · rcases @outcome_resolve_of_used ⟨before, supply, progress⟩ hwell allocator date hnew hused with
      ⟨hanswer, hafter⟩ | ⟨puzzle, hdrawn, hequation, hgiven⟩
    · exact ⟨Or.inr ⟨Or.inl hanswer, hafter⟩, fun _ => ⟨hanswer, hafter⟩⟩
    · have hunsaturated : ¬before.Saturated := by
        intro hsaturated
        obtain ⟨known, hknown, hsame⟩ := hsaturated puzzle hdrawn
        exact hequation known hknown hsame
      refine ⟨?_, fun hsaturated => absurd hsaturated hunsaturated⟩
      rcases hgiven with ⟨id, hanswer, hafter⟩ |
        ⟨entry, daily, hanswer, hcarries, hadmits, rfl, hentry, hafter⟩
      · exact Or.inr ⟨Or.inr ⟨id, hanswer⟩, hafter⟩
      · refine Or.inl ⟨entry, daily, hanswer, hcarries, hentry, hequation, ?_⟩
        change before.Gives _ daily result.2.store
        rw [hafter]
        exact hwell.gives_push hadmits daily

/-- A pool with all equations, every one of them used, on a leap day. -/
theorem resolve_memory_cases_saturated :
    let date : Day := ⟨2012, 2, 29, by decide⟩
    let created : Timestamp := ⟨date, 7200, 0, by decide, by decide⟩
    ∃ batch : List PoolEntry,
      let before := Inventory.empty.updates [.insertPool batch]
      let result := outcome ((⟨⟨1000⟩, 8⟩ : Allocator).resolve date)
        ⟨before, .seeded 1 2 created, 0⟩
      before.findDaily? date = none ∧ (∀ known ∈ before.pool, known.used) ∧ before.Saturated ∧
        result.1 = .error (.exhausted ⟨1000⟩) ∧ result.2.store = before := by
  intro date created
  obtain ⟨batch, hsaturated, hused, hdaily⟩ := Inventory.exists_saturated created
  have hcases := resolve_memory_cases [.insertPool batch] ⟨⟨1000⟩, 8⟩ date (.seeded 1 2 created) 0
  exact ⟨batch, hdaily date, hused, hsaturated,
    ((hcases.2 (hdaily date)).2 hused).2 hsaturated⟩

end Allocator

end EquationPuzzle
