import EquationPuzzle.Proofs.Inventory.Representation
import EquationPuzzle.Proofs.Store.Outcome

/-!
# Which batches are inserted

A batch goes into the pool as a whole or not at all.  It is refused exactly if one of its entries
has an identifier or an equation in common with the pool or with an entry before it, and the first
such entry is named, for its identifier if that is taken and for its equation otherwise.  The
indexes of the inventory stand for its pool here, so that the answer is read off from the entries
alone.
-/

namespace EquationPuzzle

namespace Inventory

section WellFormed

variable {inventory : Inventory} (hwell : inventory.WellFormed)

include hwell

theorem WellFormed.repeatsId_iff (before : List PoolEntry) (entry : PoolEntry) :
    inventory.RepeatsId before entry ↔
      ∃ known ∈ inventory.pool.toList ++ before, known.id = entry.id := by
  unfold RepeatsId
  rw [hwell.mem_positions_iff]
  simp only [List.mem_append, Array.mem_toList_iff, or_and_right, exists_or]

theorem WellFormed.repeatsEquation_iff (before : List PoolEntry) (entry : PoolEntry) :
    inventory.RepeatsEquation before entry ↔
      ∃ known ∈ inventory.pool.toList ++ before, known.equation = entry.equation := by
  unfold RepeatsEquation
  rw [hwell.mem_equations_iff]
  simp only [List.mem_append, Array.mem_toList_iff, or_and_right, exists_or]

theorem WellFormed.admits_iff (batch : List PoolEntry) :
    inventory.Admits batch ↔
      (batch.map (·.id)).Nodup ∧ (batch.map (·.equation)).Nodup ∧
        ∀ entry ∈ batch, ∀ known ∈ inventory.pool,
          known.id ≠ entry.id ∧ known.equation ≠ entry.equation := by
  constructor
  · intro hadmits
    refine ⟨hadmits.nodup_ids, hadmits.nodup_equations, ?_⟩
    intro entry hentry known hknown
    constructor
    · intro hid
      apply hadmits.new_id entry hentry
      exact (hwell.mem_positions_iff entry.id).mpr ⟨known, hknown, hid⟩
    · intro hequation
      apply hadmits.new_equation entry hentry
      exact (hwell.mem_equations_iff entry.equation).mpr ⟨known, hknown, hequation⟩
  · intro hdistinct
    rcases hdistinct with ⟨hids, hequations, hnew⟩
    apply Admits.mk hids hequations
    · intro entry hentry hid
      rcases (hwell.mem_positions_iff entry.id).mp hid with ⟨known, hknown, hsame⟩
      exact (hnew entry hentry known hknown).1 hsame
    · intro entry hentry hequation
      rcases (hwell.mem_equations_iff entry.equation).mp hequation with ⟨known, hknown, hsame⟩
      exact (hnew entry hentry known hknown).2 hsame

end WellFormed

/-- Whatever has been asked of an inventory before: a batch is answered with its length, and
appended to the pool in its order, exactly if its identifiers and equations differ from one another
and from those of the pool.  Any other batch changes nothing, and the error names the first entry
of which the pool or an earlier entry of the batch has the identifier, or else the equation. -/
theorem updates_empty_insertPool (sequence : List Update) (batch : List PoolEntry) :
    let inventory := empty.updates sequence
    let result := outcome (Store.insertPool batch) inventory
    let distinct := (batch.map (·.id)).Nodup ∧ (batch.map (·.equation)).Nodup ∧
      ∀ entry ∈ batch, ∀ known ∈ inventory.pool,
        known.id ≠ entry.id ∧ known.equation ≠ entry.equation
    let repeatsId (before : List PoolEntry) (entry : PoolEntry) :=
      ∃ known ∈ inventory.pool.toList ++ before, known.id = entry.id
    let repeatsEquation (before : List PoolEntry) (entry : PoolEntry) :=
      ∃ known ∈ inventory.pool.toList ++ before, known.equation = entry.equation
    (distinct ↔ result.1 = .ok batch.length) ∧
      (distinct → result.2.WellFormed ∧
        result.2.pool.toList = inventory.pool.toList ++ batch ∧
          result.2.daily = inventory.daily) ∧
      (¬distinct → result.2 = inventory ∧
        ∃ before entry after, batch = before ++ entry :: after ∧
          (∀ front other rest, before = front ++ other :: rest →
            ¬repeatsId front other ∧ ¬repeatsEquation front other) ∧
          (result.1 = .error (.duplicateIdentifier entry.id) ∧ repeatsId before entry ∨
            result.1 = .error (.duplicateEquation entry.equation) ∧
              ¬repeatsId before entry ∧ repeatsEquation before entry)) := by
  intro inventory result distinct repeatsId repeatsEquation
  have hwell : inventory.WellFormed := wellFormed_empty.updates sequence
  have hadmits : inventory.Admits batch ↔ distinct := hwell.admits_iff batch
  have hresult : result = outcome (Store.insertPool batch) inventory := rfl
  rw [outcome_insertPool] at hresult
  cases hconflict : inventory.poolConflict? batch with
  | none =>
      have haccepted := (poolConflict?_eq_none_iff inventory batch).mp hconflict
      have hinsert := (insertPool_eq_ok_iff inventory _ batch).mpr ⟨haccepted, rfl⟩
      rw [hinsert] at hresult
      have hdistinct : distinct := hadmits.mp haccepted
      rw [hresult]
      refine ⟨iff_of_true hdistinct rfl, ?_, ?_⟩
      · intro _
        exact ⟨hwell.pushAll haccepted, pool_pushAll inventory batch, daily_pushAll inventory batch⟩
      · intro hnot
        exact absurd hdistinct hnot
  | some cause =>
      have hnot : ¬distinct := by
        rw [← hadmits, ← poolConflict?_eq_none_iff, hconflict]
        simp
      rw [(insertPool_eq_error_iff inventory batch cause).mpr hconflict] at hresult
      rw [hresult]
      refine ⟨iff_of_false hnot (by simp), ?_, ?_⟩
      · intro hdistinct
        exact absurd hdistinct hnot
      · intro _
        rcases poolConflict?_eq_some_first hconflict with ⟨before, entry, after, hbatch, hfirst⟩
        refine ⟨rfl, before, entry, after, hbatch, ?_, ?_⟩
        · intro front other rest hbefore
          have hearlier := hfirst.earlier front other rest hbefore
          rwa [hwell.repeatsId_iff, hwell.repeatsEquation_iff] at hearlier
        · rcases hfirst.cause_cases with ⟨rfl, hid⟩ | ⟨rfl, hid, hequation⟩
          · exact Or.inl ⟨rfl, (hwell.repeatsId_iff before entry).mp hid⟩
          · exact Or.inr ⟨rfl, (hwell.repeatsId_iff before entry).not.mp hid,
              (hwell.repeatsEquation_iff before entry).mp hequation⟩

end Inventory

end EquationPuzzle
