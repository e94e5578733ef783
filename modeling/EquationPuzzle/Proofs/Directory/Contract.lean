import EquationPuzzle.Proofs.Directory.Advance
import EquationPuzzle.Proofs.Store.Contract

/-!
# A directory keeps the promises of a store

Whatever stands in its files, a store in a directory answers from what it remembers.  A call does to
that what it would do to an inventory, or it fails at a file and does nothing.
-/

namespace EquationPuzzle

namespace DirectoryStore

open Directory

/-- The call has failed at a file, and what is remembered has not changed. -/
structure FailsAtFile (store : DirectoryStore) (reply : Except StoreError Store.Answer)
    (after : DirectoryStore) : Prop where
  inventory_eq : after.directory.inventory = store.directory.inventory
  error : ∃ cause, reply = .error cause ∧ ∀ equation, cause ≠ .duplicateEquation equation

section Calls

variable {store : DirectoryStore}

theorem dailyRefusal_ne_duplicateEquation (directory : Directory) (date : Day) (fault : FileFault)
    (equation : Equation) : directory.dailyRefusal date fault ≠ .duplicateEquation equation := by
  unfold dailyRefusal
  split <;> simp [inaccessible]

/-- A call fails at a file, or does what it does to an inventory. -/
theorem answer_cases (hwell : store.directory.inventory.WellFormed) (call : Store.Call) :
    Yields (Store.answer call) store fun reply after => store.FailsAtFile reply after ∨
      outcome (Store.answer call) store.directory.inventory =
        (reply, after.directory.inventory) := by
  unfold Yields
  cases call with
  | insertDaily daily =>
      simp only [Store.answer, outcome_map, Inventory.outcome_insertDaily]
      rcases insertDaily_cases store daily with ⟨hknown, hresult⟩ |
        ⟨hnew, ⟨fault, tree, _, hresult⟩ | ⟨tree, _, hresult⟩⟩
      · rw [hresult]
        exact Or.inl ⟨rfl, _, rfl, by simp⟩
      · rw [hresult]
        exact Or.inl ⟨rfl, _, rfl, dailyRefusal_ne_duplicateEquation _ _ _⟩
      · rw [hresult, (Inventory.insertDaily_eq_ok_iff _ _ daily).mpr ⟨hnew, rfl⟩]
        exact Or.inr rfl
  | markUsed id =>
      simp only [Store.answer, outcome_map, Inventory.outcome_markUsed]
      have hclaimable := hwell.claimable?_eq id
      cases hclaim : store.directory.inventory.claim? id with
      | none =>
          rw [hclaim] at hclaimable
          rw [outcome_markUsed_of_none store hclaimable]
          exact Or.inr rfl
      | some result =>
          rw [hclaim] at hclaimable
          rcases hwrite : writeRecord store.tree (store.directory.root.poolFile id) false
            result.1.recordText with ⟨fault | _, tree⟩
          · rw [outcome_markUsed_of_fault store hclaimable hwrite]
            exact Or.inl ⟨rfl, _, rfl, by simp [inaccessible]⟩
          · rw [outcome_markUsed_of_some store hclaimable hwrite hclaim]
            exact Or.inr rfl
  | insertPool batch =>
      simp only [Store.answer, outcome_map, Inventory.outcome_insertPool]
      cases hconflict : store.directory.inventory.poolConflict? batch with
      | some conflict =>
          rw [outcome_insertPool_of_conflict store hconflict,
            (Inventory.insertPool_eq_error_iff _ _ _).mpr hconflict]
          exact Or.inr rfl
      | none =>
          rcases hwrite : writeBatch store.directory.root store.tree batch with
            ⟨written, _ | ⟨path, fault⟩, tree⟩
          · have hadmits := (Inventory.poolConflict?_eq_none_iff _ _).mp hconflict
            have hinsert := (Inventory.insertPool_eq_ok_iff _ _ _).mpr ⟨hadmits, rfl⟩
            rw [outcome_insertPool_of_ok store hconflict hwrite hinsert, hinsert]
            exact Or.inr rfl
          · rw [outcome_insertPool_of_fault store hconflict hwrite]
            exact Or.inl ⟨rfl, _, rfl, by simp [inaccessible]⟩
  | _ =>
      -- The other calls only read the inventory.
      exact Or.inr rfl

end Calls

def contract : Store.Contract DirectoryStore where
  valid store := store.directory.inventory.WellFormed
  records store := store.directory.inventory.records
  keeps call store hwell := by
    refine (answer_cases hwell call).imp fun reply after hcases => ?_
    rcases hcases with ⟨hsame, cause, rfl, hcause⟩ | hanswer
    · rw [hsame]
      exact ⟨hwell, .failed call hcause⟩
    · have hkeeps := hwell.keeps call
      rwa [Yields, hanswer] at hkeeps

/-! ## Stores that have been opened -/

/-- The directory has been loaded from files that were listed in some order.  Since then the store
has been called, and others have done to its files what they liked. -/
inductive Opened : DirectoryStore → Prop
  | loaded {root : Root} {tree : FileTree} {poolFiles dailyFiles : List FilePath}
      {directory : Directory} (load_eq : load root tree poolFiles dailyFiles = .ok directory) :
      Opened ⟨directory, tree⟩
  | called {store : DirectoryStore} (opened : Opened store) (call : Store.Call) :
      Opened (outcome (Store.answer call) store).2
  | disturbed {store : DirectoryStore} (opened : Opened store) (tree : FileTree) :
      Opened { store with tree }

/-- What an opened store remembers stays well-formed, whatever becomes of its files. -/
theorem Opened.wellFormed {store : DirectoryStore} (hopened : store.Opened) :
    store.directory.inventory.WellFormed := by
  induction hopened with
  | loaded load_eq => exact wellFormed_of_load load_eq
  | called _ call ih => exact (contract.keeps call _ ih).1
  | disturbed _ _ ih => exact ih

end DirectoryStore

end EquationPuzzle
