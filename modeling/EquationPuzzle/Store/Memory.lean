import EquationPuzzle.Inventory

/-!
# Stores in memory

An inventory is a store by itself.  None of its calls fails other than by a conflict of records, and
a failing call changes nothing.
-/

namespace EquationPuzzle

namespace Inventory

/-- A change of the inventory that may be refused. -/
def change (f : Inventory → Except StoreError Inventory) : StoreM Inventory Unit := do
  set (← f (← get))

instance : Store Inventory where
  findDaily date := return (← get).findDaily? date
  insertDaily daily := change (·.insertDaily daily)
  findUnused := return (← get).firstUnused?
  markUsed id := do
    match (← get).claim? id with
    | none => return none
    | some (entry, inventory) =>
      set inventory
      return some entry
  insertPool batch := do
    change (·.insertPool batch)
    return batch.length
  poolEquations := return (← get).poolEquations
  countPool := return (← get).poolCount
  countUsed := return (← get).usedCount
  countDaily := return (← get).dailyCount

end Inventory

end EquationPuzzle
