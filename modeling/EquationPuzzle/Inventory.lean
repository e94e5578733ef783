import EquationPuzzle.Store
import Std.Data.HashMap
import Std.Data.TreeSet

/-!
# Inventories

The records of a store in memory.  The pool is a row of entries in the order of their insertion;
three indexes answer where an identifier stands, which equations the pool has, and which positions
are unused.  Identifiers and equations occur in the pool once, and a day has one equation.
-/

namespace EquationPuzzle

structure Inventory where
  pool : Array PoolEntry
  /-- The position of each identifier in the pool. -/
  positions : Std.HashMap Identifier Nat
  /-- The identifier of the entry with each equation. -/
  equations : Std.HashMap Equation Identifier
  /-- The positions of the unused entries. -/
  unused : Std.TreeSet Nat
  daily : Std.HashMap Day DailyEquation

namespace Inventory

def empty : Inventory := ⟨#[], ∅, ∅, ∅, ∅⟩

instance : Inhabited Inventory := ⟨empty⟩

/-- The first identifier or equation of a batch that the inventory has already, or that occurred
earlier in the batch. -/
def conflict? (inventory : Inventory) (ids : Std.HashSet Identifier)
    (equations : Std.HashSet Equation) : List PoolEntry → Option StoreError
  | [] => none
  | entry :: rest =>
    if inventory.positions.contains entry.id || ids.contains entry.id then
      some (.duplicateIdentifier entry.id)
    else if inventory.equations.contains entry.equation || equations.contains entry.equation then
      some (.duplicateEquation entry.equation)
    else inventory.conflict? (ids.insert entry.id) (equations.insert entry.equation) rest

/-- What forbids to insert a batch. -/
def poolConflict? (inventory : Inventory) (batch : List PoolEntry) : Option StoreError :=
  inventory.conflict? ∅ ∅ batch

def push (inventory : Inventory) (entry : PoolEntry) : Inventory :=
  let position := inventory.pool.size
  { inventory with
    pool := inventory.pool.push entry
    positions := inventory.positions.insert entry.id position
    equations := inventory.equations.insert entry.equation entry.id
    unused := if entry.used then inventory.unused else inventory.unused.insert position }

def insertPool (inventory : Inventory) (batch : List PoolEntry) : Except StoreError Inventory :=
  match inventory.poolConflict? batch with
  | some error => .error error
  | none => .ok (batch.foldl push inventory)

def find? (inventory : Inventory) (id : Identifier) : Option PoolEntry := do
  inventory.pool[← inventory.positions[id]?]?

/-- The unused entry that was inserted first. -/
def firstUnused? (inventory : Inventory) : Option PoolEntry := do
  inventory.pool[← inventory.unused.min?]?

/-- An unused entry as it will be once it is claimed. -/
def claimable? (inventory : Inventory) (id : Identifier) : Option PoolEntry := do
  let entry ← inventory.find? id
  if entry.used then none else some { entry with used := true }

/-- Marks an unused entry as used. -/
def claim? (inventory : Inventory) (id : Identifier) : Option (PoolEntry × Inventory) := do
  let position ← inventory.positions[id]?
  if !inventory.unused.contains position then none
  let entry ← inventory.pool[position]?
  let claimed := { entry with used := true }
  return (claimed,
    { inventory with
      pool := inventory.pool.setIfInBounds position claimed
      unused := inventory.unused.erase position })

def findDaily? (inventory : Inventory) (date : Day) : Option DailyEquation :=
  inventory.daily[date]?

def dailyConflict? (inventory : Inventory) (daily : DailyEquation) : Option StoreError :=
  if inventory.daily.contains daily.date then some (.duplicateDate daily.date) else none

def insertDaily (inventory : Inventory) (daily : DailyEquation) : Except StoreError Inventory :=
  match inventory.dailyConflict? daily with
  | some error => .error error
  | none => .ok { inventory with daily := inventory.daily.insert daily.date daily }

def poolEquations (inventory : Inventory) : Std.HashSet Equation :=
  Std.HashSet.ofList inventory.equations.keys

def poolCount (inventory : Inventory) : Nat := inventory.pool.size

def usedCount (inventory : Inventory) : Nat := inventory.pool.size - inventory.unused.size

def dailyCount (inventory : Inventory) : Nat := inventory.daily.size

end Inventory

end EquationPuzzle
