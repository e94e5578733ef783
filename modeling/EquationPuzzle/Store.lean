import EquationPuzzle.Entry
import Std.Data.HashSet

/-!
# Stores

A store keeps a pool of equations and the equation of each day.  It gives out the entries of the
pool that are not used yet, and marks them as used.  Nothing more is promised of a store here: any
call may fail, and what a call answers is up to the store.
-/

namespace EquationPuzzle

/-- What went wrong with a file. -/
inductive FileFault where
  | notFound
  | alreadyExists
  | notADirectory
  | isADirectory
  | invalidData
  | other
  deriving DecidableEq, Repr

inductive StoreError where
  | inaccessible (path : String) (fault : FileFault)
  | duplicateDate (date : Day)
  | duplicateEquation (equation : Equation)
  | duplicateIdentifier (id : Identifier)
  deriving DecidableEq

def StoreError.message : StoreError → String
  | inaccessible path _ => "failed to access " ++ path
  | duplicateDate date => "an equation is already assigned to " ++ date.text
  | duplicateEquation equation => "equation " ++ equation.text ++ " is already in the pool"
  | duplicateIdentifier id => "pool entry " ++ id.text ++ " already exists"

/-- Calls of a store with states `σ`.  A call that fails leaves a state behind, too. -/
abbrev StoreM (σ : Type) := ExceptT StoreError (StateM σ)

class Store (σ : Type) where
  findDaily : Day → StoreM σ (Option DailyEquation)
  insertDaily : DailyEquation → StoreM σ Unit
  findUnused : StoreM σ (Option PoolEntry)
  markUsed : Identifier → StoreM σ (Option PoolEntry)
  /-- Adds all entries or none, and answers how many were added. -/
  insertPool : List PoolEntry → StoreM σ Nat
  poolEquations : StoreM σ (Std.HashSet Equation)
  countPool : StoreM σ Nat
  countUsed : StoreM σ Nat
  countDaily : StoreM σ Nat

structure Stats where
  totalPool : Nat
  usedPool : Nat
  unusedPool : Nat
  dailyCount : Nat
  deriving DecidableEq, Repr

namespace Store

variable {σ : Type} [Store σ]

def stats : StoreM σ Stats := do
  let totalPool ← countPool
  let usedPool ← countUsed
  let dailyCount ← countDaily
  return ⟨totalPool, usedPool, totalPool - usedPool, dailyCount⟩

end Store

end EquationPuzzle
