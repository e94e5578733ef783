import EquationPuzzle.Generator
import EquationPuzzle.Store
import EquationPuzzle.Supply

/-!
# Allocation

An allocator gives each day exactly one equation.  A day that has one keeps it.  Otherwise an unused
entry of the pool is claimed, or a new equation is generated, put into the pool as used, and given
to the day.  The pool can be filled in advance for a range of days.

The store may be shared with others.  A claim may therefore come too late, and an equation may enter
the pool between two calls; then the allocator tries again.  How often it does so is bounded by its
patience.
-/

namespace EquationPuzzle

inductive AllocationError where
  | store (cause : StoreError)
  | exhausted (cause : GenerationExhausted)
  | invalidRange (first last : Day)
  | invalidYear (year : Int)
  /-- More claims came too late than the allocator had patience for. -/
  | unsettled
  deriving DecidableEq

def AllocationError.message : AllocationError → String
  | store cause => cause.message
  | exhausted cause => cause.message
  | invalidRange first last =>
    "invalid date range: " ++ first.text ++ " is after " ++ last.text
  | invalidYear year => "year " ++ toString year ++ " is out of range"
  | unsettled => "no unused pool entry could be claimed"

/-- What an allocator works on. -/
structure Session (σ : Type) where
  store : σ
  supply : Supply
  /-- How often a puzzle has been generated for a range of days, or was to be generated in vain. -/
  progress : Nat := 0

abbrev AllocationM (σ : Type) := ExceptT AllocationError (StateM (Session σ))

namespace Session

variable {σ : Type}

/-- A call of the store. -/
def call {α : Type} (operation : StoreM σ α) : AllocationM σ (Except StoreError α) := do
  let session ← get
  let (answer, store) := (ExceptT.run operation).run session.store
  set { session with store }
  return answer

/-- A call of the store, the failure of which is a failure of the allocation. -/
def require {α : Type} (operation : StoreM σ α) : AllocationM σ α := do
  match ← call operation with
  | .ok answer => return answer
  | .error cause => throw (.store cause)

def generate (generator : Generator) : AllocationM σ Puzzle := do
  let session ← get
  let (made, words) := generator.generate.run session.supply.words
  set { session with supply := { session.supply with words } }
  match made with
  | .ok puzzle => return puzzle
  | .error cause => throw (.exhausted cause)

/-- A new identifier and the time at which it is given. -/
def issue : AllocationM σ (Identifier × Timestamp) := do
  let session ← get
  let supply := session.supply
  set { session with supply := { supply with issued := supply.issued + 1 } }
  return (supply.identifier supply.issued, supply.moment supply.issued)

def newEntry (puzzle : Puzzle) (used : Bool) : AllocationM σ PoolEntry := do
  let (id, created) ← issue
  return .ofPuzzle id created puzzle used

/-- An attempt that is counted as soon as it is over, whether it has failed or not. -/
def counted {α : Type} (attempt : AllocationM σ α) : AllocationM σ α := do
  try attempt
  finally modify fun session => { session with progress := session.progress + 1 }

end Session

structure Allocator where
  generator : Generator
  /-- How many claims may come too late. -/
  patience : Nat

/-- What came of filling the pool for a range of days. -/
structure Pregeneration where
  generated : Nat
  inserted : Nat
  duplicates : Nat
  deriving DecidableEq, Repr

namespace Allocator

variable {σ : Type} [Store σ]

/-- Claims an unused entry, unless the pool has none; at most so many claims are made. -/
def claimEntry : Nat → AllocationM σ (Option PoolEntry)
  | 0 => throw .unsettled
  | patience + 1 => do
    match ← Session.require Store.findUnused with
    | none => return none
    | some candidate =>
      match ← Session.require (Store.markUsed candidate.id) with
      | some entry => return some entry
      | none => claimEntry patience

/-- Puts a new equation, already used, into the pool; at most so many are tried. -/
def generateEntry (generator : Generator) (existing : Std.HashSet Equation) :
    Nat → AllocationM σ PoolEntry
  | 0 => throw (.exhausted ⟨generator.maxAttempts⟩)
  | attempts + 1 => do
    let puzzle ← Session.generate generator
    if existing.contains puzzle.equation then generateEntry generator existing attempts
    else
      let entry ← Session.newEntry puzzle true
      match ← Session.call (Store.insertPool [entry]) with
      | .ok _ => return entry
      | .error (.duplicateEquation _) => generateEntry generator existing attempts
      | .error cause => throw (.store cause)

/-- The equation of a day. -/
def resolve (allocator : Allocator) (date : Day) : AllocationM σ DailyEquation := do
  match ← Session.require (Store.findDaily date) with
  | some existing => return existing
  | none =>
    let entry ← match ← claimEntry (allocator.patience + 1) with
      | some entry => pure entry
      | none =>
        let existing ← Session.require Store.poolEquations
        generateEntry allocator.generator existing allocator.generator.maxAttempts
    let (id, created) ← Session.issue
    let daily := DailyEquation.ofEntry id created date entry
    Session.require (Store.insertDaily daily)
    return daily

/-- A puzzle that is kept nowhere. -/
def practice (allocator : Allocator) : AllocationM σ Puzzle :=
  Session.generate allocator.generator

def generateMany (generator : Generator) : Nat → AllocationM σ (List Puzzle)
  | 0 => return []
  | count + 1 => do
    let puzzle ← Session.counted (Session.generate generator)
    return puzzle :: (← generateMany generator count)

/-- New unused entries for the puzzles whose equations were not seen before. -/
def newEntries (seen : Std.HashSet Equation) : List Puzzle → AllocationM σ (List PoolEntry)
  | [] => return []
  | puzzle :: rest =>
    if seen.contains puzzle.equation then newEntries seen rest
    else do
      let entry ← Session.newEntry puzzle false
      return entry :: (← newEntries (seen.insert puzzle.equation) rest)

/-- Inserts a batch.  If an equation has meanwhile entered the pool, its entry is left out of the
batch and counted as a duplicate.  Answers the numbers of inserted and of left out entries. -/
def insertBatch (duplicates : Nat) (batch : List PoolEntry) : Nat → AllocationM σ (Nat × Nat)
  | 0 => throw .unsettled
  | tries + 1 => do
    match ← Session.call (Store.insertPool batch) with
    | .ok inserted => return (inserted, duplicates)
    | .error (.duplicateEquation equation) =>
      insertBatch (duplicates + 1) (batch.filter fun entry => entry.equation ≠ equation) tries
    | .error cause => throw (.store cause)

/-- Fills the pool with one new equation for each day of a range. -/
def pregenerate (allocator : Allocator) (first last : Day) : AllocationM σ Pregeneration := do
  if last.ordinal < first.ordinal then throw (.invalidRange first last)
  let days := (first.span last).length
  let puzzles ← generateMany allocator.generator days
  let seen ← Session.require Store.poolEquations
  let entries ← newEntries seen puzzles
  let duplicates := puzzles.length - entries.length
  let (inserted, duplicates) ←
    insertBatch duplicates entries (entries.length + allocator.patience + 1)
  return ⟨days, inserted, duplicates⟩

def yearBounds (year : Int) : Except AllocationError (Day × Day) :=
  match Day.boundsOfYear? year with
  | some bounds => .ok bounds
  | none => .error (.invalidYear year)

def pregenerateYear (allocator : Allocator) (year : Int) : AllocationM σ Pregeneration := do
  let (first, last) ← yearBounds year
  allocator.pregenerate first last

end Allocator

end EquationPuzzle
