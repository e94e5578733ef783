import EquationPuzzle.Generator
import EquationPuzzle.Store

/-!
# Interference

A store between a client and another store.  It keeps a transcript of the calls, and it can answer
calls by itself, following a script for each operation: to fail, to withhold an answer, to report a
conflict, or to act as another client that was quicker.  Where the script has ended, calls are
passed on.
-/

namespace EquationPuzzle

namespace Store

inductive Operation where
  | findDaily
  | insertDaily
  | findUnused
  | markUsed
  | insertPool
  | poolEquations
  | countPool
  | countUsed
  | countDaily
  deriving DecidableEq, Repr

/-- What happens to one call. -/
inductive Interference where
  | pass
  /-- The call fails. -/
  | fail
  /-- The call answers that there is nothing. -/
  | withhold
  /-- Another client marks the entry first. -/
  | steal
  /-- The call reports a conflict with what it was to insert. -/
  | conflict
  /-- The call answers that the pool has all equations of some templates. -/
  | exhaust (templates : List Template)
  /-- The call answers a number. -/
  | count (number : Nat)

structure Interfered (σ : Type) where
  store : σ
  script : Operation → List Interference
  /-- The calls so far, the last one first. -/
  transcript : List Operation := []

namespace Interfered

variable {σ : Type}

/-- Notes a call and takes the next word of its script. -/
def next (operation : Operation) : StoreM (Interfered σ) Interference := do
  let state ← get
  let words := state.script operation
  set { state with
    script := fun other => if other = operation then words.tail else state.script other
    transcript := operation :: state.transcript }
  return words.headD .pass

/-- A call that is passed on. -/
def forward {α : Type} (call : StoreM σ α) : StoreM (Interfered σ) α := do
  let state ← get
  let (answer, store) := (ExceptT.run call).run state.store
  set { state with store }
  match answer with
  | .ok value => return value
  | .error cause => throw cause

/-- The failure of a call that the script lets fail. -/
def scripted : StoreError := .inaccessible "scripted" .other

def countBy (operation : Operation) (call : StoreM σ Nat) : StoreM (Interfered σ) Nat := do
  match ← next operation with
  | .pass => forward call
  | .count number => return number
  | _ => throw scripted

instance [Store σ] : Store (Interfered σ) where
  findDaily date := do
    match ← next .findDaily with
    | .fail => throw scripted
    | .withhold => return none
    | _ => forward (Store.findDaily date)
  insertDaily daily := do
    match ← next .insertDaily with
    | .fail => throw scripted
    | .conflict => throw (.duplicateDate daily.date)
    | _ => forward (Store.insertDaily daily)
  findUnused := do
    match ← next .findUnused with
    | .fail => throw scripted
    | .withhold => return none
    | _ => forward Store.findUnused
  markUsed id := do
    match ← next .markUsed with
    | .fail => throw scripted
    | .withhold => return none
    | .steal =>
      let _ ← forward (Store.markUsed id)
      return none
    | _ => forward (Store.markUsed id)
  insertPool batch := do
    match ← next .insertPool, batch with
    | .fail, _ => throw scripted
    | .conflict, first :: _ => throw (.duplicateEquation first.equation)
    | _, _ => forward (Store.insertPool batch)
  poolEquations := do
    match ← next .poolEquations with
    | .fail => throw scripted
    | .exhaust templates => return .ofList (templates.flatMap Template.equations)
    | _ => forward Store.poolEquations
  countPool := countBy .countPool Store.countPool
  countUsed := countBy .countUsed Store.countUsed
  countDaily := countBy .countDaily Store.countDaily

end Interfered

end Store

end EquationPuzzle
