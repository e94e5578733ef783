import EquationPuzzle.Proofs.Store.Agreement

/-!
# Stores that keep a transcript

A recorded store passes all calls on and keeps a transcript of them and of their answers.  Its
client cannot tell it from the store itself.
-/

namespace EquationPuzzle

namespace Store

/-- A call and what it was answered. -/
structure Exchange where
  call : Call
  reply : Except StoreError Answer

structure Recorded (σ : Type) where
  store : σ
  /-- The calls so far, the first one first. -/
  transcript : List Exchange

namespace Recorded

variable {σ α : Type}

/-- A call that is passed on and noted. -/
def note (call : Call) (wrap : α → Answer) (operation : StoreM σ α) : StoreM (Recorded σ) α :=
  ExceptT.mk fun state =>
    let (reply, store) := outcome operation state.store
    (reply, ⟨store, state.transcript ++ [⟨call, reply.map wrap⟩]⟩)

instance [Store σ] : Store (Recorded σ) where
  findDaily date := note (.findDaily date) .daily (Store.findDaily date)
  insertDaily daily := note (.insertDaily daily) (fun _ => .done) (Store.insertDaily daily)
  findUnused := note .findUnused .entry Store.findUnused
  markUsed id := note (.markUsed id) .entry (Store.markUsed id)
  insertPool batch := note (.insertPool batch) .count (Store.insertPool batch)
  poolEquations := note .poolEquations .equations Store.poolEquations
  countPool := note .countPool .count Store.countPool
  countUsed := note .countUsed .count Store.countUsed
  countDaily := note .countDaily .count Store.countDaily

theorem outcome_note (call : Call) (wrap : α → Answer) (operation : StoreM σ α)
    (state : Recorded σ) :
    outcome (note call wrap operation) state =
      ((outcome operation state.store).1, ⟨(outcome operation state.store).2,
        state.transcript ++ [⟨call, (outcome operation state.store).1.map wrap⟩]⟩) := rfl

theorem agrees_note (call : Call) (wrap : α → Answer) (operation : StoreM σ α) :
    Agrees (fun state store => Recorded.store state = store) (note call wrap operation)
      operation := by
  rintro state _ rfl
  rw [outcome_note]
  exact ⟨rfl, rfl⟩

theorem agree_recorded [Store σ] :
    Agree (fun (state : Recorded σ) (store : σ) => state.store = store) where
  findDaily date := agrees_note (.findDaily date) .daily _
  insertDaily daily := agrees_note (.insertDaily daily) (fun _ => .done) _
  findUnused := agrees_note .findUnused .entry _
  markUsed id := agrees_note (.markUsed id) .entry _
  insertPool batch := agrees_note (.insertPool batch) .count _
  poolEquations := agrees_note .poolEquations .equations _
  countPool := agrees_note .countPool .count _
  countUsed := agrees_note .countUsed .count _
  countDaily := agrees_note .countDaily .count _

theorem outcome_answer [Store σ] (call : Call) (state : Recorded σ) :
    outcome (answer call) state =
      ((outcome (answer call) state.store).1, ⟨(outcome (answer call) state.store).2,
        state.transcript ++ [⟨call, (outcome (answer call) state.store).1⟩]⟩) := by
  have hnoted : ∀ {β : Type} (wrap : β → Answer) (operation : StoreM σ β),
      outcome (wrap <$> note call wrap operation) state =
        ((outcome (wrap <$> operation) state.store).1,
          ⟨(outcome (wrap <$> operation) state.store).2,
            state.transcript ++ [⟨call, (outcome (wrap <$> operation) state.store).1⟩]⟩) := by
    intro β wrap operation
    rw [outcome_map, outcome_map, outcome_note]
  cases call with
  | findDaily date => exact hnoted .daily _
  | insertDaily daily => exact hnoted (fun _ => .done) _
  | findUnused => exact hnoted .entry _
  | markUsed id => exact hnoted .entry _
  | insertPool batch => exact hnoted .count _
  | poolEquations => exact hnoted .equations _
  | countPool => exact hnoted .count _
  | countUsed => exact hnoted .count _
  | countDaily => exact hnoted .count _

end Recorded

end Store

end EquationPuzzle
