import EquationPuzzle.Proofs.Inventory.History
import EquationPuzzle.Proofs.Store.Agreement

/-!
# Who has claimed an entry

Clients claim entries by calls, and a call is granted or comes too late.  To an inventory calls are
updates, some of them empty, so its history tells which claims have been granted: none for an entry
that was used before, and one for each entry that was unused before and is used now.
-/

namespace EquationPuzzle

namespace Store

/-- The identifier that a call is to claim. -/
def Call.wanted? : Call → Option Identifier
  | .markUsed id => some id
  | _ => none

/-- The identifier that a call has claimed, judging by the reply. -/
def Call.claimed? : Call → Except StoreError Answer → Option Identifier
  | .markUsed id, .ok (.entry (some _)) => some id
  | _, _ => none

section Claims

variable {σ : Type} [Store σ]

/-- The identifiers that are claimed by calls made one after the other, one for each claim that is
granted. -/
def claimedBy : List Call → σ → List Identifier
  | [], _ => []
  | call :: rest, s =>
    let (reply, next) := outcome (answer call) s
    (call.claimed? reply).toList ++ claimedBy rest next

theorem Call.length_claimed?_le (call : Call) (reply : Except StoreError Answer) :
    (call.claimed? reply).toList.length ≤ call.wanted?.toList.length := by
  unfold Call.claimed?
  split
  · exact Nat.le_refl 1
  · exact Nat.zero_le _

/-- No more claims are granted than are made. -/
theorem length_claimedBy_le (calls : List Call) (s : σ) :
    (claimedBy calls s).length ≤ (calls.filterMap Call.wanted?).length := by
  induction calls generalizing s with
  | nil => exact Nat.le_refl 0
  | cons call rest ih =>
      have hcall := call.length_claimed?_le (outcome (answer call) s).1
      have hrest := ih (outcome (answer call) s).2
      have hsplit : ((call :: rest).filterMap Call.wanted?).length =
          call.wanted?.toList.length + (rest.filterMap Call.wanted?).length := by
        cases hwanted : call.wanted? <;> simp [hwanted, Nat.add_comm]
      rw [hsplit]
      unfold claimedBy
      rw [List.length_append]
      exact Nat.add_le_add hcall hrest

end Claims

/-- What a call asks of an inventory, unless it only reads. -/
def Call.update? : Call → Option Inventory.Update
  | .insertDaily daily => some (.insertDaily daily)
  | .markUsed id => some (.claim id)
  | .insertPool batch => some (.insertPool batch)
  | _ => none

end Store

namespace Inventory

open Store (Call claimedBy converse)

theorem outcome_markUsed_eq (inventory : Inventory) (id : Identifier) :
    outcome (Store.markUsed id) inventory =
      (.ok ((inventory.claim? id).map Prod.fst), inventory.update (.claim id)) := by
  rw [outcome_markUsed]
  cases hclaim : inventory.claim? id <;> simp [update, hclaim]

/-- A call does to an inventory what it asks for, and its reply tells what it has been granted. -/
theorem outcome_answer (inventory : Inventory) (call : Call) :
    (outcome (Store.answer call) inventory).2 = inventory.updates call.update?.toList ∧
      (call.claimed? (outcome (Store.answer call) inventory).1).toList =
        inventory.grants call.update?.toList := by
  cases call with
  | insertDaily daily =>
      rw [Store.answer, outcome_map, outcome_insertDaily]
      cases hinsert : inventory.insertDaily daily <;>
        simp [Call.update?, Call.claimed?, updates, update, grants, granted?, hinsert,
          Except.toOption]
  | markUsed id =>
      rw [Store.answer, outcome_map, outcome_markUsed_eq]
      cases hclaim : inventory.claim? id <;>
        simp [Call.update?, Call.claimed?, updates, update, grants, granted?, hclaim, Except.map]
  | insertPool batch =>
      rw [Store.answer, outcome_map, outcome_insertPool]
      cases hinsert : inventory.insertPool batch <;>
        simp [Call.update?, Call.claimed?, updates, update, grants, granted?, hinsert,
          Except.toOption]
  | _ => exact ⟨rfl, rfl⟩

theorem filterMap_update?_cons (call : Call) (rest : List Call) :
    (call :: rest).filterMap Call.update? =
      call.update?.toList ++ rest.filterMap Call.update? := by
  cases hupdate : call.update? <;> simp [hupdate]

theorem converse_eq_updates (inventory : Inventory) (calls : List Call) :
    (converse calls inventory).2 = inventory.updates (calls.filterMap Call.update?) := by
  induction calls generalizing inventory with
  | nil => rfl
  | cons call rest ih =>
      have hcall := (inventory.outcome_answer call).1
      rw [filterMap_update?_cons, updates_append, ← hcall, ← ih]
      rfl

theorem claimedBy_eq_grants (inventory : Inventory) (calls : List Call) :
    claimedBy calls inventory = inventory.grants (calls.filterMap Call.update?) := by
  induction calls generalizing inventory with
  | nil => rfl
  | cons call rest ih =>
      obtain ⟨hnext, hgranted⟩ := inventory.outcome_answer call
      rw [filterMap_update?_cons, grants_append, ← hgranted, ← hnext, ← ih]
      rfl

section Claims

variable {inventory : Inventory} (hwell : inventory.WellFormed) {calls : List Call}

include hwell

theorem WellFormed.answer (call : Call) : (outcome (Store.answer call) inventory).2.WellFormed := by
  rw [(inventory.outcome_answer call).1]
  exact hwell.updates _

theorem WellFormed.grows_answer (call : Call) :
    inventory.Grows (outcome (Store.answer call) inventory).2 := by
  rw [(inventory.outcome_answer call).1]
  exact hwell.grows_updates _

theorem WellFormed.converse (calls : List Call) :
    (converse calls inventory).2.WellFormed := by
  rw [converse_eq_updates]
  exact hwell.updates _

theorem WellFormed.grows_converse (calls : List Call) :
    inventory.Grows (Store.converse calls inventory).2 := by
  rw [converse_eq_updates]
  exact hwell.grows_updates _

theorem WellFormed.not_mem_claimedBy {id : Identifier} (hused : inventory.HasUsed id)
    (calls : List Call) : id ∉ claimedBy calls inventory := by
  rw [claimedBy_eq_grants]
  exact hwell.not_mem_grants hused _

/-- What is not used in the end has not been used or claimed before. -/
theorem WellFormed.of_not_hasUsed_converse {id : Identifier}
    (hunused : ¬(Store.converse calls inventory).2.HasUsed id) :
    ¬inventory.HasUsed id ∧ id ∉ claimedBy calls inventory := by
  constructor
  · intro hused
    exact hunused ((hwell.grows_converse calls).hasUsed hused)
  · intro hclaimed
    rw [claimedBy_eq_grants] at hclaimed
    rw [converse_eq_updates] at hunused
    exact hunused (hwell.hasUsed_of_mem_grants hclaimed)

/-- A claim of the entry that was found comes too late only if others have claimed that entry
meanwhile: the search and the claim agree on what is unused. -/
theorem WellFormed.mem_claimedBy_of_late {candidate : PoolEntry}
    (hfound : inventory.firstUnused? = some candidate)
    (hlate : (Store.converse calls inventory).2.claim? candidate.id = none) :
    candidate.id ∈ claimedBy calls inventory := by
  obtain ⟨position, hposition, hunused⟩ := hwell.exists_of_firstUnused? hfound
  obtain ⟨kept, hkept, hbecomes⟩ := (hwell.grows_converse calls).pool position candidate hposition
  have hmem := Array.mem_of_getElem? hkept
  have hused := ((hwell.converse calls).claim?_eq_none_iff _).mp hlate kept hmem hbecomes.id_eq
  have hhas : (Store.converse calls inventory).2.HasUsed candidate.id :=
    ⟨kept, hmem, hbecomes.id_eq, hused⟩
  rw [converse_eq_updates] at hhas
  rw [claimedBy_eq_grants]
  exact hwell.mem_grants_of_hasUsed hposition hunused hhas

end Claims

end Inventory

end EquationPuzzle
