import EquationPuzzle.Proofs.Inventory.Representation
import EquationPuzzle.Proofs.Store.Agreement
import Mathlib.Data.Multiset.AddSub
import Mathlib.Data.Set.Card

/-!
# What is promised of a store

A store has an equation on record for some days, and a pool of entries.  Seen from outside each of
its calls is one step of these records, whatever the store is made of: it answers what they say, and
it changes them as it was asked to, or fails and leaves them as they were.  An inventory keeps this
promise.
-/

namespace EquationPuzzle

namespace Store

structure Records where
  pool : Multiset PoolEntry
  daily : Day → Option DailyEquation

namespace Records

variable (records : Records)

/-- The equations of the batch differ from one another and from those of the pool. -/
structure Fresh (batch : List PoolEntry) : Prop where
  nodup : (batch.map (·.equation)).Nodup
  new : ∀ entry ∈ batch, ∀ known ∈ records.pool, known.equation ≠ entry.equation

/-- The batch has the equation, and so has the pool, or another entry of the batch. -/
structure Clashes (batch : List PoolEntry) (equation : Equation) : Prop where
  mem : equation ∈ batch.map (·.equation)
  taken : (∃ known ∈ records.pool, known.equation = equation) ∨
    1 < (batch.map (·.equation)).count equation

/-- What a call may be answered, and what the records may be then. -/
inductive Permits : Call → Except StoreError Answer → Records → Prop
  | foundDaily (date : Day) :
      Permits (.findDaily date) (.ok (.daily (records.daily date))) records
  | insertedDaily (daily : DailyEquation) (hnew : records.daily daily.date = none) :
      Permits (.insertDaily daily) (.ok .done)
        { records with daily := Function.update records.daily daily.date (some daily) }
  | foundUnused {entry : PoolEntry} (hentry : entry ∈ records.pool) (hunused : entry.used = false) :
      Permits .findUnused (.ok (.entry (some entry))) records
  | foundNone (hused : ∀ entry ∈ records.pool, entry.used) :
      Permits .findUnused (.ok (.entry none)) records
  | marked {entry : PoolEntry} {others : Multiset PoolEntry}
      (hpool : records.pool = entry ::ₘ others) (hunused : entry.used = false) :
      Permits (.markUsed entry.id) (.ok (.entry (some entry.claimed)))
        { records with pool := entry.claimed ::ₘ others }
  | late (id : Identifier) (hused : ∀ entry ∈ records.pool, entry.id = id → entry.used) :
      Permits (.markUsed id) (.ok (.entry none)) records
  | insertedPool {batch : List PoolEntry} (hfresh : records.Fresh batch) :
      Permits (.insertPool batch) (.ok (.count batch.length))
        { records with pool := records.pool + batch }
  | clashed {batch : List PoolEntry} {equation : Equation}
      (hclashes : records.Clashes batch equation) :
      Permits (.insertPool batch) (.error (.duplicateEquation equation)) records
  | listed {known : Std.HashSet Equation}
      (hknown : ∀ equation, equation ∈ known ↔ ∃ entry ∈ records.pool, entry.equation = equation) :
      Permits .poolEquations (.ok (.equations known)) records
  | countedPool : Permits .countPool (.ok (.count records.pool.card)) records
  | countedUsed : Permits .countUsed (.ok (.count (records.pool.countP (·.used)))) records
  | countedDaily :
      Permits .countDaily (.ok (.count {date | records.daily date ≠ none}.ncard)) records
  | failed (call : Call) {cause : StoreError}
      (hcause : ∀ equation, cause ≠ .duplicateEquation equation) :
      Permits call (.error cause) records

section Permits

variable {records} {call : Call} {batch : List PoolEntry} {next : Records}

theorem Permits.eq_of_error {cause : StoreError}
    (hpermits : records.Permits call (.error cause) next) : next = records := by
  cases hpermits <;> rfl

theorem Permits.mem_of_duplicateEquation {equation : Equation}
    (hpermits : records.Permits (.insertPool batch) (.error (.duplicateEquation equation)) next) :
    equation ∈ batch.map (·.equation) := by
  cases hpermits with
  | clashed hclashes => exact hclashes.mem
  | failed _ hcause => exact absurd rfl (hcause equation)

theorem Permits.of_insertPool_ok {answer : Answer}
    (hpermits : records.Permits (.insertPool batch) (.ok answer) next) :
    answer = .count batch.length ∧ records.Fresh batch ∧
      next = { records with pool := records.pool + batch } := by
  cases hpermits with
  | insertedPool hfresh => exact ⟨rfl, hfresh, rfl⟩

theorem Permits.of_poolEquations {reply : Except StoreError Answer}
    (hpermits : records.Permits .poolEquations reply next) :
    next = records ∧ ∀ equation, reply ≠ .error (.duplicateEquation equation) := by
  cases hpermits with
  | listed hknown => exact ⟨rfl, nofun⟩
  | failed _ hcause => exact ⟨rfl, fun equation h => hcause equation (Except.error.inj h)⟩

end Permits

end Records

/-- A way to see the states of a store as records, such that all calls do what is promised as long
as the state is valid, which it then remains. -/
structure Contract (σ : Type) [Store σ] where
  valid : σ → Prop
  records : σ → Records
  keeps : ∀ call s, valid s → Yields (answer call) s fun reply next =>
    valid next ∧ (records s).Permits call reply (records next)

theorem Contract.valid_converse {σ : Type} [Store σ] (contract : Contract σ) (calls : List Call)
    {s : σ} (hvalid : contract.valid s) : contract.valid (converse calls s).2 := by
  induction calls generalizing s with
  | nil => exact hvalid
  | cons call rest ih => exact ih (contract.keeps call s hvalid).1

end Store

/-! ## Inventories -/

namespace Inventory

open Store (Records)

def records (inventory : Inventory) : Records := ⟨inventory.pool.toList, inventory.findDaily?⟩

section Permits

variable {inventory : Inventory}

theorem mem_records_pool (entry : PoolEntry) :
    entry ∈ inventory.records.pool ↔ entry ∈ inventory.pool :=
  Array.mem_toList_iff

theorem records_withDaily (inventory : Inventory) (daily : DailyEquation) :
    (inventory.withDaily daily).records = { inventory.records with
      daily := Function.update inventory.records.daily daily.date (some daily) } := by
  unfold records
  congr 1
  funext date
  rw [findDaily?_withDaily, Function.update_apply]
  simp only [eq_comm]

theorem records_pushAll (inventory : Inventory) (batch : List PoolEntry) :
    (batch.foldl push inventory).records =
      { inventory.records with pool := inventory.records.pool + batch } := by
  unfold records
  congr 1
  · rw [pool_pushAll]
    rfl
  · funext date
    simp [findDaily?]

/-- A claim changes one occurrence of the entry. -/
theorem exists_records_markAt {position : Nat} {entry : PoolEntry}
    (hentry : inventory.pool[position]? = some entry) :
    ∃ others : Multiset PoolEntry, inventory.records.pool = entry ::ₘ others ∧
      (inventory.markAt position entry).records =
        { inventory.records with pool := entry.claimed ::ₘ others } := by
  obtain ⟨hbound, rfl⟩ := Array.getElem?_eq_some_iff.mp hentry
  have hlength : position < inventory.pool.toList.length := hbound
  refine ⟨inventory.pool.toList.eraseIdx position, ?_, ?_⟩
  · exact Multiset.coe_eq_coe.mpr (List.getElem_cons_eraseIdx_perm hlength).symm
  · unfold records
    rw [toList_pool_markAt]
    congr 1
    exact Multiset.coe_eq_coe.mpr (List.set_perm_cons_eraseIdx hlength _)

theorem Admits.fresh (hwell : inventory.WellFormed) {batch : List PoolEntry}
    (hadmits : inventory.Admits batch) : inventory.records.Fresh batch where
  nodup := hadmits.nodup_equations
  new entry hentry known hknown hsame := by
    refine hadmits.new_equation entry hentry ((hwell.mem_equations_iff _).mpr ⟨known, ?_, hsame⟩)
    exact (mem_records_pool known).mp hknown

theorem WellFormed.permits_refusal (hwell : inventory.WellFormed) {batch : List PoolEntry}
    {cause : StoreError} (hconflict : inventory.poolConflict? batch = some cause) :
    inventory.records.Permits (.insertPool batch) (.error cause) inventory.records := by
  obtain ⟨before, entry, after, rfl, ⟨rfl, _⟩ | ⟨rfl, htaken⟩⟩ := poolConflict?_eq_some hconflict
  · exact .failed _ (by simp)
  · refine .clashed ⟨by simp, htaken.imp (fun hknown => ?_) ?_⟩
    · obtain ⟨known, hmem, hsame⟩ := (hwell.mem_equations_iff _).mp hknown
      exact ⟨known, (mem_records_pool known).mpr hmem, hsame⟩
    · rintro ⟨other, hother, hsame⟩
      have hbefore : 0 < (before.map (·.equation)).count entry.equation :=
        List.count_pos_iff.mpr (hsame ▸ List.mem_map_of_mem hother)
      rw [List.map_append, List.map_cons, List.count_append, List.count_cons_self]
      omega

theorem dailyCount_eq (inventory : Inventory) :
    inventory.dailyCount = {date | inventory.findDaily? date ≠ none}.ncard := by
  have hset : {date | inventory.findDaily? date ≠ none} = ↑inventory.daily.keys.toFinset := by
    ext date
    simp [findDaily?_eq_none_iff]
  rw [hset, Set.ncard_coe_finset, List.toFinset_card_of_nodup inventory.daily.nodup_keys,
    Std.HashMap.length_keys, dailyCount]

/-- What an inventory answers, and what it is then, is always permitted. -/
theorem WellFormed.keeps (hwell : inventory.WellFormed) (call : Store.Call) :
    Yields (Store.answer call) inventory fun reply next =>
      next.WellFormed ∧ inventory.records.Permits call reply next.records := by
  unfold Yields
  cases call with
  | findDaily date => exact ⟨hwell, .foundDaily date⟩
  | insertDaily daily =>
      rw [Store.answer, outcome_map, outcome_insertDaily]
      cases hinsert : inventory.insertDaily daily with
      | error cause =>
          refine ⟨hwell, .failed _ fun equation => ?_⟩
          unfold insertDaily dailyConflict? at hinsert
          split at hinsert <;> grind
      | ok next =>
          obtain ⟨hnew, rfl⟩ := (insertDaily_eq_ok_iff _ _ daily).mp hinsert
          refine ⟨hwell.withDaily daily, ?_⟩
          rw [records_withDaily]
          exact .insertedDaily daily hnew
  | findUnused =>
      refine ⟨hwell, ?_⟩
      change inventory.records.Permits .findUnused (.ok (.entry inventory.firstUnused?)) _
      cases hfirst : inventory.firstUnused? with
      | none =>
          refine .foundNone fun entry hentry => ?_
          exact hwell.firstUnused?_eq_none_iff.mp hfirst entry ((mem_records_pool entry).mp hentry)
      | some entry =>
          obtain ⟨position, hentry, hunused⟩ := hwell.exists_of_firstUnused? hfirst
          exact .foundUnused ((mem_records_pool entry).mpr (Array.mem_of_getElem? hentry)) hunused
  | markUsed id =>
      rw [Store.answer, outcome_map, outcome_markUsed]
      cases hclaim : inventory.claim? id with
      | none =>
          refine ⟨hwell, .late id fun entry hentry => ?_⟩
          exact (hwell.claim?_eq_none_iff id).mp hclaim entry ((mem_records_pool entry).mp hentry)
      | some result =>
          obtain ⟨position, entry, hentry, rfl, hunused, hclaimed, hnext⟩ :=
            (hwell.claim?_eq_some_iff id result.1 result.2).mp hclaim
          obtain ⟨others, hpool, hmarked⟩ := exists_records_markAt hentry
          dsimp only
          rw [hclaimed, hnext, hmarked]
          exact ⟨hwell.markAt hentry, .marked hpool hunused⟩
  | insertPool batch =>
      rw [Store.answer, outcome_map, outcome_insertPool]
      cases hinsert : inventory.insertPool batch with
      | error cause =>
          exact ⟨hwell, hwell.permits_refusal ((insertPool_eq_error_iff _ _ _).mp hinsert)⟩
      | ok next =>
          obtain ⟨hadmits, rfl⟩ := (insertPool_eq_ok_iff _ _ _).mp hinsert
          refine ⟨hwell.pushAll hadmits, ?_⟩
          rw [records_pushAll]
          exact .insertedPool (hadmits.fresh hwell)
  | poolEquations =>
      refine ⟨hwell, .listed fun equation => ?_⟩
      rw [hwell.mem_poolEquations_iff]
      simp only [mem_records_pool]
  | countPool => exact ⟨hwell, .countedPool⟩
  | countUsed =>
      refine ⟨hwell, ?_⟩
      change inventory.records.Permits .countUsed (.ok (.count inventory.usedCount)) _
      have hcount : inventory.usedCount = inventory.records.pool.countP (·.used) := by
        simp [hwell.usedCount_eq, records]
      rw [hcount]
      exact .countedUsed
  | countDaily =>
      refine ⟨hwell, ?_⟩
      change inventory.records.Permits .countDaily (.ok (.count inventory.dailyCount)) _
      rw [dailyCount_eq]
      exact .countedDaily

end Permits

def contract : Store.Contract Inventory where
  valid := WellFormed
  records := records
  keeps call _ hwell := hwell.keeps call

end Inventory

end EquationPuzzle
