import EquationPuzzle.Inventory
import Mathlib.Data.List.Nodup
import Mathlib.Data.List.Perm.Basic

/-!
# The indexes of an inventory

An inventory keeps its pool four times over: as a row of entries, under the identifiers, under the
equations, and, through the flags of the entries, in the set of unused positions.  This file shows
that the four agree whatever is asked of an inventory, and reads off from it what the counts and
the search for an unused entry answer.
-/

namespace EquationPuzzle

def PoolEntry.claimed (entry : PoolEntry) : PoolEntry := { entry with used := true }

namespace Inventory

/-- The indexes say of the pool what they are meant to say, and each daily equation stands under
its own date. -/
structure WellFormed (inventory : Inventory) : Prop where
  position_iff :
    ∀ (id : Identifier) (position : Nat), inventory.positions[id]? = some position ↔
      ∃ entry, inventory.pool[position]? = some entry ∧ entry.id = id
  equation_iff :
    ∀ (equation : Equation) (id : Identifier), inventory.equations[equation]? = some id ↔
      ∃ entry ∈ inventory.pool, entry.equation = equation ∧ entry.id = id
  unused_iff :
    ∀ position : Nat, position ∈ inventory.unused ↔
      ∃ entry, inventory.pool[position]? = some entry ∧ entry.used = false
  daily_date :
    ∀ (date : Day) (daily : DailyEquation), inventory.daily[date]? = some daily → daily.date = date

theorem wellFormed_empty : empty.WellFormed := by
  constructor <;> simp [empty]

section Lookup

variable {inventory : Inventory}

theorem WellFormed.position_eq_of_id_eq (hwell : inventory.WellFormed)
    {i j : Nat} {a b : PoolEntry} (ha : inventory.pool[i]? = some a)
    (hb : inventory.pool[j]? = some b) (hid : a.id = b.id) : i = j := by
  have hi := (hwell.position_iff b.id i).mpr ⟨a, ha, hid⟩
  have hj := (hwell.position_iff b.id j).mpr ⟨b, hb, rfl⟩
  exact Option.some.inj (hi.symm.trans hj)

theorem WellFormed.position_eq_of_equation_eq (hwell : inventory.WellFormed)
    {i j : Nat} {a b : PoolEntry} (ha : inventory.pool[i]? = some a)
    (hb : inventory.pool[j]? = some b) (hequation : a.equation = b.equation) : i = j := by
  have hi := (hwell.equation_iff b.equation a.id).mpr
    ⟨a, Array.mem_of_getElem? ha, hequation, rfl⟩
  have hj := (hwell.equation_iff b.equation b.id).mpr
    ⟨b, Array.mem_of_getElem? hb, rfl, rfl⟩
  exact hwell.position_eq_of_id_eq ha hb (Option.some.inj (hi.symm.trans hj))

private theorem nodup_map_of_position_eq {α : Type} (pool : Array PoolEntry)
    (key : PoolEntry → α)
    (hkey : ∀ (i j : Nat) (a b : PoolEntry), pool[i]? = some a → pool[j]? = some b →
      key a = key b → i = j) :
    (pool.toList.map key).Nodup := by
  rw [List.Nodup, List.pairwise_iff_getElem]
  intro i j hi hj hlt heq
  simp only [List.length_map, Array.length_toList] at hi hj
  simp only [List.getElem_map, Array.getElem_toList] at heq
  have hsame := hkey i j pool[i] pool[j] (by simp [hi]) (by simp [hj]) heq
  omega

theorem WellFormed.nodup_ids (hwell : inventory.WellFormed) :
    (inventory.pool.toList.map (·.id)).Nodup :=
  nodup_map_of_position_eq _ _ fun _ _ _ _ => hwell.position_eq_of_id_eq

theorem WellFormed.nodup_equations (hwell : inventory.WellFormed) :
    (inventory.pool.toList.map (·.equation)).Nodup :=
  nodup_map_of_position_eq _ _ fun _ _ _ _ => hwell.position_eq_of_equation_eq

theorem WellFormed.mem_positions_iff (hwell : inventory.WellFormed) (id : Identifier) :
    id ∈ inventory.positions ↔ ∃ entry ∈ inventory.pool, entry.id = id := by
  rw [Std.HashMap.mem_iff_isSome_getElem?, Option.isSome_iff_exists]
  constructor
  · rintro ⟨position, hposition⟩
    obtain ⟨entry, hentry, hid⟩ := (hwell.position_iff id position).mp hposition
    exact ⟨entry, Array.mem_of_getElem? hentry, hid⟩
  · rintro ⟨entry, hentry, hid⟩
    obtain ⟨position, hposition⟩ := Array.mem_iff_getElem?.mp hentry
    exact ⟨position, (hwell.position_iff id position).mpr ⟨entry, hposition, hid⟩⟩

theorem WellFormed.mem_equations_iff (hwell : inventory.WellFormed) (equation : Equation) :
    equation ∈ inventory.equations ↔ ∃ entry ∈ inventory.pool, entry.equation = equation := by
  rw [Std.HashMap.mem_iff_isSome_getElem?, Option.isSome_iff_exists]
  constructor
  · rintro ⟨id, hid⟩
    obtain ⟨entry, hentry, hequation, _⟩ := (hwell.equation_iff equation id).mp hid
    exact ⟨entry, hentry, hequation⟩
  · rintro ⟨entry, hentry, hequation⟩
    exact ⟨entry.id, (hwell.equation_iff equation entry.id).mpr ⟨entry, hentry, hequation, rfl⟩⟩

theorem WellFormed.mem_poolEquations_iff (hwell : inventory.WellFormed) (equation : Equation) :
    equation ∈ inventory.poolEquations ↔
      ∃ entry ∈ inventory.pool, entry.equation = equation := by
  rw [← hwell.mem_equations_iff]
  simp [poolEquations]

theorem WellFormed.find?_eq_some_iff (hwell : inventory.WellFormed) (id : Identifier)
    (entry : PoolEntry) :
    inventory.find? id = some entry ↔ entry ∈ inventory.pool ∧ entry.id = id := by
  simp only [find?, Option.bind_eq_bind, Option.bind_eq_some_iff]
  constructor
  · rintro ⟨position, hposition, hentry⟩
    obtain ⟨known, hknown, hid⟩ := (hwell.position_iff id position).mp hposition
    obtain rfl : known = entry := Option.some.inj (hknown.symm.trans hentry)
    exact ⟨Array.mem_of_getElem? hentry, hid⟩
  · rintro ⟨hentry, hid⟩
    obtain ⟨position, hposition⟩ := Array.mem_iff_getElem?.mp hentry
    exact ⟨position, (hwell.position_iff id position).mpr ⟨entry, hposition, hid⟩, hposition⟩

end Lookup

/-! ## Insertion into the pool -/

/-- The entries of a batch differ in identifier and equation from one another and from those of
the pool. -/
structure Admits (inventory : Inventory) (batch : List PoolEntry) : Prop where
  nodup_ids : (batch.map (·.id)).Nodup
  nodup_equations : (batch.map (·.equation)).Nodup
  new_id : ∀ entry ∈ batch, entry.id ∉ inventory.positions
  new_equation : ∀ entry ∈ batch, entry.equation ∉ inventory.equations

theorem admits_nil (inventory : Inventory) : inventory.Admits [] := by
  constructor <;> simp

theorem admits_cons_iff (inventory : Inventory) (entry : PoolEntry) (rest : List PoolEntry) :
    inventory.Admits (entry :: rest) ↔
      entry.id ∉ inventory.positions ∧ entry.equation ∉ inventory.equations ∧
        inventory.Admits rest ∧
        ∀ other ∈ rest, other.id ≠ entry.id ∧ other.equation ≠ entry.equation := by
  constructor
  · rintro ⟨hids, hequations, hid, hequation⟩
    simp only [List.map_cons, List.nodup_cons, List.mem_map, not_exists, not_and] at hids hequations
    refine ⟨hid entry (by simp), hequation entry (by simp),
      ⟨hids.2, hequations.2, fun other hother => hid other (by simp [hother]),
        fun other hother => hequation other (by simp [hother])⟩, ?_⟩
    intro other hother
    exact ⟨hids.1 other hother, hequations.1 other hother⟩
  · rintro ⟨hid, hequation, ⟨hids, hequations, hids', hequations'⟩, hother⟩
    constructor
    · simp only [List.map_cons, List.nodup_cons, List.mem_map, not_exists, not_and]
      exact ⟨fun other hmem => (hother other hmem).1, hids⟩
    · simp only [List.map_cons, List.nodup_cons, List.mem_map, not_exists, not_and]
      exact ⟨fun other hmem => (hother other hmem).2, hequations⟩
    · simpa [hid] using hids'
    · simpa [hequation] using hequations'

theorem conflict?_eq_none_iff (inventory : Inventory) (ids : Std.HashSet Identifier)
    (equations : Std.HashSet Equation) (batch : List PoolEntry) :
    inventory.conflict? ids equations batch = none ↔
      inventory.Admits batch ∧
        ∀ entry ∈ batch, entry.id ∉ ids ∧ entry.equation ∉ equations := by
  induction batch generalizing ids equations with
  | nil => simp [conflict?, admits_nil]
  | cons entry rest ih =>
      rw [conflict?, admits_cons_iff]
      by_cases hid : entry.id ∈ inventory.positions ∨ entry.id ∈ ids
      · simp only [Bool.or_eq_true, Std.HashMap.contains_iff_mem, Std.HashSet.contains_iff_mem,
          if_pos hid, reduceCtorEq, List.mem_cons, forall_eq_or_imp, false_iff]
        tauto
      by_cases hequation : entry.equation ∈ inventory.equations ∨ entry.equation ∈ equations
      · simp only [Bool.or_eq_true, Std.HashMap.contains_iff_mem, Std.HashSet.contains_iff_mem,
          if_neg hid, if_pos hequation, reduceCtorEq, List.mem_cons, forall_eq_or_imp, false_iff]
        tauto
      · simp only [Bool.or_eq_true, Std.HashMap.contains_iff_mem, Std.HashSet.contains_iff_mem,
          if_neg hid, if_neg hequation, ih, Std.HashSet.mem_insert, beq_iff_eq, List.mem_cons,
          forall_eq_or_imp]
        push Not at hid hequation
        simp only [hid, hequation, not_false_eq_true, true_and, not_or]
        constructor
        · rintro ⟨hrest, hfresh⟩
          refine ⟨⟨hrest, fun other hother => ?_⟩, fun other hother => ?_⟩
          · exact ⟨(hfresh other hother).1.1 ∘ Eq.symm, (hfresh other hother).2.1 ∘ Eq.symm⟩
          · exact ⟨(hfresh other hother).1.2, (hfresh other hother).2.2⟩
        · rintro ⟨⟨hrest, hdiffer⟩, hfresh⟩
          refine ⟨hrest, fun other hother => ?_⟩
          exact ⟨⟨(hdiffer other hother).1 ∘ Eq.symm, (hfresh other hother).1⟩,
            (hdiffer other hother).2 ∘ Eq.symm, (hfresh other hother).2⟩

theorem poolConflict?_eq_none_iff (inventory : Inventory) (batch : List PoolEntry) :
    inventory.poolConflict? batch = none ↔ inventory.Admits batch := by
  simp [poolConflict?, conflict?_eq_none_iff]

/-- The inventory has the identifier of the entry, or one of the entries before it has. -/
def RepeatsId (inventory : Inventory) (before : List PoolEntry) (entry : PoolEntry) : Prop :=
  entry.id ∈ inventory.positions ∨ ∃ other ∈ before, other.id = entry.id

/-- The inventory has the equation of the entry, or one of the entries before it has. -/
def RepeatsEquation (inventory : Inventory) (before : List PoolEntry) (entry : PoolEntry) : Prop :=
  entry.equation ∈ inventory.equations ∨ ∃ other ∈ before, other.equation = entry.equation

/-- The entry is the first of a batch that repeats anything, and is refused for its identifier, or
else for its equation.  Entries that were accepted stand before the batch. -/
structure FirstRefused (inventory : Inventory) (accepted before : List PoolEntry)
    (entry : PoolEntry) (cause : StoreError) : Prop where
  earlier :
    ∀ front other rest, before = front ++ other :: rest →
      ¬inventory.RepeatsId (accepted ++ front) other ∧
        ¬inventory.RepeatsEquation (accepted ++ front) other
  cause_cases :
    (cause = .duplicateIdentifier entry.id ∧ inventory.RepeatsId (accepted ++ before) entry) ∨
      cause = .duplicateEquation entry.equation ∧
        ¬inventory.RepeatsId (accepted ++ before) entry ∧
          inventory.RepeatsEquation (accepted ++ before) entry

theorem FirstRefused.cons {inventory : Inventory} {accepted before : List PoolEntry}
    {first entry : PoolEntry} {cause : StoreError}
    (hfirst : inventory.FirstRefused (accepted ++ [first]) before entry cause)
    (hid : ¬inventory.RepeatsId accepted first)
    (hequation : ¬inventory.RepeatsEquation accepted first) :
    inventory.FirstRefused accepted (first :: before) entry cause := by
  constructor
  · intro front other rest hsplit
    rcases List.cons_eq_append_iff.mp hsplit with ⟨rfl, hrest⟩ | ⟨front, rfl, hbefore⟩
    · obtain ⟨rfl, _⟩ := List.cons.inj hrest
      simpa using And.intro hid hequation
    · simpa using hfirst.earlier front other rest hbefore
  · simpa using hfirst.cause_cases

theorem conflict?_eq_some {inventory : Inventory} {ids : Std.HashSet Identifier}
    {equations : Std.HashSet Equation} {accepted batch : List PoolEntry} {cause : StoreError}
    (hids : ∀ id, id ∈ ids ↔ ∃ other ∈ accepted, other.id = id)
    (hequations : ∀ equation, equation ∈ equations ↔ ∃ other ∈ accepted, other.equation = equation)
    (hconflict : inventory.conflict? ids equations batch = some cause) :
    ∃ before entry after, batch = before ++ entry :: after ∧
      inventory.FirstRefused accepted before entry cause := by
  induction batch generalizing ids equations accepted with
  | nil => contradiction
  | cons first rest ih =>
      have hidIff : (inventory.positions.contains first.id || ids.contains first.id) = true ↔
          inventory.RepeatsId accepted first := by
        simp [RepeatsId, hids]
      have hequationIff :
          (inventory.equations.contains first.equation || equations.contains first.equation) =
            true ↔ inventory.RepeatsEquation accepted first := by
        simp [RepeatsEquation, hequations]
      rw [conflict?] at hconflict
      by_cases hid : inventory.RepeatsId accepted first
      · rw [if_pos (hidIff.mpr hid)] at hconflict
        obtain rfl := Option.some.inj hconflict
        exact ⟨[], first, rest, rfl, by simp, Or.inl ⟨rfl, by simpa using hid⟩⟩
      rw [if_neg (hidIff.not.mpr hid)] at hconflict
      by_cases hequation : inventory.RepeatsEquation accepted first
      · rw [if_pos (hequationIff.mpr hequation)] at hconflict
        obtain rfl := Option.some.inj hconflict
        exact ⟨[], first, rest, rfl, by simp,
          Or.inr ⟨rfl, by simpa using hid, by simpa using hequation⟩⟩
      rw [if_neg (hequationIff.not.mpr hequation)] at hconflict
      have hids' : ∀ id, id ∈ ids.insert first.id ↔
          ∃ other ∈ accepted ++ [first], other.id = id := by
        simp [hids, or_comm, or_and_right, exists_or]
      have hequations' : ∀ equation, equation ∈ equations.insert first.equation ↔
          ∃ other ∈ accepted ++ [first], other.equation = equation := by
        simp [hequations, or_comm, or_and_right, exists_or]
      obtain ⟨before, entry, after, rfl, hfirst⟩ := ih hids' hequations' hconflict
      exact ⟨first :: before, entry, after, rfl, hfirst.cons hid hequation⟩

/-- A batch is refused for the first of its entries that repeats anything. -/
theorem poolConflict?_eq_some_first {inventory : Inventory} {batch : List PoolEntry}
    {cause : StoreError} (hconflict : inventory.poolConflict? batch = some cause) :
    ∃ before entry after, batch = before ++ entry :: after ∧
      inventory.FirstRefused [] before entry cause :=
  conflict?_eq_some (by simp) (by simp) hconflict

theorem poolConflict?_eq_some {inventory : Inventory} {batch : List PoolEntry}
    {cause : StoreError} (hconflict : inventory.poolConflict? batch = some cause) :
    ∃ before entry after, batch = before ++ entry :: after ∧
      ((cause = .duplicateIdentifier entry.id ∧ inventory.RepeatsId before entry) ∨
        cause = .duplicateEquation entry.equation ∧ inventory.RepeatsEquation before entry) := by
  obtain ⟨before, entry, after, hbatch, hfirst⟩ := poolConflict?_eq_some_first hconflict
  exact ⟨before, entry, after, hbatch, hfirst.cause_cases.imp_right fun h => ⟨h.1, h.2.2⟩⟩

/-- Of entries with different identifiers only equations can be in conflict. -/
theorem poolConflict?_empty_eq_some {batch : List PoolEntry} {cause : StoreError}
    (hnodup : (batch.map (·.id)).Nodup) (hconflict : empty.poolConflict? batch = some cause) :
    ∃ entry ∈ batch, ∃ other ∈ batch, other.id ≠ entry.id ∧ other.equation = entry.equation ∧
      cause = .duplicateEquation entry.equation := by
  obtain ⟨before, entry, after, rfl, hcause⟩ := poolConflict?_eq_some hconflict
  rw [List.map_append, List.map_cons, List.nodup_middle, List.nodup_cons] at hnodup
  have hother : ∀ other ∈ before, other.id ≠ entry.id := by
    intro other hother hsame
    exact hnodup.1 (List.mem_append_left _ (hsame ▸ List.mem_map_of_mem hother))
  simp only [RepeatsId, RepeatsEquation, empty, Std.HashMap.not_mem_empty, false_or] at hcause
  rcases hcause with ⟨_, other, hmem, hsame⟩ | ⟨hcause, other, hmem, hsame⟩
  · exact absurd hsame (hother other hmem)
  · exact ⟨entry, by simp, other, by simp [hmem], hother other hmem, hsame, hcause⟩

theorem insertPool_eq_ok_iff (inventory next : Inventory) (batch : List PoolEntry) :
    inventory.insertPool batch = .ok next ↔
      inventory.Admits batch ∧ batch.foldl push inventory = next := by
  rw [insertPool, ← poolConflict?_eq_none_iff]
  cases inventory.poolConflict? batch <;> simp

theorem insertPool_eq_error_iff (inventory : Inventory) (batch : List PoolEntry)
    (cause : StoreError) :
    inventory.insertPool batch = .error cause ↔ inventory.poolConflict? batch = some cause := by
  rw [insertPool]
  cases inventory.poolConflict? batch <;> simp

@[simp] theorem pool_push (inventory : Inventory) (entry : PoolEntry) :
    (inventory.push entry).pool = inventory.pool.push entry := rfl

@[simp] theorem daily_push (inventory : Inventory) (entry : PoolEntry) :
    (inventory.push entry).daily = inventory.daily := rfl

theorem mem_positions_push (inventory : Inventory) (entry : PoolEntry) (id : Identifier) :
    id ∈ (inventory.push entry).positions ↔ entry.id = id ∨ id ∈ inventory.positions := by
  simp [push]

theorem mem_equations_push (inventory : Inventory) (entry : PoolEntry) (equation : Equation) :
    equation ∈ (inventory.push entry).equations ↔
      entry.equation = equation ∨ equation ∈ inventory.equations := by
  simp [push]

theorem Admits.push {inventory : Inventory} {entry : PoolEntry} {rest : List PoolEntry}
    (hadmits : inventory.Admits (entry :: rest)) : (inventory.push entry).Admits rest := by
  obtain ⟨_, _, hrest, hdiffer⟩ := (admits_cons_iff inventory entry rest).mp hadmits
  refine ⟨hrest.nodup_ids, hrest.nodup_equations, fun other hother => ?_, fun other hother => ?_⟩
  · rw [mem_positions_push, not_or]
    exact ⟨(hdiffer other hother).1.symm, hrest.new_id other hother⟩
  · rw [mem_equations_push, not_or]
    exact ⟨(hdiffer other hother).2.symm, hrest.new_equation other hother⟩

theorem WellFormed.push {inventory : Inventory} (hwell : inventory.WellFormed)
    {entry : PoolEntry} (hid : entry.id ∉ inventory.positions)
    (hequation : entry.equation ∉ inventory.equations) : (inventory.push entry).WellFormed := by
  have hids : ∀ known ∈ inventory.pool, known.id ≠ entry.id := fun known hknown hsame =>
    hid ((hwell.mem_positions_iff entry.id).mpr ⟨known, hknown, hsame⟩)
  have hequations : ∀ known ∈ inventory.pool, known.equation ≠ entry.equation :=
    fun known hknown hsame =>
      hequation ((hwell.mem_equations_iff entry.equation).mpr ⟨known, hknown, hsame⟩)
  constructor
  · intro id position
    simp only [Inventory.push, Std.HashMap.getElem?_insert, beq_iff_eq, Array.getElem?_push]
    by_cases hsame : entry.id = id
    · subst hsame
      by_cases hlast : position = inventory.pool.size
      · simp [hlast]
      · simp only [if_true, if_neg hlast]
        constructor
        · intro h
          exact absurd (Option.some.inj h).symm hlast
        · rintro ⟨known, hknown, hsame⟩
          exact absurd hsame (hids known (Array.mem_of_getElem? hknown))
    · rw [if_neg hsame, hwell.position_iff]
      by_cases hlast : position = inventory.pool.size
      · simp [hlast, hsame]
      · simp [hlast]
  · intro equation id
    simp only [Inventory.push, Std.HashMap.getElem?_insert, beq_iff_eq, Array.mem_push]
    by_cases hsame : entry.equation = equation
    · subst hsame
      simp only [if_true, Option.some.injEq]
      constructor
      · rintro rfl
        exact ⟨entry, Or.inr rfl, rfl, rfl⟩
      · rintro ⟨known, hknown | rfl, hsame, hknownId⟩
        · exact absurd hsame (hequations known hknown)
        · exact hknownId
    · rw [if_neg hsame, hwell.equation_iff]
      constructor
      · rintro ⟨known, hknown, h⟩
        exact ⟨known, Or.inl hknown, h⟩
      · rintro ⟨known, hknown | rfl, h⟩
        · exact ⟨known, hknown, h⟩
        · exact absurd h.1 hsame
  · intro position
    have hbound : inventory.pool.size ∉ inventory.unused := by
      rw [hwell.unused_iff]
      simp
    simp only [Inventory.push, Array.getElem?_push]
    by_cases hlast : position = inventory.pool.size
    · subst hlast
      cases hused : entry.used <;> simp [hbound, hused]
    · cases hused : entry.used <;>
        simp [hlast, hwell.unused_iff, Ne.symm hlast]
  · exact hwell.daily_date

theorem WellFormed.pushAll {inventory : Inventory} (hwell : inventory.WellFormed)
    {batch : List PoolEntry} (hadmits : inventory.Admits batch) :
    (batch.foldl Inventory.push inventory).WellFormed := by
  induction batch generalizing inventory with
  | nil => exact hwell
  | cons entry rest ih =>
      obtain ⟨hid, hequation, _⟩ := (admits_cons_iff inventory entry rest).mp hadmits
      exact ih (hwell.push hid hequation) hadmits.push

@[simp] theorem pool_pushAll (inventory : Inventory) (batch : List PoolEntry) :
    (batch.foldl push inventory).pool.toList = inventory.pool.toList ++ batch := by
  induction batch generalizing inventory with
  | nil => simp
  | cons entry rest ih => simp [ih]

@[simp] theorem daily_pushAll (inventory : Inventory) (batch : List PoolEntry) :
    (batch.foldl push inventory).daily = inventory.daily := by
  induction batch generalizing inventory with
  | nil => rfl
  | cons entry rest ih => simp [ih]

/-! ## Claims -/

/-- The inventory after a claim of the entry at a position. -/
def markAt (inventory : Inventory) (position : Nat) (entry : PoolEntry) : Inventory :=
  { inventory with
    pool := inventory.pool.setIfInBounds position entry.claimed
    unused := inventory.unused.erase position }

theorem toList_pool_markAt (inventory : Inventory) (position : Nat) (entry : PoolEntry) :
    (inventory.markAt position entry).pool.toList =
      inventory.pool.toList.set position entry.claimed :=
  Array.toList_setIfInBounds ..

section Claim

variable {inventory : Inventory}

theorem WellFormed.claim?_of_unused (hwell : inventory.WellFormed) {position : Nat}
    {entry : PoolEntry} (hentry : inventory.pool[position]? = some entry)
    (hused : entry.used = false) :
    inventory.claim? entry.id = some (entry.claimed, inventory.markAt position entry) := by
  have hposition := (hwell.position_iff entry.id position).mpr ⟨entry, hentry, rfl⟩
  have hunused : position ∈ inventory.unused :=
    (hwell.unused_iff position).mpr ⟨entry, hentry, hused⟩
  simp [claim?, hposition, hunused, hentry, markAt, PoolEntry.claimed]

theorem WellFormed.claim?_eq_none_iff (hwell : inventory.WellFormed) (id : Identifier) :
    inventory.claim? id = none ↔ ∀ entry ∈ inventory.pool, entry.id = id → entry.used := by
  constructor
  · intro hnone entry hentry hid
    obtain ⟨position, hposition⟩ := Array.mem_iff_getElem?.mp hentry
    by_contra hused
    rw [← hid, hwell.claim?_of_unused hposition (by simpa using hused)] at hnone
    contradiction
  · intro hall
    cases hposition : inventory.positions[id]? with
    | none => simp [claim?, hposition]
    | some position =>
        obtain ⟨entry, hentry, hid⟩ := (hwell.position_iff id position).mp hposition
        have hused := hall entry (Array.mem_of_getElem? hentry) hid
        have hnot : position ∉ inventory.unused := by
          rw [hwell.unused_iff]
          simp [hentry, hused]
        simp [claim?, hposition, hnot]

/-- A claim succeeds just for the unused entry with the identifier, and marks that entry. -/
theorem WellFormed.claim?_eq_some_iff (hwell : inventory.WellFormed) (id : Identifier)
    (claimed : PoolEntry) (next : Inventory) :
    inventory.claim? id = some (claimed, next) ↔
      ∃ position entry, inventory.pool[position]? = some entry ∧ entry.id = id ∧
        entry.used = false ∧ claimed = entry.claimed ∧
        next = inventory.markAt position entry := by
  constructor
  · intro hclaim
    have hsome : ¬inventory.claim? id = none := by simp [hclaim]
    rw [hwell.claim?_eq_none_iff] at hsome
    push Not at hsome
    obtain ⟨entry, hentry, hid, hused⟩ := hsome
    obtain ⟨position, hposition⟩ := Array.mem_iff_getElem?.mp hentry
    have hunused : entry.used = false := by simpa using hused
    rw [← hid, hwell.claim?_of_unused hposition hunused, Option.some.injEq,
      Prod.mk.injEq] at hclaim
    obtain ⟨rfl, rfl⟩ := hclaim
    exact ⟨position, entry, hposition, hid, hunused, rfl, rfl⟩
  · rintro ⟨position, entry, hentry, rfl, hused, rfl, rfl⟩
    exact hwell.claim?_of_unused hentry hused

/-- What a claim would yield is what it yields. -/
theorem WellFormed.claimable?_eq (hwell : inventory.WellFormed) (id : Identifier) :
    inventory.claimable? id = (inventory.claim? id).map Prod.fst := by
  cases hclaim : inventory.claim? id with
  | none =>
      have hall := (hwell.claim?_eq_none_iff id).mp hclaim
      cases hfind : inventory.find? id with
      | none => simp [claimable?, hfind]
      | some entry =>
          obtain ⟨hentry, hid⟩ := (hwell.find?_eq_some_iff id entry).mp hfind
          simp [claimable?, hfind, hall entry hentry hid]
  | some result =>
      obtain ⟨position, entry, hentry, hid, hused, hclaimed, _⟩ :=
        (hwell.claim?_eq_some_iff id result.1 result.2).mp hclaim
      have hfind := (hwell.find?_eq_some_iff id entry).mpr ⟨Array.mem_of_getElem? hentry, hid⟩
      simp [claimable?, hfind, hused, hclaimed, PoolEntry.claimed]

theorem getElem?_pool_markAt {position : Nat} {entry : PoolEntry}
    (hentry : inventory.pool[position]? = some entry) (other : Nat) :
    (inventory.markAt position entry).pool[other]? =
      if other = position then some entry.claimed else inventory.pool[other]? := by
  obtain ⟨hbound, _⟩ := Array.getElem?_eq_some_iff.mp hentry
  simp only [Inventory.markAt, Array.getElem?_setIfInBounds]
  by_cases hsame : position = other
  · simp [← hsame, hbound]
  · simp [hsame, Ne.symm hsame]

theorem map_getElem?_pool_markAt {α : Type} {position : Nat} {entry : PoolEntry}
    (hentry : inventory.pool[position]? = some entry) (key : PoolEntry → α)
    (hkey : key entry.claimed = key entry) (other : Nat) :
    ((inventory.markAt position entry).pool[other]?).map key =
      (inventory.pool[other]?).map key := by
  rw [getElem?_pool_markAt hentry]
  by_cases hsame : other = position
  · simp [hsame, hentry, hkey]
  · rw [if_neg hsame]

theorem WellFormed.markAt (hwell : inventory.WellFormed) {position : Nat} {entry : PoolEntry}
    (hentry : inventory.pool[position]? = some entry) :
    (inventory.markAt position entry).WellFormed := by
  constructor
  · intro id other
    have hids := map_getElem?_pool_markAt hentry (·.id) rfl other
    rw [← Option.map_eq_some_iff (f := fun known : PoolEntry => known.id), hids,
      Option.map_eq_some_iff]
    exact hwell.position_iff id other
  · intro equation id
    have hkeys := map_getElem?_pool_markAt hentry (fun known => (known.equation, known.id)) rfl
    have hmem : ∀ pool : Array PoolEntry,
        (∃ known ∈ pool, known.equation = equation ∧ known.id = id) ↔
          ∃ other : Nat, (pool[other]?).map (fun known => (known.equation, known.id)) =
            some (equation, id) := by
      intro pool
      simp only [Array.mem_iff_getElem?, Option.map_eq_some_iff, Prod.mk.injEq]
      grind
    rw [hmem, show (inventory.markAt position entry).equations = inventory.equations from rfl,
      hwell.equation_iff, hmem]
    simp only [hkeys]
  · intro other
    rw [getElem?_pool_markAt hentry,
      show (inventory.markAt position entry).unused = inventory.unused.erase position from rfl,
      Std.TreeSet.mem_erase, hwell.unused_iff]
    by_cases hsame : other = position
    · simp [hsame, PoolEntry.claimed]
    · simp [hsame, Ne.symm hsame]
  · exact hwell.daily_date

end Claim

/-! ## Daily equations -/

def withDaily (inventory : Inventory) (daily : DailyEquation) : Inventory :=
  { inventory with daily := inventory.daily.insert daily.date daily }

@[simp] theorem pool_withDaily (inventory : Inventory) (daily : DailyEquation) :
    (inventory.withDaily daily).pool = inventory.pool := rfl

@[simp] theorem findDaily?_empty (date : Day) : Inventory.empty.findDaily? date = none := by
  simp [findDaily?, empty]

@[simp] theorem findDaily?_push (inventory : Inventory) (entry : PoolEntry) (date : Day) :
    (inventory.push entry).findDaily? date = inventory.findDaily? date := rfl

@[simp] theorem findDaily?_pushAll (inventory : Inventory) (batch : List PoolEntry) (date : Day) :
    (batch.foldl push inventory).findDaily? date = inventory.findDaily? date := by
  rw [findDaily?, daily_pushAll, findDaily?]

theorem findDaily?_withDaily (inventory : Inventory) (daily : DailyEquation) (date : Day) :
    (inventory.withDaily daily).findDaily? date =
      if daily.date = date then some daily else inventory.findDaily? date := by
  simp [withDaily, findDaily?, Std.HashMap.getElem?_insert]

theorem findDaily?_eq_none_iff (inventory : Inventory) (date : Day) :
    inventory.findDaily? date = none ↔ date ∉ inventory.daily := by
  simp [findDaily?]

theorem insertDaily_eq_ok_iff (inventory next : Inventory) (daily : DailyEquation) :
    inventory.insertDaily daily = .ok next ↔
      inventory.findDaily? daily.date = none ∧ inventory.withDaily daily = next := by
  rw [findDaily?_eq_none_iff]
  by_cases hknown : daily.date ∈ inventory.daily <;>
    simp [insertDaily, dailyConflict?, hknown, withDaily]

theorem WellFormed.withDaily {inventory : Inventory} (hwell : inventory.WellFormed)
    (daily : DailyEquation) : (inventory.withDaily daily).WellFormed := by
  refine ⟨hwell.position_iff, hwell.equation_iff, hwell.unused_iff, fun date other hother => ?_⟩
  rw [show (inventory.withDaily daily).daily[date]? = _ from findDaily?_withDaily _ _ _] at hother
  by_cases hsame : daily.date = date
  · rw [if_pos hsame, Option.some.injEq] at hother
    exact hother ▸ hsame
  · rw [if_neg hsame] at hother
    exact hwell.daily_date date other hother

/-! ## Counts and the first unused entry -/

private theorem countP_range {α : Type} (p : α → Bool) (l : List α) :
    (List.range l.length).countP (fun i => (l[i]?).any p) = l.countP p := by
  induction l with
  | nil => rfl
  | cons a l ih =>
      rw [List.length_cons, List.range_succ_eq_map, List.countP_cons, List.countP_map,
        List.countP_cons]
      simp only [Function.comp_def, List.getElem?_cons_succ, ih, List.getElem?_cons_zero,
        Option.any_some]

theorem WellFormed.size_unused {inventory : Inventory} (hwell : inventory.WellFormed) :
    inventory.unused.size = inventory.pool.toList.countP (!·.used) := by
  have hnodup : inventory.unused.toList.Nodup := by
    refine inventory.unused.distinct_toList.imp ?_
    intro a b hdistinct heq
    exact hdistinct (by simp [heq])
  have hperm : inventory.unused.toList.Perm
      ((List.range inventory.pool.toList.length).filter
        fun i => (inventory.pool.toList[i]?).any (!·.used)) := by
    rw [List.perm_ext_iff_of_nodup hnodup (List.nodup_range.filter _)]
    intro position
    rw [Std.TreeSet.mem_toList, hwell.unused_iff]
    simp only [List.mem_filter, List.mem_range, Array.length_toList, Array.getElem?_toList,
      Option.any_eq_true, Bool.not_eq_eq_eq_not, Bool.not_true]
    constructor
    · rintro ⟨entry, hentry, hused⟩
      obtain ⟨hbound, _⟩ := Array.getElem?_eq_some_iff.mp hentry
      exact ⟨hbound, entry, hentry, hused⟩
    · rintro ⟨_, entry, hentry, hused⟩
      exact ⟨entry, hentry, hused⟩
  rw [← Std.TreeSet.length_toList, hperm.length_eq, ← List.countP_eq_length_filter, countP_range]

theorem WellFormed.size_unused_le {inventory : Inventory} (hwell : inventory.WellFormed) :
    inventory.unused.size ≤ inventory.pool.size := by
  rw [hwell.size_unused, ← Array.length_toList]
  exact List.countP_le_length

theorem WellFormed.usedCount_eq {inventory : Inventory} (hwell : inventory.WellFormed) :
    inventory.usedCount = inventory.pool.toList.countP (·.used) := by
  have hsplit := List.length_eq_countP_add_countP (fun entry : PoolEntry => entry.used)
    (l := inventory.pool.toList)
  rw [usedCount, hwell.size_unused, ← Array.length_toList, hsplit]
  simp

theorem WellFormed.firstUnused?_eq {inventory : Inventory} (hwell : inventory.WellFormed) :
    inventory.firstUnused? = inventory.pool.toList.find? (!·.used) := by
  cases hmin : inventory.unused.min? with
  | none =>
      have hempty := Std.TreeSet.min?_eq_none_iff.mp hmin
      have hused : ∀ entry ∈ inventory.pool.toList, ¬(!entry.used) = true := by
        intro entry hentry
        obtain ⟨position, hposition⟩ := Array.mem_iff_getElem?.mp (Array.mem_toList_iff.mp hentry)
        have hnot : position ∉ inventory.unused := Std.TreeSet.not_mem_of_isEmpty hempty
        rw [hwell.unused_iff] at hnot
        push Not at hnot
        simpa using hnot entry hposition
      rw [List.find?_eq_none.mpr hused]
      simp [firstUnused?, hmin]
  | some position =>
      obtain ⟨hmem, hleast⟩ := Std.TreeSet.min?_eq_some_iff_mem_and_forall.mp hmin
      obtain ⟨entry, hentry, hused⟩ := (hwell.unused_iff position).mp hmem
      obtain ⟨hbound, hget⟩ := Array.getElem?_eq_some_iff.mp hentry
      have hfirst : inventory.firstUnused? = some entry := by
        simp [firstUnused?, hmin, hentry]
      rw [hfirst, eq_comm, List.find?_eq_some_iff_getElem]
      refine ⟨by simp [hused], position, by simpa using hbound, by simpa using hget, ?_⟩
      intro earlier hearlier
      have hnot : earlier ∉ inventory.unused := by
        intro hmemEarlier
        have hle := hleast earlier hmemEarlier
        rw [Nat.isLE_compare] at hle
        omega
      rw [hwell.unused_iff] at hnot
      push Not at hnot
      have hbefore : earlier < inventory.pool.size := Nat.lt_trans hearlier hbound
      simpa using hnot inventory.pool[earlier] (by simp [hbefore])

theorem WellFormed.exists_of_firstUnused? {inventory : Inventory} (hwell : inventory.WellFormed)
    {entry : PoolEntry} (hfirst : inventory.firstUnused? = some entry) :
    ∃ position : Nat, inventory.pool[position]? = some entry ∧ entry.used = false := by
  rw [hwell.firstUnused?_eq] at hfirst
  have hunused : entry.used = false := by simpa using List.find?_some hfirst
  have hmem := Array.mem_toList_iff.mp (List.mem_of_find?_eq_some hfirst)
  obtain ⟨position, hposition⟩ := Array.mem_iff_getElem?.mp hmem
  exact ⟨position, hposition, hunused⟩

theorem WellFormed.firstUnused?_eq_none_iff {inventory : Inventory}
    (hwell : inventory.WellFormed) :
    inventory.firstUnused? = none ↔ ∀ known ∈ inventory.pool, known.used := by
  rw [hwell.firstUnused?_eq, List.find?_eq_none]
  simp

/-! ## Every sequence of updates -/

/-- What may be asked of an inventory to change it. -/
inductive Update where
  | insertPool (batch : List PoolEntry)
  | claim (id : Identifier)
  | insertDaily (daily : DailyEquation)

/-- The inventory after an update was asked for.  A refused update leaves it as it was. -/
def update (inventory : Inventory) : Update → Inventory
  | .insertPool batch => (inventory.insertPool batch).toOption.getD inventory
  | .claim id => ((inventory.claim? id).map Prod.snd).getD inventory
  | .insertDaily daily => (inventory.insertDaily daily).toOption.getD inventory

def updates (inventory : Inventory) (sequence : List Update) : Inventory :=
  sequence.foldl update inventory

/-- All that an update can do. -/
inductive Changes (inventory : Inventory) : Update → Inventory → Prop
  | refused (asked : Update) : Changes inventory asked inventory
  | inserted {batch : List PoolEntry} (hadmits : inventory.Admits batch) :
      Changes inventory (.insertPool batch) (batch.foldl push inventory)
  | claimed {position : Nat} {entry : PoolEntry}
      (hentry : inventory.pool[position]? = some entry) (hunused : entry.used = false) :
      Changes inventory (.claim entry.id) (inventory.markAt position entry)
  | assigned {daily : DailyEquation} (hfree : inventory.findDaily? daily.date = none) :
      Changes inventory (.insertDaily daily) (inventory.withDaily daily)

theorem WellFormed.changes {inventory : Inventory} (hwell : inventory.WellFormed)
    (asked : Update) : inventory.Changes asked (inventory.update asked) := by
  cases asked with
  | insertPool batch =>
      cases hresult : inventory.insertPool batch with
      | error cause => simpa [Inventory.update, hresult, Except.toOption] using Changes.refused _
      | ok next =>
          obtain ⟨hadmits, rfl⟩ := (insertPool_eq_ok_iff inventory next batch).mp hresult
          simpa [Inventory.update, hresult, Except.toOption] using Changes.inserted hadmits
  | claim id =>
      cases hresult : inventory.claim? id with
      | none => simpa [Inventory.update, hresult] using Changes.refused _
      | some result =>
          obtain ⟨position, entry, hentry, rfl, hunused, _, hnext⟩ :=
            (hwell.claim?_eq_some_iff id result.1 result.2).mp hresult
          simpa [Inventory.update, hresult, hnext] using Changes.claimed hentry hunused
  | insertDaily daily =>
      cases hresult : inventory.insertDaily daily with
      | error cause => simpa [Inventory.update, hresult, Except.toOption] using Changes.refused _
      | ok next =>
          obtain ⟨hfree, rfl⟩ := (insertDaily_eq_ok_iff inventory next daily).mp hresult
          simpa [Inventory.update, hresult, Except.toOption] using Changes.assigned hfree

theorem Changes.wellFormed {inventory next : Inventory} {asked : Update}
    (hchanges : inventory.Changes asked next) (hwell : inventory.WellFormed) :
    next.WellFormed := by
  cases hchanges with
  | refused => exact hwell
  | inserted hadmits => exact hwell.pushAll hadmits
  | claimed hentry hunused => exact hwell.markAt hentry
  | assigned hfree => exact hwell.withDaily _

theorem WellFormed.update {inventory : Inventory} (hwell : inventory.WellFormed)
    (asked : Update) : (inventory.update asked).WellFormed :=
  (hwell.changes asked).wellFormed hwell

theorem WellFormed.updates {inventory : Inventory} (hwell : inventory.WellFormed)
    (sequence : List Update) : (inventory.updates sequence).WellFormed := by
  induction sequence generalizing inventory with
  | nil => exact hwell
  | cons asked rest ih => exact ih (hwell.update asked)

/-- Whatever is asked of an inventory that starts empty, its indexes describe its pool, its counts
count the entries, and the unused entry it finds is the one that was inserted first. -/
theorem updates_empty_consistent (sequence : List Update) :
    let inventory := empty.updates sequence
    inventory.WellFormed ∧
      (inventory.pool.toList.map (·.id)).Nodup ∧
      (inventory.pool.toList.map (·.equation)).Nodup ∧
      inventory.unused.size ≤ inventory.pool.size ∧
      inventory.usedCount = inventory.pool.toList.countP (·.used) ∧
      (∀ equation, equation ∈ inventory.poolEquations ↔
        ∃ entry ∈ inventory.pool, entry.equation = equation) ∧
      inventory.firstUnused? = inventory.pool.toList.find? (!·.used) := by
  intro inventory
  have hwell : inventory.WellFormed := wellFormed_empty.updates sequence
  exact ⟨hwell, hwell.nodup_ids, hwell.nodup_equations, hwell.size_unused_le,
    hwell.usedCount_eq, hwell.mem_poolEquations_iff, hwell.firstUnused?_eq⟩

end Inventory

end EquationPuzzle
