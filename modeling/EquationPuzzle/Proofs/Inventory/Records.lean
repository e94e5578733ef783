import EquationPuzzle.Proofs.Inventory.Representation

/-!
# Inventories with the same records

An inventory can be made again from its records, whatever order they come in: no two of them are in
conflict, and what is made has the same records and the same counts.  Only the order of the pool,
and with it the choice of the next unused entry, may differ.
-/

namespace EquationPuzzle

namespace Inventory

/-- The same entries are in the pool, and the days have the same equations. -/
structure SameRecords (inventory other : Inventory) : Prop where
  pool_perm : other.pool.toList.Perm inventory.pool.toList
  findDaily?_eq : ∀ date, other.findDaily? date = inventory.findDaily? date

namespace SameRecords

variable {inventory other : Inventory} (hsame : inventory.SameRecords other)

include hsame

theorem mem_pool_iff (entry : PoolEntry) : entry ∈ other.pool ↔ entry ∈ inventory.pool := by
  rw [← Array.mem_toList_iff, ← Array.mem_toList_iff]
  exact hsame.pool_perm.mem_iff

theorem poolCount_eq : other.poolCount = inventory.poolCount := by
  have hlength := hsame.pool_perm.length_eq
  simpa [poolCount] using hlength

theorem usedCount_eq (hwell : inventory.WellFormed) (hother : other.WellFormed) :
    other.usedCount = inventory.usedCount := by
  rw [hwell.usedCount_eq, hother.usedCount_eq, hsame.pool_perm.countP_eq]

theorem dailyCount_eq : other.dailyCount = inventory.dailyCount :=
  (Std.HashMap.Equiv.of_forall_getElem?_eq hsame.findDaily?_eq).size_eq

end SameRecords

/-! ## Making an inventory again -/

def dailies (inventory : Inventory) : List DailyEquation :=
  inventory.daily.toList.map Prod.snd

section WellFormed

variable {inventory : Inventory} (hwell : inventory.WellFormed)

include hwell

theorem WellFormed.mem_dailies_iff (daily : DailyEquation) :
    daily ∈ inventory.dailies ↔ inventory.findDaily? daily.date = some daily := by
  simp only [dailies, List.mem_map, Prod.exists, exists_eq_right,
    Std.HashMap.mem_toList_iff_getElem?_eq_some]
  constructor
  · rintro ⟨date, hdate⟩
    rw [hwell.daily_date date daily hdate]
    exact hdate
  · exact fun hdaily => ⟨daily.date, hdaily⟩

theorem WellFormed.nodup_dates : (inventory.dailies.map (·.date)).Nodup := by
  rw [dailies, List.map_map, List.Nodup, List.pairwise_map]
  refine inventory.daily.distinct_keys_toList.imp_of_mem fun {a b} ha hb hdistinct => ?_
  have hfirst := hwell.daily_date _ _ (Std.HashMap.mem_toList_iff_getElem?_eq_some.mp ha)
  have hsecond := hwell.daily_date _ _ (Std.HashMap.mem_toList_iff_getElem?_eq_some.mp hb)
  simpa [hfirst, hsecond] using hdistinct

end WellFormed

theorem pool_withDailies (inventory : Inventory) (dailies : List DailyEquation) :
    (dailies.foldl withDaily inventory).pool = inventory.pool := by
  induction dailies generalizing inventory with
  | nil => rfl
  | cons daily rest ih => rw [List.foldl_cons, ih, pool_withDaily]

theorem WellFormed.withDailies {inventory : Inventory} (hwell : inventory.WellFormed)
    (dailies : List DailyEquation) : (dailies.foldl Inventory.withDaily inventory).WellFormed := by
  induction dailies generalizing inventory with
  | nil => exact hwell
  | cons daily rest ih => exact ih (hwell.withDaily daily)

/-- Daily equations that an inventory accepts one after the other: they are for distinct days that
have none. -/
structure AdmitsDaily (inventory : Inventory) (dailies : List DailyEquation) : Prop where
  nodup_dates : (dailies.map (·.date)).Nodup
  new_date : ∀ daily ∈ dailies, inventory.findDaily? daily.date = none

theorem AdmitsDaily.cons {inventory : Inventory} {first : DailyEquation}
    {rest : List DailyEquation} (hadmits : inventory.AdmitsDaily (first :: rest)) :
    inventory.findDaily? first.date = none ∧ (inventory.withDaily first).AdmitsDaily rest := by
  obtain ⟨hnodup, hnew⟩ := hadmits
  rw [List.map_cons, List.nodup_cons] at hnodup
  rw [List.forall_mem_cons] at hnew
  refine ⟨hnew.1, hnodup.2, fun daily hdaily => ?_⟩
  have hne : first.date ≠ daily.date := by
    intro hdate
    exact hnodup.1 (List.mem_map.mpr ⟨daily, hdaily, hdate.symm⟩)
  rw [findDaily?_withDaily, if_neg hne]
  exact hnew.2 daily hdaily

/-- Daily equations of distinct new days are on record afterwards, and nothing else is. -/
theorem AdmitsDaily.findDaily?_eq_some_iff {inventory : Inventory} {dailies : List DailyEquation}
    (hadmits : inventory.AdmitsDaily dailies) (date : Day) (daily : DailyEquation) :
    (dailies.foldl Inventory.withDaily inventory).findDaily? date = some daily ↔
      (daily ∈ dailies ∧ daily.date = date) ∨ inventory.findDaily? date = some daily := by
  induction dailies generalizing inventory with
  | nil => simp
  | cons first rest ih =>
      obtain ⟨hfirst, hrest⟩ := hadmits.cons
      rw [List.foldl_cons, ih hrest, findDaily?_withDaily, List.mem_cons]
      by_cases hdate : first.date = date
      · have hnone : inventory.findDaily? date = none := hdate ▸ hfirst
        rw [if_pos hdate, hnone]
        constructor
        · rintro (⟨hdaily, hsame⟩ | hknown)
          · exact Or.inl ⟨Or.inr hdaily, hsame⟩
          · obtain rfl := Option.some.inj hknown
            exact Or.inl ⟨Or.inl rfl, hdate⟩
        · rintro (⟨rfl | hdaily, hsame⟩ | hfalse)
          · exact Or.inr rfl
          · exact Or.inl ⟨hdaily, hsame⟩
          · contradiction
      · rw [if_neg hdate]
        constructor
        · rintro (⟨hdaily, hsame⟩ | hknown)
          · exact Or.inl ⟨Or.inr hdaily, hsame⟩
          · exact Or.inr hknown
        · rintro (⟨rfl | hdaily, hsame⟩ | hknown)
          · contradiction
          · exact Or.inl ⟨hdaily, hsame⟩
          · exact Or.inr hknown

def ofRecords (entries : List PoolEntry) (dailies : List DailyEquation) : Inventory :=
  dailies.foldl withDaily (entries.foldl push empty)

theorem WellFormed.admitsDaily_perm {inventory : Inventory} (hwell : inventory.WellFormed)
    (entries : List PoolEntry) {dailies : List DailyEquation}
    (hdailies : dailies.Perm inventory.dailies) :
    (entries.foldl Inventory.push empty).AdmitsDaily dailies where
  nodup_dates := (hdailies.map (·.date)).nodup_iff.mpr hwell.nodup_dates
  new_date := by simp

section OfRecords

variable {inventory : Inventory} (hwell : inventory.WellFormed) {entries : List PoolEntry}
  (hentries : entries.Perm inventory.pool.toList)

include hwell hentries

theorem WellFormed.admits_perm : empty.Admits entries where
  nodup_ids := (hentries.map _).nodup_iff.mpr hwell.nodup_ids
  nodup_equations := (hentries.map _).nodup_iff.mpr hwell.nodup_equations
  new_id := by simp [empty]
  new_equation := by simp [empty]

theorem WellFormed.ofRecords (dailies : List DailyEquation) :
    (Inventory.ofRecords entries dailies).WellFormed :=
  (wellFormed_empty.pushAll (hwell.admits_perm hentries)).withDailies dailies

/-- What is made of the records of an inventory has the same records. -/
theorem WellFormed.sameRecords {dailies : List DailyEquation}
    (hdailies : dailies.Perm inventory.dailies) :
    inventory.SameRecords (Inventory.ofRecords entries dailies) := by
  have hadmits := hwell.admitsDaily_perm entries hdailies
  constructor
  · rw [Inventory.ofRecords, pool_withDailies, pool_pushAll]
    simpa [empty] using hentries
  · intro date
    have hempty : (entries.foldl Inventory.push empty).findDaily? date = none := by
      simp [findDaily?, empty]
    apply Option.ext
    intro daily
    rw [Inventory.ofRecords, hadmits.findDaily?_eq_some_iff, hempty, hdailies.mem_iff,
      hwell.mem_dailies_iff]
    constructor
    · rintro (⟨hdaily, rfl⟩ | hfalse)
      · exact hdaily
      · contradiction
    · intro hdaily
      have hdate := hwell.daily_date date daily hdaily
      exact Or.inl ⟨hdate.symm ▸ hdaily, hdate⟩

end OfRecords

end Inventory

end EquationPuzzle
