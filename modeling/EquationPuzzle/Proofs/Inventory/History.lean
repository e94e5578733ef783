import EquationPuzzle.Proofs.Inventory.Representation

/-!
# The history of an inventory

An inventory only grows.  Its pool is appended to, the one thing that ever changes about an entry is
that it becomes used, and a daily equation stays as it was inserted.  One update is shown to do no
more than that, whether it succeeds or not, and the rest follows along any sequence: an entry that
has become used is not claimed again, so no identifier is ever granted twice.
-/

namespace EquationPuzzle

/-- An entry is the same later, except that it may have become used. -/
structure PoolEntry.Becomes (earlier later : PoolEntry) : Prop where
  same : later = { earlier with used := later.used }
  used : earlier.used → later.used

namespace PoolEntry

theorem Becomes.refl (entry : PoolEntry) : entry.Becomes entry := ⟨rfl, fun hused => hused⟩

theorem Becomes.trans {a b c : PoolEntry} (hab : a.Becomes b) (hbc : b.Becomes c) :
    a.Becomes c := by
  constructor
  · rw [hbc.same, hab.same]
  · intro hused
    exact hbc.used (hab.used hused)

theorem Becomes.id_eq {earlier later : PoolEntry} (hbecomes : earlier.Becomes later) :
    later.id = earlier.id := by
  rw [hbecomes.same]

theorem becomes_claimed (entry : PoolEntry) : entry.Becomes entry.claimed := ⟨rfl, fun _ => rfl⟩

end PoolEntry

namespace Inventory

/-- What an inventory had, it still has: each entry in its position, each daily equation on its
day. -/
structure Grows (earlier later : Inventory) : Prop where
  pool :
    ∀ (position : Nat) (entry : PoolEntry), earlier.pool[position]? = some entry →
      ∃ kept, later.pool[position]? = some kept ∧ entry.Becomes kept
  daily :
    ∀ (date : Day) (daily : DailyEquation), earlier.findDaily? date = some daily →
      later.findDaily? date = some daily

theorem Grows.refl (inventory : Inventory) : inventory.Grows inventory := by
  constructor
  · intro position entry hentry
    exact ⟨entry, hentry, .refl entry⟩
  · intro date daily hdaily
    exact hdaily

theorem Grows.trans {a b c : Inventory} (hab : a.Grows b) (hbc : b.Grows c) : a.Grows c := by
  constructor
  · intro position entry hentry
    obtain ⟨kept, hkept, hbecomes⟩ := hab.pool position entry hentry
    obtain ⟨last, hlast, hbecomes'⟩ := hbc.pool position kept hkept
    exact ⟨last, hlast, hbecomes.trans hbecomes'⟩
  · intro date daily hdaily
    exact hbc.daily date daily (hab.daily date daily hdaily)

theorem getElem?_pool_pushAll {inventory : Inventory} {position : Nat} {entry : PoolEntry}
    (hentry : inventory.pool[position]? = some entry) (batch : List PoolEntry) :
    (batch.foldl push inventory).pool[position]? = some entry := by
  rw [← Array.getElem?_toList] at hentry ⊢
  rw [pool_pushAll]
  obtain ⟨hbound, _⟩ := List.getElem?_eq_some_iff.mp hentry
  rw [List.getElem?_append_left hbound]
  exact hentry

theorem grows_pushAll (inventory : Inventory) (batch : List PoolEntry) :
    inventory.Grows (batch.foldl push inventory) := by
  constructor
  · intro position entry hentry
    exact ⟨entry, getElem?_pool_pushAll hentry batch, .refl entry⟩
  · intro date daily hdaily
    simpa [findDaily?] using hdaily

theorem grows_markAt {inventory : Inventory} {position : Nat} {entry : PoolEntry}
    (hentry : inventory.pool[position]? = some entry) :
    inventory.Grows (inventory.markAt position entry) := by
  constructor
  · intro other known hknown
    rw [getElem?_pool_markAt hentry]
    by_cases hsame : other = position
    · subst other
      have hsame : known = entry := Option.some.inj (hknown.symm.trans hentry)
      subst known
      exact ⟨entry.claimed, if_pos rfl, entry.becomes_claimed⟩
    · exact ⟨known, (if_neg hsame).trans hknown, .refl known⟩
  · intro date daily hdaily
    exact hdaily

theorem grows_withDaily {inventory : Inventory} {daily : DailyEquation}
    (hfree : inventory.findDaily? daily.date = none) :
    inventory.Grows (inventory.withDaily daily) := by
  constructor
  · intro position entry hentry
    exact ⟨entry, hentry, .refl entry⟩
  · intro date known hknown
    have hdate : daily.date ≠ date := by
      intro hsame
      subst date
      rw [hfree] at hknown
      contradiction
    rw [findDaily?_withDaily, if_neg hdate]
    exact hknown

theorem Changes.grows {inventory next : Inventory} {asked : Update}
    (hchanges : inventory.Changes asked next) : inventory.Grows next := by
  cases hchanges with
  | refused => exact .refl inventory
  | inserted hadmits => exact grows_pushAll inventory _
  | claimed hentry hunused => exact grows_markAt hentry
  | assigned hfree => exact grows_withDaily hfree

/-- Whatever is asked of an inventory, and whether it is granted or refused. -/
theorem WellFormed.grows_update {inventory : Inventory} (hwell : inventory.WellFormed)
    (asked : Update) : inventory.Grows (inventory.update asked) :=
  (hwell.changes asked).grows

theorem WellFormed.grows_updates {inventory : Inventory} (hwell : inventory.WellFormed)
    (sequence : List Update) : inventory.Grows (inventory.updates sequence) := by
  induction sequence generalizing inventory with
  | nil => exact .refl inventory
  | cons asked rest ih => exact (hwell.grows_update asked).trans (ih (hwell.update asked))

/-! ## The claims that are granted -/

/-- The identifier that an update claims, if it is a claim and is granted. -/
def granted? (inventory : Inventory) : Update → Option Identifier
  | .claim id => (inventory.claim? id).map fun _ => id
  | _ => none

/-- The identifiers whose claims are granted, one for each such claim of the sequence. -/
def grants (inventory : Inventory) : List Update → List Identifier
  | [] => []
  | asked :: rest => (inventory.granted? asked).toList ++ (inventory.update asked).grants rest

theorem updates_append (inventory : Inventory) (sequence more : List Update) :
    inventory.updates (sequence ++ more) = (inventory.updates sequence).updates more :=
  List.foldl_append

theorem grants_append (inventory : Inventory) (sequence more : List Update) :
    inventory.grants (sequence ++ more) =
      inventory.grants sequence ++ (inventory.updates sequence).grants more := by
  induction sequence generalizing inventory with
  | nil => rfl
  | cons asked rest ih =>
      rw [List.cons_append, grants, ih, ← List.append_assoc]
      rfl

/-- The pool has an entry with the identifier, and that entry is used. -/
def HasUsed (inventory : Inventory) (id : Identifier) : Prop :=
  ∃ entry ∈ inventory.pool, entry.id = id ∧ entry.used

theorem Grows.hasUsed {earlier later : Inventory} (hgrows : earlier.Grows later)
    {id : Identifier} (hused : earlier.HasUsed id) : later.HasUsed id := by
  rcases hused with ⟨entry, hentry, hid, hused⟩
  obtain ⟨position, hposition⟩ := Array.mem_iff_getElem?.mp hentry
  obtain ⟨kept, hkept, hbecomes⟩ := hgrows.pool position entry hposition
  exact ⟨kept, Array.mem_of_getElem? hkept, hbecomes.id_eq.trans hid, hbecomes.used hused⟩

section Claims

variable {inventory : Inventory}

theorem WellFormed.not_hasUsed (hwell : inventory.WellFormed) {position : Nat} {entry : PoolEntry}
    (hentry : inventory.pool[position]? = some entry) (hunused : entry.used = false) :
    ¬inventory.HasUsed entry.id := by
  intro hhas
  rcases hhas with ⟨other, hother, hid, hused⟩
  obtain ⟨place, hplace⟩ := Array.mem_iff_getElem?.mp hother
  have hsame : place = position := hwell.position_eq_of_id_eq hplace hentry hid
  subst place
  have hother : other = entry := Option.some.inj (hplace.symm.trans hentry)
  subst other
  simp [hunused] at hused

/-- A claim is granted for an entry that was there, and has become used by it. -/
theorem WellFormed.of_granted (hwell : inventory.WellFormed) {asked : Update} {id : Identifier}
    (hgranted : inventory.granted? asked = some id) :
    (inventory.update asked).HasUsed id ∧ ¬inventory.HasUsed id := by
  cases asked with
  | insertPool batch => simp [granted?] at hgranted
  | insertDaily daily => simp [granted?] at hgranted
  | claim wanted =>
      obtain ⟨result, hresult, hsame⟩ := Option.map_eq_some_iff.mp hgranted
      subst wanted
      obtain ⟨position, entry, hentry, hid, hunused, _, hnext⟩ :=
        (hwell.claim?_eq_some_iff id result.1 result.2).mp hresult
      have hupdate : inventory.update (.claim id) = inventory.markAt position entry := by
        simp [Inventory.update, hresult, hnext]
      constructor
      · have hmarked := getElem?_pool_markAt hentry position
        rw [if_pos rfl] at hmarked
        rw [hupdate]
        exact ⟨entry.claimed, Array.mem_of_getElem? hmarked, hid, rfl⟩
      · rw [← hid]
        exact hwell.not_hasUsed hentry hunused

/-- What is used is not granted any more, however long one asks. -/
theorem WellFormed.not_mem_grants (hwell : inventory.WellFormed) {id : Identifier}
    (hused : inventory.HasUsed id) (sequence : List Update) : id ∉ inventory.grants sequence := by
  induction sequence generalizing inventory with
  | nil => simp [grants]
  | cons asked rest ih =>
      intro hmem
      rcases List.mem_append.mp hmem with hnow | hlater
      · exact (hwell.of_granted (Option.mem_toList.mp hnow)).2 hused
      · exact ih (hwell.update asked) ((hwell.grows_update asked).hasUsed hused) hlater

theorem WellFormed.nodup_grants (hwell : inventory.WellFormed) (sequence : List Update) :
    (inventory.grants sequence).Nodup := by
  induction sequence generalizing inventory with
  | nil => exact List.nodup_nil
  | cons asked rest ih =>
      have hrest := ih (hwell.update asked)
      unfold grants
      cases hgranted : inventory.granted? asked with
      | none => exact hrest
      | some id =>
          have hused := (hwell.of_granted hgranted).1
          exact List.nodup_cons.mpr ⟨(hwell.update asked).not_mem_grants hused rest, hrest⟩

theorem WellFormed.hasUsed_of_mem_grants (hwell : inventory.WellFormed) {id : Identifier}
    {sequence : List Update} (hmem : id ∈ inventory.grants sequence) :
    (inventory.updates sequence).HasUsed id := by
  induction sequence generalizing inventory with
  | nil => simp [grants] at hmem
  | cons asked rest ih =>
      rcases List.mem_append.mp hmem with hnow | hlater
      · have hused := (hwell.of_granted (Option.mem_toList.mp hnow)).1
        exact ((hwell.update asked).grows_updates rest).hasUsed hused
      · exact ih (hwell.update asked) hlater

/-- An entry stays as it is, unless the update is a claim of it. -/
theorem WellFormed.kept_or_granted (hwell : inventory.WellFormed) {position : Nat}
    {entry : PoolEntry} (hentry : inventory.pool[position]? = some entry) {asked : Update}
    {next : Inventory} (hchanges : inventory.Changes asked next) :
    next.pool[position]? = some entry ∨ inventory.granted? asked = some entry.id := by
  cases hchanges with
  | refused => exact Or.inl hentry
  | inserted hadmits => exact Or.inl (getElem?_pool_pushAll hentry _)
  | @claimed place known hknown hunused =>
      by_cases hsame : position = place
      · right
        subst place
        have hknown : known = entry := Option.some.inj (hknown.symm.trans hentry)
        subst known
        simp [granted?, hwell.claim?_of_unused hentry hunused]
      · left
        rw [getElem?_pool_markAt hknown, if_neg hsame]
        exact hentry
  | assigned hfree => exact Or.inl hentry

/-- It takes a claim to make an unused entry a used one. -/
theorem WellFormed.mem_grants_of_hasUsed (hwell : inventory.WellFormed) {position : Nat}
    {entry : PoolEntry} (hentry : inventory.pool[position]? = some entry)
    (hunused : entry.used = false) {sequence : List Update}
    (hused : (inventory.updates sequence).HasUsed entry.id) :
    entry.id ∈ inventory.grants sequence := by
  induction sequence generalizing inventory with
  | nil => exact absurd hused (hwell.not_hasUsed hentry hunused)
  | cons asked rest ih =>
      apply List.mem_append.mpr
      rcases hwell.kept_or_granted hentry (hwell.changes asked) with hkept | hgranted
      · exact Or.inr (ih (hwell.update asked) hkept hused)
      · exact Or.inl (Option.mem_toList.mpr hgranted)

/-- An entry that is inserted as used is never claimed, before or after. -/
theorem WellFormed.not_mem_grants_of_inserted (hwell : inventory.WellFormed)
    {before after : List Update} {batch : List PoolEntry} {entry : PoolEntry} {next : Inventory}
    (hinsert : (inventory.updates before).insertPool batch = .ok next)
    (hentry : entry ∈ batch) (hused : entry.used) :
    entry.id ∉ inventory.grants (before ++ .insertPool batch :: after) := by
  have hbefore := hwell.updates before
  obtain ⟨hadmits, hnext⟩ := (insertPool_eq_ok_iff _ next batch).mp hinsert
  rw [grants_append]
  intro hmem
  rcases List.mem_append.mp hmem with hearlier | hlater
  · rcases hwell.hasUsed_of_mem_grants hearlier with ⟨known, hknown, hid, _⟩
    exact hadmits.new_id entry hentry ((hbefore.mem_positions_iff _).mpr ⟨known, hknown, hid⟩)
  · have hupdate : (inventory.updates before).update (.insertPool batch) = next := by
      simp [Inventory.update, hinsert, Except.toOption]
    have hhas : next.HasUsed entry.id := by
      refine ⟨entry, ?_, rfl, hused⟩
      rw [← hnext, ← Array.mem_toList_iff, pool_pushAll]
      exact List.mem_append_right _ hentry
    change _ ∈ (((inventory.updates before).update (.insertPool batch)).grants after) at hlater
    have hwellNext := hbefore.update (.insertPool batch)
    rw [hupdate] at hlater hwellNext
    exact hwellNext.not_mem_grants hhas after hlater

end Claims

/-- Whatever is asked of an inventory that starts empty, first and then further: each entry keeps
its position and all of its fields, but that it may become used and then remains so; each daily
equation stays; no identifier is ever claimed twice, and one that was inserted as used is not
claimed at all. -/
theorem updates_empty_appendOnly (before after : List Update) :
    let earlier := empty.updates before
    let later := earlier.updates after
    (∀ (position : Nat) (entry : PoolEntry), earlier.pool[position]? = some entry →
        ∃ kept, later.pool[position]? = some kept ∧
          kept = { entry with used := kept.used } ∧ (entry.used → kept.used)) ∧
      (∀ (date : Day) (daily : DailyEquation), earlier.findDaily? date = some daily →
        later.findDaily? date = some daily) ∧
      (empty.grants (before ++ after)).Nodup ∧
      (∀ (batch : List PoolEntry) (next : Inventory), earlier.insertPool batch = .ok next →
        ∀ entry ∈ batch, entry.used →
          entry.id ∉ empty.grants (before ++ .insertPool batch :: after)) := by
  intro earlier later
  have hearlier : earlier.WellFormed := wellFormed_empty.updates before
  have hgrows : earlier.Grows later := hearlier.grows_updates after
  refine ⟨?_, hgrows.daily, wellFormed_empty.nodup_grants _, ?_⟩
  · intro position entry hentry
    obtain ⟨kept, hkept, hbecomes⟩ := hgrows.pool position entry hentry
    exact ⟨kept, hkept, hbecomes.same, hbecomes.used⟩
  · intro batch next hinsert entry hentry hused
    exact wellFormed_empty.not_mem_grants_of_inserted hinsert hentry hused

end Inventory

end EquationPuzzle
