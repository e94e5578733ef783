import EquationPuzzle.Proofs.Allocation.Effect
import EquationPuzzle.Proofs.Directory.Mirror

/-!
# No two days share an equation

However requests to allocators succeed or fail, no equation is given to two days, and the entries
of the pool that are marked as used are those whose equations have been given to a day.  The reason
is that an entry is marked as used in the same request that puts its equation on record, and that
neither an unused entry nor a new one has the equation of a used entry.
-/

namespace EquationPuzzle

/-- The target number and the difficulty that go with an equation are its own, and the target
number is one of a generated puzzle. -/
structure Fair (equation : Equation) (target : UInt32) (difficulty : Difficulty) : Prop where
  target_eq : equation.targetNumber = some target
  one_le : 1 ≤ target
  le_max : target ≤ 9999
  difficulty_eq : difficulty = Difficulty.classify equation target

theorem PoolEntry.Made.fair {moment : Nat → Timestamp} {used : Bool} {entry : PoolEntry}
    (hmade : entry.Made moment used) : Fair entry.equation entry.targetNumber entry.difficulty := by
  obtain ⟨id, number, puzzle, hfits, rfl⟩ := hmade
  exact ⟨hfits.target_eq, hfits.one_le, hfits.le_max, rfl⟩

theorem PoolEntry.Made.claimed {moment : Nat → Timestamp} {used : Bool} {entry : PoolEntry}
    (hmade : entry.Made moment used) : entry.claimed.Made moment true := by
  obtain ⟨id, number, puzzle, hfits, rfl⟩ := hmade
  exact ⟨id, number, puzzle, hfits, rfl⟩

theorem PoolEntry.Made.used_eq {moment : Nat → Timestamp} {used : Bool} {entry : PoolEntry}
    (hmade : entry.Made moment used) : entry.used = used := by
  obtain ⟨id, number, puzzle, _, rfl⟩ := hmade
  rfl

/-- The daily equation was taken from a made entry at one of the given moments. -/
def DailyEquation.Made (moment : Nat → Timestamp) (daily : DailyEquation) : Prop :=
  ∃ id number entry, PoolEntry.Made moment true entry ∧
    daily = .ofEntry id (moment number) daily.date entry

theorem DailyEquation.Made.fair {moment : Nat → Timestamp} {daily : DailyEquation}
    (hmade : daily.Made moment) : Fair daily.equation daily.targetNumber daily.difficulty := by
  obtain ⟨id, number, entry, hentry, hdaily⟩ := hmade
  rw [hdaily]
  exact hentry.fair

namespace Inventory

def Used (inventory : Inventory) (equation : Equation) : Prop :=
  ∃ entry ∈ inventory.pool, entry.used = true ∧ entry.equation = equation

def Assigned (inventory : Inventory) (equation : Equation) : Prop :=
  ∃ date daily, inventory.findDaily? date = some daily ∧ daily.equation = equation

/-- Between two requests the used entries are those that days have been given, one for each day, and
all records have been made from puzzles. -/
structure Settled (moment : Nat → Timestamp) (inventory : Inventory) : Prop where
  wellFormed : inventory.WellFormed
  distinct : ∀ {date date' : Day} {daily daily' : DailyEquation},
    inventory.findDaily? date = some daily → inventory.findDaily? date' = some daily' →
      daily.equation = daily'.equation → date = date'
  used_iff : ∀ equation, inventory.Used equation ↔ inventory.Assigned equation
  entry_made : ∀ entry ∈ inventory.pool, entry.Made moment entry.used
  daily_made : ∀ date daily, inventory.findDaily? date = some daily → daily.Made moment

variable {moment : Nat → Timestamp} {inventory : Inventory}

theorem settled_empty (moment : Nat → Timestamp) : empty.Settled moment := by
  constructor
  · exact wellFormed_empty
  all_goals simp [empty, findDaily?, Used, Assigned]

/-! ## Taking an entry -/

section Takes

variable {entry : PoolEntry} {taken : Inventory}

theorem Takes.wellFormed (htakes : Takes moment inventory entry taken)
    (hwell : inventory.WellFormed) : taken.WellFormed := by
  cases htakes with
  | claimed hfirst hentry hunused => exact hwell.markAt hentry
  | generated hnone hadmits hmade =>
      exact hwell.push (hadmits.new_id entry (by simp)) (hadmits.new_equation entry (by simp))

theorem Takes.not_used (htakes : Takes moment inventory entry taken)
    (hwell : inventory.WellFormed) : ¬inventory.Used entry.equation := by
  rintro ⟨known, hknown, hused, hequation⟩
  cases htakes with
  | @claimed position original hfirst hentry hunused =>
      obtain ⟨other, hother⟩ := Array.mem_iff_getElem?.mp hknown
      have hsame := hwell.position_eq_of_equation_eq hother hentry hequation
      rw [hsame, hentry, Option.some.injEq] at hother
      rw [hother, hused] at hunused
      contradiction
  | generated hnone hadmits hmade =>
      apply hadmits.new_equation entry (by simp)
      exact (hwell.mem_equations_iff entry.equation).mpr ⟨known, hknown, hequation⟩

theorem Takes.used_iff (htakes : Takes moment inventory entry taken) (equation : Equation) :
    taken.Used equation ↔ entry.equation = equation ∨ inventory.Used equation := by
  cases htakes with
  | @claimed position original hfirst hentry hunused =>
      simp only [Used, Array.mem_iff_getElem?, getElem?_pool_markAt hentry]
      constructor
      · rintro ⟨known, ⟨other, hknown⟩, hused, hequation⟩
        by_cases hother : other = position
        · rw [if_pos hother, Option.some.injEq] at hknown
          exact Or.inl (by rw [hknown, hequation])
        · rw [if_neg hother] at hknown
          exact Or.inr ⟨known, ⟨other, hknown⟩, hused, hequation⟩
      · rintro (hequation | ⟨known, ⟨other, hknown⟩, hused, hequation⟩)
        · exact ⟨original.claimed, ⟨position, if_pos rfl⟩, rfl, hequation⟩
        · have hother : other ≠ position := by
            rintro rfl
            rw [hentry, Option.some.injEq] at hknown
            rw [hknown, hused] at hunused
            contradiction
          exact ⟨known, ⟨other, by rwa [if_neg hother]⟩, hused, hequation⟩
  | generated hnone hadmits hmade =>
      simp only [Used, pool_push, Array.mem_push]
      constructor
      · rintro ⟨known, hknown | rfl, hused, hequation⟩
        · exact Or.inr ⟨known, hknown, hused, hequation⟩
        · exact Or.inl hequation
      · rintro (hequation | ⟨known, hknown, hused, hequation⟩)
        · exact ⟨entry, Or.inr rfl, hmade.used_eq, hequation⟩
        · exact ⟨known, Or.inl hknown, hused, hequation⟩

theorem Takes.made (htakes : Takes moment inventory entry taken)
    (hmade : ∀ known ∈ inventory.pool, known.Made moment known.used) :
    entry.Made moment true ∧ ∀ known ∈ taken.pool, known.Made moment known.used := by
  have hused : entry.used = true := by
    cases htakes with
    | claimed hfirst hentry hunused => rfl
    | generated hnone hadmits hnew => exact hnew.used_eq
  rw [← hused]
  refine htakes.forall_pool (fun known hknown => hknown.claimed) (fun known hknown => ?_) hmade
  rw [hknown.used_eq]
  exact hknown

end Takes

/-! ## One request -/

theorem assigned_withDaily {daily : DailyEquation} (hnew : inventory.findDaily? daily.date = none)
    (equation : Equation) :
    (inventory.withDaily daily).Assigned equation ↔
      daily.equation = equation ∨ inventory.Assigned equation := by
  simp only [Assigned, findDaily?_withDaily]
  constructor
  · rintro ⟨date, known, hknown, hequation⟩
    by_cases hdate : daily.date = date
    · rw [if_pos hdate, Option.some.injEq] at hknown
      exact Or.inl (hknown ▸ hequation)
    · rw [if_neg hdate] at hknown
      exact Or.inr ⟨date, known, hknown, hequation⟩
  · rintro (hequation | ⟨date, known, hknown, hequation⟩)
    · exact ⟨daily.date, daily, if_pos rfl, hequation⟩
    · have hdate : daily.date ≠ date := by
        rintro rfl
        rw [hnew] at hknown
        contradiction
      exact ⟨date, known, by rwa [if_neg hdate], hequation⟩

theorem Settled.assigns (hsettled : inventory.Settled moment) {date : Day} {daily : DailyEquation}
    {next : Inventory} (hassigns : Assigns moment inventory date daily next) :
    next.Settled moment := by
  have hfind := hassigns.findDaily?_eq
  obtain ⟨id, number, hnew, htakes⟩ := hassigns
  rename_i entry taken
  have hfree : taken.findDaily? date = none := by rw [htakes.findDaily?_eq, hnew]
  have hunassigned : ¬inventory.Assigned entry.equation := by
    rw [← hsettled.used_iff]
    exact htakes.not_used hsettled.wellFormed
  obtain ⟨hentry, hpool⟩ := htakes.made hsettled.entry_made
  constructor
  · exact (htakes.wellFormed hsettled.wellFormed).withDaily _
  · intro first second daily daily' hdaily hdaily' hequation
    rw [hfind] at hdaily hdaily'
    by_cases hfirst : date = first <;> by_cases hsecond : date = second
    · exact hfirst.symm.trans hsecond
    · rw [if_pos hfirst, Option.some.injEq] at hdaily
      rw [if_neg hsecond] at hdaily'
      exact absurd ⟨second, daily', hdaily', by rw [← hequation, ← hdaily]; rfl⟩ hunassigned
    · rw [if_neg hfirst] at hdaily
      rw [if_pos hsecond, Option.some.injEq] at hdaily'
      exact absurd ⟨first, daily, hdaily, by rw [hequation, ← hdaily']; rfl⟩ hunassigned
    · rw [if_neg hfirst] at hdaily
      rw [if_neg hsecond] at hdaily'
      exact hsettled.distinct hdaily hdaily' hequation
  · intro equation
    have hassigned : taken.Assigned equation ↔ inventory.Assigned equation := by
      simp only [Assigned, htakes.findDaily?_eq]
    rw [assigned_withDaily hfree, hassigned, ← hsettled.used_iff]
    exact htakes.used_iff equation
  · exact hpool
  · intro other known hknown
    rw [hfind] at hknown
    by_cases hdate : date = other
    · rw [if_pos hdate, Option.some.injEq] at hknown
      exact ⟨id, number, entry, hentry, hknown ▸ rfl⟩
    · rw [if_neg hdate] at hknown
      exact hsettled.daily_made other known hknown

theorem Settled.fills (hsettled : inventory.Settled moment) {next : Inventory}
    (hfills : Fills moment inventory next) : next.Settled moment := by
  obtain ⟨hkept, hpool⟩ := hfills.mem_pool
  have hdaily := hfills.findDaily?_eq
  constructor
  · obtain ⟨hadmits, -⟩ := hfills
    exact hsettled.wellFormed.pushAll hadmits
  · rw [hdaily]
    exact hsettled.distinct
  · intro equation
    rw [Assigned, hdaily, ← Assigned, ← hsettled.used_iff]
    constructor
    · rintro ⟨entry, hentry, hused, hequation⟩
      rcases hpool entry hentry with hentry | hmade
      · exact ⟨entry, hentry, hused, hequation⟩
      · rw [hmade.used_eq] at hused
        contradiction
    · rintro ⟨entry, hentry, h⟩
      exact ⟨entry, hkept entry hentry, h⟩
  · intro entry hentry
    rcases hpool entry hentry with hentry | hmade
    · exact hsettled.entry_made entry hentry
    · rw [hmade.used_eq]
      exact hmade
  · rw [hdaily]
    exact hsettled.daily_made

theorem Settled.step (hsettled : inventory.Settled moment) {next : Inventory}
    (hstep : Step moment inventory next) : next.Settled moment := by
  cases hstep with
  | idle => exact hsettled
  | fill hfills => exact hsettled.fills hfills
  | assign hassigns => exact hsettled.assigns hassigns

/-! ## Counting -/

theorem Settled.usedCount_eq (hsettled : inventory.Settled moment) :
    inventory.usedCount = inventory.dailyCount := by
  have hused : ((inventory.pool.toList.filter (·.used)).map (·.equation)).Nodup :=
    hsettled.wellFormed.nodup_equations.sublist (List.filter_sublist.map _)
  have hdaily : (inventory.daily.toList.map (·.2.equation)).Nodup := by
    rw [List.Nodup, List.pairwise_map]
    refine inventory.daily.distinct_keys_toList.imp_of_mem fun {a b} ha hb hdistinct => ?_
    intro hequation
    have hfirst := Std.HashMap.mem_toList_iff_getElem?_eq_some.mp ha
    have hsecond := Std.HashMap.mem_toList_iff_getElem?_eq_some.mp hb
    simp [hsettled.distinct hfirst hsecond hequation] at hdistinct
  have hperm := (List.perm_ext_iff_of_nodup hused hdaily).mpr fun equation => by
    have hiff := hsettled.used_iff equation
    simp only [Used, Assigned, findDaily?] at hiff
    simp only [List.mem_map, List.mem_filter, Array.mem_toList_iff, Prod.exists,
      Std.HashMap.mem_toList_iff_getElem?_eq_some, and_assoc]
    exact hiff
  have hlength := hperm.length_eq
  rw [List.length_map, List.length_map, Std.HashMap.length_toList] at hlength
  rw [hsettled.wellFormed.usedCount_eq, List.countP_eq_length_filter, hlength, dailyCount]

/-- Distinct days have distinct equations, the used entries are those of the days, and every record
has the target number and the difficulty of its equation. -/
structure Allotted (inventory : Inventory) : Prop where
  distinct : ∀ {date date' : Day} {daily daily' : DailyEquation},
    inventory.findDaily? date = some daily → inventory.findDaily? date' = some daily' →
      daily.equation = daily'.equation → date = date'
  used_iff : ∀ equation, inventory.Used equation ↔ inventory.Assigned equation
  usedCount_eq : inventory.usedCount = inventory.dailyCount
  entry_fair : ∀ entry ∈ inventory.pool,
    Fair entry.equation entry.targetNumber entry.difficulty
  daily_fair : ∀ date daily, inventory.findDaily? date = some daily →
    Fair daily.equation daily.targetNumber daily.difficulty

theorem Settled.allotted (hsettled : inventory.Settled moment) : inventory.Allotted where
  distinct := hsettled.distinct
  used_iff := hsettled.used_iff
  usedCount_eq := hsettled.usedCount_eq
  entry_fair entry hentry := (hsettled.entry_made entry hentry).fair
  daily_fair date daily hdaily := (hsettled.daily_made date daily hdaily).fair

end Inventory

namespace Allocator

/-! ## Every sequence of requests -/

theorem settled_serve {session : Session Inventory}
    (hsettled : session.store.Settled session.supply.moment) (allocator : Allocator)
    (request : Request) :
    let next := (outcome (allocator.serve request) session).2
    next.store.Settled next.supply.moment := by
  intro next
  obtain ⟨hstep, hmoment⟩ := advances_serve hsettled.wellFormed allocator request
  rw [hmoment]
  exact hsettled.step hstep

theorem settled_serveAll (session : Session Inventory)
    (hsettled : session.store.Settled session.supply.moment)
    (requests : List (Allocator × Request)) :
    let next := serveAll requests session
    next.store.Settled next.supply.moment := by
  induction requests generalizing session with
  | nil => exact hsettled
  | cons request rest ih => exact ih _ (settled_serve hsettled request.1 request.2)

/-- From an empty store, whatever is asked of allocators and whatever they draw, distinct days have
distinct equations, and the used entries are those of the days.  A directory that was opened on a
vacant root then keeps the same records as a store in memory. -/
theorem serveAll_empty_allotted (supply : Supply) (requests : List (Allocator × Request)) :
    let memory : Session Inventory := serveAll requests { store := Inventory.empty, supply }
    memory.store.Allotted ∧
      ∀ (root : Directory.Root) (tree : FileTree), root.Vacant tree →
        ∃ directory, Directory.ofTree root tree = .ok directory ∧
          (serveAll requests
            { store := (⟨directory, tree⟩ : DirectoryStore), supply }).store.Represents
            root memory.store := by
  intro memory
  refine ⟨?_, fun root tree hvacant => ⟨_, hvacant.ofTree_eq, ?_⟩⟩
  · have hsettled := settled_serveAll { store := Inventory.empty, supply }
      (Inventory.settled_empty supply.moment) requests
    exact hsettled.allotted
  · have hrelated := related_serveAll (DirectoryStore.agree_represents root) requests
      (s := { store := ⟨_, tree⟩, supply }) (t := { store := Inventory.empty, supply })
      ⟨DirectoryStore.represents_of_vacant hvacant, rfl, rfl⟩
    exact hrelated.store

/-- Requests of two allocators, of which one cannot generate anything, for a store that is made
beside another file. -/
theorem serveAll_beside_allotted :
    let root : Directory.Root := ⟨"home/store", ["home", "store"]⟩
    let tree := (FileTree.empty.put ["home"] .directory).put ["home", "notes"] (.file (.text ""))
    let first : Day := ⟨2024, 2, 28, by decide⟩
    let last : Day := ⟨2024, 3, 1, by decide⟩
    let supply := Supply.seeded 1 2 ⟨first, 86399, 1000000000, by decide, by decide⟩
    let requests : List (Allocator × Request) :=
      [(⟨⟨0⟩, 0⟩, .resolve last), (⟨⟨1000⟩, 8⟩, .resolve last), (⟨⟨0⟩, 0⟩, .pregenerate first last),
        (⟨⟨1000⟩, 0⟩, .pregenerate first last), (⟨⟨0⟩, 0⟩, .resolve first), (⟨⟨0⟩, 0⟩, .practice),
        (⟨⟨0⟩, 0⟩, .pregenerateYear 262143)]
    let memory : Session Inventory := serveAll requests { store := Inventory.empty, supply }
    root.Vacant tree ∧ memory.store.Allotted ∧
      ∃ directory, Directory.ofTree root tree = .ok directory ∧
        (serveAll requests
          { store := (⟨directory, tree⟩ : DirectoryStore), supply }).store.Represents
          root memory.store := by
  intro root tree first last supply requests memory
  have hvacant : root.Vacant tree := Directory.Root.vacant_beside (by decide) _ _
  have hserved := serveAll_empty_allotted supply requests
  exact ⟨hvacant, hserved.1, hserved.2 root tree hvacant⟩

end Allocator

end EquationPuzzle
