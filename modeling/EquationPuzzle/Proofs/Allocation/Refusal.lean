import EquationPuzzle.Proofs.Allocation.Uniqueness
import EquationPuzzle.Proofs.Directory.Contract

/-!
# Requests that are refused

Over a store in memory a day that is refused an equation leaves the pool as it is.  Over a directory
there is one exception.  The entry for the day is taken before the record of the day is written, and
if that fails, the entry stays in the pool as used although no day has been given it.
-/

namespace EquationPuzzle

theorem Inventory.WellFormed.claim?_of_first {inventory : Inventory} (hwell : inventory.WellFormed)
    {entry : PoolEntry} (hfirst : inventory.firstUnused? = some entry) :
    ∃ position, inventory.pool[position]? = some entry ∧ entry.used = false ∧
      inventory.claim? entry.id = some (entry.claimed, inventory.markAt position entry) ∧
      inventory.claimable? entry.id = some entry.claimed := by
  obtain ⟨position, hentry, hunused⟩ := hwell.exists_of_firstUnused? hfirst
  have hclaim := hwell.claim?_of_unused hentry hunused
  refine ⟨position, hentry, hunused, hclaim, ?_⟩
  rw [hwell.claimable?_eq, hclaim]
  rfl

namespace DirectoryStore

/-- Nothing has changed but perhaps directories. -/
structure Keeps (store next : DirectoryStore) : Prop where
  directory_eq : next.directory = store.directory
  files : store.tree.SameFiles next.tree

/-- An entry has been taken from the pool, and its file has been written. -/
structure Takes (moment : Nat → Timestamp) (store : DirectoryStore) (entry : PoolEntry)
    (next : DirectoryStore) : Prop where
  inventory : store.directory.inventory.Takes moment entry next.directory.inventory
  root_eq : next.directory.root = store.directory.root
  files : store.tree.Gains (store.directory.root.poolFile entry.id) entry.recordText next.tree

section Calls

variable {store : DirectoryStore}

theorem Keeps.refl (store : DirectoryStore) : store.Keeps store := ⟨rfl, .refl store.tree⟩

/-- The first unused entry is claimed, unless its file cannot be written. -/
theorem outcome_markUsed_cases (hwell : store.directory.inventory.WellFormed) {entry : PoolEntry}
    (hfirst : store.directory.inventory.firstUnused? = some entry) (moment : Nat → Timestamp) :
    (∃ cause next, outcome (Store.markUsed entry.id) store = (.error cause, next) ∧
        store.Keeps next) ∨
      ∃ next, outcome (Store.markUsed entry.id) store = (.ok (some entry.claimed), next) ∧
        store.Takes moment entry.claimed next := by
  obtain ⟨position, hentry, hunused, hclaim, hclaimable⟩ := hwell.claim?_of_first hfirst
  rcases hwrite : Directory.writeRecord store.tree (store.directory.root.poolFile entry.id) false
    entry.claimed.recordText with ⟨fault | _, tree⟩
  · exact Or.inl ⟨_, _, outcome_markUsed_of_fault store hclaimable hwrite, rfl,
      (Directory.prepares_of_writeRecord hwrite).sameFiles⟩
  · have hfiles := Directory.gains_of_writeRecord hwrite
    exact Or.inr ⟨_, outcome_markUsed_of_some store hclaimable hwrite hclaim,
      .claimed hfirst hentry hunused, rfl, hfiles⟩

/-- A new entry enters the pool, unless it is in conflict with another or its file cannot be
written. -/
theorem outcome_insertPool_cases {moment : Nat → Timestamp} {entry : PoolEntry}
    (hfirst : store.directory.inventory.firstUnused? = none) (hmade : entry.Made moment true) :
    (∃ conflict, outcome (Store.insertPool [entry]) store = (.error conflict, store)) ∨
      (∃ path fault next,
        outcome (Store.insertPool [entry]) store = (.error (.inaccessible path fault), next) ∧
          store.Keeps next) ∨
      ∃ count next, outcome (Store.insertPool [entry]) store = (.ok count, next) ∧
        store.Takes moment entry next := by
  cases hconflict : store.directory.inventory.poolConflict? [entry] with
  | some conflict => exact Or.inl ⟨conflict, outcome_insertPool_of_conflict store hconflict⟩
  | none =>
      have hadmits := (Inventory.poolConflict?_eq_none_iff _ _).mp hconflict
      have hinsert := (Inventory.insertPool_eq_ok_iff _ _ _).mpr ⟨hadmits, rfl⟩
      right
      rcases hwrite : Directory.writeRecord store.tree (store.directory.root.poolFile entry.id) true
        entry.recordText with ⟨fault | _, tree⟩
      · have hbatch : Directory.writeBatch store.directory.root store.tree [entry] =
            ([], some (store.directory.root.poolFile entry.id, fault), tree) := by
          simp only [Directory.writeBatch, hwrite]
        exact Or.inl ⟨_, _, _, outcome_insertPool_of_fault store hconflict hbatch, rfl,
          (Directory.prepares_of_writeRecord hwrite).sameFiles⟩
      · have hbatch : Directory.writeBatch store.directory.root store.tree [entry] =
            ([store.directory.root.poolFile entry.id], none, tree) := by
          simp only [Directory.writeBatch, hwrite]
        exact Or.inr ⟨_, _, outcome_insertPool_of_ok store hconflict hbatch hinsert,
          .generated hfirst hadmits hmade, rfl, Directory.gains_of_writeRecord hwrite⟩

end Calls

end DirectoryStore

namespace Session

section Reads

variable (session : Session DirectoryStore)

theorem outcome_require_findDaily (date : Day) :
    outcome (require (Store.findDaily date)) session =
      (.ok (session.store.directory.inventory.findDaily? date), session) := by
  rw [outcome_require]
  rfl

theorem outcome_require_findUnused :
    outcome (require Store.findUnused) session =
      (.ok session.store.directory.inventory.firstUnused?, session) := by
  rw [outcome_require]
  rfl

theorem outcome_require_poolEquations :
    outcome (require Store.poolEquations) session =
      (.ok session.store.directory.inventory.poolEquations, session) := by
  rw [outcome_require]
  rfl

end Reads

/-- An entry has been taken, or nothing has happened. -/
def Obtains (session : Session DirectoryStore) :
    Except AllocationError PoolEntry → Session DirectoryStore → Prop
  | .error _, next => session.store.Keeps next.store
  | .ok entry, next =>
    session.store.Takes session.supply.moment entry next.store ∧
      next.supply.moment = session.supply.moment

/-- An entry has been taken for a day without an equation, but the record of the day could not be
written. -/
structure Loses (session : Session DirectoryStore) (date : Day) (entry : PoolEntry)
    (cause : AllocationError) (next : Session DirectoryStore) : Prop where
  findDaily?_eq : session.store.directory.inventory.findDaily? date = none
  takes : session.store.Takes session.supply.moment entry next.store
  unwritten : ∃ id number tree fault,
    session.store.tree.Gains (session.store.directory.root.poolFile entry.id) entry.recordText
      tree ∧
      Directory.writeRecord tree (session.store.directory.root.dailyFile date) true
        (DailyEquation.ofEntry id (session.supply.moment number) date entry).recordText =
          (.error fault, next.store.tree) ∧
      cause = .store (next.store.directory.dailyRefusal date fault)

/-- A refused request has changed nothing, or it has lost an entry. -/
def Refuses (session : Session DirectoryStore) (date : Day) :
    Except AllocationError DailyEquation → Session DirectoryStore → Prop
  | .error cause, next =>
    session.store.Keeps next.store ∨ ∃ entry, session.Loses date entry cause next
  | .ok _, _ => True

end Session

namespace Allocator

open Session Directory

variable {session : Session DirectoryStore}

/-! ## Taking an entry -/

theorem obtains_claimEntry (hwell : session.store.directory.inventory.WellFormed)
    (patience : Nat) :
    (session.store.directory.inventory.firstUnused? = none ∧
        outcome (claimEntry (patience + 1)) session = (.ok none, session)) ∨
      ∃ answer next, outcome (claimEntry (patience + 1)) session = (answer.map some, next) ∧
        session.Obtains answer next := by
  unfold claimEntry
  rw [outcome_bind, outcome_require_findUnused]
  cases hfirst : session.store.directory.inventory.firstUnused? with
  | none => exact Or.inl ⟨rfl, rfl⟩
  | some entry =>
      right
      rcases DirectoryStore.outcome_markUsed_cases hwell hfirst session.supply.moment with
        ⟨cause, next, hmark, hkeeps⟩ | ⟨next, hmark, htakes⟩
      · refine ⟨.error (.store cause), { session with store := next }, ?_, hkeeps⟩
        simp only [outcome_bind, outcome_require, hmark, Except.map]
      · refine ⟨.ok entry.claimed, { session with store := next }, ?_, htakes, rfl⟩
        simp only [outcome_bind, outcome_require, hmark, outcome_pure, Except.map]

/-- Equations that turn out to be in the pool change nothing, and others are tried. -/
theorem obtains_generateEntry (hfirst : session.store.directory.inventory.firstUnused? = none)
    (generator : Generator) (existing : Std.HashSet Equation) (attempts : Nat) :
    Yields (generateEntry generator existing attempts) session session.Obtains := by
  induction attempts generalizing session with
  | zero => exact DirectoryStore.Keeps.refl session.store
  | succ attempts ih =>
      have hretry : ∀ middle : Session DirectoryStore, middle.store = session.store →
          middle.supply.moment = session.supply.moment →
          Yields (generateEntry generator existing attempts) middle session.Obtains := by
        intro middle hstore hmoment
        refine (ih (hstore ▸ hfirst)).imp fun answer next hobtains => ?_
        cases answer with
        | error cause => rwa [Obtains, hstore] at hobtains
        | ok entry => rwa [Obtains, hstore, hmoment] at hobtains
      unfold generateEntry
      unfold Yields
      rw [outcome_bind, outcome_generate]
      rcases hmade : generator.generate.run session.supply.words with ⟨cause | puzzle, words⟩
      · exact DirectoryStore.Keeps.refl session.store
      dsimp only
      split
      · exact hretry (session.withWords words) rfl rfl
      rw [outcome_bind, outcome_newEntry]
      have hentry : PoolEntry.Made session.supply.moment true (.ofPuzzle
          ((session.withWords words).supply.identifier (session.withWords words).supply.issued)
          ((session.withWords words).supply.moment (session.withWords words).supply.issued)
          puzzle true) :=
        ⟨_, _, puzzle, Generator.fits_of_generate hmade, rfl⟩
      dsimp only
      rw [outcome_bind, outcome_call]
      have hstore : (session.withWords words).withIssued.store = session.store := rfl
      rw [hstore]
      rcases DirectoryStore.outcome_insertPool_cases hfirst hentry with
        ⟨conflict, hinsert⟩ | ⟨path, fault, next, hinsert, hkeeps⟩ | ⟨count, next, hinsert, htakes⟩
      · rw [hinsert]
        cases conflict with
        | duplicateEquation equation =>
            exact hretry { (session.withWords words).withIssued with store := session.store }
              rfl rfl
        | _ => exact DirectoryStore.Keeps.refl session.store
      · rw [hinsert]
        exact hkeeps
      · rw [hinsert]
        exact ⟨htakes, rfl⟩

/-! ## Giving it to the day -/

section Assign

variable {date : Day} {entry : PoolEntry} {taken : Session DirectoryStore}

/-- Nothing is taken back if the record of the day cannot be written. -/
theorem loses_assign (hnew : session.store.directory.inventory.findDaily? date = none)
    (htakes : session.store.Takes session.supply.moment entry taken.store)
    (hmoment : taken.supply.moment = session.supply.moment) {fault : FileFault} {tree : FileTree}
    (hwrite : writeRecord taken.store.tree (taken.store.directory.root.dailyFile date) true
      (DailyEquation.ofEntry (taken.supply.identifier taken.supply.issued)
        (taken.supply.moment taken.supply.issued) date entry).recordText = (.error fault, tree)) :
    Yields (assign date entry) taken fun answer next =>
      answer = .error (.store (taken.store.directory.dailyRefusal date fault)) ∧
        session.Loses date entry (.store (taken.store.directory.dailyRefusal date fault)) next := by
  have hfree : taken.store.directory.inventory.findDaily? date = none := by
    rw [htakes.inventory.findDaily?_eq, hnew]
  unfold assign
  refine Yields.of_outcome (outcome_issue taken) ?_
  generalize hdaily : DailyEquation.ofEntry (taken.supply.identifier taken.supply.issued)
    (taken.supply.moment taken.supply.issued) date entry = daily at hwrite
  obtain rfl : daily.date = date := by rw [← hdaily]; rfl
  have hrefused := DirectoryStore.outcome_insertDaily_of_fault taken.store hfree hwrite
  have hstore : taken.withIssued.store = taken.store := rfl
  unfold Yields
  simp only [hdaily, outcome_bind, outcome_require, hstore, hrefused]
  refine ⟨trivial, hnew, ⟨htakes.inventory, htakes.root_eq, ?_⟩, ?_⟩
  · exact htakes.files.sameFiles ((prepares_of_writeRecord hwrite).sameFiles)
  · refine ⟨taken.supply.identifier taken.supply.issued, taken.supply.issued, taken.store.tree,
      fault, htakes.files, ?_, rfl⟩
    rw [← htakes.root_eq, ← hmoment, hdaily]
    exact hwrite

theorem refuses_assign (hnew : session.store.directory.inventory.findDaily? date = none)
    (htakes : session.store.Takes session.supply.moment entry taken.store)
    (hmoment : taken.supply.moment = session.supply.moment) :
    Yields (assign date entry) taken (session.Refuses date) := by
  rcases hwrite : writeRecord taken.store.tree (taken.store.directory.root.dailyFile date) true
    (DailyEquation.ofEntry (taken.supply.identifier taken.supply.issued)
      (taken.supply.moment taken.supply.issued) date entry).recordText with ⟨fault | _, tree⟩
  · refine (loses_assign hnew htakes hmoment hwrite).imp ?_
    rintro answer next ⟨rfl, hloses⟩
    exact Or.inr ⟨entry, hloses⟩
  · have hfree : taken.store.directory.inventory.findDaily? date = none := by
      rw [htakes.inventory.findDaily?_eq, hnew]
    unfold assign
    refine Yields.of_outcome (outcome_issue taken) ?_
    generalize hdaily : DailyEquation.ofEntry (taken.supply.identifier taken.supply.issued)
      (taken.supply.moment taken.supply.issued) date entry = daily at hwrite
    obtain rfl : daily.date = date := by rw [← hdaily]; rfl
    have hinsert := (Inventory.insertDaily_eq_ok_iff _ _ daily).mpr ⟨hfree, rfl⟩
    have hstored := DirectoryStore.outcome_insertDaily_of_ok taken.store hwrite hinsert
    have hstore : taken.withIssued.store = taken.store := rfl
    unfold Yields
    simp only [hdaily, outcome_bind, outcome_require, hstore, hstored, outcome_pure]
    trivial

end Assign

theorem refuses_resolve (hwell : session.store.directory.inventory.WellFormed)
    (allocator : Allocator) (date : Day) :
    Yields (allocator.resolve date) session (session.Refuses date) := by
  unfold resolve
  refine Yields.of_outcome (outcome_require_findDaily session date) ?_
  cases hfind : session.store.directory.inventory.findDaily? date with
  | some daily => trivial
  | none =>
      rcases obtains_claimEntry hwell allocator.patience with
        ⟨hfirst, hclaim⟩ | ⟨cause | entry, next, hclaim, hobtains⟩
      · refine Yields.of_outcome hclaim ?_
        refine Yields.of_outcome (outcome_require_poolEquations session) ?_
        refine (obtains_generateEntry hfirst _ _ _).bind (fun _ _ hkeeps => Or.inl hkeeps) ?_
        rintro entry taken ⟨htakes, hmoment⟩
        exact refuses_assign hfind htakes hmoment
      · unfold Yields
        rw [outcome_bind, hclaim]
        exact Or.inl hobtains
      · refine Yields.of_outcome hclaim ?_
        refine Yields.of_outcome (outcome_pure entry _) ?_
        exact refuses_assign hfind hobtains.1 hobtains.2

/-- Over a store in memory a refused request changes nothing.  Over a directory it changes no record
either, or it has taken an entry for the day and then failed to write the record of the day.  This
is so in all directories that have been opened, whatever stands in their files. -/
theorem resolve_error_keeps_or_loses (allocator : Allocator) (date : Day)
    (cause : AllocationError) :
    (∀ session : Session Inventory, session.store.WellFormed →
        (outcome (allocator.resolve date) session).1 = .error cause →
          (outcome (allocator.resolve date) session).2.store = session.store) ∧
      (∀ store : DirectoryStore, store.Opened → store.directory.inventory.WellFormed) ∧
      ∀ session : Session DirectoryStore, session.store.directory.inventory.WellFormed →
        (outcome (allocator.resolve date) session).1 = .error cause →
          session.store.Keeps (outcome (allocator.resolve date) session).2.store ∨
            ∃ entry, session.Loses date entry cause
              (outcome (allocator.resolve date) session).2 := by
  refine ⟨?_, fun store hopened => hopened.wellFormed, ?_⟩
  · intro session hwell herror
    have hresolves : session.Resolves date (outcome (allocator.resolve date) session).1
        (outcome (allocator.resolve date) session).2 := yields_resolve hwell allocator date
    rw [herror] at hresolves
    exact hresolves.store_eq
  · intro session hwell herror
    have hrefuses : session.Refuses date (outcome (allocator.resolve date) session).1
        (outcome (allocator.resolve date) session).2 := refuses_resolve hwell allocator date
    rwa [herror] at hrefuses

/-- An entry that is lost from a settled directory is used although it was given to no day. -/
theorem unassigned_of_loses {date : Day} {entry : PoolEntry} {cause : AllocationError}
    {next : Session DirectoryStore} (hloses : session.Loses date entry cause next)
    (hsettled : session.store.directory.inventory.Settled session.supply.moment) :
    next.store.directory.inventory.Used entry.equation ∧
      ¬next.store.directory.inventory.Assigned entry.equation := by
  have htakes := hloses.takes.inventory
  refine ⟨(htakes.used_iff entry.equation).mpr (Or.inl rfl), ?_⟩
  rw [Inventory.Assigned, htakes.findDaily?_eq]
  exact fun hassigned =>
    htakes.not_used hsettled.wellFormed ((hsettled.used_iff entry.equation).mpr hassigned)

/-! ## A day whose file is there already -/

section DailyFile

variable {entry : PoolEntry}

theorem claims_first (hwell : session.store.directory.inventory.WellFormed)
    (hfirst : session.store.directory.inventory.firstUnused? = some entry)
    (hpool : session.store.tree.Passable session.store.directory.root.pool)
    (hfile : session.store.tree.find? (session.store.directory.root.poolFile entry.id) ≠
      some .directory) (patience : Nat) :
    ∃ taken, outcome (claimEntry (patience + 1)) session = (.ok (some entry.claimed), taken) ∧
      session.store.Takes session.supply.moment entry.claimed taken.store ∧
      taken.supply.moment = session.supply.moment ∧
      session.store.tree.WrittenTo session.store.directory.root.pool (entry.id.text ++ ".yaml")
        entry.claimed.recordText taken.store.tree := by
  obtain ⟨position, hentry, hunused, hclaim, hclaimable⟩ := hwell.claim?_of_first hfirst
  obtain ⟨tree, hwrite, hwritten⟩ :=
    hpool.writeRecord (entry.id.text ++ ".yaml") entry.claimed.recordText false hfile
  have hmark := DirectoryStore.outcome_markUsed_of_some session.store hclaimable hwrite hclaim
  refine ⟨{ session with
    store := session.store.after tree (session.store.directory.inventory.markAt position entry) },
    ?_, ?_, rfl, hwritten⟩
  · rw [claimEntry, outcome_bind, outcome_require_findUnused, hfirst]
    simp only [outcome_bind, outcome_require, hmark, outcome_pure]
  · exact ⟨.claimed hfirst hentry hunused, rfl, gains_of_writeRecord hwrite⟩

/-- If a file that the inventory does not know of stands where the record of the day belongs, the
first unused entry is lost. -/
theorem loses_of_dailyFile (hwell : session.store.directory.inventory.WellFormed)
    (allocator : Allocator) {date : Day} {content : Content}
    (hnew : session.store.directory.inventory.findDaily? date = none)
    (hfirst : session.store.directory.inventory.firstUnused? = some entry)
    (hpool : session.store.tree.Passable session.store.directory.root.pool)
    (hentryFile : session.store.tree.find? (session.store.directory.root.poolFile entry.id) ≠
      some .directory)
    (hdaily : session.store.tree.Grounded session.store.directory.root.daily)
    (hdailyFile : session.store.tree.find? (session.store.directory.root.dailyFile date) =
      some (.file content)) :
    Yields (allocator.resolve date) session fun answer next =>
      answer = .error (.store (.duplicateDate date)) ∧
        session.Loses date entry.claimed (.store (.duplicateDate date)) next := by
  obtain ⟨taken, hclaimed, htakes, hmoment, hwritten⟩ :=
    claims_first hwell hfirst hpool hentryFile allocator.patience
  have hgrounded : taken.store.tree.Grounded session.store.directory.root.daily :=
    hwritten.grounded_apart (apart_pool_daily _) hdaily
  have hthere : taken.store.tree.find? (session.store.directory.root.dailyFile date) =
      some (.file content) := by
    have hother : session.store.directory.root.dailyFile date ≠
        session.store.directory.root.poolFile entry.claimed.id := by
      simp [Root.dailyFile, Root.poolFile, Root.daily, Root.pool, dailyName, poolName]
    rw [htakes.files, if_neg hother]
    exact hdailyFile
  obtain ⟨next, hrefused⟩ := writeRecord_of_some hgrounded hthere
    (DailyEquation.ofEntry (taken.supply.identifier taken.supply.issued)
      (taken.supply.moment taken.supply.issued) date entry.claimed).recordText
  have hloses := loses_assign hnew htakes hmoment (htakes.root_eq ▸ hrefused)
  have hcause : taken.store.directory.dailyRefusal date .alreadyExists = .duplicateDate date :=
    if_pos rfl
  rw [hcause] at hloses
  unfold resolve
  refine Yields.of_outcome (outcome_require_findDaily session date) ?_
  rw [hnew]
  refine Yields.of_outcome hclaimed ?_
  exact Yields.of_outcome (outcome_pure entry.claimed taken) hloses

end DailyFile

end Allocator

namespace DirectoryStore

open Directory

/-- The store of a directory in which one entry has been put, and another program has then written a
file for a day. -/
def overtaken (root : Root) (tree : FileTree) (entry : PoolEntry) (date : Day) : DirectoryStore :=
  let opened : DirectoryStore := ⟨⟨root, loadConfig root tree, Inventory.empty⟩, tree⟩
  let filled := (outcome (Store.insertPool [entry]) opened).2
  { filled with
    tree := (filled.tree.put root.daily .directory).put (root.dailyFile date) (.file (.text "")) }

section Overtaken

variable {root : Root} {tree : FileTree} (entry : PoolEntry) (date : Day)

theorem find?_overtaken (path : FilePath) :
    (overtaken root tree entry date).tree.find? path =
      if path = root.dailyFile date then some (.file (.text ""))
      else if path = root.daily then some .directory
      else (outcome (Store.insertPool [entry])
        (⟨⟨root, loadConfig root tree, Inventory.empty⟩, tree⟩ : DirectoryStore)).2.tree.find?
          path := by
  have hfile : root.dailyFile date ≠ [] := by simp [Root.dailyFile]
  have hfolder : root.daily ≠ [] := by simp [Root.daily]
  rw [overtaken, FileTree.find?_put hfile, FileTree.find?_put hfolder]

theorem poolTexts_filled : (Inventory.empty.push entry).poolTexts (entry.id.text ++ ".yaml")
    entry.recordText :=
  ⟨entry, by simp [Inventory.empty], rfl, rfl⟩

variable (hvacant : root.Vacant tree)

include hvacant

theorem represents_filled :
    Represents root (outcome (Store.insertPool [entry])
      (⟨⟨root, loadConfig root tree, Inventory.empty⟩, tree⟩ : DirectoryStore)).2
      (Inventory.empty.push entry) := by
  have hadmits : Inventory.empty.Admits [entry] := by
    constructor <;> simp [Inventory.empty]
  have hinsert := (Inventory.insertPool_eq_ok_iff _ _ _).mpr ⟨hadmits, rfl⟩
  have hfilled := (agrees_insertPool root [entry] _ _ (represents_of_vacant hvacant)).2
  rwa [Inventory.outcome_insertPool, hinsert] at hfilled

theorem grounded_pool_overtaken : (overtaken root tree entry date).tree.Grounded root.pool := by
  have hfilled := represents_filled entry hvacant
  intro ancestor hancestor
  have hfile : ancestor ≠ root.dailyFile date := by
    rintro rfl
    exact (apart_pool_daily root).2 ((List.prefix_append _ _).trans hancestor)
  have hfolder : ancestor ≠ root.daily := by
    rintro rfl
    exact (apart_pool_daily root).2 hancestor
  rw [find?_overtaken, if_neg hfile, if_neg hfolder]
  exact hfilled.mirrors.pool.grounded _ _ (poolTexts_filled entry) ancestor hancestor

theorem grounded_daily_overtaken : (overtaken root tree entry date).tree.Grounded root.daily := by
  intro ancestor hancestor
  rcases List.prefix_concat_iff.mp hancestor with rfl | hbelow
  · have hfile : root.path ++ [dailyName] ≠ root.dailyFile date := by
      simp [Root.dailyFile, Root.daily]
    rw [find?_overtaken, if_neg hfile]
    exact if_pos rfl
  · exact grounded_pool_overtaken entry date hvacant ancestor
      (hbelow.trans (List.prefix_append _ _))

theorem find?_poolFile_overtaken :
    (overtaken root tree entry date).tree.find? (root.poolFile entry.id) =
      some (.file (.text entry.recordText)) := by
  have hfilled := represents_filled entry hvacant
  have hfile : root.poolFile entry.id ≠ root.dailyFile date := by
    simp [Root.poolFile, Root.pool, Root.dailyFile, Root.daily, poolName, dailyName]
  have hfolder : root.poolFile entry.id ≠ root.daily := by
    simp [Root.poolFile, Root.pool, Root.daily]
  rw [find?_overtaken, if_neg hfile, if_neg hfolder]
  exact (hfilled.mirrors.pool.file_iff _ _).mpr ⟨_, poolTexts_filled entry, rfl⟩

theorem opened_overtaken : (overtaken root tree entry date).Opened := by
  have hcalled := (Opened.loaded hvacant.ofTree_eq).called (.insertPool [entry])
  rw [Store.answer, outcome_map] at hcalled
  exact hcalled.disturbed _

/-- The entry is lost when the day is asked for. -/
theorem loses_overtaken (hunused : entry.used = false) (allocator : Allocator) (supply : Supply) :
    let session : Session DirectoryStore := { store := overtaken root tree entry date, supply }
    session.store.directory.inventory = Inventory.empty.push entry ∧
      session.store.directory.inventory.WellFormed ∧
      Yields (allocator.resolve date) session fun answer next =>
        answer = .error (.store (.duplicateDate date)) ∧
          session.Loses date entry.claimed (.store (.duplicateDate date)) next := by
  intro session
  have hfilled := represents_filled entry hvacant
  have hinventory : session.store.directory.inventory = Inventory.empty.push entry :=
    hfilled.inventory_eq
  have hroot : session.store.directory.root = root := hfilled.root_eq
  have hwell : session.store.directory.inventory.WellFormed := by
    rw [hinventory]
    exact hfilled.wellFormed
  have hpool : session.store.tree.Grounded root.pool := grounded_pool_overtaken entry date hvacant
  have hdaily : session.store.tree.Grounded root.daily :=
    grounded_daily_overtaken entry date hvacant
  have hentryFile : session.store.tree.find? (root.poolFile entry.id) ≠ some .directory := by
    rw [find?_poolFile_overtaken entry date hvacant]
    simp
  have hdailyFile : session.store.tree.find? (root.dailyFile date) = some (.file (.text "")) := by
    rw [find?_overtaken, if_pos rfl]
  rw [← hroot] at hpool hdaily hentryFile hdailyFile
  refine ⟨hinventory, hwell, Allocator.loses_of_dailyFile hwell allocator ?_ ?_
    (fun ancestor hancestor => Or.inr (hpool ancestor hancestor)) hentryFile hdaily hdailyFile⟩
  · rw [hinventory]
    simp
  · rw [hwell.firstUnused?_eq, hinventory]
    simp [Inventory.empty, hunused]

end Overtaken

/-- A day is asked for whose file another program has written: the request is refused, and the one
entry of the pool is used although no day has an equation. -/
theorem resolve_overtaken_uses :
    let root : Root := ⟨"home/store", ["home", "store"]⟩
    let tree := (FileTree.empty.put ["home"] .directory).put ["home", "notes"] (.file (.text ""))
    let date : Day := ⟨2025, 3, 1, by decide⟩
    let entry : PoolEntry := {
      id := ⟨1⟩
      equation := ⟨#v[.digit 1, .digit 2, .operator .multiply, .digit 3, .operator .add, .digit 4],
        40, by decide, by decide +kernel⟩
      targetNumber := 40
      difficulty := .hard
      used := false
      created := ⟨date, 0, 0, by decide, by decide⟩ }
    let session : Session DirectoryStore :=
      { store := overtaken root tree entry date, supply := Supply.seeded 1 2 entry.created }
    let run := outcome (Allocator.resolve ⟨⟨1000⟩, 8⟩ date) session
    session.store.Opened ∧ session.store.directory.inventory.WellFormed ∧
      run.1 = .error (.store (.duplicateDate date)) ∧
      ¬session.store.directory.inventory.Used entry.equation ∧
      run.2.store.directory.inventory.Used entry.equation ∧
      ∀ day, run.2.store.directory.inventory.findDaily? day = none := by
  intro root tree date entry session run
  have hvacant : root.Vacant tree := Root.vacant_beside (by decide) _ _
  obtain ⟨hinventory, hwell, herror, hloses⟩ :=
    loses_overtaken entry date hvacant rfl ⟨⟨1000⟩, 8⟩ (Supply.seeded 1 2 entry.created)
  have htakes := hloses.takes.inventory
  have hopened := opened_overtaken entry date hvacant
  refine ⟨hopened, hwell, herror, htakes.not_used hwell, ?_, fun day => ?_⟩
  · exact (htakes.used_iff entry.equation).mpr (Or.inl rfl)
  · rw [htakes.findDaily?_eq, hinventory]
    simp

/-- Another such request, which is refused while an entry has been taken for it. -/
theorem resolve_overtaken_keeps_or_loses :
    let root : Root := ⟨"home/store", ["home", "store"]⟩
    let tree := (FileTree.empty.put ["home"] .directory).put ["home", "notes"] (.file (.text ""))
    let date : Day := ⟨2024, 12, 24, by decide⟩
    let entry : PoolEntry := {
      id := ⟨7⟩
      equation := ⟨#v[.digit 1, .operator .add, .digit 2, .operator .add, .digit 3, .digit 4],
        37, by decide, by decide +kernel⟩
      targetNumber := 37
      difficulty := .easy
      used := false
      created := ⟨date, 0, 0, by decide, by decide⟩ }
    let session : Session DirectoryStore :=
      { store := overtaken root tree entry date, supply := Supply.seeded 3 4 entry.created }
    let run := outcome (Allocator.resolve ⟨⟨0⟩, 0⟩ date) session
    let cause := AllocationError.store (.duplicateDate date)
    session.store.Opened ∧ session.store.directory.inventory.WellFormed ∧
      run.1 = .error cause ∧ (session.store.Keeps run.2.store ∨
        ∃ taken, session.Loses date taken cause run.2) := by
  intro root tree date entry session run cause
  have hvacant : root.Vacant tree := Root.vacant_beside (by decide) _ _
  obtain ⟨_, _, herror, _⟩ :=
    loses_overtaken entry date hvacant rfl ⟨⟨0⟩, 0⟩ (Supply.seeded 3 4 entry.created)
  have hopened := opened_overtaken entry date hvacant
  obtain ⟨_, hwell, hrefused⟩ := Allocator.resolve_error_keeps_or_loses ⟨⟨0⟩, 0⟩ date cause
  have hwell := hwell session.store hopened
  exact ⟨hopened, hwell, herror, hrefused session hwell herror⟩

end DirectoryStore

end EquationPuzzle
