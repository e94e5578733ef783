import EquationPuzzle.Proofs.Directory.Writes

/-!
# Calls that fail leave the files as they were

A call of a store in a directory that fails has changed no record, in memory or in a file, whatever
stands below the root.  A batch is written file by file, and all its entries are tried.  Only paths
at which nothing stood are written to, and if a single entry could not be written, exactly those
files are removed again.  What may remain are directories on the way to the records.
-/

namespace EquationPuzzle

namespace FileTree

/-! ## Files that are added -/

/-- New files stand at the given paths of a folder, and nothing else has changed but directories on
the way to it. -/
structure Adds (tree : FileTree) (folder : FilePath) (paths : List FilePath) (next : FileTree) :
    Prop where
  nodup : paths.Nodup
  inside : ∀ path ∈ paths, ∃ name, path = folder ++ [name]
  grounded : paths ≠ [] → next.Grounded folder
  new : ∀ path ∈ paths, tree.find? path = none
  file : ∀ path ∈ paths, ∃ content, next.find? path = some (.file content)
  other : ∀ path ∉ paths, next.find? path = tree.find? path ∨
    path <+: folder ∧ tree.find? path = none ∧ next.find? path = some .directory

section Adds

variable {tree middle next : FileTree} {folder path : FilePath} {paths more : List FilePath}

theorem adds_nil_iff : tree.Adds folder [] next ↔ tree.Prepares folder next := by
  constructor
  · exact fun hadds path => hadds.other path (by simp)
  · exact fun hprepares =>
      ⟨.nil, by simp, by simp, by simp, by simp, fun path _ => hprepares path⟩

theorem Adds.find?_eq_some (hadds : tree.Adds folder paths next) {node : FileNode}
    (hnode : tree.find? path = some node) : next.find? path = some node := by
  have hold : path ∉ paths := by
    intro hmem
    rw [hadds.new path hmem] at hnode
    contradiction
  rcases hadds.other path hold with hsame | ⟨_, hnone, _⟩
  · rw [hsame, hnode]
  · rw [hnode] at hnone
    contradiction

theorem Adds.find?_eq_none (hadds : tree.Adds folder paths next)
    (hnone : next.find? path = none) : path ∉ paths ∧ tree.find? path = none := by
  have hold : path ∉ paths := by
    intro hmem
    obtain ⟨content, hfile⟩ := hadds.file path hmem
    rw [hnone] at hfile
    contradiction
  refine ⟨hold, ?_⟩
  rcases hadds.other path hold with hsame | ⟨_, hnone, _⟩
  · rw [← hsame, hnone]
  · exact hnone

theorem Adds.trans (hfirst : tree.Adds folder paths middle)
    (hrest : middle.Adds folder more next) : tree.Adds folder (paths ++ more) next where
  nodup := by
    refine List.nodup_append.mpr ⟨hfirst.nodup, hrest.nodup, fun path hpath other hother => ?_⟩
    rintro rfl
    exact (hfirst.find?_eq_none (hrest.new path hother)).1 hpath
  inside path hpath := (List.mem_append.mp hpath).elim (hfirst.inside path) (hrest.inside path)
  grounded hnonempty := by
    by_cases hmore : more = []
    · subst hmore
      have hgrounded := hfirst.grounded (by simpa using hnonempty)
      exact fun ancestor hancestor => hrest.find?_eq_some (hgrounded ancestor hancestor)
    · exact hrest.grounded hmore
  new path hpath := by
    rcases List.mem_append.mp hpath with hpath | hpath
    · exact hfirst.new path hpath
    · exact (hfirst.find?_eq_none (hrest.new path hpath)).2
  file path hpath := by
    rcases List.mem_append.mp hpath with hpath | hpath
    · obtain ⟨content, hfile⟩ := hfirst.file path hpath
      exact ⟨content, hrest.find?_eq_some hfile⟩
    · exact hrest.file path hpath
  other path hpath := by
    rw [List.mem_append, not_or] at hpath
    rcases hrest.other path hpath.2 with hsame | ⟨hfolder, hnone, hmade⟩
    · rw [hsame]
      exact hfirst.other path hpath.1
    · exact Or.inr ⟨hfolder, (hfirst.find?_eq_none hnone).2, hmade⟩

theorem find?_erase (hpath : path ≠ []) (other : FilePath) :
    (⟨tree.nodes.erase path⟩ : FileTree).find? other =
      if other = path then none else tree.find? other := by
  by_cases hother : other = []
  · subst hother
    rw [if_neg hpath.symm]
    rfl
  · simp only [find?, if_neg hother, Std.HashMap.getElem?_erase, beq_iff_eq]
    simp only [eq_comm]

/-- A file that has been added can be removed, and then it is as if it had never been. -/
theorem Adds.removeFile (hadds : tree.Adds folder (path :: paths) next) :
    ∃ fewer, next.removeFile path = .ok fewer ∧ tree.Adds folder paths fewer := by
  obtain ⟨name, rfl⟩ := hadds.inside path (List.mem_cons_self ..)
  obtain ⟨content, hfile⟩ := hadds.file _ (List.mem_cons_self ..)
  have hgrounded := hadds.grounded (by simp)
  have hfind := @find?_erase next (folder ++ [name]) (by simp)
  obtain ⟨hnew, hnodup⟩ := List.nodup_cons.mp hadds.nodup
  refine ⟨⟨next.nodes.erase (folder ++ [name])⟩, ?_, hnodup, ?_, ?_, ?_, ?_, ?_⟩
  · rw [FileTree.removeFile, hgrounded.checkAncestors, hfile]
    rfl
  · exact fun other hother => hadds.inside other (List.mem_cons_of_mem _ hother)
  · intro _ ancestor hancestor
    have hne : ancestor ≠ folder ++ [name] := by
      rintro rfl
      exact not_prefix_of_below (by simp) hancestor
    rw [hfind, if_neg hne]
    exact hgrounded ancestor hancestor
  · exact fun other hother => hadds.new other (List.mem_cons_of_mem _ hother)
  · intro other hother
    have hne : other ≠ folder ++ [name] := by
      rintro rfl
      exact hnew hother
    rw [hfind, if_neg hne]
    exact hadds.file other (List.mem_cons_of_mem _ hother)
  · intro other hother
    by_cases hsame : other = folder ++ [name]
    · rw [hfind, if_pos hsame, hsame, hadds.new _ (List.mem_cons_self ..)]
      exact Or.inl rfl
    · rw [hfind, if_neg hsame]
      exact hadds.other other (by simp [hsame, hother])

end Adds

end FileTree

namespace Directory

section Write

variable {tree next : FileTree} {folder : FilePath} {name text : String}

theorem adds_of_writeRecord
    (hwrite : writeRecord tree (folder ++ [name]) true text = (.ok (), next)) :
    tree.Adds folder [folder ++ [name]] next := by
  rw [writeRecord, List.dropLast_concat] at hwrite
  cases hmade : tree.createDirectories folder with
  | error cause => simp [hmade] at hwrite
  | ok made =>
      have hprepares := FileTree.prepares_createDirectories hmade
      simp only [hmade, if_true, FileTree.createFile] at hwrite
      cases hcheck : made.checkAncestors (folder ++ [name]) with
      | error cause => simp [hcheck, bind, Except.bind] at hwrite
      | ok =>
          have hgrounded := (FileTree.checkAncestors_eq_ok_iff folder name).mp hcheck
          cases hfind : made.find? (folder ++ [name]) with
          | some node => simp [hcheck, hfind, bind, Except.bind] at hwrite
          | none =>
              simp only [hcheck, hfind, bind, Except.bind, Prod.mk.injEq, true_and] at hwrite
              have hnext := @FileTree.find?_put made (folder ++ [name]) (by simp)
                (.file (.text text))
              rw [hwrite] at hnext
              refine ⟨List.nodup_singleton _, by simp, fun _ ancestor hancestor => ?_, ?_, ?_, ?_⟩
              · have hne : ancestor ≠ folder ++ [name] := by
                  rintro rfl
                  exact FileTree.not_prefix_of_below (by simp) hancestor
                rw [hnext, if_neg hne]
                exact hgrounded ancestor hancestor
              · simpa using hprepares.find?_eq_none hfind
              · simp [hnext]
              · intro path hpath
                rw [hnext, if_neg (by simpa using hpath)]
                exact hprepares path

end Write

/-! ## Batches -/

/-- Whatever becomes of the entries of a batch, the files that have been written are new. -/
theorem adds_writeBatch (root : Root) (tree : FileTree) (batch : List PoolEntry) :
    tree.Adds root.pool (writeBatch root tree batch).1 (writeBatch root tree batch).2.2 := by
  induction batch generalizing tree with
  | nil => exact FileTree.adds_nil_iff.mpr (.refl tree root.pool)
  | cons entry rest ih =>
      rcases hwrite : writeRecord tree (root.poolFile entry.id) true entry.recordText with
        ⟨fault | _, middle⟩
      · have hprepares := prepares_of_writeRecord hwrite
        rw [Root.poolFile, List.dropLast_concat] at hprepares
        have hrest := (FileTree.adds_nil_iff.mpr hprepares).trans (ih middle)
        simpa only [writeBatch, hwrite, List.nil_append] using hrest
      · have hadds : tree.Adds root.pool [root.poolFile entry.id] middle :=
          adds_of_writeRecord hwrite
        have hrest := hadds.trans (ih middle)
        simpa only [writeBatch, hwrite, List.singleton_append] using hrest

/-- If nothing failed, a file has been written for each entry. -/
theorem writeBatch_eq_map {root : Root} {tree : FileTree} {batch : List PoolEntry}
    (hnone : (writeBatch root tree batch).2.1 = none) :
    (writeBatch root tree batch).1 = batch.map (root.poolFile ·.id) := by
  induction batch generalizing tree with
  | nil => rfl
  | cons entry rest ih =>
      rcases hwrite : writeRecord tree (root.poolFile entry.id) true entry.recordText with
        ⟨fault | _, middle⟩
      · simp [writeBatch, hwrite] at hnone
      · simp only [writeBatch, hwrite] at hnone ⊢
        rw [ih hnone, List.map_cons]

/-- Files that have been added are all removed again. -/
theorem prepares_removeFiles {tree next : FileTree} {folder : FilePath} {paths : List FilePath}
    (hadds : tree.Adds folder paths next) : tree.Prepares folder (removeFiles next paths) := by
  induction paths generalizing next with
  | nil => exact FileTree.adds_nil_iff.mp hadds
  | cons path paths ih =>
      obtain ⟨fewer, hremove, hfewer⟩ := hadds.removeFile
      rw [removeFiles, List.foldl_cons, hremove]
      exact ih hfewer

/-- Files that were written for a batch are removed again: all that are new, and no others. -/
structure Withdraws (tree made : FileTree) (written : List FilePath) (after : FileTree) : Prop where
  new : ∀ path ∈ written, tree.find? path = none
  mem_written : ∀ path content, made.find? path = some (.file content) →
    path ∈ written ∨ tree.find? path = some (.file content)
  removed : ∀ path ∈ written, after.find? path = none
  sameFiles : tree.SameFiles after

theorem withdraws_writeBatch (root : Root) (tree : FileTree) (batch : List PoolEntry) :
    Withdraws tree (writeBatch root tree batch).2.2 (writeBatch root tree batch).1
      (removeFiles (writeBatch root tree batch).2.2 (writeBatch root tree batch).1) := by
  have hadds := adds_writeBatch root tree batch
  have hprepares := prepares_removeFiles hadds
  refine ⟨hadds.new, fun path content hfile => ?_, fun path hpath => ?_, hprepares.sameFiles⟩
  · refine or_iff_not_imp_left.mpr fun hpath => ?_
    rcases hadds.other path hpath with hsame | ⟨_, _, hdirectory⟩
    · rw [← hsame, hfile]
    · simp [hfile] at hdirectory
  · rcases hprepares path with hsame | ⟨hfolder, _, _⟩
    · rw [hsame, hadds.new path hpath]
    · obtain ⟨name, rfl⟩ := hadds.inside path hpath
      exact (FileTree.not_prefix_of_below (by simp) hfolder).elim

end Directory

namespace DirectoryStore

open Directory

/-! ## Calls -/

/-- No record has changed, in memory or in a file.  At most directories have been made on the way to
the records. -/
structure Untouched (store after : DirectoryStore) : Prop where
  directory_eq : after.directory = store.directory
  sameFiles : store.tree.SameFiles after.tree
  made : ∀ path, after.tree.find? path = store.tree.find? path ∨
    (path <+: store.directory.root.pool ∨ path <+: store.directory.root.daily) ∧
      store.tree.find? path = none ∧ after.tree.find? path = some .directory

section Calls

variable {store after : DirectoryStore} {cause : StoreError}

theorem Untouched.refl (store : DirectoryStore) : store.Untouched store :=
  ⟨rfl, .refl store.tree, fun _ => Or.inl rfl⟩

theorem untouched_of_prepares {tree : FileTree} {folder : FilePath}
    (hprepares : store.tree.Prepares folder tree)
    (hfolder : folder = store.directory.root.pool ∨ folder = store.directory.root.daily) :
    store.Untouched { store with tree } := by
  refine ⟨rfl, hprepares.sameFiles, fun path => (hprepares path).imp_right ?_⟩
  rintro ⟨hpath, hmade⟩
  rcases hfolder with rfl | rfl
  · exact ⟨Or.inl hpath, hmade⟩
  · exact ⟨Or.inr hpath, hmade⟩

theorem untouched_insertDaily {daily : DailyEquation}
    (hfailed : outcome (Store.insertDaily daily) store = (.error cause, after)) :
    store.Untouched after := by
  cases hconflict : store.directory.inventory.dailyConflict? daily with
  | some conflict =>
      rw [outcome_insertDaily_of_conflict store hconflict] at hfailed
      exact (Prod.mk.inj hfailed).2 ▸ .refl store
  | none =>
      have hnew : store.directory.inventory.findDaily? daily.date = none := by
        simpa [Inventory.findDaily?_eq_none_iff, Inventory.dailyConflict?] using hconflict
      rcases hwrite : writeRecord store.tree (store.directory.root.dailyFile daily.date) true
        daily.recordText with ⟨fault | _, tree⟩
      · rw [outcome_insertDaily_of_fault store hnew hwrite] at hfailed
        have hprepares := prepares_of_writeRecord hwrite
        rw [Root.dailyFile, List.dropLast_concat] at hprepares
        exact (Prod.mk.inj hfailed).2 ▸ untouched_of_prepares hprepares (Or.inr rfl)
      · have hinsert := (Inventory.insertDaily_eq_ok_iff _ _ daily).mpr ⟨hnew, rfl⟩
        rw [outcome_insertDaily_of_ok store hwrite hinsert] at hfailed
        simp at hfailed

theorem untouched_markUsed {id : Identifier}
    (hfailed : outcome (Store.markUsed id) store = (.error cause, after)) :
    store.Untouched after := by
  cases hclaimable : store.directory.inventory.claimable? id with
  | none =>
      rw [outcome_markUsed_of_none store hclaimable] at hfailed
      simp at hfailed
  | some claimed =>
      rcases hwrite : writeRecord store.tree (store.directory.root.poolFile id) false
        claimed.recordText with ⟨fault | _, tree⟩
      · rw [outcome_markUsed_of_fault store hclaimable hwrite] at hfailed
        have hprepares := prepares_of_writeRecord hwrite
        rw [Root.poolFile, List.dropLast_concat] at hprepares
        exact (Prod.mk.inj hfailed).2 ▸ untouched_of_prepares hprepares (Or.inl rfl)
      · obtain ⟨answer, next, hmarked⟩ := outcome_markUsed_of_ok store hclaimable hwrite
        rw [hmarked] at hfailed
        simp at hfailed

/-- A batch is refused before anything is written, or all that was written for it is withdrawn. -/
theorem insertPool_error_cases {batch : List PoolEntry}
    (hfailed : outcome (Store.insertPool batch) store = (.error cause, after)) :
    after = store ∨ ∃ written failure made,
      writeBatch store.directory.root store.tree batch = (written, some failure, made) ∧
        after = { store with tree := removeFiles made written } := by
  cases hconflict : store.directory.inventory.poolConflict? batch with
  | some conflict =>
      rw [outcome_insertPool_of_conflict store hconflict] at hfailed
      exact Or.inl (Prod.mk.inj hfailed).2.symm
  | none =>
      rcases hwrite : writeBatch store.directory.root store.tree batch with
        ⟨written, _ | ⟨path, fault⟩, made⟩
      · have hadmits := (Inventory.poolConflict?_eq_none_iff _ _).mp hconflict
        have hinsert := (Inventory.insertPool_eq_ok_iff _ _ _).mpr ⟨hadmits, rfl⟩
        rw [outcome_insertPool_of_ok store hconflict hwrite hinsert] at hfailed
        simp at hfailed
      · rw [outcome_insertPool_of_fault store hconflict hwrite] at hfailed
        exact Or.inr ⟨written, (path, fault), made, rfl, (Prod.mk.inj hfailed).2.symm⟩

theorem untouched_insertPool {batch : List PoolEntry}
    (hfailed : outcome (Store.insertPool batch) store = (.error cause, after)) :
    store.Untouched after := by
  rcases insertPool_error_cases hfailed with hsame | ⟨written, failure, made, hwrite, rfl⟩
  · exact hsame ▸ .refl store
  · have hadds := adds_writeBatch store.directory.root store.tree batch
    rw [hwrite] at hadds
    exact untouched_of_prepares (prepares_removeFiles hadds) (Or.inl rfl)

/-- A batch fails if anything stands in the place of one of its files. -/
theorem outcome_insertPool_of_occupied {batch : List PoolEntry} {entry : PoolEntry}
    {node : FileNode} (hadmits : store.directory.inventory.Admits batch) (hentry : entry ∈ batch)
    (hnode : store.tree.find? (store.directory.root.poolFile entry.id) = some node) :
    ∃ path fault next, outcome (Store.insertPool batch) store =
      (.error (store.directory.inaccessible path fault), next) := by
  have hconflict := (Inventory.poolConflict?_eq_none_iff _ _).mpr hadmits
  have hadds := adds_writeBatch store.directory.root store.tree batch
  rcases hwrite : writeBatch store.directory.root store.tree batch with
    ⟨written, _ | ⟨path, fault⟩, made⟩
  · have hmap := writeBatch_eq_map (congrArg (·.2.1) hwrite)
    have hmem := List.mem_map_of_mem (f := (store.directory.root.poolFile ·.id)) hentry
    rw [← hmap] at hmem
    simp [hadds.new _ hmem] at hnode
  · exact ⟨path, fault, _, outcome_insertPool_of_fault store hconflict hwrite⟩

/-- A call fails as the operation it stands for does. -/
theorem outcome_map_eq_error_iff {σ α β : Type} (f : α → β) (x : StoreM σ α) (s after : σ)
    (cause : StoreError) :
    outcome (f <$> x) s = (.error cause, after) ↔ outcome x s = (.error cause, after) := by
  rw [outcome_map]
  rcases outcome x s with ⟨error | answer, next⟩ <;> simp [Except.map]

/-- Whatever files stand below the root, a call that fails has changed no record.  In particular, of
a batch that was written in part exactly the new files are removed again. -/
theorem untouched_of_error (store after : DirectoryStore) (call : Store.Call) (cause : StoreError)
    (hfailed : outcome (Store.answer call) store = (.error cause, after)) :
    store.Untouched after ∧ ∀ batch, call = .insertPool batch → after = store ∨
      ∃ written failure made,
        writeBatch store.directory.root store.tree batch = (written, some failure, made) ∧
          after.tree = removeFiles made written ∧
            Withdraws store.tree made written after.tree := by
  constructor
  · cases call with
    | insertDaily daily =>
        exact untouched_insertDaily ((outcome_map_eq_error_iff _ _ _ _ _).mp hfailed)
    | markUsed id => exact untouched_markUsed ((outcome_map_eq_error_iff _ _ _ _ _).mp hfailed)
    | insertPool batch =>
        exact untouched_insertPool ((outcome_map_eq_error_iff _ _ _ _ _).mp hfailed)
    | _ =>
        -- The other calls only read the inventory.
        have hread := (outcome_map_eq_error_iff _ _ _ _ _).mp hfailed
        cases congrArg Prod.fst hread
  · rintro batch rfl
    refine (insertPool_error_cases ((outcome_map_eq_error_iff _ _ _ _ _).mp hfailed)).imp_right ?_
    rintro ⟨written, failure, made, hwrite, rfl⟩
    have hwithdraws := withdraws_writeBatch store.directory.root store.tree batch
    rw [hwrite] at hwithdraws
    exact ⟨written, failure, made, hwrite, rfl, hwithdraws⟩

end Calls

/-- A batch whose last file is kept from being written by a directory in its place. -/
theorem untouched_of_occupied :
    let root : Root := ⟨"store", ["store"]⟩
    let created : Timestamp := ⟨⟨2023, 7, 14, by decide⟩, 43200, 0, by decide, by decide⟩
    let first : PoolEntry := {
      id := ⟨1⟩
      equation := ⟨#v[.digit 7, .digit 2, .operator .divide, .digit 8, .operator .add, .digit 5],
        14, by decide, by decide +kernel⟩
      targetNumber := 14
      difficulty := .hard
      used := false
      created := created }
    let last : PoolEntry := { first with
      id := ⟨2⟩
      equation := ⟨#v[.digit 5, .operator .add, .digit 7, .digit 2, .operator .divide, .digit 8],
        14, by decide, by decide +kernel⟩ }
    let tree := ((FileTree.empty.put ["store"] .directory).put root.pool .directory).put
      (root.poolFile last.id) .directory
    let store : DirectoryStore := ⟨⟨root, Config.default, Inventory.empty⟩, tree⟩
    ∃ cause after,
      outcome (Store.answer (.insertPool [first, last])) store = (.error cause, after) ∧
        store.Untouched after ∧ ∀ batch, Store.Call.insertPool [first, last] = .insertPool batch →
          after = store ∨ ∃ written failure made,
            writeBatch root tree batch = (written, some failure, made) ∧
              after.tree = removeFiles made written ∧ Withdraws tree made written after.tree := by
  intro root created first last tree store
  have hadmits : store.directory.inventory.Admits [first, last] := by
    refine ⟨by decide, by decide, ?_, ?_⟩ <;> simp [store, Inventory.empty]
  have hoccupied : store.tree.find? (root.poolFile last.id) = some .directory :=
    (FileTree.find?_put (by simp [Root.poolFile]) _ _).trans (if_pos rfl)
  obtain ⟨path, fault, after, hinsert⟩ :=
    outcome_insertPool_of_occupied hadmits (by simp) hoccupied
  have hfailed : outcome (Store.answer (.insertPool [first, last])) store = _ :=
    (outcome_map_eq_error_iff _ _ _ _ _).mpr hinsert
  exact ⟨_, after, hfailed, untouched_of_error store after _ _ hfailed⟩

end DirectoryStore

end EquationPuzzle
