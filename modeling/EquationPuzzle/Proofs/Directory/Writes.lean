import EquationPuzzle.Proofs.Directory.Mirror

/-!
# Directories on files that may be anything

Whatever stands below the root, a directory that is loaded has a well-formed inventory.  A record
that cannot be written leaves all files as they are, though directories may have been made for it,
and a record that is written is one file more.  A call of the store that fails to write its record
leaves the inventory as it is.
-/

namespace EquationPuzzle

namespace FileTree

/-- The same files stand in both trees.  The directories may differ. -/
def SameFiles (tree next : FileTree) : Prop :=
  ∀ path content, next.find? path = some (.file content) ↔ tree.find? path = some (.file content)

/-- The files are those of the tree and one text, which may have taken the place of another. -/
def Gains (tree : FileTree) (path : FilePath) (text : String) (next : FileTree) : Prop :=
  ∀ other content, next.find? other = some (.file content) ↔
    if other = path then content = .text text else tree.find? other = some (.file content)

/-- The trees differ at most in directories that the later one has on the way to a folder. -/
def Prepares (tree : FileTree) (folder : FilePath) (next : FileTree) : Prop :=
  ∀ path, next.find? path = tree.find? path ∨
    path <+: folder ∧ tree.find? path = none ∧ next.find? path = some .directory

section Files

variable {tree middle next : FileTree} {folder path : FilePath} {text : String}

theorem SameFiles.refl (tree : FileTree) : tree.SameFiles tree := fun _ _ => Iff.rfl

theorem SameFiles.gains (hsame : tree.SameFiles middle) (hgains : middle.Gains path text next) :
    tree.Gains path text next := by
  intro other content
  rw [hgains other content, hsame other content]

theorem Gains.sameFiles (hgains : tree.Gains path text middle) (hsame : middle.SameFiles next) :
    tree.Gains path text next := by
  intro other content
  rw [hsame other content, hgains other content]

theorem gains_put_file (hpath : path ≠ []) (text : String) :
    tree.Gains path text (tree.put path (.file (.text text))) := by
  intro other content
  rw [find?_put hpath]
  by_cases hother : other = path
  · simp [hother, eq_comm]
  · rw [if_neg hother, if_neg hother]

theorem Prepares.refl (tree : FileTree) (folder : FilePath) : tree.Prepares folder tree :=
  fun _ => Or.inl rfl

theorem Prepares.trans (hfirst : tree.Prepares folder middle)
    (hrest : middle.Prepares folder next) : tree.Prepares folder next := by
  intro path
  rcases hrest path with hsame | ⟨hpath, hnone, hmade⟩
  · rw [hsame]
    exact hfirst path
  · rcases hfirst path with hsame | ⟨_, _, hdirectory⟩
    · exact Or.inr ⟨hpath, hsame ▸ hnone, hmade⟩
    · rw [hnone] at hdirectory
      contradiction

theorem Prepares.find?_eq_some (hprepares : tree.Prepares folder next) {node : FileNode}
    (hnode : tree.find? path = some node) : next.find? path = some node := by
  rcases hprepares path with hsame | ⟨_, hnone, _⟩
  · rw [hsame, hnode]
  · rw [hnode] at hnone
    contradiction

theorem Prepares.find?_eq_none (hprepares : tree.Prepares folder next)
    (hnone : next.find? path = none) : tree.find? path = none := by
  rcases hprepares path with hsame | ⟨_, _, hmade⟩
  · rw [← hsame, hnone]
  · rw [hnone] at hmade
    contradiction

theorem Prepares.sameFiles (hprepares : tree.Prepares folder next) : tree.SameFiles next := by
  intro path content
  rcases hprepares path with hsame | ⟨_, hnone, hmade⟩
  · rw [hsame]
  · simp [hnone, hmade]

theorem prepares_makeAncestor {length : Nat} (hmade : makeAncestor folder tree length = .ok next) :
    tree.Prepares folder next := by
  unfold makeAncestor at hmade
  split at hmade
  · obtain rfl := Except.ok.inj hmade
    exact .refl tree folder
  · contradiction
  · next hnone =>
      obtain rfl := Except.ok.inj hmade
      have hancestor : folder.take (length + 1) ≠ [] := by
        intro hnil
        simp [hnil] at hnone
      intro path
      rw [find?_put hancestor]
      by_cases hpath : path = folder.take (length + 1)
      · rw [if_pos hpath, hpath]
        exact Or.inr ⟨List.take_prefix _ _, hnone, rfl⟩
      · exact Or.inl (if_neg hpath)

theorem prepares_makeAncestors {lengths : List Nat}
    (hmade : lengths.foldlM (makeAncestor folder) tree = .ok next) :
    tree.Prepares folder next := by
  induction lengths generalizing tree with
  | nil =>
      obtain rfl := Except.ok.inj hmade
      exact .refl tree folder
  | cons length lengths ih =>
      rw [List.foldlM_cons] at hmade
      cases hfirst : makeAncestor folder tree length with
      | error fault => simp [hfirst, bind, Except.bind] at hmade
      | ok middle =>
          rw [hfirst] at hmade
          exact (prepares_makeAncestor hfirst).trans (ih hmade)

theorem prepares_createDirectories (hmade : tree.createDirectories folder = .ok next) :
    tree.Prepares folder next :=
  prepares_makeAncestors hmade

theorem gains_createFile (hmade : tree.createFile path (.text text) = .ok next) :
    tree.Gains path text next := by
  unfold createFile at hmade
  cases hcheck : tree.checkAncestors path with
  | error fault => simp [hcheck, bind, Except.bind] at hmade
  | ok =>
      cases hfind : tree.find? path with
      | some node => simp [hcheck, hfind, bind, Except.bind] at hmade
      | none =>
          have hpath : path ≠ [] := by
            rintro rfl
            simp at hfind
          simp only [hcheck, hfind, bind, Except.bind, Except.ok.injEq] at hmade
          exact hmade ▸ gains_put_file hpath text

theorem gains_writeFile (hmade : tree.writeFile path (.text text) = .ok next) :
    tree.Gains path text next := by
  unfold writeFile at hmade
  cases hcheck : tree.checkAncestors path with
  | error fault => simp [hcheck, bind, Except.bind] at hmade
  | ok =>
      by_cases hfind : tree.find? path = some .directory
      · simp [hcheck, hfind, bind, Except.bind] at hmade
      · have hpath : path ≠ [] := by
          rintro rfl
          simp at hfind
        simp only [hcheck, bind, Except.bind, Except.ok.injEq] at hmade
        exact hmade ▸ gains_put_file hpath text

theorem WrittenTo.grounded_apart {folder other : FilePath} {name : String}
    (hwritten : tree.WrittenTo folder name text next) (hapart : Apart folder other)
    (hgrounded : tree.Grounded other) : next.Grounded other := by
  intro ancestor hancestor
  have hother : ancestor ≠ folder ++ [name] := by
    rintro rfl
    exact hapart.1 ((List.prefix_append _ _).trans hancestor)
  rw [hwritten, if_neg hother]
  by_cases hfolder : ancestor <+: folder
  · exact if_pos hfolder
  · rw [if_neg hfolder]
    exact hgrounded ancestor hancestor

end Files

end FileTree

namespace Directory

/-! ## Loading -/

theorem wellFormed_of_insertDaily {inventory next : Inventory} (hwell : inventory.WellFormed)
    {dailies : List DailyEquation}
    (hload : dailies.foldlM (fun inventory daily => load.adopt (inventory.insertDaily daily))
      inventory = .ok next) : next.WellFormed := by
  induction dailies generalizing inventory with
  | nil =>
      obtain rfl := Except.ok.inj hload
      exact hwell
  | cons first rest ih =>
      rw [List.foldlM_cons] at hload
      cases hinsert : inventory.insertDaily first with
      | error cause => simp [hinsert, load.adopt, bind, Except.bind] at hload
      | ok middle =>
          obtain ⟨_, rfl⟩ := (Inventory.insertDaily_eq_ok_iff inventory middle first).mp hinsert
          rw [hinsert] at hload
          exact ih (hwell.withDaily first) hload

theorem wellFormed_of_load {root : Root} {tree : FileTree} {poolFiles dailyFiles : List FilePath}
    {directory : Directory} (hload : load root tree poolFiles dailyFiles = .ok directory) :
    directory.inventory.WellFormed := by
  unfold load at hload
  dsimp only at hload
  generalize poolFiles.filterMap (poolRecordAt? tree) = entries at hload
  generalize dailyFiles.filterMap (dailyRecordAt? tree) = dailies at hload
  split at hload
  · contradiction
  cases hinsert : Inventory.empty.insertPool entries with
  | error cause => simp [hinsert, load.adopt, bind, Except.bind] at hload
  | ok filled =>
      obtain ⟨hadmits, rfl⟩ := (Inventory.insertPool_eq_ok_iff _ _ _).mp hinsert
      simp only [hinsert, load.adopt, bind, Except.bind] at hload
      split at hload
      · contradiction
      · next inventory hdailies =>
          obtain rfl := Except.ok.inj hload
          exact wellFormed_of_insertDaily (Inventory.wellFormed_empty.pushAll hadmits) hdailies

/-! ## Writing -/

section Write

variable {tree next : FileTree} {path : FilePath} {isNew : Bool} {text : String}

/-- A record that cannot be written leaves nothing behind but directories. -/
theorem prepares_of_writeRecord {fault : FileFault}
    (hwrite : writeRecord tree path isNew text = (.error fault, next)) :
    tree.Prepares path.dropLast next := by
  unfold writeRecord at hwrite
  cases hmade : tree.createDirectories path.dropLast with
  | error cause =>
      simp only [hmade, Prod.mk.injEq] at hwrite
      exact hwrite.2 ▸ .refl tree path.dropLast
  | ok made =>
      simp only [hmade] at hwrite
      split at hwrite
      · rw [← (Prod.mk.inj hwrite).2]
        exact FileTree.prepares_createDirectories hmade
      · simp at hwrite

theorem gains_of_writeRecord (hwrite : writeRecord tree path isNew text = (.ok (), next)) :
    tree.Gains path text next := by
  unfold writeRecord at hwrite
  cases hmade : tree.createDirectories path.dropLast with
  | error cause => simp [hmade] at hwrite
  | ok made =>
      have hsame := (FileTree.prepares_createDirectories hmade).sameFiles
      simp only [hmade] at hwrite
      split at hwrite
      · simp at hwrite
      · next written hwritten =>
          obtain rfl := (Prod.mk.inj hwrite).2
          cases isNew with
          | true => exact hsame.gains (FileTree.gains_createFile hwritten)
          | false => exact hsame.gains (FileTree.gains_writeFile hwritten)

/-- A new record is refused where something stands already. -/
theorem writeRecord_of_some {folder : FilePath} {name : String} {node : FileNode}
    (hgrounded : tree.Grounded folder) (hnode : tree.find? (folder ++ [name]) = some node)
    (text : String) :
    ∃ next, writeRecord tree (folder ++ [name]) true text = (.error .alreadyExists, next) := by
  have hpassable : tree.Passable folder := fun ancestor hancestor =>
    Or.inr (hgrounded ancestor hancestor)
  obtain ⟨made, hmade, hfind⟩ := hpassable.createDirectories
  have hmadeGrounded : made.Grounded folder := by
    intro ancestor hancestor
    rw [hfind, if_pos hancestor]
  have hthere := (FileTree.prepares_createDirectories hmade).find?_eq_some hnode
  refine ⟨made, ?_⟩
  rw [writeRecord, List.dropLast_concat, hmade]
  simp only [if_true, FileTree.createFile, hmadeGrounded.checkAncestors, hthere]
  rfl

end Write

/-- The error with which a daily equation is refused if its record cannot be written. -/
def dailyRefusal (directory : Directory) (date : Day) (fault : FileFault) : StoreError :=
  if fault = .alreadyExists then .duplicateDate date
  else directory.inaccessible (directory.root.dailyFile date) fault

end Directory

namespace DirectoryStore

open Directory

section Faults

variable (store : DirectoryStore) {tree : FileTree} {fault : FileFault}

theorem outcome_insertDaily_of_fault {daily : DailyEquation}
    (hnew : store.directory.inventory.findDaily? daily.date = none)
    (hwrite : writeRecord store.tree (store.directory.root.dailyFile daily.date) true
      daily.recordText = (.error fault, tree)) :
    outcome (Store.insertDaily daily) store =
      (.error (store.directory.dailyRefusal daily.date fault), { store with tree }) := by
  have hconflict : store.directory.inventory.dailyConflict? daily = none := by
    simpa [Inventory.findDaily?_eq_none_iff, Inventory.dailyConflict?] using hnew
  change outcome (DirectoryStore.insertDaily daily) store = _
  unfold DirectoryStore.insertDaily
  rw [outcome_bind]
  simp only [outcome_get, hconflict, hwrite, dailyRefusal]
  cases fault <;> rfl

theorem outcome_markUsed_of_fault {id : Identifier} {claimed : PoolEntry}
    (hclaimable : store.directory.inventory.claimable? id = some claimed)
    (hwrite : writeRecord store.tree (store.directory.root.poolFile id) false
      claimed.recordText = (.error fault, tree)) :
    outcome (Store.markUsed id) store =
      (.error (store.directory.inaccessible (store.directory.root.poolFile id) fault),
        { store with tree }) := by
  change outcome (DirectoryStore.markUsed id) store = _
  unfold DirectoryStore.markUsed
  rw [outcome_bind]
  simp only [outcome_get, hclaimable, hwrite]
  rfl

/-- An entry that is claimed once its file has been written is not refused. -/
theorem outcome_markUsed_of_ok {id : Identifier} {claimed : PoolEntry}
    (hclaimable : store.directory.inventory.claimable? id = some claimed)
    (hwrite : writeRecord store.tree (store.directory.root.poolFile id) false
      claimed.recordText = (.ok (), tree)) :
    ∃ answer inventory,
      outcome (Store.markUsed id) store = (.ok answer, store.after tree inventory) := by
  cases hclaim : store.directory.inventory.claim? id with
  | some result =>
      obtain ⟨entry, next⟩ := result
      refine ⟨some entry, next, ?_⟩
      change outcome (DirectoryStore.markUsed id) store = _
      unfold DirectoryStore.markUsed
      rw [outcome_bind]
      simp only [outcome_get, hclaimable, hwrite, hclaim]
      rfl
  | none =>
      refine ⟨none, store.directory.inventory, ?_⟩
      change outcome (DirectoryStore.markUsed id) store = _
      unfold DirectoryStore.markUsed
      rw [outcome_bind]
      simp only [outcome_get, hclaimable, hwrite, hclaim]
      rfl

theorem outcome_insertPool_of_fault {batch : List PoolEntry} {written : List FilePath}
    {path : FilePath} (hconflict : store.directory.inventory.poolConflict? batch = none)
    (hwrite : writeBatch store.directory.root store.tree batch =
      (written, some (path, fault), tree)) :
    outcome (Store.insertPool batch) store =
      (.error (store.directory.inaccessible path fault),
        { store with tree := removeFiles tree written }) := by
  change outcome (DirectoryStore.insertPool batch) store = _
  unfold DirectoryStore.insertPool
  rw [outcome_bind]
  simp only [outcome_get, hconflict, hwrite]
  rfl

end Faults

end DirectoryStore

end EquationPuzzle
