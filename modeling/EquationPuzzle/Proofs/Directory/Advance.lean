import EquationPuzzle.Proofs.Directory.Rollback

/-!
# What the calls of a store may do to its files

Whatever stands below the root, and whatever a store remembers of it, a call of the store removes or
overwrites nothing but files of the pool, and makes new files in the two folders of records only.
So a daily record stays once it is written, and no file ever comes into the way of the folders.
Where a record cannot be written, the fault tells what stands in its way.
-/

namespace EquationPuzzle

namespace FileTree

section Folders

variable {tree next : FileTree} {folder : FilePath}

theorem passable_iff_forall_ne_file :
    tree.Passable folder ↔
      ∀ ancestor content, ancestor <+: folder → tree.find? ancestor ≠ some (.file content) := by
  constructor
  · intro hpassable ancestor content hancestor hfile
    rcases hpassable ancestor hancestor with hnone | hdirectory
    · simp [hnone] at hfile
    · simp [hdirectory] at hfile
  · intro hall ancestor hancestor
    rcases hnode : tree.find? ancestor with _ | content | _
    · exact Or.inl rfl
    · exact absurd hnode (hall ancestor content hancestor)
    · exact Or.inr rfl

/-- Where the directories on the way to a path cannot be made, a file is in the place of one. -/
theorem file_of_makeAncestors {lengths : List Nat} {fault : FileFault}
    (hfailed : lengths.foldlM (makeAncestor folder) tree = .error fault) :
    ∃ length ∈ lengths, ∃ content, tree.find? (folder.take (length + 1)) = some (.file content) ∧
      fault = if folder.take (length + 1) = folder then .alreadyExists else .notADirectory := by
  induction lengths generalizing tree with
  | nil => contradiction
  | cons length lengths ih =>
      rw [List.foldlM_cons] at hfailed
      cases hfirst : makeAncestor folder tree length with
      | error cause =>
          rw [hfirst] at hfailed
          have hfault : cause = fault := Except.error.inj hfailed
          subst cause
          unfold makeAncestor at hfirst
          split at hfirst
          · contradiction
          · next content hfile =>
              exact ⟨length, List.mem_cons_self .., content, hfile, (Except.error.inj hfirst).symm⟩
          · contradiction
      | ok middle =>
          rw [hfirst] at hfailed
          obtain ⟨other, hother, content, hfile, hfault⟩ := ih hfailed
          have hsame := (prepares_makeAncestor hfirst).sameFiles
          exact ⟨other, List.mem_cons_of_mem _ hother, content, (hsame _ _).mp hfile, hfault⟩

theorem directory_of_makeAncestor {length : Nat}
    (hmade : makeAncestor folder tree length = .ok next) :
    next.find? (folder.take (length + 1)) = some .directory := by
  unfold makeAncestor at hmade
  split at hmade
  · next hdirectory => rw [← Except.ok.inj hmade, hdirectory]
  · contradiction
  · next hnone =>
      have hancestor : folder.take (length + 1) ≠ [] := by
        intro hnil
        simp [hnil] at hnone
      rw [← Except.ok.inj hmade, find?_put hancestor, if_pos rfl]

theorem directory_of_makeAncestors {lengths : List Nat}
    (hmade : lengths.foldlM (makeAncestor folder) tree = .ok next) :
    ∀ length ∈ lengths, next.find? (folder.take (length + 1)) = some .directory := by
  induction lengths generalizing tree with
  | nil => simp
  | cons first lengths ih =>
      rw [List.foldlM_cons] at hmade
      cases hfirst : makeAncestor folder tree first with
      | error fault => simp [hfirst, bind, Except.bind] at hmade
      | ok middle =>
          rw [hfirst] at hmade
          intro length hlength
          rcases List.mem_cons.mp hlength with hsame | hrest
          · subst length
            exact (prepares_makeAncestors hmade).find?_eq_some (directory_of_makeAncestor hfirst)
          · exact ih hmade length hrest

theorem grounded_of_makeAncestors {count : Nat} (hcount : count ≤ folder.length)
    (hmade : (List.range count).foldlM (makeAncestor folder) tree = .ok next) :
    next.Grounded (folder.take count) := by
  intro ancestor hancestor
  have htake := List.prefix_iff_eq_take.mp (hancestor.trans (List.take_prefix _ _))
  have hbound := hancestor.length_le
  rw [List.length_take_of_le hcount] at hbound
  cases hlength : ancestor.length with
  | zero => simp [List.length_eq_zero_iff.mp hlength]
  | succ length =>
      rw [htake, hlength]
      exact directory_of_makeAncestors hmade length (List.mem_range.mpr (by omega))

theorem grounded_of_createDirectories (hmade : tree.createDirectories folder = .ok next) :
    next.Grounded folder := by
  have hgrounded := grounded_of_makeAncestors le_rfl hmade
  rwa [List.take_length] at hgrounded

/-- No file was in the way of directories that are there now. -/
theorem Prepares.passable {other : FilePath} (hprepares : tree.Prepares folder next)
    (hgrounded : next.Grounded other) : tree.Passable other := by
  rw [passable_iff_forall_ne_file]
  intro ancestor content hancestor hfile
  have hdirectory := hgrounded ancestor hancestor
  simp [hprepares.find?_eq_some hfile] at hdirectory

theorem passable_concat_iff {parent : FilePath} {name : String} :
    tree.Passable (parent ++ [name]) ↔
      tree.Passable parent ∧ ∀ content, tree.find? (parent ++ [name]) ≠ some (.file content) := by
  rw [passable_iff_forall_ne_file, passable_iff_forall_ne_file]
  constructor
  · intro hall
    refine ⟨fun ancestor content hancestor => ?_, fun content => hall _ content List.prefix_rfl⟩
    exact hall ancestor content (hancestor.trans (List.prefix_append _ _))
  · rintro ⟨hparent, hfolder⟩ ancestor content hancestor
    rcases List.prefix_concat_iff.mp hancestor with rfl | hancestor
    · exact hfolder content
    · exact hparent ancestor content hancestor

/-- The fault with which a directory cannot be made tells whether a file is in its own place or in
the place of one that leads to it. -/
theorem createDirectories_error_cases {parent : FilePath} {name : String} {fault : FileFault}
    (hfailed : tree.createDirectories (parent ++ [name]) = .error fault) :
    (fault = .alreadyExists ∧ tree.Passable parent ∧
        ∃ content, tree.find? (parent ++ [name]) = some (.file content)) ∨
      fault = .notADirectory ∧ ¬tree.Passable parent := by
  have htake : ∀ length ≤ parent.length, (parent ++ [name]).take length = parent.take length :=
    fun length hlength => List.take_append_of_le_length hlength
  rw [createDirectories_eq, List.length_append, List.length_singleton, List.range_succ,
    List.foldlM_append] at hfailed
  cases hway : (List.range parent.length).foldlM (makeAncestor (parent ++ [name])) tree with
  | error cause =>
      rw [hway] at hfailed
      have hfault : cause = fault := Except.error.inj hfailed
      subst cause
      obtain ⟨length, hlength, content, hfile, hfault⟩ := file_of_makeAncestors hway
      rw [List.mem_range] at hlength
      rw [htake _ hlength] at hfile hfault
      have hshort : parent.take (length + 1) ≠ parent ++ [name] := by
        intro hsame
        have hlengths := congrArg List.length hsame
        simp only [List.length_take, List.length_append, List.length_singleton] at hlengths
        omega
      rw [if_neg hshort] at hfault
      refine Or.inr ⟨hfault, fun hpassable => ?_⟩
      exact passable_iff_forall_ne_file.mp hpassable _ content (List.take_prefix _ _) hfile
  | ok middle =>
      have hprepares := prepares_makeAncestors hway
      have hgrounded := grounded_of_makeAncestors (by simp) hway
      rw [htake _ le_rfl, List.take_length] at hgrounded
      rw [hway] at hfailed
      obtain ⟨length, hlength, content, hfile, hfault⟩ := file_of_makeAncestors hfailed
      obtain rfl := List.mem_singleton.mp hlength
      rw [List.take_of_length_le (by simp)] at hfile hfault
      rw [if_pos rfl] at hfault
      have hthere := (hprepares.sameFiles _ _).mp hfile
      exact Or.inl ⟨hfault, hprepares.passable hgrounded, content, hthere⟩

/-- A new record cannot be written where a file stands in place of its folder or something in its
own place; the fault is the same.  A file further up gives another one. -/
theorem writeRecord_error_cases {parent : FilePath} {below name text : String} {fault : FileFault}
    (hwrite : Directory.writeRecord tree (parent ++ [below] ++ [name]) true text =
      (.error fault, next)) :
    (fault = .alreadyExists ∧
        ((tree.Passable parent ∧
            ∃ content, tree.find? (parent ++ [below]) = some (.file content)) ∨
          tree.Passable (parent ++ [below]) ∧ tree.find? (parent ++ [below] ++ [name]) ≠ none)) ∨
      fault = .notADirectory ∧ ¬tree.Passable parent := by
  rw [Directory.writeRecord, List.dropLast_concat] at hwrite
  cases hmade : tree.createDirectories (parent ++ [below]) with
  | error cause =>
      simp only [hmade, Prod.mk.injEq, Except.error.injEq] at hwrite
      obtain rfl := hwrite.1
      exact (createDirectories_error_cases hmade).imp_left (And.imp_right Or.inl)
  | ok made =>
      have hprepares := prepares_createDirectories hmade
      have hgrounded := grounded_of_createDirectories hmade
      cases hfind : made.find? (parent ++ [below] ++ [name]) with
      | none =>
          simp only [hmade, if_true, createFile, hgrounded.checkAncestors, hfind, bind, Except.bind,
            Prod.mk.injEq, reduceCtorEq, false_and] at hwrite
      | some node =>
          simp only [hmade, if_true, createFile, hgrounded.checkAncestors, hfind, bind, Except.bind,
            Prod.mk.injEq, Except.error.injEq] at hwrite
          refine Or.inl ⟨hwrite.1.symm, Or.inr ⟨hprepares.passable hgrounded, fun hnone => ?_⟩⟩
          rcases hprepares (parent ++ [below] ++ [name]) with hsame | ⟨hway, _, _⟩
          · rw [hsame, hnone] at hfind
            contradiction
          · exact not_prefix_of_below (by simp) hway

/-- A record can only be written if no file stands in place of a directory. -/
theorem passable_of_writeRecord {name text : String} {isNew : Bool}
    (hwrite : Directory.writeRecord tree (folder ++ [name]) isNew text = (.ok (), next)) :
    tree.Passable folder := by
  rw [Directory.writeRecord, List.dropLast_concat] at hwrite
  cases hmade : tree.createDirectories folder with
  | error cause => simp [hmade] at hwrite
  | ok made =>
      exact (prepares_createDirectories hmade).passable (grounded_of_createDirectories hmade)

/-- A record that is written changes nothing else but directories on the way to it. -/
theorem other_of_writeRecord {name text : String} {isNew : Bool}
    (hwrite : Directory.writeRecord tree (folder ++ [name]) isNew text = (.ok (), next)) :
    ∀ path ∉ [folder ++ [name]], next.find? path = tree.find? path ∨
      path <+: folder ∧ tree.find? path = none ∧ next.find? path = some .directory := by
  rw [Directory.writeRecord, List.dropLast_concat] at hwrite
  cases hmade : tree.createDirectories folder with
  | error cause => simp [hmade] at hwrite
  | ok made =>
      intro path hpath
      have hput : next = made.put (folder ++ [name]) (.file (.text text)) := by
        have hcheck := (grounded_of_createDirectories hmade).checkAncestors name
        cases isNew <;> cases hfind : made.find? (folder ++ [name]) with
        | none => simp_all [createFile, writeFile, bind, Except.bind]
        | some node => cases node <;> simp_all [createFile, writeFile, bind, Except.bind]
      rw [hput, find?_put (by simp), if_neg (by simpa using hpath)]
      exact prepares_createDirectories hmade path

end Folders

end FileTree

namespace Directory

/-! ## What may change -/

/-- Only files of the pool have changed or gone, and new files are in the folders of records. -/
structure Root.Advances (root : Root) (tree next : FileTree) : Prop where
  kept :
    ∀ path node, tree.find? path = some node →
      next.find? path = some node ∨ ∃ name, path = root.pool ++ [name]
  file :
    ∀ path content, next.find? path = some (.file content) →
      tree.find? path = some (.file content) ∨
        ∃ name, path = root.pool ++ [name] ∨ path = root.daily ++ [name]

section Advances

variable {root : Root} {tree middle next : FileTree}

theorem Root.Advances.refl (root : Root) (tree : FileTree) : root.Advances tree tree := by
  constructor
  · intro path node hnode
    exact Or.inl hnode
  · intro path content hfile
    exact Or.inl hfile

theorem Root.Advances.trans (hfirst : root.Advances tree middle)
    (hrest : root.Advances middle next) : root.Advances tree next := by
  constructor
  · intro path node hnode
    rcases hfirst.kept path node hnode with hkept | hpool
    · exact hrest.kept path node hkept
    · exact Or.inr hpool
  · intro path content hfile
    rcases hrest.file path content hfile with hkept | hfolder
    · exact hfirst.file path content hkept
    · exact Or.inr hfolder

theorem daily_ne_pool {below name : String} : root.daily ++ [below] ≠ root.pool ++ [name] := by
  intro hsame
  simp [Root.daily, Root.pool, dailyName, poolName] at hsame

/-- What leads to the daily records is not a record itself. -/
theorem not_record_of_ancestor {path : FilePath} (hpath : path <+: root.daily) (name : String) :
    path ≠ root.pool ++ [name] ∧ path ≠ root.daily ++ [name] := by
  have hlength := hpath.length_le
  constructor
  · intro hsame
    simp [hsame, Root.pool, Root.daily] at hlength
  · intro hsame
    rw [hsame, List.length_append, List.length_singleton] at hlength
    omega

theorem Root.Advances.find?_ancestor (hadvances : root.Advances tree next) {path : FilePath}
    (hpath : path <+: root.daily) {node : FileNode} (hnode : tree.find? path = some node) :
    next.find? path = some node := by
  rcases hadvances.kept path node hnode with hkept | ⟨name, hname⟩
  · exact hkept
  · exact absurd hname (not_record_of_ancestor hpath name).1

theorem Root.Advances.file_ancestor (hadvances : root.Advances tree next) {path : FilePath}
    (hpath : path <+: root.daily) {content : Content}
    (hfile : next.find? path = some (.file content)) : tree.find? path = some (.file content) := by
  rcases hadvances.file path content hfile with hkept | ⟨name, hpool | hdaily⟩
  · exact hkept
  · exact absurd hpool (not_record_of_ancestor hpath name).1
  · exact absurd hdaily (not_record_of_ancestor hpath name).2

theorem Root.Advances.find?_dailyFile (hadvances : root.Advances tree next) {date : Day}
    {node : FileNode} (hnode : tree.find? (root.dailyFile date) = some node) :
    next.find? (root.dailyFile date) = some node := by
  rcases hadvances.kept _ node hnode with hkept | ⟨name, hname⟩
  · exact hkept
  · exact absurd hname daily_ne_pool

theorem Root.Advances.grounded_daily (hadvances : root.Advances tree next)
    (hgrounded : tree.Grounded root.daily) : next.Grounded root.daily := by
  intro ancestor hancestor
  exact hadvances.find?_ancestor hancestor (hgrounded ancestor hancestor)

theorem Root.advances_of_other (paths : List FilePath)
    (hpaths : ∀ path ∈ paths, (∃ name, path = root.pool ++ [name]) ∨
      (∃ name, path = root.daily ++ [name]) ∧ tree.find? path = none)
    (hother : ∀ path ∉ paths, next.find? path = tree.find? path ∨
      tree.find? path = none ∧ next.find? path = some .directory) :
    root.Advances tree next := by
  constructor
  · intro path node hnode
    by_cases hpath : path ∈ paths
    · rcases hpaths path hpath with hpool | ⟨_, hnone⟩
      · exact Or.inr hpool
      · simp [hnone] at hnode
    · rcases hother path hpath with hsame | ⟨hnone, _⟩
      · exact Or.inl (hsame.trans hnode)
      · simp [hnone] at hnode
  · intro path content hfile
    by_cases hpath : path ∈ paths
    · rcases hpaths path hpath with ⟨name, hpool⟩ | ⟨⟨name, hdaily⟩, _⟩
      · exact Or.inr ⟨name, Or.inl hpool⟩
      · exact Or.inr ⟨name, Or.inr hdaily⟩
    · rcases hother path hpath with hsame | ⟨_, hdirectory⟩
      · exact Or.inl (hsame.symm.trans hfile)
      · simp [hdirectory] at hfile

end Advances

end Directory

namespace DirectoryStore

open Directory

/-! ## Calls -/

/-- The store is at the same root, and its files have changed as they may.  It remembers the same
daily equations if no record can be written. -/
structure Moves (store after : DirectoryStore) : Prop where
  root_eq : after.directory.root = store.directory.root
  advances : store.directory.root.Advances store.tree after.tree
  daily_eq : store.tree.Passable store.directory.root.path ∨
    after.directory.inventory.daily = store.directory.inventory.daily

section Calls

variable {store after : DirectoryStore}

theorem Untouched.moves (huntouched : store.Untouched after) : store.Moves after := by
  constructor
  · rw [huntouched.directory_eq]
  · apply Root.advances_of_other []
    · simp
    · intro path _
      exact (huntouched.made path).imp_right And.right
  · rw [huntouched.directory_eq]
    exact Or.inr rfl

/-- A daily equation is refused for its date, or because its record cannot be written, or it is
inserted together with its record. -/
theorem insertDaily_cases (store : DirectoryStore) (daily : DailyEquation) :
    let written := writeRecord store.tree (store.directory.root.dailyFile daily.date) true
      daily.recordText
    let result := outcome (Store.insertDaily daily) store
    (store.directory.inventory.findDaily? daily.date ≠ none ∧
        result = (.error (.duplicateDate daily.date), store)) ∨
      store.directory.inventory.findDaily? daily.date = none ∧
        ((∃ fault tree, written = (.error fault, tree) ∧
            result =
              (.error (store.directory.dailyRefusal daily.date fault), { store with tree })) ∨
          ∃ tree, written = (.ok (), tree) ∧
            result = (.ok (), store.after tree (store.directory.inventory.withDaily daily))) := by
  intro written result
  cases hconflict : store.directory.inventory.dailyConflict? daily with
  | some conflict =>
      unfold Inventory.dailyConflict? at hconflict
      split at hconflict
      · next hknown =>
          have hdate : conflict = .duplicateDate daily.date := (Option.some.inj hconflict).symm
          subst conflict
          refine Or.inl ⟨?_, outcome_insertDaily_of_conflict store ?_⟩
          · rwa [Ne, Inventory.findDaily?_eq_none_iff, not_not]
          · exact if_pos hknown
      · contradiction
  | none =>
      have hnew : store.directory.inventory.findDaily? daily.date = none := by
        simpa [Inventory.findDaily?_eq_none_iff, Inventory.dailyConflict?] using hconflict
      refine Or.inr ⟨hnew, ?_⟩
      rcases hwrite : writeRecord store.tree (store.directory.root.dailyFile daily.date) true
        daily.recordText with ⟨fault | _, tree⟩
      · have hresult := outcome_insertDaily_of_fault store hnew hwrite
        exact Or.inl ⟨fault, tree, hwrite, hresult⟩
      · have hinsert := (Inventory.insertDaily_eq_ok_iff _ _ daily).mpr ⟨hnew, rfl⟩
        have hresult := outcome_insertDaily_of_ok store hwrite hinsert
        exact Or.inr ⟨tree, hwrite, hresult⟩

theorem moves_insertDaily (store : DirectoryStore) (daily : DailyEquation) :
    store.Moves (outcome (Store.insertDaily daily) store).2 := by
  rcases hresult : outcome (Store.insertDaily daily) store with ⟨cause | _, after⟩
  · exact (untouched_insertDaily hresult).moves
  · rcases insertDaily_cases store daily with ⟨_, hrefused⟩ |
      ⟨_, ⟨fault, tree, _, hfailed⟩ | ⟨tree, hwrite, hok⟩⟩
    · simp [hresult] at hrefused
    · simp [hresult] at hfailed
    · rw [hresult] at hok
      have hadds := adds_of_writeRecord hwrite
      have hafter : after = _ := (Prod.mk.inj hok).2
      subst after
      constructor
      · rfl
      · apply Root.advances_of_other [store.directory.root.dailyFile daily.date]
        · intro path hpath
          exact Or.inr ⟨hadds.inside path hpath, hadds.new path hpath⟩
        · intro path hpath
          exact (hadds.other path hpath).imp_right And.right
      · exact Or.inl (FileTree.passable_concat_iff.mp (FileTree.passable_of_writeRecord hwrite)).1

theorem moves_markUsed (store : DirectoryStore) (id : Identifier) :
    store.Moves (outcome (Store.markUsed id) store).2 := by
  rcases hresult : outcome (Store.markUsed id) store with ⟨cause | answer, after⟩
  · exact (untouched_markUsed hresult).moves
  · cases hclaimable : store.directory.inventory.claimable? id with
    | none =>
        rw [outcome_markUsed_of_none store hclaimable] at hresult
        have hafter : store = after := (Prod.mk.inj hresult).2
        subst after
        exact (Untouched.refl store).moves
    | some claimed =>
        rcases hwrite : writeRecord store.tree (store.directory.root.poolFile id) false
          claimed.recordText with ⟨fault | _, tree⟩
        · simp [outcome_markUsed_of_fault store hclaimable hwrite] at hresult
        · obtain ⟨marked, inventory, hmarked⟩ := outcome_markUsed_of_ok store hclaimable hwrite
          rw [hmarked] at hresult
          have hafter : _ = after := (Prod.mk.inj hresult).2
          subst after
          have hother := FileTree.other_of_writeRecord hwrite
          constructor
          · rfl
          · apply Root.advances_of_other [store.directory.root.poolFile id]
            · intro path hpath
              exact Or.inl ⟨_, List.mem_singleton.mp hpath⟩
            · intro path hpath
              exact (hother path hpath).imp_right And.right
          · have hpassable := FileTree.passable_of_writeRecord hwrite
            exact Or.inl (FileTree.passable_concat_iff.mp hpassable).1

theorem moves_insertPool (store : DirectoryStore) (batch : List PoolEntry) :
    store.Moves (outcome (Store.insertPool batch) store).2 := by
  rcases hresult : outcome (Store.insertPool batch) store with ⟨cause | answer, after⟩
  · exact (untouched_insertPool hresult).moves
  · cases hconflict : store.directory.inventory.poolConflict? batch with
    | some conflict => simp [outcome_insertPool_of_conflict store hconflict] at hresult
    | none =>
        have hadds := adds_writeBatch store.directory.root store.tree batch
        rcases hwrite : writeBatch store.directory.root store.tree batch with
          ⟨written, _ | ⟨path, fault⟩, tree⟩
        · have hadmits := (Inventory.poolConflict?_eq_none_iff _ _).mp hconflict
          have hinsert := (Inventory.insertPool_eq_ok_iff _ _ _).mpr ⟨hadmits, rfl⟩
          rw [outcome_insertPool_of_ok store hconflict hwrite hinsert] at hresult
          have hafter : _ = after := (Prod.mk.inj hresult).2
          subst after
          rw [hwrite] at hadds
          constructor
          · rfl
          · apply Root.advances_of_other written
            · intro path hpath
              exact Or.inl (hadds.inside path hpath)
            · intro path hpath
              exact (hadds.other path hpath).imp_right And.right
          · exact Or.inr (Inventory.daily_pushAll _ _)
        · simp [outcome_insertPool_of_fault store hconflict hwrite] at hresult

/-- Every call of a store moves its files as they may. -/
theorem moves_answer (store : DirectoryStore) (call : Store.Call) :
    store.Moves (outcome (Store.answer call) store).2 := by
  cases call with
  | insertDaily daily =>
      have hmoves := moves_insertDaily store daily
      rwa [Store.answer, outcome_map]
  | markUsed id =>
      have hmoves := moves_markUsed store id
      rwa [Store.answer, outcome_map]
  | insertPool batch =>
      have hmoves := moves_insertPool store batch
      rwa [Store.answer, outcome_map]
  | _ =>
      -- The other calls only read the inventory.
      exact (Untouched.refl store).moves

end Calls

end DirectoryStore

end EquationPuzzle
