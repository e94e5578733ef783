import EquationPuzzle.Proofs.Directory.Reopening

/-!
# Opening directories

Whether a directory can be opened, and with which records, is told by its files alone.  It can be
opened if its configuration puts up with strange files or there are none, and if no two of its
entries have the same equation.  Nothing depends on the order in which its files are listed, except
for which of several conflicts is reported.
-/

namespace EquationPuzzle

namespace FileTree

theorem find?_of_readText {tree : FileTree} {path : FilePath} {text : String}
    (htext : tree.readText path = .ok text) : tree.find? path = some (.file (.text text)) := by
  unfold readText at htext
  cases hcheck : tree.checkAncestors path with
  | error fault => simp [hcheck, bind, Except.bind] at htext
  | ok =>
      simp only [hcheck, bind, Except.bind] at htext
      split at htext
      all_goals try contradiction
      next hfind => rw [hfind, Except.ok.inj htext]

theorem grounded_of_readText {tree : FileTree} {folder : FilePath} {name text : String}
    (htext : tree.readText (folder ++ [name]) = .ok text) : tree.Grounded folder := by
  unfold readText at htext
  cases hcheck : tree.checkAncestors (folder ++ [name]) with
  | error fault => simp [hcheck, bind, Except.bind] at htext
  | ok => exact (checkAncestors_eq_ok_iff folder name).mp hcheck

end FileTree

namespace Directory

/-! ## Records in their files -/

/-- A record stands in the file that is named after it, and has the target number of its
equation. -/
def StandsIn {α : Type} (ofText? : String → Option α) (puzzle : α → Puzzle) (stem : α → String)
    (tree : FileTree) (folder : FilePath) (record : α) : Prop :=
  (puzzle record).equation.targetNumber = some (puzzle record).targetNumber ∧
    ∃ text, tree.readText (fileOf folder stem record) = .ok text ∧ ofText? text = some record

theorem toOption_eq_some_iff {ε α : Type} (answer : Except ε α) (value : α) :
    answer.toOption = some value ↔ answer = .ok value := by
  cases answer <;> simp [Except.toOption]

section Records

variable {α : Type} {ofText? : String → Option α} {puzzle : α → Puzzle} {stem : α → String}
  {tree : FileTree} {folder : FilePath} {files : List FilePath}

theorem read_eq_ok_iff_standsIn {path : FilePath} (hpath : IsRecordFile tree folder path)
    (record : α) :
    Record.read ofText? puzzle stem tree path = .ok record ↔
      path = fileOf folder stem record ∧ StandsIn ofText? puzzle stem tree folder record := by
  obtain ⟨name, hname, rfl, -⟩ := hpath
  have hstem : (folder ++ [name ++ ".yaml"]).getLast?.map Record.fileStem = some name := by
    simp [Record.fileStem_yaml hname]
  rw [Record.read_eq_ok_iff, hstem]
  constructor
  · rintro ⟨text, htext, hrecord, htarget, hsame⟩
    obtain rfl := Option.some.inj hsame
    exact ⟨rfl, htarget, text, htext, hrecord⟩
  · rintro ⟨hfile, htarget, text, htext, hrecord⟩
    have hsame : name = stem record := by
      rw [fileOf, List.append_cancel_left_eq, List.singleton_inj] at hfile
      exact (String.append_left_inj ".yaml").mp hfile
    exact ⟨text, hfile ▸ htext, hrecord, htarget, congrArg some hsame⟩

theorem StandsIn.isRecordFile (hstem : ∀ record : α, stem record ≠ "") {record : α}
    (hstands : StandsIn ofText? puzzle stem tree folder record) :
    IsRecordFile tree folder (fileOf folder stem record) := by
  obtain ⟨-, text, htext, -⟩ := hstands
  exact ⟨stem record, hstem record, rfl, _, FileTree.find?_of_readText htext⟩

theorem StandsIn.passable {record : α}
    (hstands : StandsIn ofText? puzzle stem tree folder record) : tree.Passable folder := by
  obtain ⟨-, text, htext, -⟩ := hstands
  exact (FileTree.grounded_of_readText htext).passable

variable (hfiles : files.Perm (recordFiles tree folder))

include hfiles

theorem isRecordFile_of_mem {path : FilePath} (hpath : path ∈ files) :
    IsRecordFile tree folder path :=
  (mem_recordFiles_iff_isRecordFile tree folder path).mp (hfiles.mem_iff.mp hpath)

theorem mem_filterMap_read_iff (hstem : ∀ record : α, stem record ≠ "") (record : α) :
    record ∈ files.filterMap (fun path => (Record.read ofText? puzzle stem tree path).toOption) ↔
      StandsIn ofText? puzzle stem tree folder record := by
  simp only [List.mem_filterMap, toOption_eq_some_iff]
  constructor
  · rintro ⟨path, hpath, hread⟩
    exact ((read_eq_ok_iff_standsIn (isRecordFile_of_mem hfiles hpath) record).mp hread).2
  · intro hstands
    have hfile := hstands.isRecordFile hstem
    have hread := (read_eq_ok_iff_standsIn hfile record).mpr ⟨rfl, hstands⟩
    refine ⟨fileOf folder stem record, ?_, hread⟩
    exact hfiles.mem_iff.mpr ((mem_recordFiles_iff_isRecordFile tree folder _).mpr hfile)

/-- No two files hold records of the same name. -/
theorem nodup_filterMap_read : ((files.filterMap fun path =>
    (Record.read ofText? puzzle stem tree path).toOption).map stem).Nodup := by
  have hnodup := hfiles.nodup_iff.mpr (nodup_recordFiles tree folder)
  rw [List.Nodup, List.pairwise_map, List.pairwise_filterMap]
  refine hnodup.imp_of_mem fun {path other} hpath hother hdistinct => ?_
  intro a ha b hb hsame
  rw [toOption_eq_some_iff] at ha hb
  have hfirst := ((read_eq_ok_iff_standsIn (isRecordFile_of_mem hfiles hpath) a).mp ha).1
  have hsecond := ((read_eq_ok_iff_standsIn (isRecordFile_of_mem hfiles hother) b).mp hb).1
  apply hdistinct
  rw [hfirst, hsecond, fileOf, fileOf, hsame]

theorem mem_filter_strange_iff (path : FilePath) :
    path ∈ files.filter (fun path => (Record.read ofText? puzzle stem tree path).toOption.isNone) ↔
      IsRecordFile tree folder path ∧
        ∀ record, StandsIn ofText? puzzle stem tree folder record →
          path ≠ fileOf folder stem record := by
  rw [List.mem_filter, hfiles.mem_iff, mem_recordFiles_iff_isRecordFile]
  refine and_congr_right fun hpath => ?_
  simp only [Option.isNone_iff_eq_none, Option.eq_none_iff_forall_ne_some, ne_eq,
    toOption_eq_some_iff, read_eq_ok_iff_standsIn hpath, not_and']

end Records

namespace Root

section Files

variable (root : Root) (tree : FileTree)

def HasEntry (entry : PoolEntry) : Prop :=
  StandsIn PoolEntry.ofRecordText? PoolEntry.puzzle (·.id.text) tree root.pool entry

def HasDaily (daily : DailyEquation) : Prop :=
  StandsIn DailyEquation.ofRecordText? DailyEquation.puzzle (·.date.text) tree root.daily daily

/-- A file of the pool or of the daily equations that holds no record. -/
def Strange (path : FilePath) : Prop :=
  (IsRecordFile tree root.pool path ∧
      ∀ entry, root.HasEntry tree entry → path ≠ root.poolFile entry.id) ∨
    (IsRecordFile tree root.daily path ∧
      ∀ daily, root.HasDaily tree daily → path ≠ root.dailyFile daily.date)

/-- The configuration can be read and puts up with strange files.  The default one does not. -/
def Lenient : Prop :=
  ∃ config, Config.load tree root.config = .ok config ∧ config.allowUnrecognised

def Acceptable : Prop :=
  root.Lenient tree ∨ ∀ path, ¬root.Strange tree path

def Consistent : Prop :=
  ∀ entry other, root.HasEntry tree entry → root.HasEntry tree other →
    entry.equation = other.equation → entry = other

/-- The inventory has the records that stand in files, and no others. -/
structure Loads (inventory : Inventory) : Prop where
  wellFormed : inventory.WellFormed
  nodup_pool : inventory.pool.toList.Nodup
  mem_pool_iff : ∀ entry, entry ∈ inventory.pool ↔ root.HasEntry tree entry
  findDaily?_iff : ∀ date daily, inventory.findDaily? date = some daily ↔
    root.HasDaily tree daily ∧ daily.date = date

end Files

end Root

/-- What may become of a directory that is opened. -/
inductive Outcome (root : Root) (tree : FileTree) : Except LoadError Directory → Prop
  | unrecognised {paths : List FilePath} (hstrict : ¬root.Lenient tree) (hnonempty : paths ≠ [])
      (hsorted : paths.Pairwise (FilePath.isBefore · ·)) (hnodup : paths.Nodup)
      (hmem : ∀ path, path ∈ paths ↔ root.Strange tree path) :
      Outcome root tree (.error (.unrecognised paths))
  | conflict {entry other : PoolEntry} (hacceptable : root.Acceptable tree)
      (hentry : root.HasEntry tree entry) (hother : root.HasEntry tree other)
      (hne : other ≠ entry) (hequation : other.equation = entry.equation) :
      Outcome root tree (.error (.conflict (.duplicateEquation entry.equation)))
  | opened {inventory : Inventory} (hacceptable : root.Acceptable tree)
      (hconsistent : root.Consistent tree) (hloads : root.Loads tree inventory) :
      Outcome root tree (.ok ⟨root, loadConfig root tree, inventory⟩)

/-- The same became of both, but perhaps for the conflict that was found first and for the order of
the pool. -/
inductive Alike : Except LoadError Directory → Except LoadError Directory → Prop
  | unrecognised (paths : List FilePath) :
      Alike (.error (.unrecognised paths)) (.error (.unrecognised paths))
  | conflict (equation other : Equation) :
      Alike (.error (.conflict (.duplicateEquation equation)))
        (.error (.conflict (.duplicateEquation other)))
  | opened (root : Root) (config : Config) {inventory other : Inventory}
      (hsame : inventory.SameRecords other) :
      Alike (.ok ⟨root, config, inventory⟩) (.ok ⟨root, config, other⟩)

section Outcome

variable {root : Root} {tree : FileTree}

theorem allowUnrecognised_loadConfig_iff :
    (loadConfig root tree).allowUnrecognised ↔ root.Lenient tree := by
  rw [loadConfig, Root.Lenient]
  cases Config.load tree root.config with
  | error cause => simp [Except.toOption, Config.default]
  | ok config => simp [Except.toOption]

theorem Root.Loads.sameRecords {inventory other : Inventory} (hloads : root.Loads tree inventory)
    (hother : root.Loads tree other) : inventory.SameRecords other where
  pool_perm := by
    refine (List.perm_ext_iff_of_nodup hother.nodup_pool hloads.nodup_pool).mpr fun entry => ?_
    rw [Array.mem_toList_iff, Array.mem_toList_iff, hother.mem_pool_iff, hloads.mem_pool_iff]
  findDaily?_eq date := by
    apply Option.ext
    intro daily
    rw [hother.findDaily?_iff, hloads.findDaily?_iff]

theorem not_acceptable {paths : List FilePath} (hstrict : ¬root.Lenient tree)
    (hnonempty : paths ≠ []) (hmem : ∀ path, path ∈ paths ↔ root.Strange tree path) :
    ¬root.Acceptable tree := by
  obtain ⟨path, hpath⟩ := List.exists_mem_of_ne_nil _ hnonempty
  exact not_or.mpr ⟨hstrict, fun hnone => hnone path ((hmem path).mp hpath)⟩

/-- What becomes of a directory is told by its files. -/
theorem Outcome.alike {answer other : Except LoadError Directory}
    (hanswer : Outcome root tree answer) (hother : Outcome root tree other) :
    Alike answer other := by
  cases hanswer with
  | unrecognised hstrict hnonempty hsorted hnodup hmem =>
      have hnot := not_acceptable hstrict hnonempty hmem
      cases hother with
      | unrecognised _ _ hsorted' hnodup' hmem' =>
          have hperm := (List.perm_ext_iff_of_nodup hnodup hnodup').mpr fun path =>
            (hmem path).trans (hmem' path).symm
          rw [FilePath.eq_of_sorted hsorted hsorted' hperm]
          exact .unrecognised _
      | conflict hacceptable => exact absurd hacceptable hnot
      | opened hacceptable => exact absurd hacceptable hnot
  | conflict hacceptable hentry hsecond hne hequation =>
      cases hother with
      | unrecognised hstrict hnonempty _ _ hmem =>
          exact absurd hacceptable (not_acceptable hstrict hnonempty hmem)
      | conflict => exact .conflict _ _
      | opened _ hconsistent => exact absurd (hconsistent _ _ hsecond hentry hequation) hne
  | opened hacceptable hconsistent hloads =>
      cases hother with
      | unrecognised hstrict hnonempty _ _ hmem =>
          exact absurd hacceptable (not_acceptable hstrict hnonempty hmem)
      | conflict _ hentry hsecond hne hequation =>
          exact absurd (hconsistent _ _ hsecond hentry hequation) hne
      | opened _ _ hloads' => exact .opened _ _ (hloads.sameRecords hloads')

theorem Outcome.ok_iff {answer : Except LoadError Directory} (hanswer : Outcome root tree answer) :
    (∃ directory, answer = .ok directory) ↔ root.Acceptable tree ∧ root.Consistent tree := by
  cases hanswer with
  | unrecognised hstrict hnonempty _ _ hmem =>
      simp [not_acceptable hstrict hnonempty hmem]
  | conflict _ hentry hother hne hequation =>
      have hnot : ¬root.Consistent tree := fun hconsistent =>
        hne (hconsistent _ _ hother hentry hequation)
      simp [hnot]
  | opened hacceptable hconsistent => simp [hacceptable, hconsistent]

theorem Outcome.unrecognised_iff {answer : Except LoadError Directory}
    (hanswer : Outcome root tree answer) :
    (∃ paths, answer = .error (.unrecognised paths)) ↔ ¬root.Acceptable tree := by
  cases hanswer with
  | unrecognised hstrict hnonempty _ _ hmem =>
      simp [not_acceptable hstrict hnonempty hmem]
  | conflict hacceptable => simp [hacceptable]
  | opened hacceptable => simp [hacceptable]

end Outcome

/-! ## Loading -/

section Load

variable {root : Root} {tree : FileTree} {poolFiles dailyFiles : List FilePath}

section Pool

variable (hpool : poolFiles.Perm (recordFiles tree root.pool))

include hpool

theorem mem_entries_iff (entry : PoolEntry) :
    entry ∈ poolFiles.filterMap (poolRecordAt? tree) ↔ root.HasEntry tree entry :=
  mem_filterMap_read_iff hpool (fun entry => entry.id.isText_text.ne_empty) entry

theorem nodup_entryIds : ((poolFiles.filterMap (poolRecordAt? tree)).map (·.id)).Nodup := by
  have hnames : ((poolFiles.filterMap (poolRecordAt? tree)).map (·.id.text)).Nodup :=
    nodup_filterMap_read hpool
  refine List.Nodup.of_map Identifier.text ?_
  rwa [List.map_map]

end Pool

section Daily

variable (hdaily : dailyFiles.Perm (recordFiles tree root.daily))

include hdaily

theorem mem_dailies_iff (daily : DailyEquation) :
    daily ∈ dailyFiles.filterMap (dailyRecordAt? tree) ↔ root.HasDaily tree daily :=
  mem_filterMap_read_iff hdaily (fun daily => daily.date.isText_text.ne_empty) daily

theorem nodup_dailyDates :
    ((dailyFiles.filterMap (dailyRecordAt? tree)).map (·.date)).Nodup := by
  have hnames : ((dailyFiles.filterMap (dailyRecordAt? tree)).map (·.date.text)).Nodup :=
    nodup_filterMap_read hdaily
  refine List.Nodup.of_map Day.text ?_
  rwa [List.map_map]

end Daily

/-- The files that are no records, those of the pool first. -/
def strangeFiles (tree : FileTree) (poolFiles dailyFiles : List FilePath) : List FilePath :=
  (poolFiles.filter fun path => (poolRecordAt? tree path).isNone) ++
    dailyFiles.filter fun path => (dailyRecordAt? tree path).isNone

theorem loads_ofRecords {entries : List PoolEntry} {dailies : List DailyEquation}
    (hentries : ∀ entry, entry ∈ entries ↔ root.HasEntry tree entry)
    (hdailies : ∀ daily, daily ∈ dailies ↔ root.HasDaily tree daily)
    (hadmits : Inventory.empty.Admits entries) (hdates : (dailies.map (·.date)).Nodup) :
    root.Loads tree (.ofRecords entries dailies) := by
  have hpool : (Inventory.ofRecords entries dailies).pool.toList = entries := by
    rw [Inventory.ofRecords, Inventory.pool_withDailies, Inventory.pool_pushAll]
    simp [Inventory.empty]
  have hempty : ∀ date, (entries.foldl Inventory.push Inventory.empty).findDaily? date = none := by
    simp
  have hnew : (entries.foldl Inventory.push Inventory.empty).AdmitsDaily dailies :=
    ⟨hdates, fun daily _ => hempty daily.date⟩
  refine ⟨(Inventory.wellFormed_empty.pushAll hadmits).withDailies dailies, ?_, ?_, ?_⟩
  · rw [hpool]
    exact hadmits.nodup_ids.of_map
  · intro entry
    rw [← Array.mem_toList_iff, hpool, hentries]
  · intro date daily
    rw [Inventory.ofRecords, hnew.findDaily?_eq_some_iff, hempty, hdailies]
    simp

variable (hpool : poolFiles.Perm (recordFiles tree root.pool))
  (hdaily : dailyFiles.Perm (recordFiles tree root.daily))

include hpool hdaily

theorem mem_strangeFiles_iff (path : FilePath) :
    path ∈ strangeFiles tree poolFiles dailyFiles ↔ root.Strange tree path := by
  rw [strangeFiles, List.mem_append]
  exact or_congr (mem_filter_strange_iff hpool path) (mem_filter_strange_iff hdaily path)

theorem nodup_strangeFiles : (strangeFiles tree poolFiles dailyFiles).Nodup := by
  refine List.nodup_append.mpr ⟨?_, ?_, fun path hpath other hother => ?_⟩
  · exact (hpool.nodup_iff.mpr (nodup_recordFiles tree root.pool)).filter _
  · exact (hdaily.nodup_iff.mpr (nodup_recordFiles tree root.daily)).filter _
  · obtain ⟨name, -, rfl, -⟩ := isRecordFile_of_mem hpool (List.mem_of_mem_filter hpath)
    obtain ⟨name', -, rfl, -⟩ := isRecordFile_of_mem hdaily (List.mem_of_mem_filter hother)
    simp [Root.pool, Root.daily, poolName, dailyName]

theorem outcome_unrecognised (hstrict : (loadConfig root tree).allowUnrecognised = false)
    (hsome : strangeFiles tree poolFiles dailyFiles ≠ []) :
    Outcome root tree (.error
      (.unrecognised ((strangeFiles tree poolFiles dailyFiles).mergeSort FilePath.isBefore))) := by
  have hperm := List.mergeSort_perm (strangeFiles tree poolFiles dailyFiles) FilePath.isBefore
  refine .unrecognised ?_ ?_ (FilePath.pairwise_mergeSort _)
    (hperm.nodup_iff.mpr (nodup_strangeFiles hpool hdaily)) fun path => ?_
  · rw [← allowUnrecognised_loadConfig_iff, hstrict]
    exact Bool.false_ne_true
  · exact fun hnil => hsome (List.perm_nil.mp (hnil ▸ hperm.symm))
  · rw [hperm.mem_iff, mem_strangeFiles_iff hpool hdaily]

theorem acceptable_of_not_refused
    (hkept : (loadConfig root tree).allowUnrecognised = true ∨
      strangeFiles tree poolFiles dailyFiles = []) : root.Acceptable tree := by
  refine hkept.imp allowUnrecognised_loadConfig_iff.mp fun hnil path hpath => ?_
  rw [← mem_strangeFiles_iff hpool hdaily, hnil] at hpath
  contradiction

/-- Whatever the order of the files, one of the three things happens. -/
theorem outcome_load : Outcome root tree (load root tree poolFiles dailyFiles) := by
  have hrefusal := outcome_unrecognised hpool hdaily
  have hacceptance := acceptable_of_not_refused hpool hdaily
  have hentries := mem_entries_iff hpool
  have hids := nodup_entryIds hpool
  have hdailies := mem_dailies_iff hdaily
  have hdates := nodup_dailyDates hdaily
  unfold load
  dsimp only
  rw [← strangeFiles.eq_1]
  generalize strangeFiles tree poolFiles dailyFiles = strange at hrefusal hacceptance ⊢
  generalize poolFiles.filterMap (poolRecordAt? tree) = entries at hentries hids ⊢
  generalize dailyFiles.filterMap (dailyRecordAt? tree) = dailies at hdailies hdates ⊢
  by_cases hrefused : (!(loadConfig root tree).allowUnrecognised && !strange.isEmpty) = true
  · rw [if_pos hrefused]
    simp only [Bool.and_eq_true, Bool.not_eq_true', List.isEmpty_eq_false_iff] at hrefused
    exact hrefusal hrefused.1 hrefused.2
  · rw [if_neg hrefused]
    simp only [Bool.and_eq_true, Bool.not_eq_true', Bool.eq_false_iff, List.isEmpty_iff,
      not_and_or, not_not] at hrefused
    have hacceptable := hacceptance hrefused
    cases hconflict : Inventory.empty.poolConflict? entries with
    | some cause =>
        obtain ⟨entry, hentry, other, hother, hid, hequation, rfl⟩ :=
          Inventory.poolConflict?_empty_eq_some hids hconflict
        rw [Inventory.insertPool, hconflict]
        exact .conflict hacceptable ((hentries entry).mp hentry) ((hentries other).mp hother)
          (fun hsame => hid (congrArg PoolEntry.id hsame)) hequation
    | none =>
        have hadmits := (Inventory.poolConflict?_eq_none_iff _ _).mp hconflict
        have hinsert := (Inventory.insertPool_eq_ok_iff Inventory.empty _ entries).mpr
          ⟨hadmits, rfl⟩
        have hnew : (entries.foldl Inventory.push Inventory.empty).AdmitsDaily dailies :=
          ⟨hdates, by simp⟩
        have hadopt := foldlM_adopt_insertDaily hnew
        have hconsistent : root.Consistent tree := by
          intro entry other hentry hother hequation
          exact List.inj_on_of_nodup_map hadmits.nodup_equations ((hentries entry).mpr hentry)
            ((hentries other).mpr hother) hequation
        rw [hinsert]
        change Outcome root tree (dailies.foldlM (fun inventory daily =>
          load.adopt (inventory.insertDaily daily))
            (entries.foldl Inventory.push Inventory.empty) >>= _)
        rw [hadopt]
        exact .opened hacceptable hconsistent (loads_ofRecords hentries hdailies hadmits hdates)

end Load

/-! ## Listings -/

/-- Opens the directory at a root, with its files listed in some order. -/
def Listing.ofTree (listing : Listing) (root : Root) (tree : FileTree) :
    Except LoadError Directory :=
  load root tree (listing.order (recordFiles tree root.pool))
    (listing.order (recordFiles tree root.daily))

/-- A directory can be opened if it has no strange files, or its configuration puts up with them,
and no two of its entries have the same equation.  It is refused for strange files first.  What
becomes of it is the same for all orders in which its files may be listed. -/
theorem ofTree_outcome (root : Root) (tree : FileTree) :
    ofTree root tree = Listing.ofTree ⟨id, .refl⟩ root tree ∧ ∀ listing other : Listing,
      ((∃ directory, listing.ofTree root tree = .ok directory) ↔
          root.Acceptable tree ∧ root.Consistent tree) ∧
        ((∃ paths, listing.ofTree root tree = .error (.unrecognised paths)) ↔
          ¬root.Acceptable tree) ∧
        Outcome root tree (listing.ofTree root tree) ∧
        Alike (listing.ofTree root tree) (other.ofTree root tree) := by
  refine ⟨rfl, fun listing other => ?_⟩
  have houtcome : ∀ listing : Listing, Outcome root tree (listing.ofTree root tree) :=
    fun listing => outcome_load (listing.perm _) (listing.perm _)
  exact ⟨(houtcome listing).ok_iff, (houtcome listing).unrecognised_iff, houtcome listing,
    (houtcome listing).alike (houtcome other)⟩

end Directory

end EquationPuzzle
