import EquationPuzzle.Proofs.Directory.Mirror
import EquationPuzzle.Proofs.Inventory.Records
import EquationPuzzle.Proofs.Record.Files

/-!
# Reopening directories

A directory whose files mirror an inventory can be opened again, in whatever order its files are
listed: every file is read as the record it was written from, so none is strange and no two are in
conflict, and the directory has the records that it had when it was closed.
-/

namespace EquationPuzzle

/-- One text for each record, in the file that is named as the record says. -/
def FolderTexts.ofRecords {α : Type} (stem text : α → String) (records : List α) : FolderTexts :=
  fun name content => ∃ record ∈ records, stem record ++ ".yaml" = name ∧ text record = content

structure Inventory.Readable (inventory : Inventory) : Prop where
  entry : ∀ entry ∈ inventory.pool, entry.Readable
  daily : ∀ date daily, inventory.findDaily? date = some daily → daily.Readable

namespace Directory

/-! ## The files of a folder -/

theorem recordStem?_eq_some_iff (name stem : String) :
    recordStem? name = some stem ↔ stem ≠ "" ∧ stem ++ ".yaml" = name := by
  have hextension : ".yaml".toList.length = 5 := rfl
  constructor
  · intro hstem
    unfold recordStem? at hstem
    dsimp only at hstem
    split_ifs at hstem with hname
    obtain ⟨hlong, hsuffix⟩ := hname
    obtain ⟨front, hfront⟩ := List.isSuffixOf_iff_suffix.mp hsuffix
    rw [← hfront, List.length_append, Nat.add_sub_cancel, List.take_left] at hstem
    rw [← hfront, List.length_append] at hlong
    obtain rfl := Option.some.inj hstem
    constructor
    · intro hempty
      have hnil : front = [] := by simpa using congrArg String.toList hempty
      simp [hnil] at hlong
    · apply String.toList_injective
      rw [String.toList_append, String.toList_ofList, hfront]
  · rintro ⟨hstem, rfl⟩
    have hpositive : 0 < stem.toList.length := by
      rwa [String.length_toList, Nat.pos_iff_ne_zero, Ne, String.length_eq_zero_iff]
    have hlength : (stem ++ ".yaml").toList.length = stem.toList.length + 5 := by
      rw [String.toList_append, List.length_append, hextension]
    have hsuffix : ".yaml".toList.isSuffixOf (stem ++ ".yaml").toList := by
      rw [String.toList_append, List.isSuffixOf_iff_suffix]
      exact List.suffix_append _ _
    have htaken : (stem ++ ".yaml").toList.take stem.toList.length = stem.toList := by
      rw [String.toList_append, List.take_left]
    refine (if_pos ⟨by omega, hsuffix⟩).trans ?_
    rw [hlength, hextension, Nat.add_sub_cancel, htaken, String.ofList_toList]

/-- What a listing shows of a file, if it is the file of a record. -/
def recordFile? (folder : FilePath) (shown : String × FileNode) : Option FilePath :=
  match shown.2 with
  | .directory => none
  | .file _ => if (recordStem? shown.1).isSome then some (folder ++ [shown.1]) else none

theorem recordFiles_eq (tree : FileTree) (folder : FilePath) :
    recordFiles tree folder = (tree.list folder).filterMap (recordFile? folder) := rfl

theorem recordFile?_eq_some_iff (folder path : FilePath) (name : String) (node : FileNode) :
    recordFile? folder (name, node) = some path ↔
      (∃ content, node = .file content) ∧ (recordStem? name).isSome ∧ folder ++ [name] = path := by
  cases node with
  | directory => simp [recordFile?]
  | file content => simp [recordFile?]

theorem nodup_recordFiles (tree : FileTree) (folder : FilePath) :
    (recordFiles tree folder).Nodup := by
  have hnames := tree.nodup_list folder
  rw [List.Nodup, List.pairwise_map] at hnames
  rw [recordFiles_eq, List.Nodup, List.pairwise_filterMap]
  refine hnames.imp fun {a b} hdistinct => ?_
  rintro path ha other hb rfl
  obtain ⟨-, -, ha⟩ := (recordFile?_eq_some_iff folder path a.1 a.2).mp ha
  obtain ⟨-, -, hb⟩ := (recordFile?_eq_some_iff folder path b.1 b.2).mp hb
  rw [← hb, List.append_cancel_left_eq, List.singleton_inj] at ha
  exact hdistinct ha

/-- A file directly in a folder that is a record by its extension. -/
def IsRecordFile (tree : FileTree) (folder path : FilePath) : Prop :=
  ∃ stem ≠ "", path = folder ++ [stem ++ ".yaml"] ∧
    ∃ content, tree.find? path = some (.file content)

theorem mem_recordFiles_iff_isRecordFile (tree : FileTree) (folder path : FilePath) :
    path ∈ recordFiles tree folder ↔ IsRecordFile tree folder path := by
  simp only [recordFiles_eq, List.mem_filterMap, Prod.exists, recordFile?_eq_some_iff,
    FileTree.mem_list_iff, Option.isSome_iff_exists, recordStem?_eq_some_iff]
  constructor
  · rintro ⟨name, node, hnode, ⟨content, rfl⟩, ⟨stem, hstem, rfl⟩, rfl⟩
    exact ⟨stem, hstem, rfl, content, hnode⟩
  · rintro ⟨stem, hstem, rfl, content, hnode⟩
    exact ⟨_, _, hnode, ⟨content, rfl⟩, ⟨stem, hstem, rfl⟩, rfl⟩

section Files

variable {α : Type} {stem text : α → String} {records : List α} {tree : FileTree}
  {folder : FilePath} (hholds : tree.Holds folder (.ofRecords stem text records))
  (hstem : ∀ record, stem record ≠ "")

def fileOf (folder : FilePath) (stem : α → String) (record : α) : FilePath :=
  folder ++ [stem record ++ ".yaml"]

include hholds hstem

theorem mem_recordFiles_iff (path : FilePath) :
    path ∈ recordFiles tree folder ↔ path ∈ records.map (fileOf folder stem) := by
  rw [mem_recordFiles_iff_isRecordFile, List.mem_map]
  constructor
  · rintro ⟨name, -, rfl, content, hnode⟩
    obtain ⟨_, ⟨record, hrecord, hname, -⟩, -⟩ := (hholds.file_iff _ _).mp hnode
    exact ⟨record, hrecord, by rw [fileOf, hname]⟩
  · rintro ⟨record, hrecord, rfl⟩
    have hfile := (hholds.file_iff _ _).mpr ⟨text record, ⟨record, hrecord, rfl, rfl⟩, rfl⟩
    exact ⟨stem record, hstem record, rfl, _, hfile⟩

theorem recordFiles_perm (hnodup : (records.map stem).Nodup) :
    (recordFiles tree folder).Perm (records.map (fileOf folder stem)) := by
  refine (List.perm_ext_iff_of_nodup (nodup_recordFiles tree folder) ?_).mpr
    (mem_recordFiles_iff hholds hstem)
  rw [List.Nodup, List.pairwise_map] at hnodup ⊢
  refine hnodup.imp fun {a b} hdistinct hsame => hdistinct ?_
  rw [fileOf, fileOf, List.append_cancel_left_eq, List.singleton_inj] at hsame
  exact (String.append_left_inj ".yaml").mp hsame

theorem read_fileOf {ofText? : String → Option α} {puzzle : α → Puzzle} {record : α}
    (hmem : record ∈ records) (hread : ofText? (text record) = some record)
    (htarget : (puzzle record).equation.targetNumber = some (puzzle record).targetNumber) :
    Record.read ofText? puzzle stem tree (fileOf folder stem record) = .ok record := by
  have htext : tree.readText (fileOf folder stem record) = .ok (text record) :=
    hholds.readText ⟨record, hmem, rfl, rfl⟩
  have hname : (fileOf folder stem record).getLast?.map Record.fileStem = some (stem record) := by
    simp [fileOf, Record.fileStem_yaml (hstem record)]
  exact (Record.read_eq_ok_iff puzzle stem).mpr ⟨text record, htext, hread, htarget, hname⟩

/-- Whatever the order of the files, the records are read from them, and nothing else is there. -/
theorem filterMap_read {read : FileTree → FilePath → Except RecordError α} {files : List FilePath}
    (hfiles : files.Perm (recordFiles tree folder)) (hnodup : (records.map stem).Nodup)
    (hread : ∀ record ∈ records, read tree (fileOf folder stem record) = .ok record) :
    (files.filterMap fun path => (read tree path).toOption).Perm records ∧
      files.filter (fun path => (read tree path).toOption.isNone) = [] := by
  have hperm := hfiles.trans (recordFiles_perm hholds hstem hnodup)
  constructor
  · refine (hperm.filterMap _).trans ?_
    have hall : (records.map (fileOf folder stem)).filterMap
        (fun path => (read tree path).toOption) = records.filterMap some := by
      rw [List.filterMap_map]
      exact List.filterMap_congr fun record hmem => congrArg Except.toOption (hread record hmem)
    rw [hall, List.filterMap_some]
  · rw [List.filter_eq_nil_iff]
    intro path hpath
    obtain ⟨record, hmem, rfl⟩ := List.mem_map.mp (hperm.mem_iff.mp hpath)
    simp [hread record hmem, Except.toOption]

end Files

/-! ## Loading -/

theorem foldlM_adopt_insertDaily {inventory : Inventory} {dailies : List DailyEquation}
    (hadmits : inventory.AdmitsDaily dailies) :
    dailies.foldlM (fun inventory daily => load.adopt (inventory.insertDaily daily)) inventory =
      .ok (dailies.foldl Inventory.withDaily inventory) := by
  induction dailies generalizing inventory with
  | nil => rfl
  | cons first rest ih =>
      obtain ⟨hfirst, hrest⟩ := hadmits.cons
      have hinsert := (Inventory.insertDaily_eq_ok_iff inventory _ first).mpr ⟨hfirst, rfl⟩
      rw [List.foldlM_cons, hinsert]
      exact ih hrest

section Load

variable {root : Root} {tree : FileTree} {inventory : Inventory}

theorem Mirrors.congr {other : Inventory} (hmirrors : Mirrors root tree inventory)
    (hsame : inventory.SameRecords other) : Mirrors root tree other where
  pool := hmirrors.pool.congr fun name text => by
    simp only [Inventory.poolTexts, hsame.mem_pool_iff]
  daily := hmirrors.daily.congr fun name text => by
    simp only [Inventory.dailyTexts, hsame.findDaily?_eq]

variable (hmirrors : Mirrors root tree inventory) (hreadable : inventory.Readable)

include hmirrors hreadable

theorem Mirrors.poolRecords (hwell : inventory.WellFormed) {files : List FilePath}
    (hfiles : files.Perm (recordFiles tree root.pool)) :
    (files.filterMap (poolRecordAt? tree)).Perm inventory.pool.toList ∧
      files.filter (fun path => (poolRecordAt? tree path).isNone) = [] := by
  have hholds : tree.Holds root.pool
      (.ofRecords (·.id.text) PoolEntry.recordText inventory.pool.toList) :=
    hmirrors.pool.congr fun name text => by
      simp only [Inventory.poolTexts, FolderTexts.ofRecords, Array.mem_toList_iff]
  have hstem : ∀ entry : PoolEntry, entry.id.text ≠ "" :=
    fun entry => entry.id.isText_text.ne_empty
  refine filterMap_read hholds hstem hfiles ?_ fun entry hmem => ?_
  · have hinjective := (hwell.nodup_ids).map Identifier.text_injective
    rwa [List.map_map] at hinjective
  · have hentry := hreadable.entry entry (Array.mem_toList_iff.mp hmem)
    exact read_fileOf hholds hstem hmem hentry.ofRecordText?_eq hentry.target_eq

theorem Mirrors.dailyRecords (hwell : inventory.WellFormed) {files : List FilePath}
    (hfiles : files.Perm (recordFiles tree root.daily)) :
    (files.filterMap (dailyRecordAt? tree)).Perm inventory.dailies ∧
      files.filter (fun path => (dailyRecordAt? tree path).isNone) = [] := by
  have hholds : tree.Holds root.daily
      (.ofRecords (·.date.text) DailyEquation.recordText inventory.dailies) :=
    hmirrors.daily.congr fun name text => by
      simp only [Inventory.dailyTexts, FolderTexts.ofRecords, hwell.mem_dailies_iff]
  have hstem : ∀ daily : DailyEquation, daily.date.text ≠ "" :=
    fun daily => daily.date.isText_text.ne_empty
  refine filterMap_read hholds hstem hfiles ?_ fun daily hmem => ?_
  · have hinjective := (hwell.nodup_dates).map Day.text_injective
    rwa [List.map_map] at hinjective
  · have hdaily := hreadable.daily _ daily ((hwell.mem_dailies_iff daily).mp hmem)
    exact read_fileOf hholds hstem hmem hdaily.ofRecordText?_eq hdaily.target_eq

/-- A directory of readable records is loaded with the same records. -/
theorem Mirrors.load_eq_ok (hwell : inventory.WellFormed) {poolFiles dailyFiles : List FilePath}
    (hpool : poolFiles.Perm (recordFiles tree root.pool))
    (hdaily : dailyFiles.Perm (recordFiles tree root.daily)) :
    ∃ other, load root tree poolFiles dailyFiles = .ok ⟨root, loadConfig root tree, other⟩ ∧
      other.WellFormed ∧ inventory.SameRecords other := by
  obtain ⟨hentries, hpoolStrange⟩ := hmirrors.poolRecords hreadable hwell hpool
  obtain ⟨hdailies, hdailyStrange⟩ := hmirrors.dailyRecords hreadable hwell hdaily
  simp only [load, hpoolStrange, hdailyStrange, List.append_nil, List.isEmpty_nil, Bool.not_true,
    Bool.and_false, Bool.false_eq_true, if_false]
  generalize poolFiles.filterMap (poolRecordAt? tree) = entries at hentries ⊢
  generalize dailyFiles.filterMap (dailyRecordAt? tree) = dailies at hdailies ⊢
  have hinsert := (Inventory.insertPool_eq_ok_iff Inventory.empty _ entries).mpr
    ⟨hwell.admits_perm hentries, rfl⟩
  have hadopt := foldlM_adopt_insertDaily (hwell.admitsDaily_perm entries hdailies)
  refine ⟨.ofRecords entries dailies, ?_, hwell.ofRecords hentries _,
    hwell.sameRecords hentries hdailies⟩
  rw [hinsert]
  change (dailies.foldlM (fun inventory daily => load.adopt (inventory.insertDaily daily))
    (entries.foldl Inventory.push Inventory.empty) >>= _) = _
  rw [hadopt]
  rfl

end Load

/-- An order in which the files of a folder may be listed. -/
structure Listing where
  order : List FilePath → List FilePath
  perm : ∀ files, (order files).Perm files

end Directory

namespace DirectoryStore

open Directory

/-- The store as it is opened anew on the files it has left. -/
def reopen (listing : Listing) (store : DirectoryStore) : Except LoadError DirectoryStore := do
  let root := store.directory.root
  let files (folder : FilePath) := listing.order (recordFiles store.tree folder)
  return ⟨← load root store.tree (files root.pool) (files root.daily), store.tree⟩

/-- The stores answer alike what the equation of a day is and what their statistics are, and they
have the same pool up to its order. -/
structure Same (store other : DirectoryStore) : Prop where
  findDaily_eq : ∀ date,
    (outcome (Store.findDaily date) other).1 = (outcome (Store.findDaily date) store).1
  mem_pool_iff : ∀ entry,
    entry ∈ other.directory.inventory.pool ↔ entry ∈ store.directory.inventory.pool
  stats_eq : (outcome Store.stats other).1 = (outcome Store.stats store).1

section Reopen

variable {root : Root} {store other : DirectoryStore} {inventory : Inventory}

theorem Represents.same {known : Inventory} (hrepresents : store.Represents root inventory)
    (hother : other.Represents root known) (hsame : inventory.SameRecords known) :
    store.Same other where
  findDaily_eq date := by
    have hfind := ((agree_represents root).findDaily date store inventory hrepresents).1
    have hfind' := ((agree_represents root).findDaily date other known hother).1
    rw [hfind, hfind', Inventory.outcome_findDaily, Inventory.outcome_findDaily,
      hsame.findDaily?_eq]
  mem_pool_iff entry := by
    rw [hother.inventory_eq, hrepresents.inventory_eq]
    exact hsame.mem_pool_iff entry
  stats_eq := by
    have hstats : ∀ inventory : Inventory, (outcome Store.stats inventory).1 =
        .ok ⟨inventory.poolCount, inventory.usedCount,
          inventory.poolCount - inventory.usedCount, inventory.dailyCount⟩ := by
      simp [Store.stats, outcome_bind, outcome_map, Except.map]
    rw [((agree_represents root).stats store inventory hrepresents).1,
      ((agree_represents root).stats other known hother).1, hstats, hstats, hsame.poolCount_eq,
      hsame.usedCount_eq hrepresents.wellFormed hother.wellFormed, hsame.dailyCount_eq]

/-- A store whose records can be read back is opened anew with the same records. -/
theorem Represents.reopen (hrepresents : store.Represents root inventory)
    (hreadable : inventory.Readable) (listing : Listing) :
    ∃ next known, store.reopen listing = .ok next ∧ next.Represents root known ∧
      inventory.SameRecords known := by
  obtain ⟨rfl, -, hwell, hmirrors⟩ := hrepresents
  obtain ⟨known, hload, hknown, hsame⟩ := hmirrors.load_eq_ok hreadable hwell
    (listing.perm (recordFiles store.tree store.directory.root.pool))
    (listing.perm (recordFiles store.tree store.directory.root.daily))
  have hopen : store.reopen listing =
      .ok ⟨⟨store.directory.root, loadConfig store.directory.root store.tree, known⟩,
        store.tree⟩ := by
    rw [DirectoryStore.reopen]
    simp only [hload]
    rfl
  exact ⟨_, known, hopen, ⟨rfl, rfl, hknown, hmirrors.congr hsame⟩, hsame⟩

end Reopen

end DirectoryStore

end EquationPuzzle
