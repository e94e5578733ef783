import EquationPuzzle.Config.File
import EquationPuzzle.Inventory
import EquationPuzzle.Record.File

/-!
# Stores in directories

A store in a directory keeps each entry of the pool and each daily equation in a file of its own:

    config.toml
    pool/<identifier>.yaml
    daily/<date>.yaml

All records are read when the directory is opened.  A change is written to its file first and then
made in memory.  Other programs may change the files meanwhile, so that files and memory may differ.
-/

namespace EquationPuzzle

namespace Directory

/-- Where a directory is: its name in messages, and its path in a tree. -/
structure Root where
  name : String
  path : FilePath
  deriving DecidableEq, Repr

def configName : String := "config.toml"

def poolName : String := "pool"

def dailyName : String := "daily"

namespace Root

def config (root : Root) : FilePath := root.path ++ [configName]

def pool (root : Root) : FilePath := root.path ++ [poolName]

def daily (root : Root) : FilePath := root.path ++ [dailyName]

def poolFile (root : Root) (id : Identifier) : FilePath := root.pool ++ [id.text ++ ".yaml"]

def dailyFile (root : Root) (date : Day) : FilePath := root.daily ++ [date.text ++ ".yaml"]

/-- A path below the root, as it is named in messages. -/
def display (root : Root) (path : FilePath) : String :=
  let below := "/".intercalate (path.drop root.path.length)
  if root.name.isEmpty ∨ root.name.toList.getLast? = some '/' then root.name ++ below
  else root.name ++ "/" ++ below

end Root

/-- The name of a record's file without its extension, which a name must not consist of alone. -/
def recordStem? (name : String) : Option String :=
  let extension := ".yaml".toList
  let characters := name.toList
  if extension.length < characters.length ∧ extension.isSuffixOf characters then
    some (String.ofList (characters.take (characters.length - extension.length)))
  else none

inductive LoadError where
  | unrecognised (paths : List FilePath)
  | conflict (cause : StoreError)
  deriving DecidableEq

end Directory

structure Directory where
  root : Directory.Root
  config : Config
  inventory : Inventory

namespace Directory

def LoadError.message (root : Root) : LoadError → String
  | unrecognised paths => "Unrecognised files: " ++ ", ".intercalate (paths.map root.display)
  | conflict cause => "Conflicting records: " ++ cause.message

/-- The configuration at a root, or the default one if there is none that can be read. -/
def loadConfig (root : Root) (tree : FileTree) : Config :=
  (Config.load tree root.config).toOption.getD Config.default

/-- The files directly in a directory that are records by their extension. -/
def recordFiles (tree : FileTree) (directory : FilePath) : List FilePath :=
  (tree.list directory).filterMap fun (name, node) =>
    match node with
    | .directory => none
    | .file _ => if (recordStem? name).isSome then some (directory ++ [name]) else none

def poolRecordAt? (tree : FileTree) (path : FilePath) : Option PoolEntry :=
  (PoolEntry.read tree path).toOption

def dailyRecordAt? (tree : FileTree) (path : FilePath) : Option DailyEquation :=
  (DailyEquation.read tree path).toOption

/-- The directory with the records of the given files, which may come in any order. -/
def load (root : Root) (tree : FileTree) (poolFiles dailyFiles : List FilePath) :
    Except LoadError Directory := do
  let config := loadConfig root tree
  let strange := (poolFiles.filter fun path => (poolRecordAt? tree path).isNone) ++
    dailyFiles.filter fun path => (dailyRecordAt? tree path).isNone
  if !config.allowUnrecognised && !strange.isEmpty then
    .error (.unrecognised (strange.mergeSort FilePath.isBefore))
  let inventory ← adopt (Inventory.empty.insertPool (poolFiles.filterMap (poolRecordAt? tree)))
  let inventory ← (dailyFiles.filterMap (dailyRecordAt? tree)).foldlM
    (fun inventory daily => adopt (inventory.insertDaily daily)) inventory
  return ⟨root, config, inventory⟩
where
  adopt (result : Except StoreError Inventory) : Except LoadError Inventory :=
    match result with
    | .ok inventory => .ok inventory
    | .error cause => .error (.conflict cause)

/-- Opens the directory at a root. -/
def ofTree (root : Root) (tree : FileTree) : Except LoadError Directory :=
  load root tree (recordFiles tree root.pool) (recordFiles tree root.daily)

def inaccessible (directory : Directory) (path : FilePath) (fault : FileFault) : StoreError :=
  .inaccessible (directory.root.display path) fault

/-- Writes the file of a record, which must be a new one or may be in place of another, in a
directory that is made if it is not there.  The directory stays even if the file cannot be
written. -/
def writeRecord (tree : FileTree) (path : FilePath) (isNew : Bool) (text : String) :
    Except FileFault Unit × FileTree :=
  match tree.createDirectories path.dropLast with
  | .error fault => (.error fault, tree)
  | .ok tree =>
    let written :=
      if isNew then tree.createFile path (.text text) else tree.writeFile path (.text text)
    match written with
    | .error fault => (.error fault, tree)
    | .ok tree => (.ok (), tree)

/-- Writes new files for all entries of a batch.  All are tried; the paths of those that were
written, and the first failure. -/
def writeBatch (root : Root) (tree : FileTree) : List PoolEntry →
    List FilePath × Option (FilePath × FileFault) × FileTree
  | [] => ([], none, tree)
  | entry :: rest =>
    let path := root.poolFile entry.id
    match writeRecord tree path true entry.recordText with
    | (.ok (), tree) =>
      let (written, failure, tree) := writeBatch root tree rest
      (path :: written, failure, tree)
    | (.error fault, tree) =>
      let (written, _, tree) := writeBatch root tree rest
      (written, some (path, fault), tree)

/-- The tree without the given files, as far as they can be removed. -/
def removeFiles (tree : FileTree) (paths : List FilePath) : FileTree :=
  paths.foldl (fun tree path => (tree.removeFile path).toOption.getD tree) tree

end Directory

/-- An open directory and the files it stands on. -/
structure DirectoryStore where
  directory : Directory
  tree : FileTree

namespace DirectoryStore

open Directory

def setInventory (inventory : Inventory) : StoreM DirectoryStore Unit :=
  modify fun store => { store with directory := { store.directory with inventory } }

def setTree (tree : FileTree) : StoreM DirectoryStore Unit :=
  modify fun store => { store with tree }

def inventory : StoreM DirectoryStore Inventory := return (← get).directory.inventory

/-- A day is free only if neither the inventory has it nor its file can be found to exist. -/
def insertDaily (daily : DailyEquation) : StoreM DirectoryStore Unit := do
  let ⟨directory, tree⟩ ← get
  if let some conflict := directory.inventory.dailyConflict? daily then throw conflict
  let path := directory.root.dailyFile daily.date
  let (written, tree) := writeRecord tree path true daily.recordText
  setTree tree
  match written with
  | .error .alreadyExists => throw (.duplicateDate daily.date)
  | .error fault => throw (directory.inaccessible path fault)
  | .ok () => setInventory (← directory.inventory.insertDaily daily)

def markUsed (id : Identifier) : StoreM DirectoryStore (Option PoolEntry) := do
  let ⟨directory, tree⟩ ← get
  match directory.inventory.claimable? id with
  | none => return none
  | some claimed =>
    let path := directory.root.poolFile id
    let (written, tree) := writeRecord tree path false claimed.recordText
    setTree tree
    if let .error fault := written then throw (directory.inaccessible path fault)
    match directory.inventory.claim? id with
    | none => return none
    | some (entry, inventory) =>
      setInventory inventory
      return some entry

/-- The files of a batch that cannot be written as a whole are removed again. -/
def insertPool (batch : List PoolEntry) : StoreM DirectoryStore Nat := do
  let ⟨directory, tree⟩ ← get
  if let some conflict := directory.inventory.poolConflict? batch then throw conflict
  let (written, failure, tree) := writeBatch directory.root tree batch
  match failure with
  | some (path, fault) =>
    setTree (removeFiles tree written)
    throw (directory.inaccessible path fault)
  | none =>
    setTree tree
    setInventory (← directory.inventory.insertPool batch)
    return batch.length

instance : Store DirectoryStore where
  findDaily date := return (← inventory).findDaily? date
  insertDaily := insertDaily
  findUnused := return (← inventory).firstUnused?
  markUsed := markUsed
  insertPool := insertPool
  poolEquations := return (← inventory).poolEquations
  countPool := return (← inventory).poolCount
  countUsed := return (← inventory).usedCount
  countDaily := return (← inventory).dailyCount

end DirectoryStore

end EquationPuzzle
