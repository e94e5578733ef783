import EquationPuzzle.CommandLine.Commands
import Std.Time.DateTime.Timestamp

/-!
# The program

Reads the store from its directory, runs the command, writes back what has changed, and prints.
-/

namespace EquationPuzzle.Program

open CommandLine

/-- The files and directories of a directory on disk, below a path of the tree. -/
def loadDirectory (tree : FileTree) (path : FilePath) (name : String) : IO FileTree := do
  let place := (← IO.currentDir) / name
  if !(← place.pathExists) then return tree
  if !(← place.isDir) then
    return tree.put path (.file (.ofBytes (← IO.FS.readBinFile place)))
  let mut tree := tree.put path .directory
  for entry in ← place.readDir do
    let inside := path ++ [entry.fileName]
    match (← entry.path.symlinkMetadata).type with
    | .file => tree := tree.put inside (.file (.ofBytes (← IO.FS.readBinFile entry.path)))
    | .dir => tree := tree.put inside .directory
    | _ => pure ()
  return tree

/-- The part of the file system that a store consists of. -/
def loadStore (root : Directory.Root) : IO FileTree := do
  let mut tree := FileTree.empty
  for length in List.range root.path.length do
    let ancestor := root.path.take (length + 1)
    let isAbsolute := root.name.startsWith "/"
    let name := (if isAbsolute then "/" else "") ++ "/".intercalate ancestor
    let place := (← IO.currentDir) / name
    if ← place.isDir then tree := tree.put ancestor .directory
    else if ← place.pathExists then tree := tree.put ancestor (.file (.text ""))
  for path in [root.config, root.pool, root.daily] do
    tree ← loadDirectory tree path (root.display path)
  return tree

/-- Makes the files and directories on disk what they are in the new tree. -/
def saveStore (root : Directory.Root) (old new : FileTree) : IO Unit := do
  for (path, node) in new.nodes.toList do
    if old.find? path ≠ some node then
      match node with
      | .directory => IO.FS.createDirAll (root.display path)
      | .file _ => pure ()
  for (path, node) in new.nodes.toList do
    if old.find? path ≠ some node then
      match node with
      | .file (.text value) => IO.FS.writeFile (root.display path) value
      | _ => pure ()

def seed : IO UInt64 := do
  let bytes ← IO.getRandomBytes 8
  return bytes.toList.foldl (fun value byte => value * 256 + byte.toUInt64) 0

def now : IO Timestamp := do
  let time := (← Std.Time.Timestamp.now).toNanosecondsSinceUnixEpoch.val.toNat
  match Timestamp.ofUnixTime? (time / nanosecondsPerSecond) (time % nanosecondsPerSecond) with
  | some moment => return moment
  | none => throw (IO.userError "the clock is out of range")

def run (arguments : List String) : IO UInt32 := do
  match Invocation.ofArguments? arguments with
  | none =>
    IO.eprintln "error: invalid arguments"
    return 2
  | some invocation =>
    let root := CommandM.rootOfText invocation.root
    let tree ← loadStore root
    let moment ← now
    let host : Host :=
      { terminal := ⟨(← IO.getEnv "FORCE_COLOR").isSome⟩
        tree
        supply := .seeded (← seed) (← seed) moment
        today := moment.day }
    let (outcome, host) := CommandLine.run arguments host
    saveStore root tree host.tree
    match outcome with
    | .usage => return 2
    | .finished output error succeeded =>
      IO.print output
      if let some message := error then IO.eprintln ("Error: " ++ message)
      return if succeeded then 0 else 1

end EquationPuzzle.Program

def main (arguments : List String) : IO UInt32 :=
  EquationPuzzle.Program.run arguments
