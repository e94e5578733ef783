import EquationPuzzle.Store
import Std.Data.HashMap

/-!
# File trees

The files and directories below one directory.  A path is the list of names that lead to a file; the
empty path is the directory at the top.  Each operation either succeeds or names the fault that
stops it, and leaves the tree unchanged then.
-/

namespace EquationPuzzle

/-- What a file holds: a text, or bytes that are no text. -/
inductive Content where
  | text (value : String)
  | binary (bytes : List UInt8)
  deriving DecidableEq

def Content.ofBytes (bytes : ByteArray) : Content :=
  match String.fromUTF8? bytes with
  | some value => text value
  | none => binary bytes.toList

inductive FileNode where
  | file (content : Content)
  | directory
  deriving DecidableEq

abbrev FilePath := List String

/-- Whether a path comes before another or is the same, name by name. -/
def FilePath.isBefore : FilePath → FilePath → Bool
  | [], _ => true
  | _ :: _, [] => false
  | a :: as, b :: bs =>
    if a < b then true else if b < a then false else isBefore as bs

structure FileTree where
  nodes : Std.HashMap FilePath FileNode

namespace FileTree

def empty : FileTree := ⟨∅⟩

def find? (tree : FileTree) (path : FilePath) : Option FileNode :=
  if path = [] then some .directory else tree.nodes[path]?

def put (tree : FileTree) (path : FilePath) (node : FileNode) : FileTree :=
  ⟨tree.nodes.insert path node⟩

/-- Whether all of the path but its last name leads through directories. -/
def checkAncestors (tree : FileTree) (path : FilePath) : Except FileFault Unit :=
  (List.range path.length).forM fun length =>
    match tree.find? (path.take length) with
    | some .directory => .ok ()
    | some (.file _) => .error .notADirectory
    | none => .error .notFound

/-- Makes the directory at a path, and those that lead to it, unless they are there. -/
def createDirectories (tree : FileTree) (path : FilePath) : Except FileFault FileTree :=
  (List.range path.length).foldlM (fun tree length =>
    let ancestor := path.take (length + 1)
    match tree.find? ancestor with
    | some .directory => .ok tree
    | some (.file _) => .error (if ancestor = path then .alreadyExists else .notADirectory)
    | none => .ok (tree.put ancestor .directory)) tree

/-- Writes a file that must not be there yet. -/
def createFile (tree : FileTree) (path : FilePath) (content : Content) :
    Except FileFault FileTree := do
  tree.checkAncestors path
  match tree.find? path with
  | none => .ok (tree.put path (.file content))
  | some _ => .error .alreadyExists

/-- Writes a file, in place of one that may be there. -/
def writeFile (tree : FileTree) (path : FilePath) (content : Content) :
    Except FileFault FileTree := do
  tree.checkAncestors path
  match tree.find? path with
  | some .directory => .error .isADirectory
  | _ => .ok (tree.put path (.file content))

def readText (tree : FileTree) (path : FilePath) : Except FileFault String := do
  tree.checkAncestors path
  match tree.find? path with
  | none => .error .notFound
  | some .directory => .error .isADirectory
  | some (.file (.binary _)) => .error .invalidData
  | some (.file (.text value)) => .ok value

/-- Removes a file. -/
def removeFile (tree : FileTree) (path : FilePath) : Except FileFault FileTree := do
  tree.checkAncestors path
  match tree.find? path with
  | none => .error .notFound
  | some .directory => .error .isADirectory
  | some (.file _) => .ok ⟨tree.nodes.erase path⟩

/-- Removes whatever is at a path and below it. -/
def removeAll (tree : FileTree) (path : FilePath) : FileTree :=
  ⟨tree.nodes.filter fun other _ => !path.isPrefixOf other⟩

/-- The names in a directory, in their order, with what they lead to. -/
def list (tree : FileTree) (path : FilePath) : List (String × FileNode) :=
  let children := tree.nodes.toList.filterMap fun (other, node) =>
    match other.getLast? with
    | some name => if other.dropLast = path then some (name, node) else none
    | none => none
  children.mergeSort fun a b => a.1 ≤ b.1

end FileTree

end EquationPuzzle
