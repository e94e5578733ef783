import EquationPuzzle.FileTree
import EquationPuzzle.Record

/-!
# Files of records

A record is read from a file of its own.  Its target number must be the one that its equation has,
and the file must be named as the record says: a pool entry's file after its identifier, and a daily
equation's file after its date.
-/

namespace EquationPuzzle

/-- Why a file is not the file of a record. -/
inductive RecordError where
  | inaccessible (fault : FileFault)
  | unrecognised
  | targetMismatch (equation : Equation) (recorded : UInt32)
  | misplaced (expected : String)
  deriving DecidableEq

namespace Record

/-- The name of a file without its extension: all before the last dot, unless nothing is. -/
def fileStem (name : String) : String :=
  match name.toList.reverse.dropWhile fun c => c != '.' with
  | [] => name
  | _ :: before => if before.isEmpty || name == ".." then name else String.ofList before.reverse

/-- The text of a file.  A file that can be opened but not read as a text is no record. -/
def readText (tree : FileTree) (path : FilePath) : Except RecordError String :=
  match tree.readText path with
  | .ok text => .ok text
  | .error .isADirectory => .error .unrecognised
  | .error .invalidData => .error .unrecognised
  | .error fault => .error (.inaccessible fault)

def parse {α : Type} (ofText? : String → Option α) (text : String) : Except RecordError α :=
  match ofText? text with
  | some record => .ok record
  | none => .error .unrecognised

def checkTarget (puzzle : Puzzle) : Except RecordError Unit :=
  if puzzle.equation.targetNumber = some puzzle.targetNumber then .ok ()
  else .error (.targetMismatch puzzle.equation puzzle.targetNumber)

def checkName (path : FilePath) (expected : String) : Except RecordError Unit :=
  if path.getLast?.map fileStem = some expected then .ok () else .error (.misplaced expected)

/-- Reads a record from its file.  The target number is checked before the name. -/
def read {α : Type} (ofText? : String → Option α) (puzzle : α → Puzzle) (stem : α → String)
    (tree : FileTree) (path : FilePath) : Except RecordError α := do
  let record ← parse ofText? (← readText tree path)
  checkTarget (puzzle record)
  checkName path (stem record)
  return record

end Record

def PoolEntry.read : FileTree → FilePath → Except RecordError PoolEntry :=
  Record.read ofRecordText? puzzle (·.id.text)

def DailyEquation.read : FileTree → FilePath → Except RecordError DailyEquation :=
  Record.read ofRecordText? puzzle (·.date.text)

end EquationPuzzle
