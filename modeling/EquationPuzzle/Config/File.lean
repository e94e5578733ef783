import EquationPuzzle.Config
import EquationPuzzle.FileTree
import EquationPuzzle.Toml.Reader

/-!
# The configuration file

A configuration in a file of a tree, written as TOML with one line for each setting.
-/

namespace EquationPuzzle.Config

inductive LoadError where
  | unreadable (fault : FileFault)
  | unrecognised
  deriving DecidableEq, Repr

def text (config : Config) : String :=
  versionKey ++ " = \"" ++ version ++ "\"\n" ++
    "max_attempts = " ++ toString config.maxAttempts.toNat ++ "\n" ++
    "allow_unrecognised = " ++ (if config.allowUnrecognised then "true" else "false") ++ "\n"

def ofText? (text : String) : Option Config := do
  ofTagged? (← (← Toml.ofText? text).tagged? versionKey)

def load (tree : FileTree) (path : FilePath) : Except LoadError Config :=
  match tree.readText path with
  | .error fault => .error (.unreadable fault)
  | .ok text =>
    match ofText? text with
    | some config => .ok config
    | none => .error .unrecognised

def save (config : Config) (tree : FileTree) (path : FilePath) : Except FileFault FileTree :=
  tree.writeFile path (.text config.text)

end EquationPuzzle.Config
