import EquationPuzzle.Config
import EquationPuzzle.Json.Datum
import EquationPuzzle.Keyboard
import EquationPuzzle.Puzzle

/-!
# Equations, puzzles and keyboards in JSON

The JSON forms of the values that players see.  An equation is a string; a puzzle and a keyboard are
objects, and may also be read from the list of their members in order.  Members with other names are
passed over; a member given twice is refused.  Tiles and difficulties are strings, and may also be
read from an object with that only key and nothing behind it.  A configuration is a record that
names its version.
-/

namespace EquationPuzzle

namespace Json

/-- The values of an object's members with the given names, or all items of a list of as many. -/
def fields? (names : List String) : Json → Option (List Json)
  | array items => if items.length = names.length then some items else none
  | object members =>
    if members.any fun (key, _) => key matches unpaired then none
    else names.mapM fun name =>
      match members.filter fun (key, _) => key.isString name with
      | [(_, value)] => some value
      | _ => none
  | _ => none

/-- A name: a string, or the only key of an object with nothing behind it. -/
def name? : Json → Option String
  | string name => some name
  | object [(string name, null)] => some name
  | _ => none

/-- A natural number of 32 bits. -/
def word? : Json → Option UInt32
  | integer value =>
    if 0 ≤ value ∧ value < UInt32.size then some (UInt32.ofNat value.toNat) else none
  | _ => none

end Json

namespace Equation

def toJson (equation : Equation) : Json := .string equation.text

def ofJson? : Json → Option Equation
  | .string text => (ofText text).toOption
  | _ => none

end Equation

namespace Difficulty

def toJson (difficulty : Difficulty) : Json := .string difficulty.name

def ofJson? (value : Json) : Option Difficulty := value.name?.bind ofName?

end Difficulty

namespace Tile

def toJson (tile : Tile) : Json := .string tile.name

def ofJson? (value : Json) : Option Tile := value.name?.bind ofName?

end Tile

namespace Puzzle

def toJson (puzzle : Puzzle) : Json :=
  .record [("equation", puzzle.equation.toJson),
    ("targetNumber", .integer puzzle.targetNumber.toNat)]

/-- Reads a puzzle.  Its number is not compared with its equation. -/
def ofJson? (value : Json) : Option Puzzle := do
  match ← value.fields? ["equation", "targetNumber"] with
  | [equation, target] => return ⟨← Equation.ofJson? equation, ← target.word?⟩
  | _ => none

end Puzzle

namespace Keyboard

def toJson (keyboard : Keyboard) : Json :=
  .record [("keys", .record (keyboard.keys.map fun (key, tile) => (key.toString, tile.toJson)))]

/-- Reads a keyboard, the keys of which may come in any order; of a key given twice the last tile
counts. -/
def ofJson? (value : Json) : Option Keyboard := do
  match ← value.fields? ["keys"] with
  | [.object members] =>
    members.foldlM (fun keyboard (key, tile) =>
      match key with
      | .string text =>
        match text.toList with
        | [character] => return keyboard.set character (← Tile.ofJson? tile)
        | _ => none
      | _ => none) empty
  | _ => none

end Keyboard

def Config.ofJson? (value : Json) : Option Config :=
  (value.tagged? versionKey).bind ofTagged?

end EquationPuzzle
