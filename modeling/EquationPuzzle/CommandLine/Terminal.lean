import EquationPuzzle.Feedback

/-!
# Terminal output

How tiles and marked words look on a terminal: in colors where the terminal has them, and with
brackets or nothing else where it has not.
-/

namespace EquationPuzzle.CommandLine

structure Terminal where
  hasColor : Bool
  deriving DecidableEq, Repr

/-- A color by its red, green and blue parts, each with three digits. -/
structure Color where
  parts : String
  deriving DecidableEq, Repr

namespace Color

def green : Color := ⟨"000;128;000"⟩

def orange : Color := ⟨"255;165;000"⟩

def gray : Color := ⟨"105;105;105"⟩

end Color

namespace Terminal

/-- The sequence that sets attributes of the terminal. -/
def attributes (codes : String) : String := "\x1b[" ++ codes ++ "m"

/-- A text in a color. -/
def colored (terminal : Terminal) (color : Color) (text : String) : String :=
  if terminal.hasColor then attributes ("38;2;" ++ color.parts) ++ text ++ attributes "39"
  else text

def success (terminal : Terminal) (text : String) : String :=
  terminal.colored .green text

def warning (terminal : Terminal) (text : String) : String :=
  terminal.colored .orange text

def dim (terminal : Terminal) (text : String) : String :=
  if terminal.hasColor then attributes "2" ++ text ++ attributes "0" else text

/-- A character as a tile: on a colored ground, or in brackets that tell the same. -/
def tile (terminal : Terminal) (character : Char) (tile : Tile) : String :=
  let text := character.toString
  if terminal.hasColor then
    let ground := match tile with
      | .correct => "30;48;2;" ++ Color.green.parts
      | .present => "30;48;2;" ++ Color.orange.parts
      | .absent => "37;48;2;" ++ Color.gray.parts
    attributes ground ++ " " ++ text ++ " " ++ attributes "0"
  else match tile with
    | .correct => "[" ++ text ++ "]"
    | .present => "(" ++ text ++ ")"
    | .absent => " " ++ text ++ " "

end Terminal

end EquationPuzzle.CommandLine
