import EquationPuzzle.CommandLine.Terminal

/-!
# Lines of tiles

A tile shows its character between two texts, its frame.  The frames of a terminal are all different
and equally long, so a line of tiles falls into its tiles in one way only and tells every character
with its tile.
-/

namespace EquationPuzzle.CommandLine

/-- What stands before and behind the character of a tile: two brackets, or the sequences that begin
and end a green, an orange or a gray ground. -/
def frame (hasColor : Bool) (tile : Tile) : String × String :=
  match hasColor, tile with
  | false, .correct => ("[", "]")
  | false, .present => ("(", ")")
  | false, .absent => (" ", " ")
  | true, .correct => ("\x1b[30;48;2;000;128;000m ", " \x1b[0m")
  | true, .present => ("\x1b[30;48;2;255;165;000m ", " \x1b[0m")
  | true, .absent => ("\x1b[37;48;2;105;105;105m ", " \x1b[0m")

def tileText (hasColor : Bool) (cell : Char × Tile) : String :=
  (frame hasColor cell.2).1 ++ cell.1.toString ++ (frame hasColor cell.2).2

def tilesText (hasColor : Bool) (cells : List (Char × Tile)) : String :=
  String.join (cells.map (tileText hasColor))

theorem tile_eq_tileText (terminal : Terminal) (character : Char) (tile : Tile) :
    terminal.tile character tile = tileText terminal.hasColor (character, tile) := by
  rcases terminal with ⟨hasColor⟩
  cases hasColor with
  | false => cases tile <;> rfl
  | true =>
      -- The blank behind the character is joined to the sequence that ends the ground.
      have hend (text : String) : text ++ " " ++ "\x1b[0m" = text ++ " \x1b[0m" :=
        String.append_assoc ..
      cases tile <;>
        simp [Terminal.tile, Terminal.attributes, Color.gray, Color.orange, Color.green, tileText,
          frame, hend]

theorem join_map_tile (terminal : Terminal) (cells : List (Char × Tile)) :
    String.join (cells.map fun cell => terminal.tile cell.1 cell.2) =
      tilesText terminal.hasColor cells := by
  simp only [tile_eq_tileText, tilesText]

/-! ## What a line of tiles tells -/

theorem length_frame (hasColor : Bool) (tile other : Tile) :
    (frame hasColor tile).1.length = (frame hasColor other).1.length ∧
      (frame hasColor tile).2.length = (frame hasColor other).2.length := by
  cases hasColor <;> cases tile <;> cases other <;> decide

theorem eq_of_frame_fst_eq {hasColor : Bool} {tile other : Tile}
    (hsame : (frame hasColor tile).1 = (frame hasColor other).1) : tile = other := by
  revert hsame
  cases hasColor <;> cases tile <;> cases other <;> decide

variable {hasColor : Bool}

theorem toList_tileText (cell : Char × Tile) :
    (tileText hasColor cell).toList =
      (frame hasColor cell.2).1.toList ++ cell.1 :: (frame hasColor cell.2).2.toList := by
  simp [tileText]

/-- A line that begins with a tile begins with no other tile. -/
theorem tileText_append_inj {cell other : Char × Tile} {rest more : List Char}
    (hsame : (tileText hasColor cell).toList ++ rest = (tileText hasColor other).toList ++ more) :
    cell = other ∧ rest = more := by
  rw [toList_tileText, toList_tileText, List.append_assoc, List.append_assoc] at hsame
  obtain ⟨hbefore, hbehind⟩ := List.append_inj hsame (length_frame hasColor cell.2 other.2).1
  have htile : cell.2 = other.2 := eq_of_frame_fst_eq (String.toList_inj.mp hbefore)
  obtain ⟨hcharacter, hbehind⟩ := List.cons.inj hbehind
  obtain ⟨_, hrest⟩ := List.append_inj hbehind (length_frame hasColor cell.2 other.2).2
  exact ⟨Prod.ext hcharacter htile, hrest⟩

theorem tilesText_injective (hasColor : Bool) : Function.Injective (tilesText hasColor) := by
  intro cells more hsame
  have hcharacters := congrArg String.toList hsame
  clear hsame
  have hne : ∀ cell, (tileText hasColor cell).toList ≠ [] := by
    intro cell
    simp [toList_tileText]
  induction cells generalizing more with
  | nil =>
      cases more with
      | nil => rfl
      | cons other rest => simp [tilesText, hne] at hcharacters
  | cons cell rest ih =>
      cases more with
      | nil => simp [tilesText, hne] at hcharacters
      | cons other more =>
          simp only [tilesText, List.map_cons, String.join_cons,
            String.toList_append] at hcharacters
          obtain ⟨hcell, hrest⟩ := tileText_append_inj hcharacters
          rw [hcell, ih hrest]

end EquationPuzzle.CommandLine
