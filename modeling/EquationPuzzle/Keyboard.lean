import EquationPuzzle.Feedback

/-!
# Keyboard

What the guesses so far have told about each key.  The keys are kept in ascending order of their
characters, each of them once, with the most informative tile it has had.
-/

namespace EquationPuzzle

/-- The keys with one of them set, from what was known of it before. -/
def Keyboard.updated (key : Char) (tile : Option Tile → Tile) :
    List (Char × Tile) → List (Char × Tile)
  | [] => [(key, tile none)]
  | (other, known) :: rest =>
    if key < other then (key, tile none) :: (other, known) :: rest
    else if other < key then (other, known) :: updated key tile rest
    else (other, tile (some known)) :: rest

theorem Keyboard.mem_updated {key : Char} {tile : Option Tile → Tile} {keys : List (Char × Tile)}
    {entry : Char × Tile} (h : entry ∈ updated key tile keys) :
    entry.1 = key ∨ ∃ known ∈ keys, known.1 = entry.1 := by
  induction keys with
  | nil => simp_all [updated]
  | cons first rest ih =>
    rw [updated] at h
    split at h
    · rcases List.mem_cons.1 h with rfl | member
      · exact .inl rfl
      · exact .inr ⟨entry, member, rfl⟩
    · split at h
      · rcases List.mem_cons.1 h with rfl | member
        · exact .inr ⟨_, List.mem_cons_self, rfl⟩
        · rcases ih member with equal | ⟨known, member, equal⟩
          · exact .inl equal
          · exact .inr ⟨known, List.mem_cons_of_mem _ member, equal⟩
      · rcases List.mem_cons.1 h with rfl | member
        · exact .inr ⟨_, List.mem_cons_self, rfl⟩
        · exact .inr ⟨entry, List.mem_cons_of_mem _ member, rfl⟩

theorem Keyboard.pairwise_updated {key : Char} {tile : Option Tile → Tile}
    {keys : List (Char × Tile)} (ascending : keys.Pairwise (·.1 < ·.1)) :
    (updated key tile keys).Pairwise (·.1 < ·.1) := by
  induction keys with
  | nil => simp [updated]
  | cons first rest ih =>
    obtain ⟨other, known⟩ := first
    obtain ⟨above, tail⟩ := List.pairwise_cons.1 ascending
    rw [updated]
    split
    · rename_i before
      refine List.pairwise_cons.2 ⟨fun entry member => ?_, ascending⟩
      rcases List.mem_cons.1 member with rfl | member
      · exact before
      · exact Char.lt_trans before (above entry member)
    · split
      · rename_i _ after
        refine List.pairwise_cons.2 ⟨fun entry member => ?_, ih tail⟩
        rcases mem_updated member with equal | ⟨known, member, equal⟩
        · exact equal ▸ after
        · exact equal ▸ above known member
      · exact List.pairwise_cons.2 ⟨above, tail⟩

structure Keyboard where
  keys : List (Char × Tile)
  ascending : keys.Pairwise (·.1 < ·.1)

namespace Keyboard

def empty : Keyboard := ⟨[], .nil⟩

def update (keyboard : Keyboard) (key : Char) (tile : Option Tile → Tile) : Keyboard :=
  ⟨updated key tile keyboard.keys, pairwise_updated keyboard.ascending⟩

/-- The key with just this tile, whatever was known of it. -/
def set (keyboard : Keyboard) (key : Char) (tile : Tile) : Keyboard :=
  keyboard.update key fun _ => tile

/-- One more answer to a key; it never makes the key less informative. -/
def learn (keyboard : Keyboard) (key : Char) (tile : Tile) : Keyboard :=
  keyboard.update key fun known => known.elim tile (Tile.better · tile)

/-- All answers to a guess. -/
def record (keyboard : Keyboard) (guess : Spelling) (feedback : Feedback) : Keyboard :=
  (guess.toList.zip feedback.toList).foldl
    (fun keyboard (symbol, tile) => keyboard.learn symbol.toChar tile) keyboard

def find? (keyboard : Keyboard) (key : Char) : Option Tile :=
  keyboard.keys.lookup key

def state (keyboard : Keyboard) (symbol : Symbol) : Option Tile :=
  keyboard.find? symbol.toChar

end Keyboard

end EquationPuzzle
