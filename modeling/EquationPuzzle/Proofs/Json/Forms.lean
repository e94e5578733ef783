import EquationPuzzle.Json.Domain
import EquationPuzzle.Proofs.Equation
import EquationPuzzle.Proofs.Json.Values

/-!
# Reading back what players see

Equations, puzzles, tiles, keyboards, difficulties and configurations are read back from their
compact JSON text.  An equation, alone or in a puzzle, is only read from a string that spells one.
-/

namespace EquationPuzzle

namespace Json

def read {α : Type} (ofJson? : Json → Option α) (text : String) : Option α :=
  (ofText? text).bind ofJson?

theorem read_eq_some_iff {α : Type} {ofJson? : Json → Option α} {text : String} {result : α} :
    read ofJson? text = some result ↔
      ∃ value, ofText? text = some value ∧ ofJson? value = some result :=
  Option.bind_eq_some_iff

/-- Whatever is written in a compact JSON text is read from it again. -/
def ReadsBack {α : Type} (toJson : α → Json) (ofJson? : Json → Option α) : Prop :=
  ∀ value, read ofJson? (toJson value).compact = some value

theorem ReadsBack.of_plain {α : Type} {toJson : α → Json} {ofJson? : Json → Option α}
    (hplain : ∀ value, Plain (toJson value))
    (hform : ∀ value, ofJson? (toJson value) = some value) :
    ReadsBack toJson ofJson? := by
  intro value
  rw [read, ofText?_compact (hplain value), Option.bind_some, hform]

end Json

namespace Equation

theorem ofJson?_toJson (equation : Equation) : ofJson? equation.toJson = some equation := by
  rw [toJson, ofJson?, ofText_text]
  rfl

theorem ofJson?_eq_some_iff (value : Json) (equation : Equation) :
    ofJson? value = some equation ↔ ∃ text, value = .string text ∧ ofText text = .ok equation := by
  cases value with
  | string text => cases hread : ofText text <;> simp [ofJson?, hread, Except.toOption]
  | _ => simp [ofJson?]

theorem readsBack : Json.ReadsBack toJson ofJson? :=
  .of_plain (fun _ => trivial) ofJson?_toJson

end Equation

namespace Difficulty

theorem ofJson?_toJson (difficulty : Difficulty) : ofJson? difficulty.toJson = some difficulty := by
  cases difficulty <;> rfl

theorem readsBack : Json.ReadsBack toJson ofJson? :=
  .of_plain (fun _ => trivial) ofJson?_toJson

end Difficulty

namespace Tile

theorem ofJson?_toJson (tile : Tile) : ofJson? tile.toJson = some tile := by
  cases tile <;> rfl

theorem readsBack : Json.ReadsBack toJson ofJson? :=
  .of_plain (fun _ => trivial) ofJson?_toJson

end Tile

namespace Puzzle

theorem word?_toNat (number : UInt32) : Json.word? (.integer number.toNat) = some number := by
  have hsize : number.toNat < UInt32.size := number.toNat_lt_size
  have hrange : (0 : Int) ≤ number.toNat ∧ (number.toNat : Int) < UInt32.size := by omega
  rw [Json.word?, if_pos hrange, Int.toNat_natCast, UInt32.ofNat_toNat]

theorem ofJson?_toJson (puzzle : Puzzle) : ofJson? puzzle.toJson = some puzzle := by
  have hfields : puzzle.toJson.fields? ["equation", "targetNumber"] =
      some [puzzle.equation.toJson, .integer puzzle.targetNumber.toNat] := by
    simp [toJson, Json.record, Json.fields?, Json.isString]
  simp [ofJson?, hfields, Equation.ofJson?_toJson, word?_toNat]

/-- A puzzle is read from nothing but a record, or a list, of a string that spells its equation and
a number of 32 bits. -/
theorem ofJson?_eq_some_iff (value : Json) (puzzle : Puzzle) :
    ofJson? value = some puzzle ↔ ∃ text target,
      value.fields? ["equation", "targetNumber"] = some [.string text, target] ∧
        Equation.ofText text = .ok puzzle.equation ∧ target.word? = some puzzle.targetNumber := by
  constructor
  · intro hread
    rw [ofJson?] at hread
    rcases Option.bind_eq_some_iff.mp hread with ⟨fields, hfields, hread⟩
    rcases fields with _ | ⟨spelled, _ | ⟨target, _ | ⟨third, rest⟩⟩⟩
    · contradiction
    · contradiction
    · rcases Option.bind_eq_some_iff.mp hread with ⟨equation, hequation, hread⟩
      rcases Option.bind_eq_some_iff.mp hread with ⟨number, hnumber, hread⟩
      cases hread
      rcases (Equation.ofJson?_eq_some_iff spelled equation).mp hequation with ⟨text, rfl, htext⟩
      exact ⟨text, target, hfields, htext, hnumber⟩
    · contradiction
  · rintro ⟨text, target, hfields, htext, hnumber⟩
    have hequation := (Equation.ofJson?_eq_some_iff _ _).mpr ⟨text, rfl, htext⟩
    simp [ofJson?, hfields, hequation, hnumber]

theorem readsBack : Json.ReadsBack toJson ofJson? := by
  apply Json.ReadsBack.of_plain _ ofJson?_toJson
  intro puzzle
  simp [toJson, Json.record, Json.Plain, Json.PlainMembers, Equation.toJson]

end Puzzle

namespace Keyboard

theorem updated_append {key : Char} {tile : Option Tile → Tile} {keys : List (Char × Tile)}
    (hbehind : ∀ entry ∈ keys, entry.1 < key) :
    updated key tile keys = keys ++ [(key, tile none)] := by
  induction keys with
  | nil => rfl
  | cons entry rest ih =>
      have hentry : entry.1 < key := hbehind entry (List.mem_cons_self ..)
      have hrest := ih fun other hother => hbehind other (List.mem_cons_of_mem _ hother)
      rw [updated, if_neg (Char.lt_asymm hentry), if_pos hentry, hrest]
      rfl

theorem set_eq {keyboard : Keyboard} {key : Char} {tile : Tile}
    (hascending : (keyboard.keys ++ [(key, tile)]).Pairwise (·.1 < ·.1)) :
    keyboard.set key tile = ⟨keyboard.keys ++ [(key, tile)], hascending⟩ := by
  have hbehind : ∀ entry ∈ keyboard.keys, entry.1 < key := fun entry hentry =>
    (List.pairwise_append.mp hascending).2.2 entry hentry _ (List.mem_singleton_self _)
  rw [set, update, Keyboard.mk.injEq]
  exact updated_append hbehind

def members (keys : List (Char × Tile)) : List (Json × Json) :=
  keys.map fun entry => (.string entry.1.toString, entry.2.toJson)

theorem members_cons (entry : Char × Tile) (rest : List (Char × Tile)) :
    members (entry :: rest) =
      (.string entry.1.toString, entry.2.toJson) :: members rest := rfl

theorem toJson_eq (keyboard : Keyboard) :
    keyboard.toJson = .object [(.string "keys", .object (members keyboard.keys))] := by
  simp [toJson, Json.record, members]

/-- Keys that are set in their order make up the keyboard again. -/
theorem foldlM_set {step : Keyboard → Json × Json → Option Keyboard}
    (hstep : ∀ keyboard key tile,
      step keyboard (.string (Char.toString key), tile.toJson) = some (keyboard.set key tile))
    (keyboard : Keyboard) (keys : List (Char × Tile))
    (hascending : (keyboard.keys ++ keys).Pairwise (·.1 < ·.1)) :
    (members keys).foldlM step keyboard = some ⟨keyboard.keys ++ keys, hascending⟩ := by
  -- Each key stands behind those that are set, so setting it appends it.
  induction keys generalizing keyboard with
  | nil => simp [members]
  | cons entry rest ih =>
      have hsplit : keyboard.keys ++ entry :: rest = (keyboard.keys ++ [entry]) ++ rest := by simp
      have hfirst : (keyboard.keys ++ [(entry.1, entry.2)]).Pairwise (·.1 < ·.1) :=
        (List.pairwise_append.mp (hsplit ▸ hascending)).1
      have hrest := ih ⟨keyboard.keys ++ [entry], hfirst⟩ (hsplit ▸ hascending)
      rw [members_cons, List.foldlM_cons, hstep, set_eq hfirst, Option.bind_eq_bind,
        Option.bind_some, hrest, Option.some.injEq, Keyboard.mk.injEq]
      exact hsplit.symm

theorem ofJson?_toJson (keyboard : Keyboard) : ofJson? keyboard.toJson = some keyboard := by
  have hfields : keyboard.toJson.fields? ["keys"] = some [.object (members keyboard.keys)] := by
    simp [toJson_eq, Json.fields?, Json.isString]
  rw [ofJson?, hfields, Option.bind_eq_bind, Option.bind_some]
  apply foldlM_set _ empty keyboard.keys keyboard.ascending
  intro before key tile
  simp [Tile.ofJson?_toJson]

theorem plainMembers_members (keys : List (Char × Tile)) : Json.PlainMembers (members keys) := by
  induction keys with
  | nil => trivial
  | cons entry rest ih => exact ⟨⟨_, rfl⟩, trivial, ih⟩

theorem readsBack : Json.ReadsBack toJson ofJson? := by
  apply Json.ReadsBack.of_plain _ ofJson?_toJson
  intro keyboard
  rw [toJson_eq]
  exact ⟨⟨_, rfl⟩, plainMembers_members keyboard.keys, trivial⟩

end Keyboard

namespace Config

theorem number_range (number : UInt64) :
    Datum.integerMin ≤ (number.toNat : Int) ∧ (number.toNat : Int) ≤ Datum.integerMax := by
  have hsize : number.toNat < 18446744073709551616 := number.toNat_lt_size
  unfold Datum.integerMin Datum.integerMax
  omega

theorem natural?_number (number : UInt64) :
    (Datum.integer number.toNat).natural? UInt64.size = some number.toNat := by
  have hsize : number.toNat < UInt64.size := number.toNat_lt_size
  have hrange : (0 : Int) ≤ number.toNat ∧ (number.toNat : Int) < UInt64.size := by omega
  rw [Datum.natural?, if_pos hrange, Int.toNat_natCast]

def body (config : Config) : Datum :=
  .map [(.text "max_attempts", .integer config.maxAttempts.toNat),
    (.text "allow_unrecognised", .bool config.allowUnrecognised)]

theorem tagged?_toJson (config : Config) :
    config.toJson.tagged? versionKey = some ⟨version, config.body⟩ := by
  simp [toJson, Json.record, Json.tagged?, Json.isString, versionKey, Json.datum?,
    Json.dataOfMembers?, number_range, Json.depthLimit, body]

theorem ofTagged?_eq_some {body : Datum} {fields : List (String × Datum)} {number flag : Datum}
    {maxAttempts : Nat} {allowUnrecognised : Bool}
    (hfields : body.fields? ["max_attempts", "allow_unrecognised"] = some fields)
    (hnumber : fields.lookup "max_attempts" = some number)
    (hflag : fields.lookup "allow_unrecognised" = some flag)
    (hmaxAttempts : number.natural? UInt64.size = some maxAttempts)
    (hallowUnrecognised : flag.bool? = some allowUnrecognised) :
    ofTagged? ⟨version, body⟩ = some ⟨UInt64.ofNat maxAttempts, allowUnrecognised⟩ := by
  -- The fields are any that are found, so that the bound of 64 bits is not unfolded.
  simp [ofTagged?, hfields, hnumber, hflag, hmaxAttempts, hallowUnrecognised]

theorem ofJson?_toJson (config : Config) : ofJson? config.toJson = some config := by
  have hnumber := natural?_number config.maxAttempts
  rw [ofJson?, tagged?_toJson, Option.bind_some, body, ofTagged?_eq_some rfl rfl rfl hnumber rfl,
    UInt64.ofNat_toNat]

theorem readsBack : Json.ReadsBack toJson ofJson? := by
  apply Json.ReadsBack.of_plain _ ofJson?_toJson
  intro config
  simp [toJson, Json.record, Json.Plain, Json.PlainMembers]

end Config

/-- Everything that players see is read back from its compact text as it was, an equation with the
bits of its value.  An equation is only read from a string that is the text of one, and a puzzle
only if its equation is. -/
theorem Json.forms_readBack :
    (∀ equation : Equation, ∃ again,
      read Equation.ofJson? equation.toJson.compact = some again ∧ again = equation ∧
        (Binary64.finite again.value).pattern = (Binary64.finite equation.value).pattern) ∧
      ReadsBack Puzzle.toJson Puzzle.ofJson? ∧ ReadsBack Keyboard.toJson Keyboard.ofJson? ∧
      ReadsBack Config.toJson Config.ofJson? ∧ ReadsBack Tile.toJson Tile.ofJson? ∧
      ReadsBack Difficulty.toJson Difficulty.ofJson? ∧
      (∀ text equation, read Equation.ofJson? text = some equation ↔
        ∃ spelled, ofText? text = some (.string spelled) ∧ Equation.ofText spelled = .ok equation) ∧
      ∀ text puzzle, read Puzzle.ofJson? text = some puzzle ↔ ∃ value spelled target,
        ofText? text = some value ∧
          value.fields? ["equation", "targetNumber"] = some [.string spelled, target] ∧
          Equation.ofText spelled = .ok puzzle.equation ∧
          target.word? = some puzzle.targetNumber := by
  refine ⟨?_, Puzzle.readsBack, Keyboard.readsBack, Config.readsBack, Tile.readsBack,
    Difficulty.readsBack, ?_, ?_⟩
  · intro equation
    exact ⟨equation, Equation.readsBack equation, rfl, rfl⟩
  · intro text equation
    simp only [read_eq_some_iff, Equation.ofJson?_eq_some_iff]
    constructor
    · rintro ⟨_, htext, spelled, rfl, hspelled⟩
      exact ⟨spelled, htext, hspelled⟩
    · rintro ⟨spelled, htext, hspelled⟩
      exact ⟨_, htext, spelled, rfl, hspelled⟩
  · intro text puzzle
    simp only [read_eq_some_iff, Puzzle.ofJson?_eq_some_iff, ← exists_and_left]

end EquationPuzzle
