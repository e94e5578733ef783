import EquationPuzzle.Config
import EquationPuzzle.Entry
import EquationPuzzle.Yaml.Datum

/-!
# Records

The text of an entry in a file: a YAML map with the version `1` and then one line for each field.  A
record may be read from any YAML form of that map.
-/

namespace EquationPuzzle

namespace Record

def version : String := "1"

/-- Lines of a key and a value each, after the line of the version. -/
def text (fields : List (String × String)) : String :=
  String.join ((Config.versionKey, "'" ++ version ++ "'") :: fields |>.map fun (key, value) =>
    key ++ ": " ++ value ++ "\n")

/-- The fields of a record with all the given names. -/
def fields? (names : List String) (text : String) : Option (List Datum) := do
  let record ← (← Yaml.ofText? text).tagged? Config.versionKey
  if record.version ≠ version then none
  let fields ← record.body.fields? names
  names.mapM fun name => fields.lookup name

def equation? (field : Datum) : Option Equation := do
  (Equation.ofText (← field.text?)).toOption

def target? (field : Datum) : Option UInt32 :=
  (field.natural? UInt32.size).map UInt32.ofNat

def difficulty? (field : Datum) : Option Difficulty := do
  Difficulty.ofName? (← field.choice? (Difficulty.all.map Difficulty.name))

end Record

namespace PoolEntry

def recordText (entry : PoolEntry) : String :=
  Record.text [("id", entry.id.text), ("equation", entry.equation.text),
    ("target_number", toString entry.targetNumber.toNat), ("difficulty", entry.difficulty.name),
    ("used", if entry.used then "true" else "false"), ("created", entry.created.text)]

/-- The entry that a record tells of.  Its target number need not be the one of its equation. -/
def ofRecordText? (text : String) : Option PoolEntry := do
  let names := ["id", "equation", "target_number", "difficulty", "used", "created"]
  match ← Record.fields? names text with
  | [id, equation, target, difficulty, used, created] =>
    return {
      id := ← Identifier.ofText? (← id.text?)
      equation := ← Record.equation? equation
      targetNumber := ← Record.target? target
      difficulty := ← Record.difficulty? difficulty
      used := ← used.bool?
      created := ← Timestamp.ofText? (← created.text?) }
  | _ => none

end PoolEntry

namespace DailyEquation

def recordText (daily : DailyEquation) : String :=
  Record.text [("id", daily.id.text), ("date", daily.date.text), ("equation", daily.equation.text),
    ("target_number", toString daily.targetNumber.toNat), ("difficulty", daily.difficulty.name),
    ("created", daily.created.text)]

/-- The daily equation that a record tells of, with any target number. -/
def ofRecordText? (text : String) : Option DailyEquation := do
  let names := ["id", "date", "equation", "target_number", "difficulty", "created"]
  match ← Record.fields? names text with
  | [id, date, equation, target, difficulty, created] =>
    return {
      id := ← Identifier.ofText? (← id.text?)
      date := ← Day.ofText? (← date.text?)
      equation := ← Record.equation? equation
      targetNumber := ← Record.target? target
      difficulty := ← Record.difficulty? difficulty
      created := ← Timestamp.ofText? (← created.text?) }
  | _ => none

end DailyEquation

end EquationPuzzle
