import EquationPuzzle.Proofs.Record.Fields
import EquationPuzzle.Proofs.Record.Words

/-!
# Reading back entries

An entry is read back from its record with all that it had, its target number included, whether or
not that is the one of its equation.  Its time is read back as a clock shows it.
-/

namespace EquationPuzzle

namespace Record

theorem equation?_text (equation : Equation) :
    equation? (.text equation.text) = some equation := by
  simp only [equation?, Datum.text?, Option.bind_eq_bind, Option.bind_some, Equation.ofText_text]
  rfl

theorem target?_integer (target : UInt32) :
    target? (.integer target.toNat) = some target := by
  have hsize : target.toNat < UInt32.size := target.toNat_lt_size
  rw [target?, Datum.natural?, if_pos (by omega), Int.toNat_natCast, Option.map_some,
    UInt32.ofNat_toNat]

theorem difficulty?_name (difficulty : Difficulty) :
    difficulty? (.text difficulty.name) = some difficulty := by
  cases difficulty <;> rfl

def textField (name value : String) (htext : Yaml.IsText value)
    (name_isWord : Yaml.isWord name.toList := by decide)
    (name_opens : name.toList.head?.any Yaml.opensWord := by decide)
    (name_short : name.toList.length ≤ 1024 := by decide)
    (name_datum : Yaml.Core.datum? name = some (.text name) := by rfl)
    (name_ne : name ≠ Config.versionKey := by decide) : Field :=
  ⟨name, value, .text value, htext.isWord, htext.datum?_eq, name_isWord, name_opens, name_short,
    name_datum, name_ne⟩

def targetField (target : UInt32) : Field where
  name := "target_number"
  value := toString target.toNat
  datum := .integer target.toNat
  value_isWord := isWord_number _
  value_datum := Yaml.Core.datum?_number target.toNat_lt_size

def usedField (used : Bool) : Field where
  name := "used"
  value := if used then "true" else "false"
  datum := .bool used
  value_isWord := by cases used <;> decide
  value_datum := by cases used <;> rfl

end Record

namespace PoolEntry

open Record

def fields (entry : PoolEntry) : List Field :=
  [textField "id" entry.id.text entry.id.isText_text,
    textField "equation" entry.equation.text entry.equation.isText_text,
    targetField entry.targetNumber,
    textField "difficulty" entry.difficulty.name entry.difficulty.isText_name,
    usedField entry.used,
    textField "created" entry.created.text entry.created.isText_text]

def shown (entry : PoolEntry) : PoolEntry := { entry with created := entry.created.shown }

theorem shown_eq_iff (entry : PoolEntry) : entry.shown = entry ↔ entry.created.Proper := by
  rw [← Timestamp.shown_eq_iff]
  exact ⟨congrArg created, fun hcreated => by rw [shown, hcreated]⟩

/-- What an entry must have for its record to be accepted as it is. -/
structure Readable (entry : PoolEntry) : Prop where
  target_eq : entry.equation.targetNumber = some entry.targetNumber
  created_proper : entry.created.Proper

theorem fields?_recordText (entry : PoolEntry) :
    fields? ["id", "equation", "target_number", "difficulty", "used", "created"] entry.recordText =
      some [.text entry.id.text, .text entry.equation.text, .integer entry.targetNumber.toNat,
        .text entry.difficulty.name, .bool entry.used, .text entry.created.text] :=
  fields?_text entry.fields
    (show ["id", "equation", "target_number", "difficulty", "used", "created"].Nodup by decide)

/-- An entry of the pool is what its record is read as. -/
theorem ofRecordText?_recordText (entry : PoolEntry) :
    ofRecordText? entry.recordText = some entry.shown := by
  rw [ofRecordText?]
  refine Option.bind_eq_some_iff.mpr ⟨_, fields?_recordText entry, ?_⟩
  refine Option.bind_eq_some_iff.mpr ⟨_, rfl, ?_⟩
  refine Option.bind_eq_some_iff.mpr ⟨_, entry.id.ofText?_text, ?_⟩
  refine Option.bind_eq_some_iff.mpr ⟨_, equation?_text entry.equation, ?_⟩
  refine Option.bind_eq_some_iff.mpr ⟨_, target?_integer entry.targetNumber, ?_⟩
  refine Option.bind_eq_some_iff.mpr ⟨_, difficulty?_name entry.difficulty, ?_⟩
  refine Option.bind_eq_some_iff.mpr ⟨_, rfl, ?_⟩
  refine Option.bind_eq_some_iff.mpr ⟨_, rfl, ?_⟩
  exact Option.bind_eq_some_iff.mpr ⟨_, entry.created.ofText?_text, rfl⟩

theorem Readable.ofRecordText?_eq {entry : PoolEntry} (hreadable : entry.Readable) :
    ofRecordText? entry.recordText = some entry := by
  rw [ofRecordText?_recordText, entry.shown_eq_iff.mpr hreadable.created_proper]

end PoolEntry

namespace DailyEquation

open Record

def fields (daily : DailyEquation) : List Field :=
  [textField "id" daily.id.text daily.id.isText_text,
    textField "date" daily.date.text daily.date.isText_text,
    textField "equation" daily.equation.text daily.equation.isText_text,
    targetField daily.targetNumber,
    textField "difficulty" daily.difficulty.name daily.difficulty.isText_name,
    textField "created" daily.created.text daily.created.isText_text]

def shown (daily : DailyEquation) : DailyEquation :=
  { daily with created := daily.created.shown }

theorem shown_eq_iff (daily : DailyEquation) : daily.shown = daily ↔ daily.created.Proper := by
  rw [← Timestamp.shown_eq_iff]
  exact ⟨congrArg created, fun hcreated => by rw [shown, hcreated]⟩

/-- What a daily equation must have for its record to be accepted as it is. -/
structure Readable (daily : DailyEquation) : Prop where
  target_eq : daily.equation.targetNumber = some daily.targetNumber
  created_proper : daily.created.Proper

theorem fields?_recordText (daily : DailyEquation) :
    fields? ["id", "date", "equation", "target_number", "difficulty", "created"] daily.recordText =
      some [.text daily.id.text, .text daily.date.text, .text daily.equation.text,
        .integer daily.targetNumber.toNat, .text daily.difficulty.name, .text daily.created.text] :=
  fields?_text daily.fields
    (show ["id", "date", "equation", "target_number", "difficulty", "created"].Nodup by decide)

/-- A daily equation is what its record is read as. -/
theorem ofRecordText?_recordText (daily : DailyEquation) :
    ofRecordText? daily.recordText = some daily.shown := by
  rw [ofRecordText?]
  refine Option.bind_eq_some_iff.mpr ⟨_, fields?_recordText daily, ?_⟩
  refine Option.bind_eq_some_iff.mpr ⟨_, rfl, ?_⟩
  refine Option.bind_eq_some_iff.mpr ⟨_, daily.id.ofText?_text, ?_⟩
  refine Option.bind_eq_some_iff.mpr ⟨_, rfl, ?_⟩
  refine Option.bind_eq_some_iff.mpr ⟨_, daily.date.ofText?_text, ?_⟩
  refine Option.bind_eq_some_iff.mpr ⟨_, equation?_text daily.equation, ?_⟩
  refine Option.bind_eq_some_iff.mpr ⟨_, target?_integer daily.targetNumber, ?_⟩
  refine Option.bind_eq_some_iff.mpr ⟨_, difficulty?_name daily.difficulty, ?_⟩
  refine Option.bind_eq_some_iff.mpr ⟨_, rfl, ?_⟩
  exact Option.bind_eq_some_iff.mpr ⟨_, daily.created.ofText?_text, rfl⟩

theorem Readable.ofRecordText?_eq {daily : DailyEquation} (hreadable : daily.Readable) :
    ofRecordText? daily.recordText = some daily := by
  rw [ofRecordText?_recordText, daily.shown_eq_iff.mpr hreadable.created_proper]

end DailyEquation

end EquationPuzzle
