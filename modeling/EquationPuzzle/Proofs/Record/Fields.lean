import EquationPuzzle.Proofs.Yaml.Datum
import EquationPuzzle.Record

/-!
# Fields of records

A record whose fields are words is read back field by field: its text has one document, the version
is taken out of that, and each name finds the data of its own line.
-/

namespace EquationPuzzle

namespace Record

open Yaml (IsLine Node lineEntry lineText)

/-- A line of a record and the data it is read as. -/
structure Field where
  name : String
  value : String
  datum : Datum
  value_isWord : Yaml.isWord value.toList
  value_datum : Yaml.Core.datum? value = some datum
  name_isWord : Yaml.isWord name.toList := by decide
  name_opens : name.toList.head?.any Yaml.opensWord := by decide
  name_short : name.toList.length ≤ 1024 := by decide
  name_datum : Yaml.Core.datum? name = some (.text name) := by rfl
  name_ne : name ≠ Config.versionKey := by decide

namespace Field

def line (field : Field) : String × String := (field.name, field.value)

theorem isLine (field : Field) : IsLine field.line :=
  ⟨field.name_isWord, field.name_opens, field.name_short, field.value_isWord⟩

def known (field : Field) : String × Datum := (field.name, field.datum)

def entry (field : Field) : Datum × Datum := (.text field.name, field.datum)

end Field

/-! ## The document of a record -/

theorem toList_join_lines (lines : List (String × String)) :
    (String.join (lines.map fun (key, value) => key ++ ": " ++ value ++ "\n")).toList =
      lines.flatMap lineText := by
  induction lines with
  | nil => rfl
  | cons line lines ih => simp [String.join_cons, ih, lineText]

theorem toList_text (lines : List (String × String)) :
    (text lines).toList = Config.versionKey.toList ++
      ':' :: (" '1'".toList ++ '\n' :: lines.flatMap lineText) := by
  rw [text, List.map_cons, String.join_cons, String.toList_append, toList_join_lines]
  simp [version]

variable (fields : List Field)

theorem ofText?_text :
    Yaml.ofText? (text (fields.map Field.line)) = some (.mapping none
      ((.scalar none Config.versionKey true, .scalar none "1" false) ::
        (fields.map Field.line).map lineEntry)) := by
  refine Yaml.ofText?_record (by decide) (by decide) (by decide) ?_ (toList_text _)
  intro line hline
  obtain ⟨field, _, rfl⟩ := List.mem_map.mp hline
  exact field.isLine

theorem datum?_scalar (depth : Nat) (text : String) :
    (Node.scalar none text true).datum? depth = Yaml.Core.datum? text := by
  unfold Node.datum?
  rfl

theorem dataOfEntries?_lines (depth : Nat) :
    Node.dataOfEntries? depth ((fields.map Field.line).map lineEntry) =
      some (fields.map Field.entry) := by
  induction fields with
  | nil => simp [Node.dataOfEntries?]
  | cons field fields ih =>
      simp only [List.map_cons, lineEntry, Field.line, Node.dataOfEntries?, datum?_scalar,
        field.name_datum, field.value_datum]
      rw [ih]
      rfl

theorem isKey_version : (Node.scalar none Config.versionKey true).isKey Config.versionKey := by
  have hversion : Yaml.Core.datum? Config.versionKey = some (.text Config.versionKey) := rfl
  rw [Node.isKey, datum?_scalar, hversion]
  simp

theorem isKey_line (field : Field) :
    (Node.scalar none field.name true).isKey Config.versionKey = false := by
  rw [Node.isKey, datum?_scalar, field.name_datum]
  simp [field.name_ne]

/-- None of the lines has the key of the version. -/
theorem filter_isKey_lines : ((fields.map Field.line).map lineEntry).filter
    (fun (key, _) => key.isKey Config.versionKey) = [] := by
  rw [List.filter_eq_nil_iff]
  rintro entry hentry
  obtain ⟨line, hline, rfl⟩ := List.mem_map.mp hentry
  obtain ⟨field, _, rfl⟩ := List.mem_map.mp hline
  simp [lineEntry, Field.line, isKey_line field]

theorem filter_not_isKey_lines : ((fields.map Field.line).map lineEntry).filter
    (fun (key, _) => !key.isKey Config.versionKey) = (fields.map Field.line).map lineEntry := by
  rw [List.filter_eq_self]
  rintro entry hentry
  obtain ⟨line, hline, rfl⟩ := List.mem_map.mp hentry
  obtain ⟨field, _, rfl⟩ := List.mem_map.mp hline
  simp [lineEntry, Field.line, isKey_line field]

theorem tagged?_lines :
    (Node.mapping none ((.scalar none Config.versionKey true, .scalar none "1" false) ::
        (fields.map Field.line).map lineEntry)).tagged? Config.versionKey =
      some ⟨"1", .map (fields.map Field.entry)⟩ := by
  have hversion := isKey_version
  have hdata : (Node.mapping none ((fields.map Field.line).map lineEntry)).datum?
      Node.depthLimit = some (.map (fields.map Field.entry)) := by
    rw [Node.depthLimit, Node.datum?, dataOfEntries?_lines]
    rfl
  unfold Node.tagged?
  simp only [List.filter_cons, hversion, if_true, filter_isKey_lines, Bool.not_true,
    Bool.false_eq_true, if_false, filter_not_isKey_lines, hdata, Node.written?]
  rfl

/-! ## Fields by their names -/

variable {fields}

theorem fieldsOfEntries?_entries {names : List String}
    (hnames : ∀ field ∈ fields, field.name ∈ names) (hnodup : (fields.map Field.name).Nodup) :
    Datum.fieldsOfEntries? names (fields.map Field.entry) = some (fields.map Field.known) := by
  induction fields with
  | nil => rfl
  | cons field fields ih =>
      rw [List.map_cons, List.nodup_cons] at hnodup
      have hrest := ih (fun field hmem => hnames field (by simp [hmem])) hnodup.2
      have hname : (Datum.text field.name).name? names = some (some field.name) := by
        simp [Datum.name?, hnames field (by simp)]
      have hnew : (fields.map Field.known).lookup field.name = none := by
        rw [List.lookup_eq_none_iff]
        rintro known hknown
        obtain ⟨other, hother, rfl⟩ := List.mem_map.mp hknown
        have hne : field.name ≠ other.name := by
          intro heq
          exact hnodup.1 (List.mem_map.mpr ⟨other, hother, heq.symm⟩)
        simpa [Field.known] using hne
      rw [List.map_cons, Field.entry, Datum.fieldsOfEntries?, hname, hrest]
      simp only [Option.bind_eq_bind, Option.bind_some, hnew]
      rfl

theorem lookup_known (hnodup : (fields.map Field.name).Nodup) {field : Field}
    (hmem : field ∈ fields) : (fields.map Field.known).lookup field.name = some field.datum := by
  induction fields with
  | nil => contradiction
  | cons first fields ih =>
      rw [List.map_cons, List.nodup_cons] at hnodup
      rw [List.map_cons, Field.known, List.lookup_cons]
      rcases List.mem_cons.mp hmem with rfl | hmem
      · simp
      · have hne : field.name ≠ first.name := by
          intro heq
          exact hnodup.1 (List.mem_map.mpr ⟨field, hmem, heq⟩)
        rw [beq_false_of_ne hne]
        exact ih hnodup.2 hmem

private theorem mapM_eq_some {α β : Type} {f : α → Option β} {g : α → β} {l : List α}
    (hall : ∀ a ∈ l, f a = some (g a)) : l.mapM f = some (l.map g) := by
  induction l with
  | nil => rfl
  | cons a l ih =>
      rw [List.mapM_cons, hall a (by simp), ih fun b hb => hall b (by simp [hb])]
      rfl

/-- A record with all its fields under distinct names is read back. -/
theorem fields?_text (fields : List Field) (hnodup : (fields.map Field.name).Nodup) :
    fields? (fields.map Field.name) (text (fields.map Field.line)) =
      some (fields.map Field.datum) := by
  have hnames : ∀ field ∈ fields, field.name ∈ fields.map Field.name :=
    fun field hmem => List.mem_map.mpr ⟨field, hmem, rfl⟩
  have hknown := fieldsOfEntries?_entries hnames hnodup
  have hdata : (fields.map Field.name).mapM (fun name => (fields.map Field.known).lookup name) =
      some (fields.map Field.datum) := by
    rw [List.mapM_map]
    exact mapM_eq_some fun field hmem => lookup_known hnodup hmem
  simp only [fields?, ofText?_text, tagged?_lines, Option.bind_eq_bind, Option.bind_some, version,
    Datum.fields?, hknown]
  exact hdata

end Record

end EquationPuzzle
