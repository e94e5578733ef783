import EquationPuzzle.CommandLine.Commands
import EquationPuzzle.Config.File
import EquationPuzzle.Proofs.FileTree
import EquationPuzzle.Proofs.Json.Forms
import EquationPuzzle.Proofs.Store.Outcome
import EquationPuzzle.Proofs.Toml.Lines

/-!
# Saved configurations

A configuration is written with one line for its version and one for each setting, and is read back
from them whatever its settings are.  Saving it replaces the file at a path by these lines, or fails
and changes nothing.
-/

namespace EquationPuzzle

namespace Config

/-! ## Text -/

def names : List String :=
  [versionKey, "max_attempts", "allow_unrecognised"]

def lines (config : Config) : List Toml.Line :=
  [⟨versionKey, Toml.quoted version.toList, .text version⟩,
    ⟨"max_attempts", Nat.toDigits 10 config.maxAttempts.toNat,
      .integer config.maxAttempts.toNat⟩,
    ⟨"allow_unrecognised", (if config.allowUnrecognised then "true" else "false").toList,
      .bool config.allowUnrecognised⟩]

theorem text_eq (config : Config) :
    config.text = String.ofList (config.lines.flatMap Toml.lineText) := by
  rw [← String.toList_inj]
  simp [text, lines, Toml.lineText, Toml.quoted, versionKey, version]

theorem isBareKey_of_mem_names {name : String} (hname : name ∈ names) :
    Toml.IsBareKey name.toList := by
  have hall : ∀ name ∈ names, name.toList ≠ [] ∧ name.toList.all Toml.isKeyCharacter := by
    decide
  exact ⟨(hall name hname).1, List.all_eq_true.mp (hall name hname).2⟩

theorem isLine_of_mem_lines (config : Config) : ∀ line ∈ config.lines, Toml.IsLine line := by
  have hkeys : ∀ name ∈ names, Toml.IsBareKey name.toList := fun _ => isBareKey_of_mem_names
  have hbasic : ∀ c ∈ version.toList, Toml.isBasic c := by
    simp [version, Toml.isBasic, Toml.isPlain]
  have hversion := Toml.isValue_quoted hbasic
  have hnumber := Toml.isValue_toDigits (number_range config.maxAttempts).2
  have hflag := Toml.isValue_bool config.allowUnrecognised
  rw [String.ofList_toList] at hversion
  simp only [names, List.forall_mem_cons] at hkeys
  simp only [lines, List.forall_mem_cons, List.not_mem_nil, false_imp_iff, implies_true, and_true]
  exact ⟨⟨hkeys.1, hversion⟩, ⟨hkeys.2.1, hnumber⟩, ⟨hkeys.2.2.1, hflag⟩⟩

theorem nodup_map_key_lines (config : Config) : (config.lines.map Toml.Line.key).Nodup := by
  change names.Nodup
  decide

theorem tagged?_entriesOf_lines (config : Config) :
    Toml.Document.tagged? versionKey ⟨Toml.entriesOf config.lines, []⟩ =
      some ⟨version, config.body⟩ := by
  rfl

/-- Every configuration is read back from its text. -/
theorem ofText?_text (config : Config) : ofText? config.text = some config := by
  have hread := Toml.ofText?_lines (isLine_of_mem_lines config) (nodup_map_key_lines config)
  have hnumber := natural?_number config.maxAttempts
  rw [ofText?, text_eq, hread, Option.bind_eq_bind, Option.bind_some, tagged?_entriesOf_lines,
    Option.bind_eq_bind, Option.bind_some, body, ofTagged?_eq_some rfl rfl rfl hnumber rfl,
    UInt64.ofNat_toNat]

/-! ## File -/

theorem load_put {tree : FileTree} {path : FilePath} (hwritable : tree.Writable path)
    (config : Config) : load (tree.put path (.file (.text config.text))) path = .ok config := by
  rcases hwritable.exists_eq_append with ⟨folder, name, rfl, hgrounded⟩
  have hfile : (tree.put (folder ++ [name]) (.file (.text config.text))).find? (folder ++ [name]) =
      some (.file (.text config.text)) := by
    rw [FileTree.find?_put (by simp), if_pos rfl]
  rw [load, (hgrounded.put_append name _).readText hfile]
  dsimp only
  rw [ofText?_text]

end Config

namespace CommandLine

variable {f : FileTree → Except FileFault FileTree} {host : Host}

theorem outcome_change_of_ok {after : FileTree} (hf : f host.tree = .ok after) (what : String) :
    outcome (CommandM.change what f) host = (.ok (), { host with tree := after }) := by
  rw [CommandM.change, outcome_bind, outcome_get]
  dsimp only
  rw [hf]
  rfl

theorem outcome_change_of_error {fault : FileFault} (hf : f host.tree = .error fault)
    (what : String) :
    outcome (CommandM.change what f) host =
      (.error (.message (what ++ ": " ++ faultText fault)), host) := by
  rw [CommandM.change, outcome_bind, outcome_get]
  dsimp only
  rw [hf]
  rfl

end CommandLine

open CommandLine

/-- Saving a configuration fails and leaves all files as they are, unless only directories lead to
the path and none stands there.  Else the configuration is loaded from the path afterwards, whatever
was there before, and all other files are as they were. -/
theorem Config.load_save (config : Config) (path : FilePath) (what : String) (host : Host) :
    (¬host.tree.Writable path ∧ ∃ text,
        outcome (CommandM.change what (config.save · path)) host = (.error (.message text), host)) ∨
      (host.tree.Writable path ∧ ∃ after,
        outcome (CommandM.change what (config.save · path)) host =
          (.ok (), { host with tree := after }) ∧
        after.find? path = some (.file (.text config.text)) ∧
        load after path = .ok config ∧
        ∀ other, other ≠ path → after.find? other = host.tree.find? other) := by
  by_cases hwritable : host.tree.Writable path
  · have hne : path ≠ [] := by
      rcases hwritable.exists_eq_append with ⟨folder, name, rfl, -⟩
      simp
    refine .inr ⟨hwritable, _, outcome_change_of_ok (hwritable.writeFile _) what, ?_,
      load_put hwritable config, ?_⟩
    · rw [FileTree.find?_put hne, if_pos rfl]
    · intro other hother
      rw [FileTree.find?_put hne, if_neg hother]
  · rcases FileTree.exists_writeFile_eq_error hwritable (.text config.text) with ⟨fault, hfault⟩
    exact .inl ⟨hwritable, _, outcome_change_of_error hfault what⟩

end EquationPuzzle
