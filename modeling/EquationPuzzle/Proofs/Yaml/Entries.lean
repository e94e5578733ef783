import EquationPuzzle.Proofs.Yaml.Lines
import EquationPuzzle.Yaml.Node

/-!
# Entries of a map

The tokens of a block map of texts are built into the map with those texts as keys and values.
-/

namespace EquationPuzzle.Yaml

def lineEntry (line : String × String) : Node × Node :=
  (.scalar none line.1 true, .scalar none line.2 true)

namespace Build

def withInput (builder : Builder) (input : List Token) : Builder :=
  { builder with input }

variable (builder : Builder)

theorem run_blockEntries_cons (key value : String) (plainKey plainValue : Bool)
    (rest : List Token) (fuel : Nat) :
    (blockEntries (fuel + 5)).run (withInput builder
        (.key :: .scalar key plainKey :: .value :: .scalar value plainValue :: rest)) =
      ((blockEntries (fuel + 4)).run (withInput builder rest)).bind fun (entries, next) =>
        some ((.scalar none key plainKey, .scalar none value plainValue) :: entries, next) := by
  rfl

theorem run_blockEntries (lines : List (String × String)) {fuel : Nat}
    (hfuel : lines.length + 4 < fuel) :
    (blockEntries fuel).run (withInput builder (lines.flatMap lineTokens ++ [.blockEnd])) =
      some (lines.map lineEntry, withInput builder []) := by
  induction lines generalizing fuel with
  | nil =>
      obtain ⟨fuel, rfl⟩ : ∃ more, fuel = more + 1 := ⟨fuel - 1, by omega⟩
      rfl
  | cons line lines ih =>
      obtain ⟨fuel, rfl⟩ : ∃ more, fuel = more + 5 :=
        ⟨fuel - 5, by simp only [List.length_cons] at hfuel; omega⟩
      have hrest : lines.length + 4 < fuel + 4 := by
        simp only [List.length_cons] at hfuel
        omega
      have hline := run_blockEntries_cons builder line.1 line.2 true true
        (lines.flatMap lineTokens ++ [.blockEnd]) fuel
      rw [ih hrest] at hline
      rw [List.flatMap_cons, List.append_assoc]
      exact hline

theorem run_node_mapping (rest : List Token) (fuel : Nat) :
    (node true false (fuel + 2)).run (withInput builder (.blockMappingStart :: rest)) =
      ((blockEntries fuel).run (withInput builder rest)).bind fun (entries, next) =>
        some (.mapping none entries, next) := by
  rfl

theorem document_record (versionKey : String) (lines : List (String × String)) :
    document (recordTokens versionKey lines) =
      some (.mapping none
        ((.scalar none versionKey true, .scalar none "1" false) :: lines.map lineEntry)) := by
  have hbound : lines.length ≤ (lines.flatMap lineTokens).length := by
    induction lines with
    | nil => simp
    | cons line lines ih =>
        simp only [List.flatMap_cons, List.length_append, lineTokens, List.length_cons]
        omega
  obtain ⟨fuel, hfuel, hlines⟩ : ∃ fuel,
      4 * (recordTokens versionKey lines).length + 4 = fuel + 5 + 2 ∧
        lines.length + 4 < fuel + 4 := by
    refine ⟨4 * (recordTokens versionKey lines).length - 3, ?_⟩
    simp only [recordTokens, List.length_cons, List.length_append]
    omega
  have hnode : ∀ builder, (node true false (fuel + 5 + 2)).run
      (withInput builder (recordTokens versionKey lines)) = some (.mapping none
        ((.scalar none versionKey true, .scalar none "1" false) :: lines.map lineEntry),
          withInput builder []) := by
    intro builder
    rw [recordTokens, run_node_mapping, run_blockEntries_cons,
      run_blockEntries builder lines hlines]
    rfl
  have hdirectives : directives false [] (recordTokens versionKey lines) =
      some ([], recordTokens versionKey lines) := rfl
  have hroot := hnode ⟨[], [] ++ defaultHandles, [], [], 0⟩
  unfold document
  rw [hdirectives, hfuel]
  refine (if_pos rfl).trans ?_
  change ((node true false (fuel + 5 + 2)).run (withInput ⟨[], [] ++ defaultHandles, [], [], 0⟩
    (recordTokens versionKey lines))).bind _ = _
  rw [hroot]
  rfl

end Build

/-- A record is read as the map of its version and its lines. -/
theorem ofText?_record {versionKey : String} (hkey : isWord versionKey.toList)
    (hopens : versionKey.toList.head?.any opensWord) (hshort : versionKey.toList.length ≤ 1024)
    {lines : List (String × String)} (hlines : ∀ line ∈ lines, IsLine line) {text : String}
    (htext : text.toList =
      versionKey.toList ++ ':' :: (" '1'".toList ++ '\n' :: lines.flatMap lineText)) :
    ofText? text = some (.mapping none
      ((.scalar none versionKey true, .scalar none "1" false) :: lines.map lineEntry)) := by
  rw [ofText?, tokens?_record hkey hopens hshort hlines htext]
  exact Build.document_record versionKey lines

end EquationPuzzle.Yaml
