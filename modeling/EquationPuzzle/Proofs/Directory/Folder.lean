import EquationPuzzle.Directory
import EquationPuzzle.Proofs.FileTree

/-!
# Folders of records

A folder holds records if the files below it are one text for each of them, under its name, and
nothing else stands there.  Such a folder need not exist while it holds nothing.  Writing a record
adds its file, or puts it in the place of the one under that name, and leaves the folders beside it
alone.
-/

namespace EquationPuzzle

/-- Which texts stand in a folder, and under which names. -/
abbrev FolderTexts := String → String → Prop

/-- One text more, in the place of what stood under its name. -/
def FolderTexts.write (texts : FolderTexts) (name text : String) : FolderTexts :=
  fun other content => if other = name then content = text else texts other content

namespace FileTree

/-- Below the folder are the given texts under their names, and nothing else. -/
structure Holds (tree : FileTree) (folder : FilePath) (texts : FolderTexts) : Prop where
  passable : tree.Passable folder
  grounded : ∀ name text, texts name text → tree.Grounded folder
  below_iff : ∀ below ≠ [], ∀ node, tree.find? (folder ++ below) = some node ↔
    ∃ name text, below = [name] ∧ texts name text ∧ node = .file (.text text)

def Apart (folder other : FilePath) : Prop :=
  ¬folder <+: other ∧ ¬other <+: folder

theorem not_prefix_of_below {folder below : FilePath} (hbelow : below ≠ []) :
    ¬folder ++ below <+: folder := by
  intro hprefix
  have hlength := hprefix.length_le
  have hpositive := List.length_pos_iff.mpr hbelow
  simp only [List.length_append] at hlength
  omega

section Holds

variable {tree : FileTree} {folder : FilePath} {texts : FolderTexts}

theorem Holds.congr {others : FolderTexts} (hholds : tree.Holds folder texts)
    (hsame : ∀ name text, texts name text ↔ others name text) : tree.Holds folder others := by
  obtain rfl : texts = others := funext fun name => funext fun text => propext (hsame name text)
  exact hholds

theorem Holds.file_iff (hholds : tree.Holds folder texts) (name : String) (node : FileNode) :
    tree.find? (folder ++ [name]) = some node ↔
      ∃ text, texts name text ∧ node = .file (.text text) := by
  rw [hholds.below_iff _ (by simp)]
  simp

theorem Holds.readText (hholds : tree.Holds folder texts) {name text : String}
    (htext : texts name text) : tree.readText (folder ++ [name]) = .ok text :=
  (hholds.grounded name text htext).readText ((hholds.file_iff name _).mpr ⟨text, htext, rfl⟩)

/-- The tree with a file in a folder, and with all directories that lead to it. -/
def WrittenTo (tree : FileTree) (folder : FilePath) (name text : String) (next : FileTree) :
    Prop :=
  ∀ other, next.find? other =
    if other = folder ++ [name] then some (.file (.text text))
    else if other <+: folder then some .directory
    else tree.find? other

/-- A record can be written where no file is in the way.  A new record must not stand there yet. -/
theorem Passable.writeRecord (hpassable : tree.Passable folder) (name text : String)
    (isNew : Bool) (hfree : if isNew then tree.find? (folder ++ [name]) = none
      else tree.find? (folder ++ [name]) ≠ some .directory) :
    ∃ next, Directory.writeRecord tree (folder ++ [name]) isNew text = (.ok (), next) ∧
      tree.WrittenTo folder name text next := by
  obtain ⟨made, hmade, hfind⟩ := hpassable.createDirectories
  have hnot : ¬folder ++ [name] <+: folder := not_prefix_of_below (by simp)
  have hsame : made.find? (folder ++ [name]) = tree.find? (folder ++ [name]) := by
    rw [hfind, if_neg hnot]
  have hgrounded : made.Grounded folder := by
    intro ancestor hancestor
    rw [hfind, if_pos hancestor]
  refine ⟨made.put (folder ++ [name]) (.file (.text text)), ?_, fun other => ?_⟩
  · rw [← hsame] at hfree
    rw [Directory.writeRecord, List.dropLast_concat, hmade]
    cases isNew with
    | true => simp [hgrounded.createFile (by simpa using hfree)]
    | false => simp [hgrounded.writeFile (by simpa using hfree)]
  · rw [find?_put (by simp), hfind]

theorem Holds.writeRecord (hholds : tree.Holds folder texts) {name : String} (text : String)
    (isNew : Bool) (hnew : isNew = true → ∀ old, ¬texts name old) :
    ∃ next, Directory.writeRecord tree (folder ++ [name]) isNew text = (.ok (), next) ∧
      tree.WrittenTo folder name text next := by
  apply hholds.passable.writeRecord
  cases isNew with
  | true =>
      rw [if_pos rfl, Option.eq_none_iff_forall_ne_some]
      intro node hnode
      obtain ⟨old, hold, _⟩ := (hholds.file_iff name node).mp hnode
      exact hnew rfl old hold
  | false =>
      rw [if_neg (by simp)]
      intro hdirectory
      obtain ⟨old, _, hnode⟩ := (hholds.file_iff name _).mp hdirectory
      contradiction

theorem WrittenTo.holds {name text : String} {next : FileTree}
    (hwritten : tree.WrittenTo folder name text next) (hholds : tree.Holds folder texts) :
    next.Holds folder (texts.write name text) := by
  have hgrounded : next.Grounded folder := by
    intro ancestor hancestor
    have hne : ancestor ≠ folder ++ [name] := by
      rintro rfl
      exact not_prefix_of_below (by simp) hancestor
    rw [hwritten, if_neg hne, if_pos hancestor]
  refine ⟨fun ancestor hancestor => Or.inr (hgrounded ancestor hancestor),
    fun _ _ _ => hgrounded, fun below hbelow node => ?_⟩
  simp only [hwritten (folder ++ below), List.append_right_inj,
    if_neg (not_prefix_of_below hbelow)]
  by_cases hname : below = [name]
  · simp [hname, FolderTexts.write, eq_comm]
  · rw [if_neg hname, hholds.below_iff below hbelow]
    have hother : ∀ other, below = [other] → other ≠ name := by
      rintro other rfl rfl
      exact hname rfl
    constructor
    · rintro ⟨other, content, rfl, hcontent, hnode⟩
      exact ⟨other, content, rfl, by rwa [FolderTexts.write, if_neg (hother other rfl)], hnode⟩
    · rintro ⟨other, content, rfl, hcontent, hnode⟩
      rw [FolderTexts.write, if_neg (hother other rfl)] at hcontent
      exact ⟨other, content, rfl, hcontent, hnode⟩

theorem WrittenTo.holds_apart {name text : String} {next : FileTree} {other : FilePath}
    (hwritten : tree.WrittenTo folder name text next) (hapart : Apart folder other)
    (hholds : tree.Holds other texts) : next.Holds other texts := by
  have hkept : ∀ path, (path <+: other ∨ other <+: path) →
      next.find? path = tree.find? path ∨ next.find? path = some .directory := by
    intro path hpath
    have hne : path ≠ folder ++ [name] := by
      rintro rfl
      rcases hpath with hpath | hpath
      · exact hapart.1 ((List.prefix_append _ _).trans hpath)
      · rcases List.prefix_or_prefix_of_prefix hpath (List.prefix_append folder [name]) with h | h
        · exact hapart.2 h
        · exact hapart.1 h
    rw [hwritten, if_neg hne]
    by_cases hfolder : path <+: folder
    · exact Or.inr (if_pos hfolder)
    · exact Or.inl (if_neg hfolder)
  have hbelow : ∀ below, next.find? (other ++ below) = tree.find? (other ++ below) := by
    intro below
    have hne : other ++ below ≠ folder ++ [name] := by
      intro hsame
      rcases List.prefix_or_prefix_of_prefix (List.prefix_append other below)
        (hsame ▸ List.prefix_append folder [name]) with h | h
      · exact hapart.2 h
      · exact hapart.1 h
    have hnot : ¬other ++ below <+: folder :=
      fun hprefix => hapart.2 ((List.prefix_append other below).trans hprefix)
    rw [hwritten, if_neg hne, if_neg hnot]
  refine ⟨fun ancestor hancestor => ?_, fun name text htext ancestor hancestor => ?_,
    fun below hnonempty node => ?_⟩
  · rcases hkept ancestor (Or.inl hancestor) with h | h
    · rw [h]
      exact hholds.passable ancestor hancestor
    · exact Or.inr h
  · rcases hkept ancestor (Or.inl hancestor) with h | h
    · rw [h]
      exact hholds.grounded name text htext ancestor hancestor
    · exact h
  · rw [hbelow]
    exact hholds.below_iff below hnonempty node

end Holds

end FileTree

end EquationPuzzle
