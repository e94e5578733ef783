import EquationPuzzle.Proofs.Directory.Opening
import EquationPuzzle.Proofs.Evaluation.Targets

/-!
# What is checked of records

A record is loaded only if its target number is the one that its equation has, which is then the
exact value of the equation.  A file whose record says otherwise counts as strange.  Nothing else of
a puzzle is checked: the target number may be larger than those of generated puzzles, and the
difficulty is taken from the record, whatever it says.
-/

namespace EquationPuzzle

open Expression

/-- The target number is the value of the equation. -/
structure Puzzle.Sound (puzzle : Puzzle) : Prop where
  target_eq : puzzle.equation.targetNumber = some puzzle.targetNumber
  worth : Worth puzzle.equation.spelling.toList puzzle.targetNumber.toNat
  positive : 1 ≤ puzzle.targetNumber.toNat
  bound : puzzle.targetNumber.toNat ≤ 98901

theorem Puzzle.sound_iff (puzzle : Puzzle) :
    puzzle.Sound ↔ puzzle.equation.targetNumber = some puzzle.targetNumber := by
  constructor
  · exact Sound.target_eq
  · intro htarget
    obtain ⟨hvalue, hpositive⟩ :=
      (puzzle.equation.targetNumber_eq_some_iff puzzle.targetNumber).mp htarget
    rcases Equation.worth_of_value_eq hvalue with ⟨hworth, hbound⟩
    exact ⟨htarget, hworth, hpositive, hbound⟩

namespace Directory

/-! ## One folder -/

section Folder

variable {α : Type} (ofText? : String → Option α) (puzzle : α → Puzzle) (stem : α → String)
  (tree : FileTree) (folder : FilePath)

/-- The text of the file that is named after a record is read as that record. -/
def Recorded (record : α) : Prop :=
  ∃ text, tree.readText (fileOf folder stem record) = .ok text ∧ ofText? text = some record

/-- The file holds a record whose target number is not the value of its equation. -/
def Mistaken (path : FilePath) : Prop :=
  IsRecordFile tree folder path ∧ ∃ text record, tree.readText path = .ok text ∧
    ofText? text = some record ∧ ¬(puzzle record).Sound

/-- What becomes of the files of a folder when the directory is opened. -/
structure Screened (root : Root) (answer : Except LoadError Directory)
    (loaded : Directory → α → Prop) : Prop where
  loaded_iff : ∀ directory, answer = .ok directory → ∀ record, loaded directory record ↔
    Recorded ofText? stem tree folder record ∧ (puzzle record).Sound
  mistaken_loaded : ∀ path, Mistaken ofText? puzzle tree folder path → ∀ directory,
    answer = .ok directory → root.Lenient tree ∧
      ∀ record, loaded directory record → path ≠ fileOf folder stem record
  mistaken_refused : ∀ path, Mistaken ofText? puzzle tree folder path → ¬root.Lenient tree →
    ∃ paths, answer = .error (.unrecognised paths) ∧ path ∈ paths
  sound_recognised : ∀ record, Recorded ofText? stem tree folder record → (puzzle record).Sound →
    ∀ paths, answer = .error (.unrecognised paths) → fileOf folder stem record ∉ paths

variable {ofText? puzzle stem tree folder} {root : Root} {answer : Except LoadError Directory}
  {loaded : Directory → α → Prop}

theorem standsIn_iff (record : α) :
    StandsIn ofText? puzzle stem tree folder record ↔
      Recorded ofText? stem tree folder record ∧ (puzzle record).Sound := by
  rw [Puzzle.sound_iff]
  exact and_comm

/-- A mistaken file does not stand for any record, whatever its name. -/
theorem Mistaken.ne_fileOf {path : FilePath} (hmistaken : Mistaken ofText? puzzle tree folder path)
    {record : α} (hstands : StandsIn ofText? puzzle stem tree folder record) :
    path ≠ fileOf folder stem record := by
  rcases hmistaken with ⟨_, text, other, htext, hother, hunsound⟩
  rcases hstands with ⟨htarget, content, hcontent, hrecord⟩
  intro hpath
  rw [hpath, hcontent] at htext
  rw [← Except.ok.inj htext, hrecord] at hother
  apply hunsound
  rw [← Option.some.inj hother, Puzzle.sound_iff]
  exact htarget

theorem Outcome.lists_of_strange (houtcome : Outcome root tree answer)
    (hstrict : ¬root.Lenient tree) {path : FilePath} (hstrange : root.Strange tree path) :
    ∃ paths, answer = .error (.unrecognised paths) ∧ path ∈ paths := by
  cases houtcome with
  | unrecognised _ _ _ _ hmem => exact ⟨_, rfl, (hmem path).mpr hstrange⟩
  | conflict hacceptable =>
      rcases hacceptable with hlenient | hnone
      · contradiction
      · exact absurd hstrange (hnone path)
  | opened hacceptable =>
      rcases hacceptable with hlenient | hnone
      · contradiction
      · exact absurd hstrange (hnone path)

theorem Outcome.screened (houtcome : Outcome root tree answer)
    (hloaded : ∀ directory, answer = .ok directory → ∀ record,
      loaded directory record ↔ StandsIn ofText? puzzle stem tree folder record)
    (hstrange : ∀ path, IsRecordFile tree folder path → (root.Strange tree path ↔
      ∀ record, StandsIn ofText? puzzle stem tree folder record → path ≠ fileOf folder stem record))
    (hstem : ∀ record, stem record ≠ "") :
    Screened ofText? puzzle stem tree folder root answer loaded := by
  have hmistaken : ∀ path, Mistaken ofText? puzzle tree folder path → root.Strange tree path := by
    intro path hpath
    exact (hstrange path hpath.1).mpr fun record hstands => hpath.ne_fileOf hstands
  constructor
  · intro directory hopened record
    rw [hloaded directory hopened, standsIn_iff]
  · intro path hpath directory hopened
    constructor
    · by_contra hstrict
      rcases houtcome.lists_of_strange hstrict (hmistaken path hpath) with ⟨paths, hrefused, _⟩
      rw [hopened] at hrefused
      contradiction
    · intro record hrecord
      exact hpath.ne_fileOf ((hloaded directory hopened record).mp hrecord)
  · intro path hpath hstrict
    exact houtcome.lists_of_strange hstrict (hmistaken path hpath)
  · intro record hrecorded hsound paths hrefused hlisted
    have hstands := (standsIn_iff record).mpr ⟨hrecorded, hsound⟩
    have hfile : root.Strange tree (fileOf folder stem record) := by
      cases houtcome with
      | unrecognised _ _ _ _ hmem =>
          rw [← LoadError.unrecognised.inj (Except.error.inj hrefused)] at hlisted
          exact (hmem _).mp hlisted
      | conflict => exact nomatch Except.error.inj hrefused
      | opened => contradiction
    exact (hstrange _ (hstands.isRecordFile hstem)).mp hfile record hstands rfl

end Folder

/-! ## Both folders -/

section Folders

variable {root : Root} {tree : FileTree}

theorem not_isRecordFile_daily {path : FilePath} (hpool : IsRecordFile tree root.pool path) :
    ¬IsRecordFile tree root.daily path := by
  rintro ⟨name, _, hname, _⟩
  rcases hpool with ⟨other, _, hother, _⟩
  have hsame := hother.symm.trans hname
  simp [Root.pool, Root.daily, poolName, dailyName] at hsame

theorem strange_pool_iff {path : FilePath} (hpool : IsRecordFile tree root.pool path) :
    root.Strange tree path ↔
      ∀ entry, root.HasEntry tree entry → path ≠ root.poolFile entry.id := by
  constructor
  · rintro (⟨_, hnone⟩ | ⟨hdaily, _⟩)
    · exact hnone
    · exact absurd hdaily (not_isRecordFile_daily hpool)
  · intro hnone
    exact Or.inl ⟨hpool, hnone⟩

theorem strange_daily_iff {path : FilePath} (hdaily : IsRecordFile tree root.daily path) :
    root.Strange tree path ↔
      ∀ daily, root.HasDaily tree daily → path ≠ root.dailyFile daily.date := by
  constructor
  · rintro (⟨hpool, _⟩ | ⟨_, hnone⟩)
    · exact absurd hdaily (not_isRecordFile_daily hpool)
    · exact hnone
  · intro hnone
    exact Or.inr ⟨hdaily, hnone⟩

theorem Outcome.loads {directory : Directory} (houtcome : Outcome root tree (.ok directory)) :
    root.Loads tree directory.inventory := by
  cases houtcome with
  | opened _ _ hloads => exact hloads

end Folders

def HoldsEntry (directory : Directory) (entry : PoolEntry) : Prop :=
  entry ∈ directory.inventory.pool

def HoldsDaily (directory : Directory) (daily : DailyEquation) : Prop :=
  ∃ date, directory.inventory.findDaily? date = some daily

/-- Of the entries and the daily equations of a tree exactly those are loaded whose target number is
the value of their equation, with the difficulty that their file tells.  A file with another target
number is unrecognised; no difficulty and no large target number makes a file so. -/
theorem ofTree_screened (root : Root) (tree : FileTree) :
    Screened PoolEntry.ofRecordText? PoolEntry.puzzle (·.id.text) tree root.pool root
        (ofTree root tree) HoldsEntry ∧
      Screened DailyEquation.ofRecordText? DailyEquation.puzzle (·.date.text) tree root.daily root
        (ofTree root tree) HoldsDaily := by
  have houtcome : Outcome root tree (ofTree root tree) := outcome_load (.refl _) (.refl _)
  constructor
  · apply houtcome.screened
    · intro directory hopened entry
      rw [hopened] at houtcome
      exact houtcome.loads.mem_pool_iff entry
    · exact fun path => strange_pool_iff
    · exact fun entry => entry.id.isText_text.ne_empty
  · apply houtcome.screened
    · intro directory hopened daily
      rw [hopened] at houtcome
      have hfind := houtcome.loads.findDaily?_iff
      constructor
      · rintro ⟨date, hdate⟩
        exact ((hfind date daily).mp hdate).1
      · intro hdaily
        exact ⟨daily.date, (hfind daily.date daily).mpr ⟨hdaily, rfl⟩⟩
    · exact fun path => strange_daily_iff
    · exact fun daily => daily.date.isText_text.ne_empty

/-! ## Single entries -/

theorem not_lenient_of_find? {root : Root} {tree : FileTree}
    (hnone : tree.find? root.config = none) : ¬root.Lenient tree := by
  rintro ⟨config, hload, _⟩
  unfold Config.load at hload
  cases htext : tree.readText root.config with
  | error fault =>
      rw [htext] at hload
      contradiction
  | ok text =>
      rw [FileTree.find?_of_readText htext] at hnone
      contradiction

/-- An entry that is written where nothing stands is loaded when the directory is opened, if its
target number is the one of its equation. -/
theorem exists_ofTree_eq_ok (root : Root) {entry : PoolEntry} (hreadable : entry.Readable) :
    ∃ tree, writeRecord FileTree.empty (root.poolFile entry.id) true entry.recordText =
        (.ok (), tree) ∧
      ∃ directory, ofTree root tree = .ok directory ∧ HoldsEntry directory entry := by
  have hempty := Inventory.wellFormed_empty
  have hid : entry.id ∉ Inventory.empty.positions := by simp [Inventory.empty]
  have hequation : entry.equation ∉ Inventory.empty.equations := by simp [Inventory.empty]
  rcases root.vacant_empty.mirrors.push hempty hid with ⟨tree, hwrite, hmirrors⟩
  have hknown : (Inventory.empty.push entry).Readable := by
    constructor
    · intro known hmem
      have hsame : known = entry := by simpa [Inventory.empty] using hmem
      rw [hsame]
      exact hreadable
    · simp
  obtain ⟨other, hload, _, hsame⟩ := hmirrors.load_eq_ok hknown (hempty.push hid hequation)
    (.refl (recordFiles tree root.pool)) (.refl (recordFiles tree root.daily))
  refine ⟨tree, hwrite, _, hload, ?_⟩
  exact (hsame.mem_pool_iff entry).mpr (by simp)

/-- A target number above those of generated puzzles is loaded with a difficulty that is not the one
of its puzzle. -/
theorem exists_oversized_entry :
    let equation : Equation :=
      ⟨#v[.digit 9, .digit 9, .operator .multiply, .digit 9, .digit 9, .digit 9], 98901, by decide,
        by decide +kernel⟩
    let entry : PoolEntry := {
      id := ⟨5⟩
      equation := equation
      targetNumber := 98901
      difficulty := .easy
      used := false
      created := ⟨⟨1996, 2, 29, by decide⟩, 3600, 0, by decide, by decide⟩ }
    let root : Root := ⟨"records", ["records"]⟩
    ∃ tree, writeRecord FileTree.empty (root.poolFile entry.id) true entry.recordText =
        (.ok (), tree) ∧
      ∃ directory, ofTree root tree = .ok directory ∧ HoldsEntry directory entry ∧
        9999 < entry.targetNumber.toNat ∧
          entry.difficulty ≠ Difficulty.classify entry.equation entry.targetNumber := by
  intro equation entry root
  have htarget : equation.targetNumber = some 98901 := by decide
  have hreadable : entry.Readable := ⟨htarget, Or.inl (by decide)⟩
  rcases exists_ofTree_eq_ok root hreadable with ⟨tree, hwrite, directory, hopened, hmem⟩
  have hclassified : entry.difficulty ≠ Difficulty.classify entry.equation entry.targetNumber := by
    decide
  exact ⟨tree, hwrite, directory, hopened, hmem, by decide, hclassified⟩

/-- The file of an entry with a wrong target number is refused. -/
theorem ofTree_screened_mistaken :
    let equation : Equation :=
      ⟨#v[.digit 1, .digit 0, .operator .subtract, .digit 4, .operator .add, .digit 2], 8,
        by decide, by decide +kernel⟩
    let entry : PoolEntry := {
      id := ⟨6⟩
      equation := equation
      targetNumber := 9
      difficulty := .medium
      used := false
      created := ⟨⟨1997, 5, 4, by decide⟩, 7200, 0, by decide, by decide⟩ }
    let root : Root := ⟨"records", ["records"]⟩
    ∃ tree, writeRecord FileTree.empty (root.poolFile entry.id) true entry.recordText =
        (.ok (), tree) ∧
      ∃ paths, ofTree root tree = .error (.unrecognised paths) ∧
        root.poolFile entry.id ∈ paths := by
  intro equation entry root
  have hvacant := root.vacant_empty
  have hpool := hvacant.holds poolName
  obtain ⟨tree, hwrite, hwritten⟩ := hpool.passable.writeRecord (entry.id.text ++ ".yaml")
    entry.recordText true (FileTree.find?_empty (by simp))
  have htext : tree.readText (root.poolFile entry.id) = .ok entry.recordText :=
    (hwritten.holds hpool).readText (by simp [FolderTexts.write])
  have hshown : entry.shown = entry := entry.shown_eq_iff.mpr (Or.inl (by decide))
  have hunsound : ¬entry.puzzle.Sound := by
    rw [Puzzle.sound_iff]
    decide
  have hmistaken : Mistaken PoolEntry.ofRecordText? PoolEntry.puzzle tree root.pool
      (root.poolFile entry.id) := by
    constructor
    · exact ⟨entry.id.text, entry.id.isText_text.ne_empty, rfl, _, FileTree.find?_of_readText htext⟩
    · exact ⟨entry.recordText, entry, htext, hshown ▸ entry.ofRecordText?_recordText, hunsound⟩
  -- The settings stand beside the folder that is written to.
  have hconfig : tree.find? root.config = none := by
    have hother : root.config ≠ root.pool ++ [entry.id.text ++ ".yaml"] := fun hsame =>
      absurd (congrArg List.length hsame) (by decide)
    have hbeside : ¬root.config <+: root.pool := by decide
    rw [hwritten]
    exact (if_neg hother).trans ((if_neg hbeside).trans (FileTree.find?_empty (by decide)))
  have hstrict := not_lenient_of_find? hconfig
  exact ⟨tree, hwrite, (ofTree_screened root tree).1.mistaken_refused _ hmistaken hstrict⟩

end Directory

end EquationPuzzle
