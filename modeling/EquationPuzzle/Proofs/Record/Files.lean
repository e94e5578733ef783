import EquationPuzzle.Proofs.Directory.Folder
import EquationPuzzle.Proofs.Record.Entries
import EquationPuzzle.Record.File

/-!
# Reading back files

What has been written to a new file is read back from it, if the file is named as the record says
and the record's target number is the one that its equation has.  Otherwise the reader tells which
of the two it is not; a wrong target number comes first.

The record that is read is the one that was written, unless it was created in a leap second within a
minute: then it is one that was created in the second after.
-/

namespace EquationPuzzle

namespace Record

/-! ## Names -/

theorem fileStem_yaml {stem : String} (hstem : stem ≠ "") : fileStem (stem ++ ".yaml") = stem := by
  have hreverse : (stem ++ ".yaml").toList.reverse =
      ['l', 'm', 'a', 'y'] ++ '.' :: stem.toList.reverse := by
    simp [String.toList_append]
  have hdropped : (stem ++ ".yaml").toList.reverse.dropWhile (fun c => c != '.') =
      '.' :: stem.toList.reverse := by
    rw [hreverse]
    rfl
  have hempty : stem.toList.reverse.isEmpty = false := by
    simpa using hstem
  have hdots : (stem ++ ".yaml" == "..") = false := by
    refine beq_eq_false_iff_ne.mpr fun hsame => ?_
    have hlast := congrArg (fun name => name.toList.reverse) hsame
    simp at hlast
  rw [fileStem, hdropped]
  simp [hempty, hdots]

/-! ## Reading -/

section Read

variable {α : Type} {ofText? : String → Option α} (puzzle : α → Puzzle) (stem : α → String)
  {tree : FileTree} {path : FilePath} {text : String} {record : α}

theorem readText_eq_ok (htext : readText tree path = .ok text) :
    tree.readText path = .ok text := by
  unfold readText at htext
  split at htext
  next hfile => rwa [Except.ok.inj htext] at hfile
  all_goals contradiction

theorem read_of_text (htext : tree.readText path = .ok text)
    (hrecord : ofText? text = some record) :
    read ofText? puzzle stem tree path =
      if (puzzle record).equation.targetNumber ≠ some (puzzle record).targetNumber then
        .error (.targetMismatch (puzzle record).equation (puzzle record).targetNumber)
      else if path.getLast?.map fileStem ≠ some (stem record) then
        .error (.misplaced (stem record))
      else .ok record := by
  simp only [read, readText, htext, parse, hrecord, checkTarget, checkName, bind, Except.bind]
  by_cases htarget : (puzzle record).equation.targetNumber = some (puzzle record).targetNumber
  · by_cases hname : path.getLast?.map fileStem = some (stem record)
    · simp [htarget, hname, pure, Except.pure]
    · simp [htarget, hname]
  · simp [htarget]

theorem read_eq_ok_iff :
    read ofText? puzzle stem tree path = .ok record ↔
      ∃ text, tree.readText path = .ok text ∧ ofText? text = some record ∧
        (puzzle record).equation.targetNumber = some (puzzle record).targetNumber ∧
          path.getLast?.map fileStem = some (stem record) := by
  constructor
  · intro hread
    cases htext : readText tree path with
    | error cause => simp [read, htext, bind, Except.bind] at hread
    | ok text =>
        cases hrecord : ofText? text with
        | none => simp [read, htext, parse, hrecord, bind, Except.bind] at hread
        | some found =>
            have hfile := readText_eq_ok htext
            rw [read_of_text puzzle stem hfile hrecord] at hread
            split_ifs at hread with htarget hname
            obtain rfl := Except.ok.inj hread
            exact ⟨text, hfile, hrecord, not_not.mp htarget, not_not.mp hname⟩
  · rintro ⟨text, htext, hrecord, htarget, hname⟩
    rw [read_of_text puzzle stem htext hrecord, if_neg (not_not.mpr htarget),
      if_neg (not_not.mpr hname)]

end Read

/-! ## Reading back -/

/-- What a reader may answer on the file that a record has been written to, if its text is the one
of the record that is shown. -/
structure ReadBack {α : Type} (record shown : α) (puzzle : Puzzle) (created : Timestamp)
    (stem name : String) (answer : Except RecordError α) : Prop where
  same_iff : fileStem name = stem →
    (answer = .ok record ↔
      puzzle.equation.targetNumber = some puzzle.targetNumber ∧ created.Proper)
  shown_iff : fileStem name = stem →
    (answer = .ok shown ↔ puzzle.equation.targetNumber = some puzzle.targetNumber)
  mismatch : puzzle.equation.targetNumber ≠ some puzzle.targetNumber →
    answer = .error (.targetMismatch puzzle.equation puzzle.targetNumber)
  misplaced : puzzle.equation.targetNumber = some puzzle.targetNumber → fileStem name ≠ stem →
    answer = .error (.misplaced stem)

section ReadBack

variable {α : Type} {ofText? : String → Option α} (puzzle : α → Puzzle) (stem : α → String)
  {record shown : α} {created : Timestamp} {tree next : FileTree} {folder : FilePath}
  {name text : String}

theorem readBack_of_writtenTo (hwritten : tree.WrittenTo folder name text next)
    (hread : ofText? text = some shown) (hshown : shown = record ↔ created.Proper)
    (hpuzzle : puzzle shown = puzzle record) (hstem : stem shown = stem record) :
    ReadBack record shown (puzzle record) created (stem record) name
      (read ofText? puzzle stem next (folder ++ [name])) := by
  have htext : next.readText (folder ++ [name]) = .ok text := by
    have hgrounded : next.Grounded folder := by
      intro ancestor hancestor
      have hne : ancestor ≠ folder ++ [name] := by
        rintro rfl
        exact FileTree.not_prefix_of_below (by simp) hancestor
      rw [hwritten, if_neg hne, if_pos hancestor]
    exact hgrounded.readText (by rw [hwritten, if_pos rfl])
  have hlast : (folder ++ [name]).getLast?.map fileStem = some (fileStem name) := by simp
  have hanswer := read_of_text puzzle stem htext hread
  rw [hlast, hpuzzle, hstem] at hanswer
  simp only [Ne, Option.some.injEq] at hanswer
  have hvalue : fileStem name = stem record → ∀ value,
      (read ofText? puzzle stem next (folder ++ [name]) = .ok value ↔
        (puzzle record).equation.targetNumber = some (puzzle record).targetNumber ∧
          shown = value) := by
    intro hname value
    rw [hanswer]
    by_cases htarget :
        (puzzle record).equation.targetNumber = some (puzzle record).targetNumber
    · simp [htarget, hname]
    · simp [htarget]
  refine ⟨fun hname => ?_, fun hname => ?_, fun htarget => ?_, fun htarget hname => ?_⟩
  · rw [hvalue hname, hshown]
  · rw [hvalue hname, and_iff_left rfl]
  · rw [hanswer, if_pos htarget]
  · rw [hanswer, if_neg (not_not.mpr htarget), if_pos hname]

end ReadBack

end Record

theorem PoolEntry.fileStem_file (entry : PoolEntry) :
    Record.fileStem (entry.id.text ++ ".yaml") = entry.id.text :=
  Record.fileStem_yaml entry.id.isText_text.ne_empty

theorem DailyEquation.fileStem_file (daily : DailyEquation) :
    Record.fileStem (daily.date.text ++ ".yaml") = daily.date.text :=
  Record.fileStem_yaml daily.date.isText_text.ne_empty

namespace Directory

/-- An entry of the pool and a daily equation can be written to a new file, which may be named after
them, and are read back from it with the time of their creation as it is shown. -/
theorem readBack_writeRecord {tree : FileTree} {folder : FilePath} {name : String}
    (hpassable : tree.Passable folder) (hfree : tree.find? (folder ++ [name]) = none) :
    (∀ entry : PoolEntry, Record.fileStem (entry.id.text ++ ".yaml") = entry.id.text ∧ ∃ next,
      writeRecord tree (folder ++ [name]) true entry.recordText = (.ok (), next) ∧
        Record.ReadBack entry entry.shown entry.puzzle entry.created entry.id.text name
          (PoolEntry.read next (folder ++ [name]))) ∧
      ∀ daily : DailyEquation,
        Record.fileStem (daily.date.text ++ ".yaml") = daily.date.text ∧ ∃ next,
          writeRecord tree (folder ++ [name]) true daily.recordText = (.ok (), next) ∧
            Record.ReadBack daily daily.shown daily.puzzle daily.created daily.date.text name
              (DailyEquation.read next (folder ++ [name])) := by
  constructor
  · intro entry
    obtain ⟨next, hwrite, hwritten⟩ :=
      hpassable.writeRecord name entry.recordText true (by simpa using hfree)
    have hback := Record.readBack_of_writtenTo PoolEntry.puzzle (·.id.text) hwritten
      entry.ofRecordText?_recordText entry.shown_eq_iff rfl rfl
    exact ⟨entry.fileStem_file, next, hwrite, hback⟩
  · intro daily
    obtain ⟨next, hwrite, hwritten⟩ :=
      hpassable.writeRecord name daily.recordText true (by simpa using hfree)
    have hback := Record.readBack_of_writtenTo DailyEquation.puzzle (·.date.text) hwritten
      daily.ofRecordText?_recordText daily.shown_eq_iff rfl rfl
    exact ⟨daily.fileStem_file, next, hwrite, hback⟩

/-- A daily equation of the first of all days, made in a leap second, is read back.  An entry of the
pool with another target number is not. -/
theorem readBack_writeRecord_firstDay :
    let date : Day := ⟨-262143, 1, 1, by decide⟩
    let equation : Equation :=
      ⟨#v[.digit 9, .operator .multiply, .digit 8, .operator .subtract, .digit 7, .digit 0],
        2, by decide, by decide +kernel⟩
    let daily : DailyEquation := {
      id := ⟨3⟩
      date := date
      equation := equation
      targetNumber := 2
      difficulty := .medium
      created := ⟨date, 86399, 1999999999, by decide, by decide⟩ }
    let entry : PoolEntry := {
      id := ⟨3⟩
      equation := equation
      targetNumber := 3
      difficulty := .medium
      used := true
      created := daily.created }
    let path := ["records", daily.date.text ++ ".yaml"]
    FileTree.empty.Passable ["records"] ∧ FileTree.empty.find? path = none ∧
      (∃ next, writeRecord FileTree.empty path true daily.recordText = (.ok (), next) ∧
        DailyEquation.read next path = .ok daily) ∧
      ∃ next, writeRecord FileTree.empty path true entry.recordText = (.ok (), next) ∧
        PoolEntry.read next path = .error (.targetMismatch equation 3) := by
  intro date equation daily entry path
  have hpassable := FileTree.passable_empty ["records"]
  have hfree : FileTree.empty.find? (["records"] ++ [daily.date.text ++ ".yaml"]) = none :=
    FileTree.find?_empty (by simp)
  have hboth := readBack_writeRecord hpassable hfree
  obtain ⟨hstem, next, hwrite, hdaily⟩ := hboth.2 daily
  obtain ⟨-, other, hother, hentry⟩ := hboth.1 entry
  have htarget : equation.targetNumber = some 2 := by decide
  refine ⟨hpassable, hfree, ⟨next, hwrite, ?_⟩, other, hother, ?_⟩
  · exact (hdaily.same_iff hstem).mpr ⟨htarget, Or.inr (by decide)⟩
  · exact hentry.mismatch (by rw [show entry.puzzle.equation.targetNumber = _ from htarget]; decide)

/-- An entry that is created in a leap second half a minute after noon is read back with the second
after as the time of its creation. -/
theorem readBack_writeRecord_leapSecond :
    let date : Day := ⟨2027, 6, 15, by decide⟩
    let entry : PoolEntry := {
      id := ⟨1⟩
      equation := ⟨#v[.digit 4, .operator .add, .digit 1, .digit 2, .operator .multiply, .digit 3],
        40, by decide, by decide +kernel⟩
      targetNumber := 40
      difficulty := .hard
      used := false
      created := ⟨date, 43230, 1500000000, by decide, by decide⟩ }
    let path := ["pool", entry.id.text ++ ".yaml"]
    entry.equation.targetNumber = some entry.targetNumber ∧
      ∃ next, writeRecord FileTree.empty path true entry.recordText = (.ok (), next) ∧
        PoolEntry.read next path ≠ .ok entry ∧
        PoolEntry.read next path =
          .ok { entry with created := ⟨date, 43231, 500000000, by decide, by decide⟩ } := by
  intro date entry path
  have htarget : entry.equation.targetNumber = some entry.targetNumber := by decide
  have hfree : FileTree.empty.find? (["pool"] ++ [entry.id.text ++ ".yaml"]) = none :=
    FileTree.find?_empty (by simp)
  obtain ⟨next, hwrite, hwritten⟩ := (FileTree.passable_empty ["pool"]).writeRecord
    (entry.id.text ++ ".yaml") entry.recordText true (by simpa using hfree)
  have hback := Record.readBack_of_writtenTo PoolEntry.puzzle (·.id.text) hwritten
    entry.ofRecordText?_recordText entry.shown_eq_iff rfl rfl
  have himproper : ¬entry.created.Proper := by decide
  have hshown : entry.created.shown = ⟨date, 43231, 500000000, by decide, by decide⟩ := by
    decide +kernel
  refine ⟨htarget, next, hwrite, fun hsame => ?_, ?_⟩
  · exact himproper ((hback.same_iff entry.fileStem_file).mp hsame).2
  · have hread := (hback.shown_iff entry.fileStem_file).mpr htarget
    exact hread.trans (congrArg (fun created => Except.ok { entry with created }) hshown)

end Directory

end EquationPuzzle
