import EquationPuzzle.Proofs.Directory.Advance

/-!
# Why a daily equation is refused

A day that is remembered is refused without a look at the files.  Any other day is refused if its
record cannot be written, and whether the day is said to be taken then rests on the fault alone: it
is, if something exists already.  That may be the record of the day, but as well a directory in its
place, or a file in place of the folder of all daily records.  Only a file further up is reported as
a path that cannot be accessed.
-/

namespace EquationPuzzle

namespace FileTree

/-! ## Trees of directories -/

/-- Only directories stand in the tree. -/
def Fileless (tree : FileTree) : Prop :=
  ∀ path content, tree.find? path ≠ some (.file content)

theorem fileless_empty : FileTree.empty.Fileless := by
  intro path content hfile
  by_cases hpath : path = []
  · simp [hpath] at hfile
  · simp [find?_empty hpath] at hfile

theorem Fileless.put_directory {tree : FileTree} (hfileless : tree.Fileless) {path : FilePath}
    (hpath : path ≠ []) : (tree.put path .directory).Fileless := by
  intro other content hfile
  rw [find?_put hpath] at hfile
  split at hfile
  · simp at hfile
  · exact hfileless other content hfile

theorem Fileless.passable {tree : FileTree} (hfileless : tree.Fileless) (path : FilePath) :
    tree.Passable path :=
  passable_iff_forall_ne_file.mpr fun ancestor content _ => hfileless ancestor content

end FileTree

namespace DirectoryStore

open Directory

/-- The day has a daily equation: it is remembered, or the file of its record is there. -/
def HasDaily (store : DirectoryStore) (date : Day) : Prop :=
  store.directory.inventory.findDaily? date ≠ none ∨
    ∃ content, store.tree.find? (store.directory.root.dailyFile date) = some (.file content)

/-- A record can be made: no file is in the way of its folder, and nothing in its own place. -/
def Free (store : DirectoryStore) (date : Day) : Prop :=
  store.tree.Passable store.directory.root.daily ∧
    store.tree.find? (store.directory.root.dailyFile date) = none

/-- Something is there already where a record is to be made: a file in place of the folder, or
anything in place of the record. -/
def Occupied (store : DirectoryStore) (date : Day) : Prop :=
  (store.tree.Passable store.directory.root.path ∧
      ∃ content, store.tree.find? store.directory.root.daily = some (.file content)) ∨
    store.tree.Passable store.directory.root.daily ∧
      store.tree.find? (store.directory.root.dailyFile date) ≠ none

section Answers

variable {store : DirectoryStore} {date : Day}

theorem Free.passable (hfree : store.Free date) :
    store.tree.Passable store.directory.root.path :=
  (FileTree.passable_concat_iff.mp hfree.1).1

theorem Occupied.passable (hoccupied : store.Occupied date) :
    store.tree.Passable store.directory.root.path := by
  rcases hoccupied with ⟨hpassable, _⟩ | ⟨hpassable, _⟩
  · exact hpassable
  · exact (FileTree.passable_concat_iff.mp hpassable).1

theorem Occupied.not_free (hoccupied : store.Occupied date) : ¬store.Free date := by
  rintro ⟨hpassable, hfree⟩
  rcases hoccupied with ⟨_, content, hfile⟩ | ⟨_, hthere⟩
  · exact (FileTree.passable_concat_iff.mp hpassable).2 content hfile
  · exact hthere hfree

/-- There are three answers, and each has its cause. -/
theorem insertDaily_answer_cases (store : DirectoryStore) (daily : DailyEquation) :
    let answer := (outcome (Store.insertDaily daily) store).1
    (answer = .ok () ∧ store.directory.inventory.findDaily? daily.date = none ∧
        store.Free daily.date) ∨
      (answer = .error (.duplicateDate daily.date) ∧
        (store.directory.inventory.findDaily? daily.date ≠ none ∨ store.Occupied daily.date)) ∨
      answer = .error (store.directory.inaccessible
          (store.directory.root.dailyFile daily.date) .notADirectory) ∧
        store.directory.inventory.findDaily? daily.date = none ∧
        ¬store.tree.Passable store.directory.root.path := by
  intro answer
  rcases insertDaily_cases store daily with ⟨hknown, hresult⟩ |
    ⟨hnew, ⟨fault, tree, hwrite, hresult⟩ | ⟨tree, hwrite, hresult⟩⟩
  · exact Or.inr (Or.inl ⟨congrArg Prod.fst hresult, Or.inl hknown⟩)
  · have hanswer : answer = .error (store.directory.dailyRefusal daily.date fault) :=
      congrArg Prod.fst hresult
    rcases FileTree.writeRecord_error_cases hwrite with ⟨rfl, hoccupied⟩ | ⟨rfl, hway⟩
    · exact Or.inr (Or.inl ⟨hanswer, Or.inr hoccupied⟩)
    · exact Or.inr (Or.inr ⟨hanswer, hnew, hway⟩)
  · have hadds := adds_of_writeRecord hwrite
    have hfree := hadds.new _ (List.mem_singleton_self _)
    exact Or.inl ⟨congrArg Prod.fst hresult, hnew, FileTree.passable_of_writeRecord hwrite, hfree⟩

end Answers

/-- A daily equation is inserted if its day is not remembered, no file is in the way of its folder
and nothing in place of its record.  Its day is said to be taken if it is remembered, or if
something exists already in place of the record or, as a file, of the folder.  Any other error says
that the path of the record cannot be accessed, which is so if a file stands in place of the root or
above it. -/
theorem insertDaily_answers (store : DirectoryStore) (daily : DailyEquation) :
    let known := store.directory.inventory.findDaily? daily.date ≠ none
    let inaccessible := store.directory.inaccessible
      (store.directory.root.dailyFile daily.date) .notADirectory
    let answer := (outcome (Store.insertDaily daily) store).1
    (answer = .ok () ↔ ¬known ∧ store.Free daily.date) ∧
      (∀ date, answer = .error (.duplicateDate date) ↔
        date = daily.date ∧ (known ∨ store.Occupied daily.date)) ∧
      (∀ cause, answer = .error cause → cause = .duplicateDate daily.date ∨ cause = inaccessible) ∧
      (answer = .error inaccessible ↔
        ¬known ∧ ¬store.tree.Passable store.directory.root.path) := by
  intro known inaccessible answer
  have hdistinct : ∀ date, inaccessible ≠ .duplicateDate date := by
    intro date hsame
    contradiction
  have hcases : (answer = .ok () ∧ ¬known ∧ store.Free daily.date) ∨
      (answer = .error (.duplicateDate daily.date) ∧ (known ∨ store.Occupied daily.date)) ∨
      answer = .error inaccessible ∧ ¬known ∧
        ¬store.tree.Passable store.directory.root.path := by
    simpa only [known, ne_eq, not_not] using insertDaily_answer_cases store daily
  clear_value known inaccessible answer
  rcases hcases with ⟨hanswer, hnew, hfree⟩ | ⟨hanswer, htaken⟩ | ⟨hanswer, hnew, hway⟩
  · have hnone : ∀ cause, answer ≠ .error cause := by
      intro cause hsame
      rw [hsame] at hanswer
      contradiction
    refine ⟨iff_of_true hanswer ⟨hnew, hfree⟩, fun date => ?_,
      fun cause hcause => (hnone cause hcause).elim, ?_⟩
    · refine iff_of_false (hnone _) ?_
      rintro ⟨_, hknown | hoccupied⟩
      · exact hnew hknown
      · exact hoccupied.not_free hfree
    · exact iff_of_false (hnone _) fun h => h.2 hfree.passable
  · have hsame : ∀ cause, answer = .error cause ↔ .duplicateDate daily.date = cause := by
      intro cause
      rw [hanswer, Except.error.injEq]
    refine ⟨iff_of_false (by simp [hanswer]) ?_, fun date => ?_,
      fun cause hcause => Or.inl ((hsame cause).mp hcause).symm, ?_⟩
    · rintro ⟨hnew, hfree⟩
      exact htaken.elim hnew fun hoccupied => hoccupied.not_free hfree
    · rw [hsame, StoreError.duplicateDate.injEq, @eq_comm _ date, iff_self_and]
      exact fun _ => htaken
    · refine iff_of_false (fun h => hdistinct _ ((hsame _).mp h).symm) ?_
      rintro ⟨hnew, hway⟩
      exact htaken.elim hnew fun hoccupied => hway hoccupied.passable
  · have hsame : ∀ cause, answer = .error cause ↔ inaccessible = cause := by
      intro cause
      rw [hanswer, Except.error.injEq]
    refine ⟨iff_of_false (by simp [hanswer]) fun h => hway h.2.passable, fun date => ?_,
      fun cause hcause => Or.inr ((hsame cause).mp hcause).symm,
      iff_of_true ((hsame _).mpr rfl) ⟨hnew, hway⟩⟩
    refine iff_of_false (fun h => hdistinct date ((hsame _).mp h)) ?_
    rintro ⟨_, hknown | hoccupied⟩
    · exact hnew hknown
    · exact hway hoccupied.passable

/-! ## Days that are not taken -/

section Mistaken

variable {root : Root} {tree : FileTree} (daily : DailyEquation)

/-- On a directory without records a day is said to be taken if something is in the way of its
record. -/
theorem insertDaily_of_occupied
    (hpool : ∀ name content, tree.find? (root.pool ++ [name]) ≠ some (.file content))
    (hdaily : ∀ name content, tree.find? (root.daily ++ [name]) ≠ some (.file content))
    (hoccupied : ∀ directory, directory.root = root →
      Occupied ⟨directory, tree⟩ daily.date) :
    ∃ directory, ofTree root tree = .ok directory ∧
      ¬HasDaily ⟨directory, tree⟩ daily.date ∧
        (outcome (Store.insertDaily daily) (⟨directory, tree⟩ : DirectoryStore)).1 =
          .error (.duplicateDate daily.date) := by
  refine ⟨_, ofTree_eq_of_forall_ne_file hpool hdaily, ?_, ?_⟩
  · rintro (hknown | ⟨content, hrecord⟩)
    · exact hknown (Inventory.findDaily?_empty _)
    · exact hdaily _ content hrecord
  · have hthere := hoccupied ⟨root, loadConfig root tree, Inventory.empty⟩ rfl
    rcases insertDaily_answer_cases ⟨_, tree⟩ daily with ⟨_, _, hfree⟩ | ⟨hanswer, _⟩ |
      ⟨_, _, hway⟩
    · exact (hthere.not_free hfree).elim
    · exact hanswer
    · exact (hway hthere.passable).elim

variable (root)

theorem insertDaily_of_directory :
    let tree :=
      (FileTree.empty.put root.daily .directory).put (root.dailyFile daily.date) .directory
    ∃ directory, ofTree root tree = .ok directory ∧
      ¬HasDaily ⟨directory, tree⟩ daily.date ∧
        (outcome (Store.insertDaily daily) (⟨directory, tree⟩ : DirectoryStore)).1 =
          .error (.duplicateDate daily.date) := by
  intro tree
  have hfolder : root.daily ≠ [] := by simp [Root.daily]
  have hfile : root.dailyFile daily.date ≠ [] := by simp [Root.dailyFile]
  have hfileless : tree.Fileless :=
    (FileTree.fileless_empty.put_directory hfolder).put_directory hfile
  have hthere : tree.find? (root.dailyFile daily.date) = some .directory := by
    rw [FileTree.find?_put hfile, if_pos rfl]
  refine insertDaily_of_occupied daily (fun name => hfileless _) (fun name => hfileless _) ?_
  rintro directory rfl
  exact Or.inr ⟨hfileless.passable _, fun hnone => by simp [hthere] at hnone⟩

theorem insertDaily_of_file :
    let tree := FileTree.empty.put root.daily (.file (.text ""))
    ∃ directory, ofTree root tree = .ok directory ∧
      ¬HasDaily ⟨directory, tree⟩ daily.date ∧
        (outcome (Store.insertDaily daily) (⟨directory, tree⟩ : DirectoryStore)).1 =
          .error (.duplicateDate daily.date) := by
  intro tree
  have hfolder : root.daily ≠ [] := by simp [Root.daily]
  have hother : ∀ path ≠ root.daily, ∀ content, tree.find? path ≠ some (.file content) := by
    intro path hpath
    rw [FileTree.find?_put hfolder, if_neg hpath]
    exact FileTree.fileless_empty path
  have hfile : tree.find? root.daily = some (.file (.text "")) := by
    rw [FileTree.find?_put hfolder, if_pos rfl]
  refine insertDaily_of_occupied daily (fun name => hother _ ?_) (fun name => hother _ ?_) ?_
  · exact fun hsame => (apart_pool_daily root).1 (hsame ▸ List.prefix_append _ _)
  · simp
  · rintro directory rfl
    refine Or.inl ⟨FileTree.passable_iff_forall_ne_file.mpr ?_, _, hfile⟩
    intro ancestor content hancestor
    refine hother ancestor ?_ content
    rintro rfl
    exact FileTree.not_prefix_of_below (by simp) hancestor

end Mistaken

/-- No day of this directory has a daily equation, but each of these records is refused for its
date. -/
theorem insertDaily_duplicateDate_of_obstruction :
    let root : Root := ⟨"records", []⟩
    let daily : DailyEquation := {
      id := ⟨3⟩
      date := ⟨2025, 4, 5, by decide⟩
      equation := ⟨#v[.digit 1, .digit 4, .operator .multiply, .digit 3, .operator .add, .digit 5],
        47, by decide, by decide +kernel⟩
      targetNumber := 47
      difficulty := .hard
      created := ⟨⟨2025, 1, 2, by decide⟩, 0, 0, by decide, by decide⟩ }
    ∀ tree ∈ [(FileTree.empty.put root.daily .directory).put (root.dailyFile daily.date) .directory,
        FileTree.empty.put root.daily (.file (.text ""))],
      ∃ directory, ofTree root tree = .ok directory ∧
        ¬HasDaily ⟨directory, tree⟩ daily.date ∧
          (outcome (Store.insertDaily daily) (⟨directory, tree⟩ : DirectoryStore)).1 =
            .error (.duplicateDate daily.date) := by
  intro root daily tree htree
  simp only [List.mem_cons, List.not_mem_nil, or_false] at htree
  rcases htree with rfl | rfl
  · exact insertDaily_of_directory root daily
  · exact insertDaily_of_file root daily

end DirectoryStore

end EquationPuzzle
