import EquationPuzzle.FileTree
import Mathlib.Data.List.Infix
import Mathlib.Data.List.Nodup

/-!
# What stands where in a file tree

A file tree is told by what stands at each path.  This file says how writing a file, and making the
directories that lead to it, changes that, and when nothing hinders either.
-/

namespace EquationPuzzle

namespace FilePath

/-! ## The order of paths -/

theorem isBefore_cons_iff (a b : String) (as bs : FilePath) :
    isBefore (a :: as) (b :: bs) ↔ a < b ∨ a = b ∧ isBefore as bs := by
  rw [isBefore]
  by_cases hlt : a < b
  · simp [hlt]
  · by_cases hgt : b < a
    · have hne : a ≠ b := by
        rintro rfl
        exact hlt hgt
      simp [hlt, hgt, hne]
    · have hsame : a = b := String.le_antisymm hgt hlt
      simp [hsame]

theorem isBefore_trans {p q r : FilePath} (hpq : isBefore p q) (hqr : isBefore q r) :
    isBefore p r := by
  induction p generalizing q r with
  | nil => rfl
  | cons a as ih =>
      cases q with
      | nil => contradiction
      | cons b bs =>
          cases r with
          | nil => contradiction
          | cons c cs =>
              rw [isBefore_cons_iff] at hpq hqr ⊢
              rcases hpq with hab | ⟨rfl, hpq⟩
              · rcases hqr with hbc | ⟨rfl, _⟩
                · exact Or.inl (String.lt_trans hab hbc)
                · exact Or.inl hab
              · exact hqr.imp_right fun ⟨hsame, hqr⟩ => ⟨hsame, ih hpq hqr⟩

theorem isBefore_total (p q : FilePath) : isBefore p q ∨ isBefore q p := by
  induction p generalizing q with
  | nil => exact Or.inl rfl
  | cons a as ih =>
      cases q with
      | nil => exact Or.inr rfl
      | cons b bs =>
          rw [isBefore_cons_iff, isBefore_cons_iff]
          by_cases hlt : a < b
          · exact Or.inl (Or.inl hlt)
          · by_cases hgt : b < a
            · exact Or.inr (Or.inl hgt)
            · have hsame : a = b := String.le_antisymm hgt hlt
              exact (ih bs).imp (fun h => Or.inr ⟨hsame, h⟩) fun h => Or.inr ⟨hsame.symm, h⟩

theorem isBefore_antisymm {p q : FilePath} (hpq : isBefore p q) (hqp : isBefore q p) : p = q := by
  induction p generalizing q with
  | nil =>
      cases q with
      | nil => rfl
      | cons b bs => contradiction
  | cons a as ih =>
      cases q with
      | nil => contradiction
      | cons b bs =>
          rw [isBefore_cons_iff] at hpq hqp
          rcases hpq with hlt | ⟨rfl, hpq⟩
          · rcases hqp with hgt | ⟨rfl, _⟩
            · exact absurd (String.lt_trans hlt hgt) (String.lt_irrefl a)
            · exact absurd hlt (String.lt_irrefl b)
          · rcases hqp with hgt | ⟨_, hqp⟩
            · exact absurd hgt (String.lt_irrefl a)
            · rw [ih hpq hqp]

/-- Paths in their order, each once, are known by which paths they are. -/
theorem eq_of_sorted {paths others : List FilePath}
    (hpaths : paths.Pairwise (isBefore · ·)) (hothers : others.Pairwise (isBefore · ·))
    (hperm : paths.Perm others) : paths = others :=
  hperm.eq_of_pairwise (fun _ _ _ _ => isBefore_antisymm) hpaths hothers

theorem pairwise_mergeSort (paths : List FilePath) :
    (paths.mergeSort isBefore).Pairwise (isBefore · ·) :=
  @List.pairwise_mergeSort _ isBefore (fun _ _ _ => isBefore_trans)
    (fun p q => Bool.or_eq_true_iff.mpr (isBefore_total p q)) paths

end FilePath

namespace FileTree

variable {tree : FileTree}

/-- No file stands at a path or on the way to it. -/
def Passable (tree : FileTree) (path : FilePath) : Prop :=
  ∀ ancestor, ancestor <+: path →
    tree.find? ancestor = none ∨ tree.find? ancestor = some .directory

/-- A path and all that leads to it are directories. -/
def Grounded (tree : FileTree) (path : FilePath) : Prop :=
  ∀ ancestor, ancestor <+: path → tree.find? ancestor = some .directory

theorem Grounded.passable {path : FilePath} (hgrounded : tree.Grounded path) :
    tree.Passable path :=
  fun ancestor hancestor => Or.inr (hgrounded ancestor hancestor)

@[simp] theorem find?_nil : tree.find? [] = some .directory := rfl

theorem find?_empty {path : FilePath} (hpath : path ≠ []) : empty.find? path = none := by
  simp [find?, empty, hpath]

theorem passable_empty (path : FilePath) : empty.Passable path := by
  intro ancestor _
  by_cases hancestor : ancestor = []
  · subst ancestor
    exact Or.inr find?_nil
  · exact Or.inl (find?_empty hancestor)

theorem find?_put {path : FilePath} (hpath : path ≠ []) (node : FileNode) (other : FilePath) :
    (tree.put path node).find? other = if other = path then some node else tree.find? other := by
  by_cases hother : other = []
  · subst hother
    simp [Ne.symm hpath]
  · simp only [find?, put, if_neg hother, Std.HashMap.getElem?_insert, beq_iff_eq]
    simp only [eq_comm]

private theorem forM_eq_ok_iff {α : Type} (f : α → Except FileFault Unit) (l : List α) :
    l.forM f = .ok () ↔ ∀ a ∈ l, f a = .ok () := by
  induction l with
  | nil => simp [List.forM_eq_forM, pure, Except.pure]
  | cons a l ih =>
      rw [List.forM_eq_forM, List.forM_cons, List.forall_mem_cons, ← ih, List.forM_eq_forM]
      cases f a with
      | error fault => simp [bind, Except.bind]
      | ok => simp [bind, Except.bind]

/-- Whether the first so many names of a path lead to a directory. -/
def checkAncestor (tree : FileTree) (path : FilePath) (length : Nat) : Except FileFault Unit :=
  match tree.find? (path.take length) with
  | some .directory => .ok ()
  | some (.file _) => .error .notADirectory
  | none => .error .notFound

theorem checkAncestors_eq (tree : FileTree) (path : FilePath) :
    tree.checkAncestors path = (List.range path.length).forM (tree.checkAncestor path) := rfl

theorem checkAncestor_eq_ok_iff (path : FilePath) (length : Nat) :
    tree.checkAncestor path length = .ok () ↔ tree.find? (path.take length) = some .directory := by
  unfold checkAncestor
  split <;> simp_all

/-- The check finds out whether all that leads to a path are directories. -/
theorem checkAncestors_eq_ok_iff (folder : FilePath) (name : String) :
    tree.checkAncestors (folder ++ [name]) = .ok () ↔ tree.Grounded folder := by
  have htake : ∀ length ≤ folder.length,
      (folder ++ [name]).take length = folder.take length :=
    fun length hlength => List.take_append_of_le_length hlength
  simp only [checkAncestors_eq, forM_eq_ok_iff, checkAncestor_eq_ok_iff, List.mem_range,
    List.length_append, List.length_singleton, Nat.lt_succ_iff]
  constructor
  · intro hall ancestor hancestor
    have hdirectory := hall _ hancestor.length_le
    rwa [htake _ hancestor.length_le, ← List.prefix_iff_eq_take.mp hancestor] at hdirectory
  · intro hgrounded length hlength
    rw [htake length hlength]
    exact hgrounded _ (List.take_prefix _ _)

theorem Grounded.checkAncestors {folder : FilePath} (hgrounded : tree.Grounded folder)
    (name : String) : tree.checkAncestors (folder ++ [name]) = .ok () :=
  (checkAncestors_eq_ok_iff folder name).mpr hgrounded

/-- Makes the directory that the first so many names and one more lead to. -/
def makeAncestor (path : FilePath) (tree : FileTree) (length : Nat) : Except FileFault FileTree :=
  match tree.find? (path.take (length + 1)) with
  | some .directory => .ok tree
  | some (.file _) =>
    .error (if path.take (length + 1) = path then .alreadyExists else .notADirectory)
  | none => .ok (tree.put (path.take (length + 1)) .directory)

theorem createDirectories_eq (tree : FileTree) (path : FilePath) :
    tree.createDirectories path = (List.range path.length).foldlM (makeAncestor path) tree := rfl

private theorem prefix_take_succ_iff {path other : FilePath} {length : Nat}
    (hlength : length < path.length) :
    other <+: path.take (length + 1) ↔
      other = path.take (length + 1) ∨ other <+: path.take length := by
  rw [List.take_succ_eq_append_getElem hlength, List.prefix_concat_iff]

theorem makeAncestor_eq_ok {path : FilePath} {length : Nat} (hlength : length < path.length)
    (hfree : tree.find? (path.take (length + 1)) = none ∨
      tree.find? (path.take (length + 1)) = some .directory) :
    ∃ next, makeAncestor path tree length = .ok next ∧
      ∀ other, next.find? other =
        if other = path.take (length + 1) then some .directory else tree.find? other := by
  have hnonempty : path.take (length + 1) ≠ [] := by
    simp [List.ne_nil_of_length_pos (Nat.zero_lt_of_lt hlength)]
  rcases hfree with hnone | hdirectory
  · refine ⟨tree.put (path.take (length + 1)) .directory, ?_, find?_put hnonempty _⟩
    rw [makeAncestor, hnone]
  · refine ⟨tree, ?_, fun other => ?_⟩
    · rw [makeAncestor, hdirectory]
    · by_cases hother : other = path.take (length + 1)
      · rw [if_pos hother, hother, hdirectory]
      · rw [if_neg hother]

private theorem foldlM_makeAncestor {path : FilePath} (hpassable : tree.Passable path)
    (count : Nat) (hcount : count ≤ path.length) :
    ∃ next, (List.range count).foldlM (makeAncestor path) tree = .ok next ∧
      ∀ other, next.find? other =
        if other <+: path.take count then some .directory else tree.find? other := by
  induction count with
  | zero =>
      refine ⟨tree, rfl, fun other => ?_⟩
      by_cases hother : other = [] <;> simp [hother]
  | succ count ih =>
      obtain ⟨before, hbefore, hfind⟩ := ih (by omega)
      have hnot : ¬path.take (count + 1) <+: path.take count := by
        intro hprefix
        have hlength := hprefix.length_le
        simp only [List.length_take] at hlength
        omega
      have hfree := hpassable _ (List.take_prefix (count + 1) path)
      have hsame : before.find? (path.take (count + 1)) = tree.find? (path.take (count + 1)) := by
        rw [hfind, if_neg hnot]
      rw [← hsame] at hfree
      obtain ⟨next, hnext, hfindNext⟩ := makeAncestor_eq_ok hcount hfree
      refine ⟨next, ?_, fun other => ?_⟩
      · rw [List.range_succ, List.foldlM_append, hbefore]
        change (makeAncestor path before count >>= fun tree => pure tree) = _
        rw [hnext]
        rfl
      · rw [hfindNext, hfind]
        by_cases hother : other = path.take (count + 1)
        · simp [hother]
        · simp [prefix_take_succ_iff hcount, hother]

/-- Where no file is in the way, all directories that lead to a path can be made, and nothing else
changes. -/
theorem Passable.createDirectories {path : FilePath} (hpassable : tree.Passable path) :
    ∃ next, tree.createDirectories path = .ok next ∧
      ∀ other, next.find? other =
        if other <+: path then some .directory else tree.find? other := by
  have hall := foldlM_makeAncestor hpassable path.length le_rfl
  rw [List.take_length] at hall
  rw [createDirectories_eq]
  exact hall

theorem Grounded.createFile {folder : FilePath} (hgrounded : tree.Grounded folder) {name : String}
    (hfree : tree.find? (folder ++ [name]) = none) (content : Content) :
    tree.createFile (folder ++ [name]) content =
      .ok (tree.put (folder ++ [name]) (.file content)) := by
  rw [FileTree.createFile, hgrounded.checkAncestors, hfree]
  rfl

theorem Grounded.writeFile {folder : FilePath} (hgrounded : tree.Grounded folder) {name : String}
    (hfile : tree.find? (folder ++ [name]) ≠ some .directory) (content : Content) :
    tree.writeFile (folder ++ [name]) content =
      .ok (tree.put (folder ++ [name]) (.file content)) := by
  rw [FileTree.writeFile, hgrounded.checkAncestors]
  cases hfind : tree.find? (folder ++ [name]) with
  | none => rfl
  | some node =>
      cases node with
      | directory => exact absurd hfind hfile
      | file old => rfl

/-- A file may be written at a path: directories lead there, and none stands there. -/
def Writable (tree : FileTree) (path : FilePath) : Prop :=
  tree.Grounded path.dropLast ∧ tree.find? path ≠ some .directory

theorem Writable.exists_eq_append {path : FilePath} (hwritable : tree.Writable path) :
    ∃ folder name, path = folder ++ [name] ∧ tree.Grounded folder := by
  rcases List.eq_nil_or_concat path with rfl | ⟨folder, name, rfl⟩
  · exact absurd find?_nil hwritable.2
  · have hgrounded := hwritable.1
    rw [List.concat_eq_append, List.dropLast_concat] at hgrounded
    exact ⟨folder, name, List.concat_eq_append, hgrounded⟩

theorem Writable.writeFile {path : FilePath} (hwritable : tree.Writable path) (content : Content) :
    tree.writeFile path content = .ok (tree.put path (.file content)) := by
  rcases hwritable.exists_eq_append with ⟨folder, name, rfl, hgrounded⟩
  exact hgrounded.writeFile hwritable.2 content

theorem Grounded.put_append {folder : FilePath} (hgrounded : tree.Grounded folder) (name : String)
    (node : FileNode) : (tree.put (folder ++ [name]) node).Grounded folder := by
  intro ancestor hancestor
  have hother : ancestor ≠ folder ++ [name] := by
    rintro rfl
    have hlength := hancestor.length_le
    rw [List.length_append, List.length_singleton] at hlength
    omega
  rw [find?_put (by simp), if_neg hother]
  exact hgrounded ancestor hancestor

theorem writable_of_writeFile {path : FilePath} {content : Content} {after : FileTree}
    (hwrite : tree.writeFile path content = .ok after) : tree.Writable path := by
  rw [FileTree.writeFile] at hwrite
  cases hcheck : tree.checkAncestors path with
  | error fault =>
      rw [hcheck] at hwrite
      contradiction
  | ok =>
      rw [hcheck] at hwrite
      have hfile : tree.find? path ≠ some .directory := by
        intro hdirectory
        rw [hdirectory] at hwrite
        contradiction
      refine ⟨?_, hfile⟩
      rcases List.eq_nil_or_concat path with rfl | ⟨folder, name, rfl⟩
      · exact absurd find?_nil hfile
      · rw [List.concat_eq_append] at hcheck ⊢
        rw [List.dropLast_concat]
        exact (checkAncestors_eq_ok_iff folder name).mp hcheck

theorem exists_writeFile_eq_error {path : FilePath} (hwritable : ¬tree.Writable path)
    (content : Content) : ∃ fault, tree.writeFile path content = .error fault := by
  cases hwrite : tree.writeFile path content with
  | ok after => exact absurd (writable_of_writeFile hwrite) hwritable
  | error fault => exact ⟨fault, rfl⟩

theorem Grounded.readText {folder : FilePath} (hgrounded : tree.Grounded folder) {name : String}
    {text : String} (hfile : tree.find? (folder ++ [name]) = some (.file (.text text))) :
    tree.readText (folder ++ [name]) = .ok text := by
  rw [FileTree.readText, hgrounded.checkAncestors, hfile]
  rfl

/-! ## Listings -/

private theorem child_eq_some_iff (path other : FilePath) (child node : FileNode)
    (name : String) :
    (match other.getLast? with
      | some name => if other.dropLast = path then some (name, child) else none
      | none => none) = some (name, node) ↔ other = path ++ [name] ∧ child = node := by
  rcases List.eq_nil_or_concat other with rfl | ⟨front, last, rfl⟩
  · simp
  · by_cases hfront : front = path
    · simp [hfront]
    · simp [hfront]

theorem mem_list_iff (tree : FileTree) (path : FilePath) (name : String) (node : FileNode) :
    (name, node) ∈ tree.list path ↔ tree.find? (path ++ [name]) = some node := by
  have hfind : tree.find? (path ++ [name]) = tree.nodes[path ++ [name]]? := by
    simp [find?]
  rw [hfind, ← Std.HashMap.mem_toList_iff_getElem?_eq_some]
  simp only [list, List.mem_mergeSort, List.mem_filterMap, Prod.exists]
  constructor
  · rintro ⟨other, child, hmem, hchild⟩
    obtain ⟨rfl, rfl⟩ := (child_eq_some_iff path other child node name).mp hchild
    exact hmem
  · intro hmem
    exact ⟨_, _, hmem, (child_eq_some_iff path _ node node name).mpr ⟨rfl, rfl⟩⟩

theorem nodup_list (tree : FileTree) (path : FilePath) :
    ((tree.list path).map Prod.fst).Nodup := by
  have hchildren := tree.nodes.distinct_keys_toList
  rw [list, ((List.mergeSort_perm _ _).map Prod.fst).nodup_iff, List.Nodup, List.pairwise_map,
    List.pairwise_filterMap]
  refine hchildren.imp fun {a b} hdistinct => ?_
  rintro ⟨name, node⟩ ha ⟨name', node'⟩ hb rfl
  have ha' := (child_eq_some_iff path a.1 a.2 node name).mp ha
  have hb' := (child_eq_some_iff path b.1 b.2 node' name).mp hb
  simp [ha'.1, hb'.1] at hdistinct

end FileTree

end EquationPuzzle
