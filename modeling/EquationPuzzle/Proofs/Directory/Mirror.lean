import EquationPuzzle.Proofs.Calendar.Day
import EquationPuzzle.Proofs.Directory.Folder
import EquationPuzzle.Proofs.Inventory.Representation
import EquationPuzzle.Proofs.Store.Agreement
import EquationPuzzle.Proofs.Text.Identifier

/-!
# Directories mirror inventories

A store in a directory writes a record to its file before it changes its inventory.  As long as
nobody else touches the files, they are one file for each record of the inventory, and so a new
record never finds its file taken, and a change that has been written is never refused.  Such a
store answers every call as the inventory alone does.
-/

namespace EquationPuzzle

namespace Inventory

def poolTexts (inventory : Inventory) : FolderTexts := fun name text =>
  ∃ entry ∈ inventory.pool, entry.id.text ++ ".yaml" = name ∧ entry.recordText = text

def dailyTexts (inventory : Inventory) : FolderTexts := fun name text =>
  ∃ daily, inventory.findDaily? daily.date = some daily ∧
    daily.date.text ++ ".yaml" = name ∧ daily.recordText = text

private theorem fileName_inj {a b : String} : a ++ ".yaml" = b ++ ".yaml" ↔ a = b :=
  String.append_left_inj ".yaml"

section Texts

variable {inventory : Inventory}

theorem poolTexts_push (hwell : inventory.WellFormed) {entry : PoolEntry}
    (hid : entry.id ∉ inventory.positions) (name text : String) :
    (inventory.poolTexts.write (entry.id.text ++ ".yaml") entry.recordText) name text ↔
      (inventory.push entry).poolTexts name text := by
  have hnew : ∀ known ∈ inventory.pool, known.id.text ++ ".yaml" ≠ entry.id.text ++ ".yaml" := by
    intro known hknown hsame
    refine hid ((hwell.mem_positions_iff entry.id).mpr ⟨known, hknown, ?_⟩)
    exact Identifier.text_injective (fileName_inj.mp hsame)
  simp only [FolderTexts.write, poolTexts, pool_push, Array.mem_push]
  by_cases hname : name = entry.id.text ++ ".yaml"
  · rw [if_pos hname]
    constructor
    · rintro rfl
      exact ⟨entry, Or.inr rfl, hname.symm, rfl⟩
    · rintro ⟨known, hknown | rfl, hsame, htext⟩
      · exact absurd (hsame.trans hname) (hnew known hknown)
      · exact htext.symm
  · rw [if_neg hname]
    constructor
    · rintro ⟨known, hknown, h⟩
      exact ⟨known, Or.inl hknown, h⟩
    · rintro ⟨known, hknown | rfl, hsame, htext⟩
      · exact ⟨known, hknown, hsame, htext⟩
      · exact absurd hsame.symm hname

theorem poolTexts_markAt (hwell : inventory.WellFormed) {position : Nat} {entry : PoolEntry}
    (hentry : inventory.pool[position]? = some entry) (name text : String) :
    (inventory.poolTexts.write (entry.id.text ++ ".yaml") entry.claimed.recordText) name text ↔
      (inventory.markAt position entry).poolTexts name text := by
  simp only [FolderTexts.write, poolTexts, Array.mem_iff_getElem?, getElem?_pool_markAt hentry]
  by_cases hname : name = entry.id.text ++ ".yaml"
  · rw [if_pos hname]
    constructor
    · rintro rfl
      exact ⟨entry.claimed, ⟨position, if_pos rfl⟩, hname.symm, rfl⟩
    · rintro ⟨known, ⟨other, hknown⟩, hsame, htext⟩
      by_cases hother : other = position
      · rw [if_pos hother, Option.some.injEq] at hknown
        exact hknown ▸ htext.symm
      · rw [if_neg hother] at hknown
        have hid := Identifier.text_injective (fileName_inj.mp (hsame.trans hname))
        exact absurd (hwell.position_eq_of_id_eq hknown hentry hid) hother
  · rw [if_neg hname]
    constructor
    · rintro ⟨known, ⟨other, hknown⟩, hsame, htext⟩
      have hother : other ≠ position := by
        rintro rfl
        obtain rfl : entry = known := Option.some.inj (hentry.symm.trans hknown)
        exact hname hsame.symm
      exact ⟨known, ⟨other, by rwa [if_neg hother]⟩, hsame, htext⟩
    · rintro ⟨known, ⟨other, hknown⟩, hsame, htext⟩
      by_cases hother : other = position
      · rw [if_pos hother, Option.some.injEq] at hknown
        exact absurd (hsame.symm.trans (by rw [← hknown]; rfl)) hname
      · rw [if_neg hother] at hknown
        exact ⟨known, ⟨other, hknown⟩, hsame, htext⟩

theorem dailyTexts_withDaily {daily : DailyEquation} (name text : String) :
    (inventory.dailyTexts.write (daily.date.text ++ ".yaml") daily.recordText) name text ↔
      (inventory.withDaily daily).dailyTexts name text := by
  simp only [FolderTexts.write, dailyTexts, findDaily?_withDaily]
  by_cases hname : name = daily.date.text ++ ".yaml"
  · rw [if_pos hname]
    constructor
    · rintro rfl
      exact ⟨daily, if_pos rfl, hname.symm, rfl⟩
    · rintro ⟨known, hknown, hsame, htext⟩
      have hdate := Day.text_injective (fileName_inj.mp (hsame.trans hname))
      rw [if_pos hdate.symm, Option.some.injEq] at hknown
      exact hknown ▸ htext.symm
  · rw [if_neg hname]
    have hother : ∀ known : DailyEquation, known.date.text ++ ".yaml" = name →
        daily.date ≠ known.date := by
      rintro known rfl hdate
      exact hname (by rw [hdate])
    constructor
    · rintro ⟨known, hknown, hsame, htext⟩
      exact ⟨known, by rwa [if_neg (hother known hsame)], hsame, htext⟩
    · rintro ⟨known, hknown, hsame, htext⟩
      rw [if_neg (hother known hsame)] at hknown
      exact ⟨known, hknown, hsame, htext⟩

end Texts

end Inventory

namespace Directory

/-! ## Writing records -/

/-- The folders of the records hold the records of an inventory. -/
structure Mirrors (root : Root) (tree : FileTree) (inventory : Inventory) : Prop where
  pool : tree.Holds root.pool inventory.poolTexts
  daily : tree.Holds root.daily inventory.dailyTexts

theorem apart_pool_daily (root : Root) : FileTree.Apart root.pool root.daily := by
  constructor <;>
    simp [Root.pool, Root.daily, poolName, dailyName, List.prefix_append_right_inj]

theorem apart_daily_pool (root : Root) : FileTree.Apart root.daily root.pool :=
  (apart_pool_daily root).symm

section Mirrors

variable {root : Root} {tree : FileTree} {inventory : Inventory}

theorem Mirrors.withDaily (hmirrors : Mirrors root tree inventory) {daily : DailyEquation}
    (hnew : inventory.findDaily? daily.date = none) :
    ∃ next, writeRecord tree (root.dailyFile daily.date) true daily.recordText = (.ok (), next) ∧
      Mirrors root next (inventory.withDaily daily) := by
  have hfree : ∀ old, ¬inventory.dailyTexts (daily.date.text ++ ".yaml") old := by
    rintro old ⟨known, hknown, hname, _⟩
    rw [Day.text_injective (Inventory.fileName_inj.mp hname), hnew] at hknown
    contradiction
  obtain ⟨next, hwrite, hwritten⟩ :=
    hmirrors.daily.writeRecord daily.recordText true fun _ => hfree
  refine ⟨next, hwrite, ?_, ?_⟩
  · exact hwritten.holds_apart (apart_daily_pool root) hmirrors.pool
  · exact (hwritten.holds hmirrors.daily).congr Inventory.dailyTexts_withDaily

theorem Mirrors.push (hmirrors : Mirrors root tree inventory) (hwell : inventory.WellFormed)
    {entry : PoolEntry} (hid : entry.id ∉ inventory.positions) :
    ∃ next, writeRecord tree (root.poolFile entry.id) true entry.recordText = (.ok (), next) ∧
      Mirrors root next (inventory.push entry) := by
  have hfree : ∀ old, ¬inventory.poolTexts (entry.id.text ++ ".yaml") old := by
    rintro old ⟨known, hknown, hname, _⟩
    have hsame := Identifier.text_injective (Inventory.fileName_inj.mp hname)
    exact hid ((hwell.mem_positions_iff entry.id).mpr ⟨known, hknown, hsame⟩)
  obtain ⟨next, hwrite, hwritten⟩ := hmirrors.pool.writeRecord entry.recordText true fun _ => hfree
  refine ⟨next, hwrite, ?_, ?_⟩
  · exact (hwritten.holds hmirrors.pool).congr (Inventory.poolTexts_push hwell hid)
  · exact hwritten.holds_apart (apart_pool_daily root) hmirrors.daily

theorem Mirrors.markAt (hmirrors : Mirrors root tree inventory) (hwell : inventory.WellFormed)
    {position : Nat} {entry : PoolEntry} (hentry : inventory.pool[position]? = some entry) :
    ∃ next, writeRecord tree (root.poolFile entry.id) false entry.claimed.recordText =
        (.ok (), next) ∧
      Mirrors root next (inventory.markAt position entry) := by
  obtain ⟨next, hwrite, hwritten⟩ :=
    hmirrors.pool.writeRecord entry.claimed.recordText false (by simp)
  refine ⟨next, hwrite, ?_, ?_⟩
  · exact (hwritten.holds hmirrors.pool).congr (Inventory.poolTexts_markAt hwell hentry)
  · exact hwritten.holds_apart (apart_pool_daily root) hmirrors.daily

theorem Mirrors.writeBatch {batch : List PoolEntry} (hmirrors : Mirrors root tree inventory)
    (hwell : inventory.WellFormed) (hadmits : inventory.Admits batch) :
    ∃ written next, Directory.writeBatch root tree batch = (written, none, next) ∧
      Mirrors root next (batch.foldl Inventory.push inventory) := by
  induction batch generalizing tree inventory with
  | nil => exact ⟨[], tree, rfl, hmirrors⟩
  | cons entry rest ih =>
      obtain ⟨hid, hequation, _⟩ := (Inventory.admits_cons_iff inventory entry rest).mp hadmits
      obtain ⟨made, hwrite, hmade⟩ := hmirrors.push hwell hid
      obtain ⟨written, next, hrest, hnext⟩ := ih hmade (hwell.push hid hequation) hadmits.push
      refine ⟨root.poolFile entry.id :: written, next, ?_, hnext⟩
      rw [Directory.writeBatch, hwrite]
      simp only [hrest]

end Mirrors

/-! ## Opening a directory -/

/-- Nothing stands below a root, and no file stands in the way of making it. -/
structure Root.Vacant (root : Root) (tree : FileTree) : Prop where
  passable : tree.Passable root.path
  empty : ∀ below ≠ [], tree.find? (root.path ++ below) = none

theorem Root.Vacant.holds {root : Root} {tree : FileTree} (hvacant : root.Vacant tree)
    (name : String) : tree.Holds (root.path ++ [name]) fun _ _ => False := by
  refine ⟨fun ancestor hancestor => ?_, fun _ _ hfalse => hfalse.elim, fun below _ node => ?_⟩
  · rcases List.prefix_concat_iff.mp hancestor with rfl | hancestor
    · exact Or.inl (hvacant.empty [name] (by simp))
    · exact hvacant.passable ancestor hancestor
  · rw [List.append_assoc, hvacant.empty _ (by simp)]
    simp

theorem Root.Vacant.mirrors {root : Root} {tree : FileTree} (hvacant : root.Vacant tree) :
    Mirrors root tree Inventory.empty :=
  ⟨(hvacant.holds poolName).congr (by simp [Inventory.poolTexts, Inventory.empty]),
    (hvacant.holds dailyName).congr
      (by simp [Inventory.dailyTexts, Inventory.empty, Inventory.findDaily?])⟩

theorem Root.vacant_empty (root : Root) : root.Vacant FileTree.empty := by
  refine ⟨FileTree.passable_empty root.path, fun below hbelow => ?_⟩
  exact FileTree.find?_empty (by simp [hbelow])

theorem Root.vacant_beside {parent name other : String} (hother : other ≠ name) (display : String)
    (node : FileNode) :
    Root.Vacant ⟨display, [parent, name]⟩
      ((FileTree.empty.put [parent] .directory).put [parent, other] node) := by
  constructor
  · intro ancestor hancestor
    simp only [List.prefix_cons_iff, List.prefix_nil] at hancestor
    obtain rfl | ⟨_, rfl, rfl | ⟨_, rfl, rfl⟩⟩ := hancestor <;>
      simp [FileTree.find?_put, FileTree.find?_empty, hother.symm]
  · intro below hbelow
    simp [FileTree.find?_put, FileTree.find?_empty, hbelow]

theorem recordFiles_eq_nil {tree : FileTree} {folder : FilePath}
    (hfiles : ∀ name content, tree.find? (folder ++ [name]) ≠ some (.file content)) :
    recordFiles tree folder = [] := by
  rw [recordFiles, List.filterMap_eq_nil_iff]
  rintro ⟨name, node⟩ hmem
  cases node with
  | directory => rfl
  | file content => exact absurd ((tree.mem_list_iff _ _ _).mp hmem) (hfiles name content)

/-- A directory without records opens with an empty inventory. -/
theorem ofTree_eq_of_forall_ne_file {root : Root} {tree : FileTree}
    (hpool : ∀ name content, tree.find? (root.pool ++ [name]) ≠ some (.file content))
    (hdaily : ∀ name content, tree.find? (root.daily ++ [name]) ≠ some (.file content)) :
    ofTree root tree = .ok ⟨root, loadConfig root tree, Inventory.empty⟩ := by
  rw [ofTree, recordFiles_eq_nil hpool, recordFiles_eq_nil hdaily]
  simp [load]
  rfl

theorem Root.Vacant.ofTree_eq {root : Root} {tree : FileTree} (hvacant : root.Vacant tree) :
    ofTree root tree = .ok ⟨root, loadConfig root tree, Inventory.empty⟩ := by
  apply ofTree_eq_of_forall_ne_file
  · intro name content hfile
    obtain ⟨_, hfalse, _⟩ := ((hvacant.holds poolName).file_iff name _).mp hfile
    exact hfalse
  · intro name content hfile
    obtain ⟨_, hfalse, _⟩ := ((hvacant.holds dailyName).file_iff name _).mp hfile
    exact hfalse

end Directory

namespace DirectoryStore

open Directory

/-! ## Calls -/

/-- The store keeps an inventory in memory and in its files. -/
structure Represents (root : Directory.Root) (store : DirectoryStore) (inventory : Inventory) :
    Prop where
  root_eq : store.directory.root = root
  inventory_eq : store.directory.inventory = inventory
  wellFormed : inventory.WellFormed
  mirrors : Directory.Mirrors root store.tree inventory

section Outcomes

variable (store : DirectoryStore)

def after (tree : FileTree) (inventory : Inventory) : DirectoryStore :=
  { store with directory := { store.directory with inventory }, tree }

theorem outcome_insertDaily_of_conflict {daily : DailyEquation} {conflict : StoreError}
    (hconflict : store.directory.inventory.dailyConflict? daily = some conflict) :
    outcome (Store.insertDaily daily) store = (.error conflict, store) := by
  change outcome (DirectoryStore.insertDaily daily) store = _
  unfold DirectoryStore.insertDaily
  rw [outcome_bind]
  simp only [outcome_get, hconflict]
  rfl

theorem outcome_insertDaily_of_ok {daily : DailyEquation} {tree : FileTree} {next : Inventory}
    (hwrite : writeRecord store.tree (store.directory.root.dailyFile daily.date) true
      daily.recordText = (.ok (), tree))
    (hinsert : store.directory.inventory.insertDaily daily = .ok next) :
    outcome (Store.insertDaily daily) store = (.ok (), store.after tree next) := by
  have hconflict : store.directory.inventory.dailyConflict? daily = none := by
    cases hconflict : store.directory.inventory.dailyConflict? daily with
    | none => rfl
    | some conflict => simp [Inventory.insertDaily, hconflict] at hinsert
  change outcome (DirectoryStore.insertDaily daily) store = _
  unfold DirectoryStore.insertDaily
  rw [outcome_bind]
  simp only [outcome_get, hconflict, hwrite, hinsert]
  rfl

theorem outcome_markUsed_of_none {id : Identifier}
    (hclaimable : store.directory.inventory.claimable? id = none) :
    outcome (Store.markUsed id) store = (.ok none, store) := by
  change outcome (DirectoryStore.markUsed id) store = _
  unfold DirectoryStore.markUsed
  rw [outcome_bind]
  simp only [outcome_get, hclaimable]
  rfl

theorem outcome_markUsed_of_some {id : Identifier} {claimed : PoolEntry} {tree : FileTree}
    {next : Inventory} (hclaimable : store.directory.inventory.claimable? id = some claimed)
    (hwrite : writeRecord store.tree (store.directory.root.poolFile id) false
      claimed.recordText = (.ok (), tree))
    (hclaim : store.directory.inventory.claim? id = some (claimed, next)) :
    outcome (Store.markUsed id) store = (.ok (some claimed), store.after tree next) := by
  change outcome (DirectoryStore.markUsed id) store = _
  unfold DirectoryStore.markUsed
  rw [outcome_bind]
  simp only [outcome_get, hclaimable, hwrite, hclaim]
  rfl

theorem outcome_insertPool_of_conflict {batch : List PoolEntry} {conflict : StoreError}
    (hconflict : store.directory.inventory.poolConflict? batch = some conflict) :
    outcome (Store.insertPool batch) store = (.error conflict, store) := by
  change outcome (DirectoryStore.insertPool batch) store = _
  unfold DirectoryStore.insertPool
  rw [outcome_bind]
  simp only [outcome_get, hconflict]
  rfl

theorem outcome_insertPool_of_ok {batch : List PoolEntry} {written : List FilePath}
    {tree : FileTree} {next : Inventory}
    (hconflict : store.directory.inventory.poolConflict? batch = none)
    (hwrite : writeBatch store.directory.root store.tree batch = (written, none, tree))
    (hinsert : store.directory.inventory.insertPool batch = .ok next) :
    outcome (Store.insertPool batch) store = (.ok batch.length, store.after tree next) := by
  change outcome (DirectoryStore.insertPool batch) store = _
  unfold DirectoryStore.insertPool
  rw [outcome_bind]
  simp only [outcome_get, hconflict, hwrite, hinsert]
  rfl

end Outcomes

section Agreement

variable (root : Directory.Root)

theorem agrees_read {α : Type} (f : Inventory → α) :
    Agrees (Represents root) (do return f (← inventory) : StoreM DirectoryStore α)
      (do return f (← get) : StoreM Inventory α) := by
  intro store known hrepresents
  exact ⟨congrArg (fun known => Except.ok (f known)) hrepresents.inventory_eq, hrepresents⟩

theorem agrees_insertDaily (daily : DailyEquation) :
    Agrees (Represents root) (Store.insertDaily daily) (Store.insertDaily daily) := by
  rintro store inventory ⟨rfl, rfl, hwell, hmirrors⟩
  rw [Inventory.outcome_insertDaily]
  cases hconflict : store.directory.inventory.dailyConflict? daily with
  | some conflict =>
      rw [outcome_insertDaily_of_conflict store hconflict, Inventory.insertDaily, hconflict]
      exact ⟨rfl, rfl, rfl, hwell, hmirrors⟩
  | none =>
      have hnew : store.directory.inventory.findDaily? daily.date = none := by
        simpa [Inventory.findDaily?_eq_none_iff, Inventory.dailyConflict?] using hconflict
      have hinsert := (Inventory.insertDaily_eq_ok_iff _ _ _).mpr ⟨hnew, rfl⟩
      obtain ⟨tree, hwrite, hnext⟩ := hmirrors.withDaily hnew
      rw [outcome_insertDaily_of_ok store hwrite hinsert, hinsert]
      exact ⟨rfl, rfl, rfl, hwell.withDaily daily, hnext⟩

theorem agrees_markUsed (id : Identifier) :
    Agrees (Represents root) (Store.markUsed id) (Store.markUsed id) := by
  rintro store inventory ⟨rfl, rfl, hwell, hmirrors⟩
  have hclaimable := hwell.claimable?_eq id
  rw [Inventory.outcome_markUsed]
  cases hclaim : store.directory.inventory.claim? id with
  | none =>
      rw [hclaim] at hclaimable
      rw [outcome_markUsed_of_none store hclaimable]
      exact ⟨rfl, rfl, rfl, hwell, hmirrors⟩
  | some result =>
      obtain ⟨position, entry, hentry, rfl, _, hclaimed, hnext⟩ :=
        (hwell.claim?_eq_some_iff id result.1 result.2).mp hclaim
      obtain ⟨tree, hwrite, hmirrored⟩ := hmirrors.markAt hwell hentry
      rw [hclaim] at hclaimable
      rw [← hclaimed] at hwrite
      rw [← hnext] at hmirrored
      rw [outcome_markUsed_of_some store hclaimable hwrite hclaim]
      exact ⟨rfl, rfl, rfl, hnext ▸ hwell.markAt hentry, hmirrored⟩

theorem agrees_insertPool (batch : List PoolEntry) :
    Agrees (Represents root) (Store.insertPool batch) (Store.insertPool batch) := by
  rintro store inventory ⟨rfl, rfl, hwell, hmirrors⟩
  rw [Inventory.outcome_insertPool]
  cases hconflict : store.directory.inventory.poolConflict? batch with
  | some conflict =>
      rw [outcome_insertPool_of_conflict store hconflict, Inventory.insertPool, hconflict]
      exact ⟨rfl, rfl, rfl, hwell, hmirrors⟩
  | none =>
      have hadmits := (Inventory.poolConflict?_eq_none_iff _ _).mp hconflict
      have hinsert := (Inventory.insertPool_eq_ok_iff _ _ _).mpr ⟨hadmits, rfl⟩
      obtain ⟨written, tree, hwrite, hnext⟩ := hmirrors.writeBatch hwell hadmits
      rw [outcome_insertPool_of_ok store hconflict hwrite hinsert, hinsert]
      exact ⟨rfl, rfl, rfl, hwell.pushAll hadmits, hnext⟩

/-- A store in a directory and its inventory alone agree on every call. -/
theorem agree_represents : Store.Agree (Represents root) where
  findDaily date := agrees_read root (·.findDaily? date)
  insertDaily := agrees_insertDaily root
  findUnused := agrees_read root (·.firstUnused?)
  markUsed := agrees_markUsed root
  insertPool := agrees_insertPool root
  poolEquations := agrees_read root (·.poolEquations)
  countPool := agrees_read root (·.poolCount)
  countUsed := agrees_read root (·.usedCount)
  countDaily := agrees_read root (·.dailyCount)

end Agreement

/-- A vacant root opens as a store of nothing. -/
theorem represents_of_vacant {root : Directory.Root} {tree : FileTree}
    (hvacant : root.Vacant tree) :
    Represents root ⟨⟨root, loadConfig root tree, Inventory.empty⟩, tree⟩ Inventory.empty :=
  ⟨rfl, rfl, Inventory.wellFormed_empty, hvacant.mirrors⟩

end DirectoryStore

end EquationPuzzle
