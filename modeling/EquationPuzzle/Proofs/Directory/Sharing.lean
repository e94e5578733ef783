import EquationPuzzle.Proofs.Directory.Obstruction
import EquationPuzzle.Proofs.Directory.Opening

/-!
# Several handles on one root

Any number of handles may be open on one root.  The files are common to them, but each handle
remembers the records as it has read and changed them, so what it remembers may have been overtaken
by another handle.  That a day has one equation nevertheless does not rest on what is remembered: a
daily record is written as a new file, and no call of any handle ever removes or changes it.

A directory opens without records if a file stands in place of its root or above it.  No call ever
removes this file, so then no equation is inserted at all, and no handle remembers one for any day.
-/

namespace EquationPuzzle

namespace Directory

/-- The record of a day cannot be reached, since something on the way to it is no directory. -/
def Root.unreachable (root : Root) (date : Day) : StoreError :=
  .inaccessible (root.display (root.dailyFile date)) .notADirectory

/-- The files below a root, and the handles that are open on it. -/
structure Shared where
  tree : FileTree
  handles : List Directory

namespace Shared

/-- What may happen next: one more handle is opened, its files being listed in some order, or one
of the handles makes a call. -/
inductive Event where
  | opening (listing : Listing)
  | call (handle : Nat) (call : Store.Call)

/-- A call of a handle, with its reply and what the handle remembered before and after. -/
structure Exchange where
  handle : Nat
  call : Store.Call
  reply : Except StoreError Store.Answer
  before : Inventory
  after : Inventory

/-- What a handle replies, and what it remembers and leaves below the root then. -/
def ask (shared : Shared) (directory : Directory) (call : Store.Call) :
    Except StoreError Store.Answer × DirectoryStore :=
  outcome (Store.answer call) ⟨directory, shared.tree⟩

/-- A handle that cannot be opened is not there, and a call of a handle that is not there does not
happen. -/
def serve (root : Root) (shared : Shared) : Event → Shared
  | .opening listing =>
    match listing.ofTree root shared.tree with
    | .ok directory => { shared with handles := shared.handles ++ [directory] }
    | .error _ => shared
  | .call handle call =>
    match shared.handles[handle]? with
    | none => shared
    | some directory =>
      let store := (shared.ask directory call).2
      ⟨store.tree, shared.handles.set handle store.directory⟩

def exchange? (shared : Shared) : Event → Option Exchange
  | .opening _ => none
  | .call handle call =>
    shared.handles[handle]?.map fun directory =>
      let result := shared.ask directory call
      ⟨handle, call, result.1, directory.inventory, result.2.directory.inventory⟩

def serveAll (root : Root) (shared : Shared) (events : List Event) : Shared :=
  events.foldl (serve root) shared

/-- The calls that are made, one after the other. -/
def exchanges (root : Root) (shared : Shared) : List Event → List Exchange
  | [] => []
  | event :: rest =>
    (shared.exchange? event).toList ++ (shared.serve root event).exchanges root rest

/-- The call is to insert an equation for the day. -/
def Exchange.attempts (exchange : Exchange) (date : Day) : Bool :=
  match exchange.call with
  | .insertDaily daily => daily.date = date
  | _ => false

/-! ## One event -/

section Handle

variable {root : Root} {tree next : FileTree} {directory : Directory}

theorem prefix_daily {ancestor : FilePath} (hancestor : ancestor <+: root.path) :
    ancestor <+: root.daily :=
  hancestor.trans (List.prefix_append _ _)

theorem passable_iff_of_advances (hadvances : root.Advances tree next) :
    next.Passable root.path ↔ tree.Passable root.path := by
  simp only [FileTree.passable_iff_forall_ne_file]
  constructor
  · intro hnext ancestor content hancestor hfile
    exact hnext ancestor content hancestor
      (hadvances.find?_ancestor (prefix_daily hancestor) hfile)
  · intro htree ancestor content hancestor hfile
    exact htree ancestor content hancestor
      (hadvances.file_ancestor (prefix_daily hancestor) hfile)

/-- What is known of a handle, however stale: it is on the root, and it remembers no day if a file
stands in place of the root or above it. -/
structure HandleOn (root : Root) (tree : FileTree) (directory : Directory) : Prop where
  root_eq : directory.root = root
  passable : ∀ date, directory.inventory.findDaily? date ≠ none → tree.Passable root.path

theorem handleOn_of_ofTree {listing : Listing}
    (hopen : listing.ofTree root tree = .ok directory) : HandleOn root tree directory := by
  have houtcome : Outcome root tree (listing.ofTree root tree) :=
    outcome_load (listing.perm _) (listing.perm _)
  rw [hopen] at houtcome
  cases houtcome with
  | opened _ _ hloads =>
      refine ⟨rfl, fun date hknown => ?_⟩
      obtain ⟨daily, hdaily⟩ := Option.ne_none_iff_exists'.mp hknown
      obtain ⟨hstands, _⟩ := (hloads.findDaily?_iff date daily).mp hdaily
      exact (FileTree.passable_concat_iff.mp hstands.passable).1

theorem HandleOn.advances (hhandle : HandleOn root tree directory)
    (hadvances : root.Advances tree next) : HandleOn root next directory :=
  ⟨hhandle.root_eq, fun date hknown =>
    (passable_iff_of_advances hadvances).mpr (hhandle.passable date hknown)⟩

theorem HandleOn.moves {after : DirectoryStore} (hhandle : HandleOn root tree directory)
    (hmoves : DirectoryStore.Moves ⟨directory, tree⟩ after) :
    HandleOn root after.tree after.directory ∧ root.Advances tree after.tree := by
  obtain ⟨rfl, hpassable⟩ := hhandle
  refine ⟨⟨hmoves.root_eq, fun date hknown => ?_⟩, hmoves.advances⟩
  rw [passable_iff_of_advances hmoves.advances]
  rcases hmoves.daily_eq with hway | hsame
  · exact hway
  · exact hpassable date (by rwa [Inventory.findDaily?, hsame] at hknown)

end Handle

def OnRoot (root : Root) (shared : Shared) : Prop :=
  ∀ directory ∈ shared.handles, HandleOn root shared.tree directory

section Step

variable {root : Root} {shared : Shared}

theorem OnRoot.of_getElem? (hroot : shared.OnRoot root) {handle : Nat} {directory : Directory}
    (hhandle : shared.handles[handle]? = some directory) : HandleOn root shared.tree directory :=
  hroot directory (List.mem_of_getElem? hhandle)

theorem serve_call {handle : Nat} {directory : Directory}
    (hhandle : shared.handles[handle]? = some directory) (call : Store.Call) :
    shared.serve root (.call handle call) = ⟨(shared.ask directory call).2.tree,
      shared.handles.set handle (shared.ask directory call).2.directory⟩ := by
  simp [serve, hhandle]

theorem OnRoot.serve (hroot : shared.OnRoot root) (event : Event) :
    (shared.serve root event).OnRoot root ∧
      root.Advances shared.tree (shared.serve root event).tree := by
  cases event with
  | opening listing =>
      unfold Shared.serve
      dsimp only
      split
      · next directory hopen =>
          constructor
          · intro other hother
            rcases List.mem_append.mp hother with hknown | hnew
            · exact hroot other hknown
            · rw [List.mem_singleton.mp hnew]
              exact handleOn_of_ofTree hopen
          · exact .refl root shared.tree
      · exact ⟨hroot, .refl root shared.tree⟩
  | call handle call =>
      cases hhandle : shared.handles[handle]? with
      | none =>
          have hsame : shared.serve root (.call handle call) = shared := by
            simp [Shared.serve, hhandle]
          rw [hsame]
          exact ⟨hroot, .refl root shared.tree⟩
      | some directory =>
          have hmoves := DirectoryStore.moves_answer ⟨directory, shared.tree⟩ call
          obtain ⟨hmoved, hadvances⟩ := (hroot.of_getElem? hhandle).moves hmoves
          rw [serve_call hhandle]
          constructor
          · intro other hother
            rcases List.mem_or_eq_of_mem_set hother with hknown | hnew
            · exact (hroot other hknown).advances hadvances
            · rw [hnew]
              exact hmoved
          · exact hadvances

/-- The record of a daily equation stands in its file. -/
structure Recorded (root : Root) (tree : FileTree) (daily : DailyEquation) : Prop where
  grounded : tree.Grounded root.daily
  file : tree.find? (root.dailyFile daily.date) = some (.file (.text daily.recordText))

theorem Recorded.advances {tree next : FileTree} {daily : DailyEquation}
    (hrecorded : Recorded root tree daily) (hadvances : root.Advances tree next) :
    Recorded root next daily :=
  ⟨hadvances.grounded_daily hrecorded.grounded, hadvances.find?_dailyFile hrecorded.file⟩

/-- An attempt is refused for its day, or a file stands at the root or on the way to it, or the
equation is inserted and its record is a new file. -/
inductive Attempt (root : Root) (date : Day) (tree next : FileTree) (exchange : Exchange) : Prop
  | refused (reply_eq : exchange.reply = .error (.duplicateDate date))
      (after_eq : exchange.after = exchange.before) (passable : tree.Passable root.path)
  | hindered (reply_eq : exchange.reply = .error (root.unreachable date))
      (after_eq : exchange.after = exchange.before) (not_passable : ¬tree.Passable root.path)
  | inserted (daily : DailyEquation) (call_eq : exchange.call = .insertDaily daily)
      (date_eq : daily.date = date) (reply_eq : exchange.reply = .ok .done)
      (passable : tree.Passable root.path) (new : tree.find? (root.dailyFile date) = none)
      (recorded : Recorded root next daily)

section Attempt

variable {date : Day} {tree next : FileTree} {exchange : Exchange}

theorem Attempt.of_isOk (hattempt : Attempt root date tree next exchange)
    (hok : exchange.reply.isOk) :
    tree.Passable root.path ∧ tree.find? (root.dailyFile date) = none ∧
      ∃ daily, exchange.call = .insertDaily daily ∧ daily.date = date ∧
        Recorded root next daily := by
  cases hattempt with
  | refused reply_eq _ _ => simp [reply_eq, Except.isOk, Except.toBool] at hok
  | hindered reply_eq _ _ => simp [reply_eq, Except.isOk, Except.toBool] at hok
  | inserted daily call_eq date_eq _ passable new recorded =>
      exact ⟨passable, new, daily, call_eq, date_eq, recorded⟩

theorem Attempt.of_not_isOk (hattempt : Attempt root date tree next exchange)
    (hfailed : exchange.reply.isOk = false) :
    exchange.after = exchange.before ∧
      (tree.Passable root.path → exchange.reply = .error (.duplicateDate date)) ∧
      (¬tree.Passable root.path → exchange.reply = .error (root.unreachable date)) := by
  cases hattempt with
  | refused reply_eq after_eq passable =>
      exact ⟨after_eq, fun _ => reply_eq, fun hway => absurd passable hway⟩
  | hindered reply_eq after_eq not_passable =>
      exact ⟨after_eq, fun hpassable => absurd hpassable not_passable, fun _ => reply_eq⟩
  | inserted _ _ _ reply_eq _ _ _ => simp [reply_eq, Except.isOk, Except.toBool] at hfailed

end Attempt

theorem ask_insertDaily (shared : Shared) (directory : Directory) (daily : DailyEquation) :
    let result := outcome (Store.insertDaily daily) (⟨directory, shared.tree⟩ : DirectoryStore)
    shared.ask directory (.insertDaily daily) = (result.1.map fun _ => .done, result.2) :=
  outcome_map _ _ _

theorem attempt_ask {directory : Directory} (hhandle : HandleOn root shared.tree directory)
    (handle : Nat) (daily : DailyEquation) :
    Attempt root daily.date shared.tree (shared.ask directory (.insertDaily daily)).2.tree
      ⟨handle, .insertDaily daily, (shared.ask directory (.insertDaily daily)).1,
        directory.inventory,
        (shared.ask directory (.insertDaily daily)).2.directory.inventory⟩ := by
  obtain ⟨rfl, hremembers⟩ := hhandle
  have hask := ask_insertDaily shared directory daily
  rcases DirectoryStore.insertDaily_cases ⟨directory, shared.tree⟩ daily with
    ⟨hknown, hresult⟩ | ⟨_, ⟨fault, tree, hwrite, hresult⟩ | ⟨tree, hwrite, hresult⟩⟩
  · rw [hask, hresult]
    exact .refused rfl rfl (hremembers _ hknown)
  · rw [hask, hresult]
    rcases FileTree.writeRecord_error_cases hwrite with ⟨hfault, hthere⟩ | ⟨hfault, hway⟩
    · subst fault
      have hoccupied : DirectoryStore.Occupied ⟨directory, shared.tree⟩ daily.date := hthere
      exact .refused rfl rfl hoccupied.passable
    · subst fault
      exact .hindered rfl rfl hway
  · rw [hask, hresult]
    have hadds := adds_of_writeRecord hwrite
    have hpassable := FileTree.passable_of_writeRecord hwrite
    refine .inserted daily rfl rfl rfl ?_ ?_ ?_
    · exact fun ancestor hancestor => hpassable ancestor (prefix_daily hancestor)
    · exact hadds.new _ (List.mem_singleton_self _)
    · constructor
      · exact hadds.grounded (by simp)
      · exact (gains_of_writeRecord hwrite _ _).mpr ((if_pos rfl).mpr rfl)

theorem OnRoot.attempt (hroot : shared.OnRoot root) {event : Event} {exchange : Exchange}
    (hexchange : shared.exchange? event = some exchange) {date : Day}
    (hattempts : exchange.attempts date) :
    Attempt root date shared.tree (shared.serve root event).tree exchange := by
  cases event with
  | opening listing => simp [exchange?] at hexchange
  | call handle call =>
      obtain ⟨directory, hhandle, hsame⟩ := Option.map_eq_some_iff.mp hexchange
      subst exchange
      rw [serve_call hhandle]
      cases call with
      | insertDaily daily =>
          have hdate : daily.date = date := by simpa [Exchange.attempts] using hattempts
          subst date
          exact attempt_ask (hroot.of_getElem? hhandle) handle daily
      | _ => simp [Exchange.attempts] at hattempts

end Step

/-! ## Any number of events -/

section Run

variable {root : Root} {shared : Shared}

theorem serveAll_append (events more : List Event) :
    shared.serveAll root (events ++ more) = (shared.serveAll root events).serveAll root more :=
  List.foldl_append

theorem OnRoot.serveAll (hroot : shared.OnRoot root) (events : List Event) :
    (shared.serveAll root events).OnRoot root ∧
      root.Advances shared.tree (shared.serveAll root events).tree := by
  -- The invariant does not say that a handle knows of the records, so it may be stale.
  induction events generalizing shared with
  | nil => exact ⟨hroot, .refl root shared.tree⟩
  | cons event rest ih =>
      obtain ⟨hnext, hadvances⟩ := hroot.serve event
      obtain ⟨hlast, hrest⟩ := ih hnext
      exact ⟨hlast, hadvances.trans hrest⟩

theorem exists_of_mem_exchanges {events : List Event} {exchange : Exchange}
    (hmem : exchange ∈ shared.exchanges root events) :
    ∃ before event after, events = before ++ event :: after ∧
      (shared.serveAll root before).exchange? event = some exchange := by
  induction events generalizing shared with
  | nil => simp [exchanges] at hmem
  | cons event rest ih =>
      rcases List.mem_append.mp hmem with hnow | hlater
      · exact ⟨[], event, rest, rfl, Option.mem_toList.mp hnow⟩
      · obtain ⟨before, other, after, hrest, hexchange⟩ := ih hlater
        exact ⟨event :: before, other, after, by rw [hrest, List.cons_append], hexchange⟩

/-- How an attempt among many went, between the files there were first and those in the end. -/
theorem OnRoot.exists_attempt (hroot : shared.OnRoot root) {events : List Event}
    {exchange : Exchange} (hmem : exchange ∈ shared.exchanges root events) {date : Day}
    (hattempts : exchange.attempts date) :
    ∃ tree next, root.Advances shared.tree tree ∧ Attempt root date tree next exchange ∧
      root.Advances next (shared.serveAll root events).tree := by
  obtain ⟨before, event, after, hevents, hexchange⟩ := exists_of_mem_exchanges hmem
  obtain ⟨hbefore, hadvances⟩ := hroot.serveAll before
  obtain ⟨hnext, _⟩ := hbefore.serve event
  obtain ⟨_, hrest⟩ := hnext.serveAll after
  subst events
  rw [serveAll_append]
  exact ⟨_, _, hadvances, hbefore.attempt hexchange hattempts, hrest⟩

/-- Once the record of a day is written, no attempt for that day succeeds. -/
theorem OnRoot.not_isOk_of_recorded (hroot : shared.OnRoot root) {daily : DailyEquation}
    (hrecorded : Recorded root shared.tree daily) {events : List Event} {exchange : Exchange}
    (hmem : exchange ∈ shared.exchanges root events) (hattempts : exchange.attempts daily.date) :
    ¬exchange.reply.isOk := by
  intro hok
  obtain ⟨tree, next, hadvances, hattempt, _⟩ := hroot.exists_attempt hmem hattempts
  have hfile := (hrecorded.advances hadvances).file
  rw [(hattempt.of_isOk hok).2.1] at hfile
  contradiction

theorem OnRoot.countP_isOk_le_one (hroot : shared.OnRoot root) (events : List Event) (date : Day) :
    ((shared.exchanges root events).filter (·.attempts date)).countP (·.reply.isOk) ≤ 1 := by
  induction events generalizing shared with
  | nil => simp [exchanges]
  | cons event rest ih =>
      obtain ⟨hnext, _⟩ := hroot.serve event
      have hrest := ih hnext
      rw [exchanges, List.filter_append, List.countP_append]
      cases hexchange : shared.exchange? event with
      | none => simpa using hrest
      | some exchange =>
          by_cases hok : exchange.attempts date ∧ exchange.reply.isOk
          · -- The record is written now, and keeps all later attempts from succeeding.
            have hnone : (((shared.serve root event).exchanges root rest).filter
                (·.attempts date)).countP (·.reply.isOk) = 0 := by
              rw [List.countP_eq_zero]
              intro other hother
              obtain ⟨hmem, hattempts⟩ := List.mem_filter.mp hother
              obtain ⟨_, _, daily, _, hdate, hrecorded⟩ :=
                (hroot.attempt hexchange hok.1).of_isOk hok.2
              subst date
              exact hnext.not_isOk_of_recorded hrecorded hmem hattempts
            simp [hnone, hok.1, hok.2]
          · have hhead : ((some exchange).toList.filter (·.attempts date)).countP
                (·.reply.isOk) = 0 := by
              rw [List.countP_eq_zero]
              intro other hother
              obtain ⟨hmem, hattempts⟩ := List.mem_filter.mp hother
              have hsame : other = exchange := by simpa using hmem
              subst other
              exact fun hreply => hok ⟨hattempts, hreply⟩
            rwa [hhead, Nat.zero_add]

/-- Whatever handles are opened on a root, at any times, and whatever calls they make: at most one
of them inserts an equation for a day.  An attempt that fails leaves what its handle remembers as it
was, and is refused for the day, unless a file stands in place of the root or above it: then no
attempt succeeds, since the record is unreachable.  The file of the equation that is inserted has
its record from then on. -/
theorem exchanges_insertDaily (root : Root) (tree : FileTree) (events : List Event) (date : Day) :
    let shared : Shared := ⟨tree, []⟩
    let attempts := (shared.exchanges root events).filter (·.attempts date)
    attempts.countP (·.reply.isOk) ≤ 1 ∧
      (∀ attempt ∈ attempts, attempt.reply.isOk = false → attempt.after = attempt.before ∧
        (tree.Passable root.path → attempt.reply = .error (.duplicateDate date)) ∧
        (¬tree.Passable root.path → attempt.reply = .error (root.unreachable date))) ∧
      (∀ attempt ∈ attempts, attempt.reply.isOk → tree.Passable root.path ∧
        ∃ daily, attempt.call = .insertDaily daily ∧
          ∀ more, (shared.serveAll root (events ++ more)).tree.find? (root.dailyFile date) =
            some (.file (.text daily.recordText))) := by
  intro shared attempts
  have hroot : shared.OnRoot root := by simp [OnRoot, shared]
  have hattempt : ∀ attempt ∈ attempts, ∃ before after, root.Advances tree before ∧
      Attempt root date before after attempt ∧
        root.Advances after (shared.serveAll root events).tree := by
    intro attempt hmem
    obtain ⟨hmem, hdate⟩ := List.mem_filter.mp hmem
    exact hroot.exists_attempt hmem hdate
  refine ⟨hroot.countP_isOk_le_one events date, ?_, ?_⟩
  · intro attempt hmem hfailed
    obtain ⟨before, after, hbefore, hcase, _⟩ := hattempt attempt hmem
    have hcauses := hcase.of_not_isOk hfailed
    rwa [passable_iff_of_advances hbefore] at hcauses
  · intro attempt hmem hok
    obtain ⟨before, after, hbefore, hcase, hafter⟩ := hattempt attempt hmem
    obtain ⟨hpassable, _, daily, hcall, hdate, hrecorded⟩ := hcase.of_isOk hok
    subst date
    refine ⟨(passable_iff_of_advances hbefore).mp hpassable, daily, hcall, fun more => ?_⟩
    have hmore := ((hroot.serveAll events).1.serveAll more).2
    rw [serveAll_append]
    exact ((hrecorded.advances hafter).advances hmore).file

end Run

/-! ## Two handles -/

/-- Two handles are opened, and each of them inserts an equation. -/
def opensTwo (daily other : DailyEquation) : List Event :=
  [.opening ⟨id, .refl⟩, .opening ⟨id, .refl⟩, .call 0 (.insertDaily daily),
    .call 1 (.insertDaily other)]

section Two

variable {root : Root} {directory : Directory} {tree : FileTree} {daily other : DailyEquation}

theorem serve_opening {shared : Shared} (hopen : ofTree root shared.tree = .ok directory) :
    shared.serve root (.opening ⟨id, .refl⟩) =
      { shared with handles := shared.handles ++ [directory] } := by
  have hlisted : Listing.ofTree ⟨id, .refl⟩ root shared.tree = .ok directory := hopen
  simp only [serve, hlisted]

theorem exchanges_opensTwo (hopen : ofTree root tree = .ok directory) :
    let first := (⟨tree, []⟩ : Shared).ask directory (.insertDaily daily)
    let second := (⟨first.2.tree, []⟩ : Shared).ask directory (.insertDaily other)
    (⟨tree, []⟩ : Shared).exchanges root (opensTwo daily other) =
      [⟨0, .insertDaily daily, first.1, directory.inventory, first.2.directory.inventory⟩,
        ⟨1, .insertDaily other, second.1, directory.inventory,
          second.2.directory.inventory⟩] := by
  have hfirst : (⟨tree, []⟩ : Shared).serve root (.opening ⟨id, .refl⟩) = ⟨tree, [directory]⟩ :=
    serve_opening hopen
  have hsecond : (⟨tree, [directory]⟩ : Shared).serve root (.opening ⟨id, .refl⟩) =
      ⟨tree, [directory, directory]⟩ :=
    serve_opening hopen
  simp only [opensTwo, exchanges, hfirst, hsecond]
  rfl

section Empty

variable {config : Config}

theorem ask_of_free (hfree : DirectoryStore.Free ⟨⟨root, config, .empty⟩, tree⟩ daily.date) :
    ((⟨tree, []⟩ : Shared).ask ⟨root, config, .empty⟩ (.insertDaily daily)).1 = .ok .done := by
  rw [ask_insertDaily]
  rcases DirectoryStore.insertDaily_answer_cases ⟨⟨root, config, .empty⟩, tree⟩ daily with
    ⟨hanswer, _⟩ | ⟨_, hknown | hoccupied⟩ | ⟨_, _, hway⟩
  · rw [hanswer]
    rfl
  · exact absurd (Inventory.findDaily?_empty _) hknown
  · exact absurd hfree hoccupied.not_free
  · exact absurd hfree.passable hway

theorem ask_of_not_passable (hway : ¬tree.Passable root.path) :
    ((⟨tree, []⟩ : Shared).ask ⟨root, config, .empty⟩ (.insertDaily daily)).1 =
      .error (root.unreachable daily.date) := by
  rw [ask_insertDaily]
  rcases DirectoryStore.insertDaily_answer_cases ⟨⟨root, config, .empty⟩, tree⟩ daily with
    ⟨_, _, hfree⟩ | ⟨_, hknown | hoccupied⟩ | ⟨hanswer, _⟩
  · exact absurd hfree.passable hway
  · exact absurd (Inventory.findDaily?_empty _) hknown
  · exact absurd hoccupied.passable hway
  · rw [hanswer]
    rfl

/-- The first attempt makes nothing that takes the file out of the way of the second one. -/
theorem replies_opensTwo_of_not_passable
    (hopen : ofTree root tree = .ok ⟨root, config, .empty⟩) (hway : ¬tree.Passable root.path) :
    (((⟨tree, []⟩ : Shared).exchanges root (opensTwo daily daily)).filter
        (·.attempts daily.date)).map (·.reply) =
      [.error (root.unreachable daily.date), .error (root.unreachable daily.date)] := by
  have hmoves := DirectoryStore.moves_answer ⟨⟨root, config, .empty⟩, tree⟩ (.insertDaily daily)
  have hstill := (passable_iff_of_advances hmoves.advances).not.mpr hway
  have hattempts : ∀ handle reply before after,
      (⟨handle, .insertDaily daily, reply, before, after⟩ : Exchange).attempts daily.date := by
    simp [Exchange.attempts]
  rw [exchanges_opensTwo hopen]
  simp only [List.filter_cons, List.filter_nil, hattempts, if_true, List.map_cons, List.map_nil]
  rw [ask_of_not_passable hway]
  exact congrArg (fun reply => [_, reply]) (ask_of_not_passable hstill)

end Empty

end Two

/-- Two handles on an empty directory insert an equation for the same day.  The second one does not
know of the first, but finds its record. -/
theorem exchanges_insertDaily_two_handles :
    let root : Root := ⟨"records", ["records"]⟩
    let daily : DailyEquation := {
      id := ⟨5⟩
      date := ⟨2026, 7, 1, by decide⟩
      equation := ⟨#v[.digit 1, .digit 5, .operator .multiply, .digit 4, .operator .add, .digit 6],
        66, by decide, by decide +kernel⟩
      targetNumber := 66
      difficulty := .hard
      created := ⟨⟨2026, 6, 30, by decide⟩, 25200, 0, by decide, by decide⟩ }
    let other : DailyEquation := { daily with id := ⟨6⟩ }
    let shared : Shared := ⟨FileTree.empty, []⟩
    ∃ first second,
      (shared.exchanges root (opensTwo daily other)).filter (·.attempts daily.date) =
          [first, second] ∧
        first.reply = .ok .done ∧ second.reply = .error (.duplicateDate daily.date) ∧
        second.after = second.before ∧
        (shared.serveAll root (opensTwo daily other)).tree.find? (root.dailyFile daily.date) =
          some (.file (.text daily.recordText)) := by
  intro root daily other shared
  have hopen : ofTree root shared.tree = .ok ⟨root, loadConfig root shared.tree, .empty⟩ :=
    root.vacant_empty.ofTree_eq
  have hfree : DirectoryStore.Free ⟨⟨root, loadConfig root shared.tree, .empty⟩, shared.tree⟩
      daily.date :=
    ⟨FileTree.passable_empty _, FileTree.find?_empty (by simp [Root.dailyFile])⟩
  obtain ⟨first, second, hattempts, hcall, hfirst⟩ : ∃ first second : Exchange,
      (shared.exchanges root (opensTwo daily other)).filter (·.attempts daily.date) =
          [first, second] ∧
        first.call = .insertDaily daily ∧ first.reply = .ok .done := by
    rw [exchanges_opensTwo hopen]
    exact ⟨_, _, rfl, rfl, ask_of_free hfree⟩
  obtain ⟨hone, hfailed, hinserted⟩ :=
    exchanges_insertDaily root shared.tree (opensTwo daily other) daily.date
  rw [hattempts] at hone hfailed hinserted
  have hok : first.reply.isOk = true := by rw [hfirst]; rfl
  have hsecond : second.reply.isOk = false := by
    simpa [hok] using hone
  obtain ⟨hafter, hrefused, _⟩ := hfailed second (by simp) hsecond
  obtain ⟨_, written, hwritten, hfile⟩ := hinserted first (by simp) hok
  have hsame : written = daily := by simpa [hcall] using hwritten.symm
  subst written
  exact ⟨first, second, hattempts, hfirst, hrefused (FileTree.passable_empty _), hafter,
    by simpa using hfile []⟩

/-- With a file in place of its root a directory opens, but neither of two handles can insert an
equation, and their attempts are not refused for the day. -/
theorem exchanges_insertDaily_file_at_root :
    let root : Root := ⟨"records", ["records"]⟩
    let tree := FileTree.empty.put root.path (.file (.text ""))
    let daily : DailyEquation := {
      id := ⟨7⟩
      date := ⟨2026, 8, 2, by decide⟩
      equation := ⟨#v[.digit 6, .digit 0, .operator .divide, .digit 4, .operator .add, .digit 9],
        24, by decide, by decide +kernel⟩
      targetNumber := 24
      difficulty := .hard
      created := ⟨⟨2026, 6, 29, by decide⟩, 28800, 0, by decide, by decide⟩ }
    let attempts := ((⟨tree, []⟩ : Shared).exchanges root (opensTwo daily daily)).filter
      (·.attempts daily.date)
    (∃ directory, ofTree root tree = .ok directory) ∧ attempts.length = 2 ∧
      ∀ attempt ∈ attempts, attempt.reply ≠ .error (.duplicateDate daily.date) ∧
        attempt.reply =
          .error (.inaccessible "records/daily/2026-08-02.yaml" .notADirectory) := by
  intro root tree daily attempts
  have hroot : root.path ≠ [] := by simp [root]
  have hother : ∀ path ≠ root.path, ∀ content, tree.find? path ≠ some (.file content) := by
    intro path hpath
    rw [FileTree.find?_put hroot, if_neg hpath]
    exact FileTree.fileless_empty path
  have hway : ¬tree.Passable root.path := by
    intro hpassable
    refine FileTree.passable_iff_forall_ne_file.mp hpassable root.path (.text "")
      (List.prefix_refl _) ?_
    rw [FileTree.find?_put hroot, if_pos rfl]
  have hopen : ofTree root tree = .ok ⟨root, loadConfig root tree, .empty⟩ :=
    ofTree_eq_of_forall_ne_file (fun name => hother _ (by simp [Root.pool]))
      (fun name => hother _ (by simp [Root.daily]))
  have hunreachable : root.unreachable daily.date =
      .inaccessible "records/daily/2026-08-02.yaml" .notADirectory := by
    decide +kernel
  have hreplies : attempts.map (·.reply) =
      [.error (root.unreachable daily.date), .error (root.unreachable daily.date)] :=
    replies_opensTwo_of_not_passable hopen hway
  clear_value attempts
  refine ⟨⟨_, hopen⟩, by simpa using congrArg List.length hreplies, ?_⟩
  intro attempt hmem
  have hreply : attempt.reply = .error (root.unreachable daily.date) := by
    have hmem := List.mem_map_of_mem (f := (·.reply)) hmem
    rw [hreplies] at hmem
    simpa using hmem
  rw [hreply, hunreachable]
  exact ⟨by simp, rfl⟩

end Shared

end Directory

end EquationPuzzle
