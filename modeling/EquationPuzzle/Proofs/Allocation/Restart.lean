import EquationPuzzle.Proofs.Allocation.Effect
import EquationPuzzle.Proofs.Directory.Reopening

/-!
# Equations survive restarts

Requests to allocators over a directory may alternate with closing it and opening it anew.  Whatever
the requests leave on record can be read back, because all of it was made from generated puzzles at
times that a clock showed.  So no opening fails, and a day keeps the equation that it was once
given.
-/

namespace EquationPuzzle

def Supply.Timely (supply : Supply) : Prop :=
  ∀ number, (supply.moment number).Proper

theorem PoolEntry.Made.readable {moment : Nat → Timestamp}
    (hmoment : ∀ number, (moment number).Proper) {used : Bool} {entry : PoolEntry}
    (hmade : entry.Made moment used) : entry.Readable := by
  obtain ⟨id, number, puzzle, hfits, rfl⟩ := hmade
  exact ⟨hfits.target_eq, hmoment number⟩

namespace Inventory

variable {moment : Nat → Timestamp} {inventory next : Inventory}

theorem readable_empty : empty.Readable := by
  constructor <;> simp [empty, findDaily?]

theorem Readable.sameRecords (hreadable : inventory.Readable)
    (hsame : inventory.SameRecords next) : next.Readable where
  entry entry hentry := hreadable.entry entry ((hsame.mem_pool_iff entry).mp hentry)
  daily date daily hdaily := hreadable.daily date daily (hsame.findDaily?_eq date ▸ hdaily)

theorem Readable.step (hreadable : inventory.Readable)
    (hmoment : ∀ number, (moment number).Proper) (hstep : Step moment inventory next) :
    next.Readable := by
  cases hstep with
  | idle => exact hreadable
  | fill hfills =>
      refine ⟨fun entry hentry => ?_, ?_⟩
      · rcases hfills.mem_pool.2 entry hentry with hknown | hmade
        · exact hreadable.entry entry hknown
        · exact hmade.readable hmoment
      · rw [hfills.findDaily?_eq]
        exact hreadable.daily
  | @assign date daily _ hassigns =>
      have hfind := hassigns.findDaily?_eq
      obtain ⟨id, number, hnew, htakes⟩ := hassigns
      rename_i entry taken
      obtain ⟨hentry, hpool⟩ := htakes.forall_pool
        (fun known hknown => ⟨hknown.target_eq, hknown.created_proper⟩)
        (fun known hmade => hmade.readable hmoment) hreadable.entry
      refine ⟨hpool, fun other known hknown => ?_⟩
      rw [hfind] at hknown
      by_cases hdate : date = other
      · rw [if_pos hdate, Option.some.injEq] at hknown
        rw [← hknown]
        exact ⟨hentry.target_eq, hmoment number⟩
      · rw [if_neg hdate] at hknown
        exact hreadable.daily other known hknown

end Inventory

/-! ## Sessions over a directory -/

namespace Session

/-- The session as it would be with a store in memory. -/
def inMemory (session : Session DirectoryStore) : Session Inventory :=
  { store := session.store.directory.inventory, supply := session.supply
    progress := session.progress }

/-- The records in memory and those in the files are the same, and all can be read back. -/
structure Intact (root : Directory.Root) (session : Session DirectoryStore) : Prop where
  represents : session.store.Represents root session.store.directory.inventory
  readable : session.store.directory.inventory.Readable
  timely : session.supply.Timely

/-- The session is intact, and each day has kept the equation that it had. -/
structure Continues (root : Directory.Root) (session next : Session DirectoryStore) : Prop where
  intact : next.Intact root
  findDaily?_eq_some : ∀ date daily,
    session.store.directory.inventory.findDaily? date = some daily →
      next.store.directory.inventory.findDaily? date = some daily

variable {root : Directory.Root} {session : Session DirectoryStore}

theorem Intact.related (hintact : session.Intact root) :
    Related (DirectoryStore.Represents root) session session.inMemory :=
  ⟨hintact.represents, rfl, rfl⟩

end Session

namespace Allocator

open Directory (Listing LoadError)

section Requests

variable {root : Directory.Root} {session : Session DirectoryStore} (hintact : session.Intact root)
  (allocator : Allocator)

include hintact

/-- A request over a directory does what it does over its inventory in memory. -/
theorem continues_serve (request : Request) :
    session.Continues root (outcome (allocator.serve request) session).2 := by
  have hwell : session.inMemory.store.WellFormed := hintact.represents.wellFormed
  obtain ⟨hstep, hmoment⟩ := advances_serve hwell allocator request
  obtain ⟨-, hstore, hsupply, -⟩ := agrees_serve (DirectoryStore.agree_represents root) allocator
    request session session.inMemory hintact.related
  rw [← hstore.inventory_eq] at hstep hstore
  rw [← hsupply] at hmoment
  refine ⟨⟨hstore, hintact.readable.step hintact.timely hstep, fun number => ?_⟩,
    fun date daily => hstep.findDaily?_eq_some⟩
  rw [hmoment]
  exact hintact.timely number

theorem continues_resolve (date : Day) :
    session.Continues root (outcome (allocator.resolve date) session).2 := by
  have hserve := continues_serve hintact allocator (.resolve date)
  rwa [serve, outcome_map] at hserve

theorem outcome_resolve_eq (date : Day) :
    (outcome (allocator.resolve date) session).1 =
        (outcome (allocator.resolve date) session.inMemory).1 ∧
      (outcome (allocator.resolve date) session).2.store.directory.inventory =
        (outcome (allocator.resolve date) session.inMemory).2.store := by
  obtain ⟨hanswer, hnext⟩ := agrees_resolve (DirectoryStore.agree_represents root) allocator date
    session session.inMemory hintact.related
  exact ⟨hanswer, hnext.store.inventory_eq⟩

theorem outcome_resolve_of_findDaily? {date : Day} {daily : DailyEquation}
    (hdaily : session.store.directory.inventory.findDaily? date = some daily) :
    (outcome (allocator.resolve date) session).1 = .ok daily := by
  rw [(outcome_resolve_eq hintact allocator date).1]
  exact congrArg Prod.fst (outcome_resolve_of_some allocator hdaily)

theorem findDaily?_of_outcome_resolve {date : Day} {daily : DailyEquation}
    (hanswer : (outcome (allocator.resolve date) session).1 = .ok daily) :
    (outcome (allocator.resolve date) session).2.store.directory.inventory.findDaily? date =
      some daily := by
  obtain ⟨hsame, hnext⟩ := outcome_resolve_eq hintact allocator date
  have hwell : session.inMemory.store.WellFormed := hintact.represents.wellFormed
  have hresolves := yields_resolve hwell allocator date
  rw [Yields, ← hsame, hanswer] at hresolves
  rw [hnext]
  rcases hresolves with ⟨hdaily, hidle⟩ | ⟨hassigns, -⟩
  · rw [hidle.store_eq, hdaily]
  · rw [hassigns.findDaily?_eq, if_pos rfl]

end Requests

/-! ## Runs -/

/-- What may happen to a directory: a request, or that it is closed and opened anew, after which
records are made from another supply. -/
inductive Event
  | request (allocator : Allocator) (request : Request)
  | reopen (listing : Listing) (supply : Supply)

def Event.Timely : Event → Prop
  | .request _ _ => True
  | .reopen _ supply => supply.Timely

def proceed (session : Session DirectoryStore) : Event → Except LoadError (Session DirectoryStore)
  | .request allocator request => .ok (outcome (allocator.serve request) session).2
  | .reopen listing supply => do
    return { session with store := ← session.store.reopen listing, supply }

def run (events : List Event) (session : Session DirectoryStore) :
    Except LoadError (Session DirectoryStore) :=
  events.foldlM proceed session

section Runs

variable {root : Directory.Root} {session : Session DirectoryStore}

/-- A directory that is intact can be opened anew, and has the same records then. -/
theorem reopen_eq_ok (hintact : session.Intact root) (listing : Listing) :
    ∃ next, session.store.reopen listing = .ok next ∧ session.store.Same next ∧
      next.Represents root next.directory.inventory ∧
      session.store.directory.inventory.SameRecords next.directory.inventory := by
  obtain ⟨next, known, hopen, hnext, hsame⟩ :=
    hintact.represents.reopen hintact.readable listing
  obtain rfl := hnext.inventory_eq
  exact ⟨next, hopen, hintact.represents.same hnext hsame, hnext, hsame⟩

theorem continues_proceed (hintact : session.Intact root) {event : Event}
    (htimely : event.Timely) :
    ∃ next, proceed session event = .ok next ∧ session.Continues root next := by
  cases event with
  | request allocator request => exact ⟨_, rfl, continues_serve hintact allocator request⟩
  | reopen listing supply =>
      obtain ⟨next, hopen, -, hnext, hsame⟩ := reopen_eq_ok hintact listing
      refine ⟨{ session with store := next, supply }, ?_, ⟨hnext, ?_, htimely⟩, ?_⟩
      · rw [proceed, hopen]
        rfl
      · exact hintact.readable.sameRecords hsame
      · intro date daily hdaily
        rw [← hdaily]
        exact hsame.findDaily?_eq date

/-- Whatever happens, the directory stays intact and can be opened. -/
theorem continues_run (hintact : session.Intact root) {events : List Event}
    (htimely : ∀ event ∈ events, event.Timely) :
    ∃ next, run events session = .ok next ∧ session.Continues root next := by
  induction events generalizing session with
  | nil => exact ⟨session, rfl, hintact, fun _ _ hdaily => hdaily⟩
  | cons event rest ih =>
      rw [List.forall_mem_cons] at htimely
      obtain ⟨middle, hfirst, hmiddle⟩ := continues_proceed hintact htimely.1
      obtain ⟨next, hrest, hnext⟩ := ih hmiddle.intact htimely.2
      refine ⟨next, ?_, hnext.intact, fun date daily hdaily => ?_⟩
      · rw [run, List.foldlM_cons, hfirst]
        exact hrest
      · exact hnext.findDaily?_eq_some date daily (hmiddle.findDaily?_eq_some date daily hdaily)

/-- On a vacant root, whatever is asked of allocators and however often the directory is closed and
opened again, every opening succeeds and finds the same equation for every day, the same pool and
the same statistics.  What a day is once answered it is answered ever after. -/
theorem run_vacant_continues {tree : FileTree} (hvacant : root.Vacant tree) {supply : Supply}
    (hsupply : supply.Timely) {events : List Event} (htimely : ∀ event ∈ events, event.Timely) :
    ∃ directory, Directory.ofTree root tree = .ok directory ∧
      ∃ reached, run events { store := ⟨directory, tree⟩, supply } = .ok reached ∧
        (∀ listing, ∃ next, reached.store.reopen listing = .ok next ∧ reached.store.Same next) ∧
        ∀ allocator date daily, (outcome (resolve allocator date) reached).1 = .ok daily →
          ∀ later : List Event, (∀ event ∈ later, event.Timely) →
            ∃ last, run later (outcome (resolve allocator date) reached).2 = .ok last ∧
              ∀ allocator, (outcome (resolve allocator date) last).1 = .ok daily := by
  refine ⟨_, hvacant.ofTree_eq, ?_⟩
  have hintact : Session.Intact root
      { store := ⟨⟨root, Directory.loadConfig root tree, Inventory.empty⟩, tree⟩, supply } :=
    ⟨DirectoryStore.represents_of_vacant hvacant, Inventory.readable_empty, hsupply⟩
  obtain ⟨reached, hreached, hcontinues⟩ := continues_run hintact htimely
  refine ⟨reached, hreached, fun listing => ?_, fun allocator date daily hanswer later hlater => ?_⟩
  · obtain ⟨next, hopen, hsame, -⟩ := reopen_eq_ok hcontinues.intact listing
    exact ⟨next, hopen, hsame⟩
  · have hdaily := findDaily?_of_outcome_resolve hcontinues.intact allocator hanswer
    have hresolved := continues_resolve hcontinues.intact allocator date
    obtain ⟨last, hlast, hkept⟩ := continues_run hresolved.intact hlater
    exact ⟨last, hlast, fun allocator => outcome_resolve_of_findDaily? hkept.intact allocator
      (hkept.findDaily?_eq_some date daily hdaily)⟩

/-- A store that is made beside another file in a leap second.  It is opened again twice, the second
time with its files listed backwards and by a program that draws the same identifiers. -/
theorem run_beside_continues :
    let root : Directory.Root := ⟨"home/store", ["home", "store"]⟩
    let tree := (FileTree.empty.put ["home"] .directory).put ["home", "notes"] (.file (.text ""))
    let first : Day := ⟨-1, 2, 28, by decide⟩
    let last : Day := ⟨0, 3, 1, by decide⟩
    let supply := Supply.seeded 1 2 ⟨first, 86399, 1000000000, by decide, by decide⟩
    let allocator : Allocator := ⟨⟨1000⟩, 8⟩
    let events : List Event := [.request allocator (.pregenerate first last),
      .request allocator (.resolve last), .reopen ⟨id, fun _ => .refl _⟩ supply,
      .request allocator (.resolve first), .reopen ⟨List.reverse, List.reverse_perm⟩ supply,
      .request ⟨⟨0⟩, 0⟩ (.resolve last), .request ⟨⟨0⟩, 0⟩ .practice]
    root.Vacant tree ∧ supply.Timely ∧ (∀ event ∈ events, event.Timely) ∧
      ∃ directory, Directory.ofTree root tree = .ok directory ∧
        ∃ reached, run events { store := ⟨directory, tree⟩, supply } = .ok reached ∧
          (∀ listing, ∃ next, reached.store.reopen listing = .ok next ∧ reached.store.Same next) ∧
          ∀ allocator date daily, (outcome (resolve allocator date) reached).1 = .ok daily →
            ∀ later : List Event, (∀ event ∈ later, event.Timely) →
              ∃ last, run later (outcome (resolve allocator date) reached).2 = .ok last ∧
                ∀ allocator, (outcome (resolve allocator date) last).1 = .ok daily := by
  intro root tree first last supply allocator events
  have hvacant : root.Vacant tree := Directory.Root.vacant_beside (by decide) _ _
  have hsupply : supply.Timely := fun _ => Or.inr (show 86399 % 60 = 59 by decide)
  have htimely : ∀ event ∈ events, event.Timely := by
    simp [events, Event.Timely, hsupply]
  exact ⟨hvacant, hsupply, htimely, run_vacant_continues hvacant hsupply htimely⟩

end Runs

end Allocator

end EquationPuzzle
