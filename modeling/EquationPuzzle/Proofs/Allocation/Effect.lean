import EquationPuzzle.Proofs.Allocation.Requests
import EquationPuzzle.Proofs.Generator
import EquationPuzzle.Proofs.Inventory.Representation

/-!
# What requests do to an inventory

A request to an allocator over an inventory either leaves the inventory as it is, or fills its pool
with a batch of new unused entries, or gives an equation to a day that has none: it takes the first
unused entry of the pool, or, if there is none, a new entry that enters the pool as used, and then
puts the daily equation on record.  A request that is refused changes nothing.
-/

namespace EquationPuzzle

/-- The entry was made at one of the given moments, for a puzzle that is fit to be played. -/
def PoolEntry.Made (moment : Nat → Timestamp) (used : Bool) (entry : PoolEntry) : Prop :=
  ∃ id number puzzle, puzzle.Fits ∧ entry = .ofPuzzle id (moment number) puzzle used

namespace Inventory

variable (moment : Nat → Timestamp) (inventory : Inventory)

/-- An entry is taken from the pool for a day: the first unused one, or else a new one. -/
inductive Takes : PoolEntry → Inventory → Prop
  | claimed {position : Nat} {original : PoolEntry}
      (hfirst : inventory.firstUnused? = some original)
      (hentry : inventory.pool[position]? = some original) (hunused : original.used = false) :
      Takes original.claimed (inventory.markAt position original)
  | generated {entry : PoolEntry} (hnone : inventory.firstUnused? = none)
      (hadmits : inventory.Admits [entry]) (hmade : entry.Made moment true) :
      Takes entry (inventory.push entry)

/-- A day that has no equation is given that of an entry taken for it. -/
inductive Assigns (date : Day) : DailyEquation → Inventory → Prop
  | intro {entry : PoolEntry} {taken : Inventory} (id : Identifier) (number : Nat)
      (hnew : inventory.findDaily? date = none) (htakes : Takes moment inventory entry taken) :
      Assigns date (.ofEntry id (moment number) date entry)
        (taken.withDaily (.ofEntry id (moment number) date entry))

/-- A batch of new unused entries enters the pool. -/
inductive Fills : Inventory → Prop
  | intro {batch : List PoolEntry} (hadmits : inventory.Admits batch)
      (hmade : ∀ entry ∈ batch, entry.Made moment false) :
      Fills (batch.foldl push inventory)

inductive Step : Inventory → Prop
  | idle : Step inventory
  | fill {next : Inventory} (hfills : Fills moment inventory next) : Step next
  | assign {date : Day} {daily : DailyEquation} {next : Inventory}
      (hassigns : Assigns moment inventory date daily next) : Step next

section Effect

variable {moment inventory} {entry : PoolEntry} {next : Inventory} {P : PoolEntry → Prop}

theorem Takes.findDaily?_eq (htakes : Takes moment inventory entry next) :
    next.findDaily? = inventory.findDaily? := by
  cases htakes <;> rfl

/-- What is true of the entries of the pool and of new ones, and is not lost by a claim, is true of
the entry that is taken and of the pool that it leaves behind. -/
theorem Takes.forall_pool (htakes : Takes moment inventory entry next)
    (hclaimed : ∀ known, P known → P known.claimed)
    (hmade : ∀ known, known.Made moment true → P known)
    (hpool : ∀ known ∈ inventory.pool, P known) : P entry ∧ ∀ known ∈ next.pool, P known := by
  cases htakes with
  | @claimed position original hfirst hentry hunused =>
      have horiginal := hclaimed original (hpool original (Array.mem_of_getElem? hentry))
      refine ⟨horiginal, fun known hknown => ?_⟩
      obtain ⟨other, hother⟩ := Array.mem_iff_getElem?.mp hknown
      rw [getElem?_pool_markAt hentry] at hother
      by_cases hsame : other = position
      · rw [if_pos hsame, Option.some.injEq] at hother
        rw [← hother]
        exact horiginal
      · rw [if_neg hsame] at hother
        exact hpool known (Array.mem_of_getElem? hother)
  | generated hnone hadmits hnew =>
      refine ⟨hmade entry hnew, fun known hknown => ?_⟩
      rcases Array.mem_push.mp hknown with hknown | rfl
      · exact hpool known hknown
      · exact hmade known hnew

theorem Assigns.findDaily?_eq {date : Day} {daily : DailyEquation}
    (hassigns : Assigns moment inventory date daily next) (other : Day) :
    next.findDaily? other = if date = other then some daily else inventory.findDaily? other := by
  obtain ⟨id, number, _, htakes⟩ := hassigns
  rw [findDaily?_withDaily, htakes.findDaily?_eq]
  rfl

theorem Fills.findDaily?_eq (hfills : Fills moment inventory next) :
    next.findDaily? = inventory.findDaily? := by
  obtain ⟨hadmits, hmade⟩ := hfills
  funext date
  simp

theorem Fills.mem_pool (hfills : Fills moment inventory next) :
    (∀ known ∈ inventory.pool, known ∈ next.pool) ∧
      ∀ known ∈ next.pool, known ∈ inventory.pool ∨ known.Made moment false := by
  obtain ⟨hadmits, hmade⟩ := hfills
  rename_i batch
  have hmem : ∀ known, known ∈ (batch.foldl push inventory).pool ↔
      known ∈ inventory.pool ∨ known ∈ batch := by
    intro known
    rw [← Array.mem_toList_iff, pool_pushAll, List.mem_append, Array.mem_toList_iff]
  exact ⟨fun known hknown => (hmem known).mpr (Or.inl hknown),
    fun known hknown => ((hmem known).mp hknown).imp_right (hmade known)⟩

/-- No request takes an equation from a day. -/
theorem Step.findDaily?_eq_some (hstep : Step moment inventory next) {date : Day}
    {daily : DailyEquation} (hdaily : inventory.findDaily? date = some daily) :
    next.findDaily? date = some daily := by
  cases hstep with
  | idle => exact hdaily
  | fill hfills => rw [hfills.findDaily?_eq, hdaily]
  | @assign other assigned _ hassigns =>
      have hne : other ≠ date := by
        rintro rfl
        obtain ⟨id, number, hnew, htakes⟩ := hassigns
        rw [hnew] at hdaily
        contradiction
      rw [hassigns.findDaily?_eq, if_neg hne, hdaily]

end Effect

end Inventory

namespace Session

structure Idle (session next : Session Inventory) : Prop where
  store_eq : next.store = session.store
  moment_eq : next.supply.moment = session.supply.moment

variable {session : Session Inventory}

theorem Idle.refl (session : Session Inventory) : session.Idle session := ⟨rfl, rfl⟩

theorem Idle.trans {middle next : Session Inventory} (hfirst : session.Idle middle)
    (hrest : middle.Idle next) : session.Idle next :=
  ⟨hrest.store_eq.trans hfirst.store_eq, hrest.moment_eq.trans hfirst.moment_eq⟩

theorem Idle.withCount {next : Session Inventory} (hidle : session.Idle next) :
    session.Idle next.withCount :=
  ⟨hidle.store_eq, hidle.moment_eq⟩

theorem yields_generate (generator : Generator) (session : Session Inventory) :
    Yields (generate generator) session fun answer next =>
      session.Idle next ∧ ∀ puzzle, answer = .ok puzzle → puzzle.Fits := by
  unfold Yields
  rw [outcome_generate]
  rcases hrun : generator.generate.run session.supply.words with ⟨made, words⟩
  cases made with
  | error cause => exact ⟨⟨rfl, rfl⟩, by simp⟩
  | ok puzzle =>
      refine ⟨⟨rfl, rfl⟩, fun made hmade => ?_⟩
      obtain rfl : puzzle = made := Except.ok.inj hmade
      exact Generator.fits_of_generate hrun

theorem yields_newEntry {puzzle : Puzzle} (hfits : puzzle.Fits) (used : Bool)
    (session : Session Inventory) :
    Yields (newEntry puzzle used) session fun answer next =>
      session.Idle next ∧ ∃ entry, answer = .ok entry ∧
        entry.Made session.supply.moment used ∧ entry.equation = puzzle.equation := by
  unfold Yields
  rw [outcome_newEntry]
  exact ⟨⟨rfl, rfl⟩, _, rfl, ⟨_, _, puzzle, hfits, rfl⟩, rfl⟩

/-- A new entry has entered the pool as used, or nothing has happened. -/
def Adds (session : Session Inventory) : Except AllocationError PoolEntry → Session Inventory → Prop
  | .error _, next => session.Idle next
  | .ok entry, next =>
    session.store.Admits [entry] ∧ entry.Made session.supply.moment true ∧
      next.store = session.store.push entry ∧ next.supply.moment = session.supply.moment

/-- A batch of new unused entries has entered the pool, or nothing has happened. -/
def Fills {α : Type} (session : Session Inventory) :
    Except AllocationError α → Session Inventory → Prop
  | .error _, next => session.Idle next
  | .ok _, next =>
    Inventory.Fills session.supply.moment session.store next.store ∧
      next.supply.moment = session.supply.moment

/-- The day has been given an equation, or it had that one before, or nothing has happened. -/
def Resolves (date : Day) (session : Session Inventory) :
    Except AllocationError DailyEquation → Session Inventory → Prop
  | .error _, next => session.Idle next
  | .ok daily, next =>
    (session.store.findDaily? date = some daily ∧ session.Idle next) ∨
      (Inventory.Assigns session.supply.moment session.store date daily next.store ∧
        next.supply.moment = session.supply.moment)

theorem Idle.fills {α : Type} {middle next : Session Inventory}
    {answer : Except AllocationError α} (hidle : session.Idle middle)
    (hfills : middle.Fills answer next) : session.Fills answer next := by
  cases answer with
  | error cause => exact hidle.trans hfills
  | ok answer => rwa [Fills, hidle.store_eq, hidle.moment_eq] at hfills

theorem outcome_require_read {α : Type} {operation : StoreM Inventory α} {answer : α}
    (hread : outcome operation session.store = (.ok answer, session.store)) :
    outcome (require operation) session = (.ok answer, session) := by
  rw [outcome_require, hread]

end Session

namespace Allocator

open Session

variable {session : Session Inventory}

/-! ## Taking an entry -/

/-- The first unused entry is claimed at once: nobody else can have been quicker. -/
theorem outcome_claimEntry (hwell : session.store.WellFormed) (patience : Nat) :
    (session.store.firstUnused? = none ∧
        outcome (claimEntry (patience + 1)) session = (.ok none, session)) ∨
      ∃ position entry, session.store.firstUnused? = some entry ∧
        session.store.pool[position]? = some entry ∧ entry.used = false ∧
        outcome (claimEntry (patience + 1)) session =
          (.ok (some entry.claimed),
            { session with store := session.store.markAt position entry }) := by
  unfold claimEntry
  rw [outcome_bind, outcome_require_read (Inventory.outcome_findUnused session.store)]
  cases hfirst : session.store.firstUnused? with
  | none => exact Or.inl ⟨rfl, rfl⟩
  | some entry =>
      obtain ⟨position, hentry, hunused⟩ := hwell.exists_of_firstUnused? hfirst
      refine Or.inr ⟨position, entry, rfl, hentry, hunused, ?_⟩
      simp only [outcome_bind, outcome_require, Inventory.outcome_markUsed,
        hwell.claim?_of_unused hentry hunused, outcome_pure]

/-- The search for a new entry ends with the first one that is not refused for its equation: it
enters the pool, or is refused for its identifier.  Otherwise it ends without one. -/
theorem generateEntry_cases (generator : Generator) (existing : Std.HashSet Equation)
    (attempts : Nat) (session : Session Inventory) :
    ∃ supply : Supply, supply.moment = session.supply.moment ∧
      (outcome (generateEntry generator existing attempts) session =
          (.error (.exhausted ⟨generator.maxAttempts⟩), { session with supply }) ∨
        ∃ id number puzzle, Generator.Drawn puzzle ∧ puzzle.equation ∉ existing ∧
          let entry := PoolEntry.ofPuzzle id (session.supply.moment number) puzzle true
          (outcome (generateEntry generator existing attempts) session =
              (.error (.store (.duplicateIdentifier id)), { session with supply }) ∨
            session.store.Admits [entry] ∧
              outcome (generateEntry generator existing attempts) session =
                (.ok entry, { session with store := session.store.push entry, supply }))) := by
  induction attempts generalizing session with
  | zero => exact ⟨session.supply, rfl, Or.inl rfl⟩
  | succ attempts ih =>
      unfold generateEntry
      rw [outcome_bind, outcome_generate]
      rcases hmade : generator.generate.run session.supply.words with ⟨cause | puzzle, words⟩
      · have hcause := Generator.eq_of_generate_error hmade
        subst cause
        exact ⟨{ session.supply with words }, rfl, Or.inl rfl⟩
      · dsimp only
        split
        · exact ih (session.withWords words)
        · next hexisting =>
            rw [Std.HashSet.contains_iff_mem] at hexisting
            rw [outcome_bind, outcome_newEntry]
            dsimp only
            rw [outcome_bind, outcome_call, Inventory.outcome_insertPool]
            have hstore : (session.withWords words).withIssued.store = session.store := rfl
            rw [hstore]
            generalize hentry : PoolEntry.ofPuzzle _ _ puzzle true = entry
            cases hinsert : session.store.insertPool [entry] with
            | ok next =>
                obtain ⟨hadmits, rfl⟩ := (Inventory.insertPool_eq_ok_iff _ _ _).mp hinsert
                subst hentry
                exact ⟨(session.withWords words).withIssued.supply, rfl,
                  Or.inr ⟨session.supply.identifier session.supply.issued, session.supply.issued,
                    puzzle, Generator.drawn_of_generate hmade, hexisting, Or.inr ⟨hadmits, rfl⟩⟩⟩
            | error cause =>
                rw [Inventory.insertPool_eq_error_iff] at hinsert
                obtain ⟨before, known, after, hbatch, ⟨rfl, _⟩ | ⟨rfl, _⟩⟩ :=
                  Inventory.poolConflict?_eq_some hinsert
                · exact ⟨(session.withWords words).withIssued.supply, rfl,
                    Or.inr ⟨known.id, session.supply.issued, puzzle,
                      Generator.drawn_of_generate hmade, hexisting, Or.inl rfl⟩⟩
                · exact ih (session.withWords words).withIssued

theorem yields_generateEntry (generator : Generator) (existing : Std.HashSet Equation)
    (attempts : Nat) (session : Session Inventory) :
    Yields (generateEntry generator existing attempts) session session.Adds := by
  unfold Yields
  obtain ⟨supply, hmoment, houtcome |
      ⟨id, number, puzzle, hdrawn, _, houtcome | ⟨hadmits, houtcome⟩⟩⟩ :=
    generateEntry_cases generator existing attempts session
  · rw [houtcome]
    exact ⟨rfl, hmoment⟩
  · rw [houtcome]
    exact ⟨rfl, hmoment⟩
  · rw [houtcome]
    exact ⟨hadmits, ⟨id, number, puzzle, Generator.fits_of_drawn hdrawn, rfl⟩, rfl, hmoment⟩

/-- A day that has no equation is given that of the entry: nobody else can have been quicker. -/
theorem outcome_assign {date : Day} {taken : Session Inventory}
    (hfree : taken.store.findDaily? date = none) (entry : PoolEntry) :
    let daily := DailyEquation.ofEntry (taken.supply.identifier taken.supply.issued)
      (taken.supply.moment taken.supply.issued) date entry
    outcome (assign date entry) taken =
      (.ok daily, { taken.withIssued with store := taken.store.withDaily daily }) := by
  have hinsert := (Inventory.insertDaily_eq_ok_iff taken.store _
    (.ofEntry (taken.supply.identifier taken.supply.issued)
      (taken.supply.moment taken.supply.issued) date entry)).mpr ⟨hfree, rfl⟩
  unfold assign
  simp only [outcome_bind, outcome_issue, outcome_require, Inventory.outcome_insertDaily,
    withIssued, hinsert, outcome_pure]

theorem yields_assign {date : Day} {entry : PoolEntry} {taken : Session Inventory}
    (hnew : session.store.findDaily? date = none)
    (htakes : Inventory.Takes session.supply.moment session.store entry taken.store)
    (hmoment : taken.supply.moment = session.supply.moment) :
    Yields (assign date entry) taken (session.Resolves date) := by
  have hfree : taken.store.findDaily? date = none := by
    rw [htakes.findDaily?_eq, hnew]
  unfold Yields
  rw [outcome_assign hfree entry]
  refine Or.inr ⟨?_, hmoment⟩
  rw [hmoment]
  exact .intro _ _ hnew htakes

/-- A day that has an equation is given that one, and nothing changes. -/
theorem outcome_resolve_of_some (allocator : Allocator) {date : Day} {daily : DailyEquation}
    (hdaily : session.store.findDaily? date = some daily) :
    outcome (allocator.resolve date) session = (.ok daily, session) := by
  unfold resolve
  rw [outcome_bind, outcome_require_read (Inventory.outcome_findDaily session.store date)]
  simp only [hdaily]
  rfl

theorem yields_resolve (hwell : session.store.WellFormed) (allocator : Allocator) (date : Day) :
    Yields (allocator.resolve date) session (session.Resolves date) := by
  unfold resolve
  refine Yields.of_outcome
    (outcome_require_read (Inventory.outcome_findDaily session.store date)) ?_
  cases hfind : session.store.findDaily? date with
  | some daily => exact Or.inl ⟨hfind, Idle.refl session⟩
  | none =>
      rcases outcome_claimEntry hwell allocator.patience with
        ⟨hfirst, hclaim⟩ | ⟨position, entry, hfirst, hentry, hunused, hclaim⟩
      · refine Yields.of_outcome hclaim ?_
        refine Yields.of_outcome
          (outcome_require_read (Inventory.outcome_poolEquations session.store)) ?_
        refine (yields_generateEntry _ _ _ session).bind (fun _ _ hidle => hidle) ?_
        rintro entry taken ⟨hadmits, hmade, hstore, hmoment⟩
        refine yields_assign hfind ?_ hmoment
        rw [hstore]
        exact .generated hfirst hadmits hmade
      · refine Yields.of_outcome hclaim ?_
        refine Yields.of_outcome (outcome_pure entry.claimed _) ?_
        exact yields_assign hfind (.claimed hfirst hentry hunused) rfl

/-! ## Filling the pool -/

theorem yields_generateMany (generator : Generator) (count : Nat) (session : Session Inventory) :
    Yields (generateMany generator count) session fun answer next =>
      session.Idle next ∧ ∀ puzzles, answer = .ok puzzles → ∀ puzzle ∈ puzzles, puzzle.Fits := by
  induction count generalizing session with
  | zero =>
      refine ⟨Idle.refl session, fun puzzles hpuzzles => ?_⟩
      obtain rfl := Except.ok.inj hpuzzles
      simp
  | succ count ih =>
      unfold generateMany
      have hcounted : Yields (counted (generate generator)) session fun answer next =>
          session.Idle next ∧ ∀ puzzle, answer = .ok puzzle → puzzle.Fits :=
        yields_counted session ((yields_generate generator session).imp fun _ _ hdrawn =>
          hdrawn.imp_left Idle.withCount)
      refine hcounted.bind ?_ ?_
      · rintro cause next ⟨hidle, _⟩
        exact ⟨hidle, by simp⟩
      · rintro puzzle drawn ⟨hdrawn, hfits⟩
        refine (ih _).bind ?_ ?_
        · rintro cause next ⟨hidle, _⟩
          exact ⟨hdrawn.trans hidle, by simp⟩
        · rintro rest next ⟨hidle, hrest⟩
          refine ⟨hdrawn.trans hidle, fun puzzles hpuzzles => ?_⟩
          obtain rfl := Except.ok.inj hpuzzles
          simpa using ⟨hfits puzzle rfl, hrest rest rfl⟩

theorem yields_newEntries (seen : Std.HashSet Equation) (puzzles : List Puzzle)
    (hfits : ∀ puzzle ∈ puzzles, puzzle.Fits) (session : Session Inventory) :
    Yields (newEntries seen puzzles) session fun answer next =>
      session.Idle next ∧ ∀ entries, answer = .ok entries →
        ∀ entry ∈ entries, entry.Made session.supply.moment false := by
  induction puzzles generalizing seen session with
  | nil =>
      refine ⟨Idle.refl session, fun entries hentries => ?_⟩
      obtain rfl := Except.ok.inj hentries
      simp
  | cons puzzle rest ih =>
      have hrest : ∀ puzzle ∈ rest, puzzle.Fits := fun puzzle hmem => hfits puzzle (by simp [hmem])
      unfold newEntries
      split
      · exact ih seen hrest session
      · refine (yields_newEntry (hfits puzzle (by simp)) false session).bind ?_ ?_
        · rintro cause next ⟨hidle, _, hanswer, _⟩
          contradiction
        · rintro entry issued ⟨hissued, _, hentry, hmade, _⟩
          obtain rfl := Except.ok.inj hentry
          refine (ih _ hrest issued).bind ?_ ?_
          · rintro cause next ⟨hidle, _⟩
            exact ⟨hissued.trans hidle, by simp⟩
          · rintro others next ⟨hidle, hothers⟩
            rw [hissued.moment_eq] at hothers
            refine ⟨hissued.trans hidle, fun entries hentries => ?_⟩
            obtain rfl := Except.ok.inj hentries
            simpa using ⟨hmade, hothers others rfl⟩

theorem yields_insertBatch (session : Session Inventory) (duplicates : Nat)
    {batch : List PoolEntry} (tries : Nat)
    (hmade : ∀ entry ∈ batch, entry.Made session.supply.moment false) :
    Yields (insertBatch duplicates batch tries) session session.Fills := by
  induction tries generalizing duplicates batch with
  | zero => exact Idle.refl session
  | succ tries ih =>
      unfold Yields insertBatch
      rw [outcome_bind, outcome_call, Inventory.outcome_insertPool]
      cases hinsert : session.store.insertPool batch with
      | error cause =>
          cases cause with
          | duplicateEquation equation =>
              exact ih (duplicates + 1)
                fun entry hentry => hmade entry (List.mem_of_mem_filter hentry)
          | _ => exact Idle.refl session
      | ok next =>
          obtain ⟨hadmits, rfl⟩ := (Inventory.insertPool_eq_ok_iff _ _ _).mp hinsert
          exact ⟨.intro hadmits hmade, rfl⟩

theorem yields_fill (allocator : Allocator) (days : Nat) (session : Session Inventory) :
    Yields (allocator.fill days) session session.Fills := by
  unfold fill
  refine (yields_generateMany _ days session).bind (fun _ _ hidle => hidle.1) ?_
  rintro puzzles drawn ⟨hdrawn, hfits⟩
  refine Yields.of_outcome
    (outcome_require_read (Inventory.outcome_poolEquations drawn.store)) ?_
  refine (yields_newEntries _ puzzles (hfits puzzles rfl) drawn).bind ?_ ?_
  · rintro cause next ⟨hidle, _⟩
    exact hdrawn.trans hidle
  · rintro entries issued ⟨hissued, hmade⟩
    have hidle := hdrawn.trans hissued
    have hbatch := yields_insertBatch issued (puzzles.length - entries.length)
      (entries.length + allocator.patience + 1) (hissued.moment_eq ▸ hmade entries rfl)
    refine hbatch.bind (fun _ _ hfills => hidle.fills hfills) ?_
    rintro ⟨inserted, duplicates⟩ next hfills
    exact hidle.fills hfills

theorem yields_pregenerate (allocator : Allocator) (first last : Day)
    (session : Session Inventory) :
    Yields (allocator.pregenerate first last) session session.Fills := by
  rw [pregenerate_eq]
  split
  · exact Idle.refl session
  · exact yields_fill allocator _ session

/-! ## Any request -/

end Allocator

namespace Session

/-- A request has changed the inventory in one of the ways in which requests may. -/
structure Advances (session next : Session Inventory) : Prop where
  step : Inventory.Step session.supply.moment session.store next.store
  moment_eq : next.supply.moment = session.supply.moment

variable {session next : Session Inventory}

theorem Idle.advances (hidle : session.Idle next) : session.Advances next :=
  ⟨by rw [hidle.store_eq]; exact .idle, hidle.moment_eq⟩

theorem Fills.advances {α : Type} {answer : Except AllocationError α}
    (hfills : session.Fills answer next) : session.Advances next := by
  cases answer with
  | error cause => exact Idle.advances hfills
  | ok answer => exact ⟨.fill hfills.1, hfills.2⟩

theorem Resolves.advances {date : Day} {answer : Except AllocationError DailyEquation}
    (hresolves : session.Resolves date answer next) : session.Advances next := by
  cases answer with
  | error cause => exact Idle.advances hresolves
  | ok daily =>
      rcases hresolves with ⟨_, hidle⟩ | ⟨hassigns, hmoment⟩
      · exact hidle.advances
      · exact ⟨.assign hassigns, hmoment⟩

end Session

namespace Allocator

theorem advances_serve {session : Session Inventory} (hwell : session.store.WellFormed)
    (allocator : Allocator) (request : Request) :
    session.Advances (outcome (allocator.serve request) session).2 := by
  cases request with
  | resolve date =>
      rw [serve, outcome_map]
      exact (yields_resolve hwell allocator date).advances
  | pregenerate first last =>
      rw [serve, outcome_map]
      exact (yields_pregenerate allocator first last session).advances
  | pregenerateYear year =>
      rw [serve, outcome_map, pregenerateYear_eq]
      cases Day.boundsOfYear? year with
      | none => exact (Session.Idle.refl session).advances
      | some bounds => exact (yields_pregenerate allocator bounds.1 bounds.2 session).advances
  | practice =>
      rw [serve, outcome_map]
      exact (Session.yields_generate allocator.generator session).1.advances

end Allocator

end EquationPuzzle
