import EquationPuzzle.Allocator
import EquationPuzzle.Store.Memory

/-!
# Outcomes of calls

A call of a store, and an allocation, is a function from the state it starts in to its answer and
the state it leaves behind.  This file says how outcomes arise from those of the parts, and what
each step of a session and each call of a store in memory comes to.
-/

namespace EquationPuzzle

section Outcome

variable {ε σ α β : Type}

/-- What a computation answers, and the state it leaves behind. -/
def outcome (x : ExceptT ε (StateM σ) α) (s : σ) : Except ε α × σ :=
  x.run.run s

@[simp] theorem outcome_pure (a : α) (s : σ) :
    outcome (pure a : ExceptT ε (StateM σ) α) s = (.ok a, s) := rfl

@[simp] theorem outcome_throw (e : ε) (s : σ) :
    outcome (throw e : ExceptT ε (StateM σ) α) s = (.error e, s) := rfl

theorem outcome_bind (x : ExceptT ε (StateM σ) α) (f : α → ExceptT ε (StateM σ) β) (s : σ) :
    outcome (x >>= f) s =
      match outcome x s with
      | (.ok a, next) => outcome (f a) next
      | (.error e, next) => (.error e, next) := by
  rcases hx : x.run.run s with ⟨answer, next⟩
  cases answer <;> simp [outcome, ExceptT.run_bind, hx] <;> rfl

theorem outcome_map (f : α → β) (x : ExceptT ε (StateM σ) α) (s : σ) :
    outcome (f <$> x) s = ((outcome x s).1.map f, (outcome x s).2) := by
  rw [map_eq_pure_bind, outcome_bind]
  rcases outcome x s with ⟨answer, next⟩
  cases answer <;> rfl

@[simp] theorem outcome_get (s : σ) :
    outcome (get : ExceptT ε (StateM σ) σ) s = (.ok s, s) := rfl

/-- What holds of the answer and of the state that is left behind. -/
def Yields (x : ExceptT ε (StateM σ) α) (s : σ) (post : Except ε α → σ → Prop) : Prop :=
  post (outcome x s).1 (outcome x s).2

theorem Yields.imp {x : ExceptT ε (StateM σ) α} {s : σ} {post weaker : Except ε α → σ → Prop}
    (hyields : Yields x s post) (hweaker : ∀ answer next, post answer next → weaker answer next) :
    Yields x s weaker :=
  hweaker _ _ hyields

/-- What two steps yield follows from what the first yields, whether it fails or not. -/
theorem Yields.bind {x : ExceptT ε (StateM σ) α} {f : α → ExceptT ε (StateM σ) β} {s : σ}
    {middle : Except ε α → σ → Prop} {post : Except ε β → σ → Prop} (hfirst : Yields x s middle)
    (herror : ∀ e next, middle (.error e) next → post (.error e) next)
    (hok : ∀ a next, middle (.ok a) next → Yields (f a) next post) :
    Yields (x >>= f) s post := by
  unfold Yields at hfirst ⊢
  rw [outcome_bind]
  rcases hx : outcome x s with ⟨answer, next⟩
  rw [hx] at hfirst
  cases answer with
  | error e => exact herror e next hfirst
  | ok a => exact hok a next hfirst

theorem Yields.of_outcome {x : ExceptT ε (StateM σ) α} {f : α → ExceptT ε (StateM σ) β}
    {s next : σ} {a : α} {post : Except ε β → σ → Prop} (hx : outcome x s = (.ok a, next))
    (hrest : Yields (f a) next post) : Yields (x >>= f) s post := by
  unfold Yields
  rw [outcome_bind, hx]
  exact hrest

end Outcome

/-! ## Steps of a session -/

namespace Session

variable {σ α : Type} (session : Session σ)

theorem outcome_call (operation : StoreM σ α) :
    outcome (call operation) session =
      (.ok (outcome operation session.store).1,
        { session with store := (outcome operation session.store).2 }) := rfl

theorem outcome_require (operation : StoreM σ α) :
    outcome (require operation) session =
      match outcome operation session.store with
      | (.ok answer, store) => (.ok answer, { session with store })
      | (.error cause, store) => (.error (.store cause), { session with store }) := by
  rw [require, outcome_bind, outcome_call]
  rcases outcome operation session.store with ⟨answer, store⟩
  cases answer <;> rfl

section Calls

variable {session} {β : Type} {operation : StoreM σ α}
  {middle : Except StoreError α → σ → Prop} {post : Except AllocationError β → Session σ → Prop}

/-- What follows a call goes on from what the call yields. -/
theorem yields_call_bind {f : Except StoreError α → AllocationM σ β}
    (hcall : Yields operation session.store middle)
    (hrest : ∀ reply store, middle reply store → Yields (f reply) { session with store } post) :
    Yields (call operation >>= f) session post :=
  Yields.of_outcome (session.outcome_call operation) (hrest _ _ hcall)

/-- A call whose failure is passed on. -/
theorem yields_require_bind {f : α → AllocationM σ β}
    (hcall : Yields operation session.store middle)
    (herror : ∀ cause store, middle (.error cause) store →
      post (.error (.store cause)) { session with store })
    (hok : ∀ a store, middle (.ok a) store → Yields (f a) { session with store } post) :
    Yields (require operation >>= f) session post := by
  unfold Yields at hcall ⊢
  rw [outcome_bind, outcome_require]
  rcases hresult : outcome operation session.store with ⟨cause | a, store⟩
  · rw [hresult] at hcall
    exact herror cause store hcall
  · rw [hresult] at hcall
    exact hok a store hcall

end Calls

def withWords (words : WordSource) : Session σ :=
  { session with supply := { session.supply with words } }

def withIssued : Session σ :=
  { session with supply := { session.supply with issued := session.supply.issued + 1 } }

theorem outcome_generate (generator : Generator) :
    outcome (generate generator) session =
      match generator.generate.run session.supply.words with
      | (.ok puzzle, words) => (.ok puzzle, session.withWords words)
      | (.error cause, words) => (.error (.exhausted cause), session.withWords words) := by
  rw [generate, outcome_bind]
  simp only [outcome_get]
  rcases generator.generate.run session.supply.words with ⟨made, words⟩
  cases made <;> rfl

theorem outcome_issue :
    outcome issue session =
      (.ok (session.supply.identifier session.supply.issued,
        session.supply.moment session.supply.issued), session.withIssued) := rfl

theorem outcome_newEntry (puzzle : Puzzle) (used : Bool) :
    outcome (newEntry puzzle used) session =
      (.ok (.ofPuzzle (session.supply.identifier session.supply.issued)
        (session.supply.moment session.supply.issued) puzzle used), session.withIssued) := rfl

def withCount : Session σ :=
  { session with progress := session.progress + 1 }

theorem outcome_counted (attempt : AllocationM σ α) :
    outcome (counted attempt) session =
      ((outcome attempt session).1, (outcome attempt session).2.withCount) := by
  rcases hattempt : outcome attempt session with ⟨answer, next⟩
  have hrun : attempt session = (answer, next) := hattempt
  simp only [outcome, counted, tryFinally, tryFinally', ExceptT.run, ExceptT.map, ExceptT.mk,
    StateT.run, StateT.bind, Functor.map, bind, hrun]
  cases answer <;> rfl

/-- What an attempt yields, it yields when it is counted as well. -/
theorem yields_counted {attempt : AllocationM σ α}
    {post : Except AllocationError α → Session σ → Prop}
    (hattempt : Yields attempt session fun answer next => post answer next.withCount) :
    Yields (counted attempt) session post := by
  unfold Yields
  rw [outcome_counted]
  exact hattempt

end Session

/-! ## Stores in memory -/

namespace Inventory

variable (inventory : Inventory)

@[simp] theorem outcome_findDaily (date : Day) :
    outcome (Store.findDaily date) inventory = (.ok (inventory.findDaily? date), inventory) := rfl

@[simp] theorem outcome_findUnused :
    outcome Store.findUnused inventory = (.ok inventory.firstUnused?, inventory) := rfl

@[simp] theorem outcome_poolEquations :
    outcome Store.poolEquations inventory = (.ok inventory.poolEquations, inventory) := rfl

@[simp] theorem outcome_countPool :
    outcome Store.countPool inventory = (.ok inventory.poolCount, inventory) := rfl

@[simp] theorem outcome_countUsed :
    outcome Store.countUsed inventory = (.ok inventory.usedCount, inventory) := rfl

@[simp] theorem outcome_countDaily :
    outcome Store.countDaily inventory = (.ok inventory.dailyCount, inventory) := rfl

theorem outcome_change (f : Inventory → Except StoreError Inventory) :
    outcome (change f) inventory =
      match f inventory with
      | .ok next => (.ok (), next)
      | .error cause => (.error cause, inventory) := by
  rw [change, outcome_bind]
  simp only [outcome_get]
  rw [outcome_bind]
  cases f inventory <;> rfl

theorem outcome_insertDaily (daily : DailyEquation) :
    outcome (Store.insertDaily daily) inventory =
      match inventory.insertDaily daily with
      | .ok next => (.ok (), next)
      | .error cause => (.error cause, inventory) :=
  outcome_change inventory _

theorem outcome_insertPool (batch : List PoolEntry) :
    outcome (Store.insertPool batch) inventory =
      match inventory.insertPool batch with
      | .ok next => (.ok batch.length, next)
      | .error cause => (.error cause, inventory) := by
  change outcome (change (·.insertPool batch) >>= fun _ => pure batch.length) inventory = _
  rw [outcome_bind, outcome_change]
  cases inventory.insertPool batch <;> rfl

theorem outcome_markUsed (id : Identifier) :
    outcome (Store.markUsed id) inventory =
      match inventory.claim? id with
      | none => (.ok none, inventory)
      | some (entry, next) => (.ok (some entry), next) := by
  change outcome (get >>= fun (known : Inventory) => match known.claim? id with
    | none => pure none
    | some (entry, next) => do set next; pure (some entry)) inventory = _
  rw [outcome_bind]
  simp only [outcome_get]
  cases inventory.claim? id <;> rfl

end Inventory

end EquationPuzzle
