import EquationPuzzle.Proofs.Store.Agreement

/-!
# Requests to an allocator

Everything a client may ask of an allocator, in any order and number.  Over stores that agree, an
allocator answers alike and keeps the stores related.
-/

namespace EquationPuzzle

namespace Allocator

inductive Request where
  | resolve (date : Day)
  | pregenerate (first last : Day)
  | pregenerateYear (year : Int)
  | practice

inductive Reply where
  | daily (daily : DailyEquation)
  | pregenerated (report : Pregeneration)
  | puzzle (puzzle : Puzzle)

variable {σ : Type} [Store σ]

/-- The last part of resolving a day: the entry found for it becomes its daily equation. -/
def assign (date : Day) (entry : PoolEntry) : AllocationM σ DailyEquation := do
  let (id, created) ← Session.issue
  let daily := DailyEquation.ofEntry id created date entry
  Session.require (Store.insertDaily daily)
  return daily

def fill (allocator : Allocator) (days : Nat) : AllocationM σ Pregeneration := do
  let puzzles ← generateMany allocator.generator days
  let seen ← Session.require Store.poolEquations
  let entries ← newEntries seen puzzles
  let (inserted, duplicates) ←
    insertBatch (puzzles.length - entries.length) entries
      (entries.length + allocator.patience + 1)
  return ⟨days, inserted, duplicates⟩

theorem pregenerate_eq (allocator : Allocator) (first last : Day) :
    (allocator.pregenerate first last : AllocationM σ Pregeneration) =
      if last.ordinal < first.ordinal then throw (.invalidRange first last)
      else allocator.fill (first.span last).length := by
  unfold pregenerate
  split <;> rfl

theorem pregenerateYear_eq (allocator : Allocator) (year : Int) :
    (allocator.pregenerateYear year : AllocationM σ Pregeneration) =
      match Day.boundsOfYear? year with
      | some (first, last) => allocator.pregenerate first last
      | none => throw (.invalidYear year) := by
  unfold pregenerateYear yearBounds
  cases Day.boundsOfYear? year <;> rfl

def serve (allocator : Allocator) : Request → AllocationM σ Reply
  | .resolve date => .daily <$> allocator.resolve date
  | .pregenerate first last => .pregenerated <$> allocator.pregenerate first last
  | .pregenerateYear year => .pregenerated <$> allocator.pregenerateYear year
  | .practice => .puzzle <$> allocator.practice

/-- The session after a number of requests, each made to an allocator of its own, and each
answered or refused. -/
def serveAll (requests : List (Allocator × Request)) (session : Session σ) : Session σ :=
  requests.foldl (fun session (allocator, request) =>
    (outcome (allocator.serve request) session).2) session

end Allocator

/-- Sessions over related stores that draw on the same supply. -/
structure Session.Related {σ τ : Type} (related : σ → τ → Prop) (s : Session σ) (t : Session τ) :
    Prop where
  store : related s.store t.store
  supply : s.supply = t.supply
  progress : s.progress = t.progress

section Agreement

variable {σ τ α : Type} {related : σ → τ → Prop}

open Session (Related)

theorem Agrees.call {x : StoreM σ α} {y : StoreM τ α} (h : Agrees related x y) :
    Agrees (Related related) (Session.call x) (Session.call y) := by
  intro s t hrelated
  obtain ⟨hanswer, hstore⟩ := h s.store t.store hrelated.store
  rw [Session.outcome_call, Session.outcome_call, hanswer]
  exact ⟨rfl, hstore, hrelated.supply, hrelated.progress⟩

theorem Agrees.require {x : StoreM σ α} {y : StoreM τ α} (h : Agrees related x y) :
    Agrees (Related related) (Session.require x) (Session.require y) := by
  refine h.call.bind fun answer => ?_
  cases answer with
  | ok a => exact .pure a
  | error cause => exact .throw _

theorem agrees_generate (generator : Generator) :
    Agrees (Related related) (Session.generate generator) (Session.generate generator) := by
  intro s t hrelated
  rw [Session.outcome_generate, Session.outcome_generate, hrelated.supply]
  rcases generator.generate.run t.supply.words with ⟨made, words⟩
  have hnext : Related related (s.withWords words) (t.withWords words) :=
    ⟨hrelated.store, by simp [Session.withWords, hrelated.supply], hrelated.progress⟩
  cases made <;> exact ⟨rfl, hnext⟩

theorem agrees_issue : Agrees (Related related) Session.issue Session.issue := by
  intro s t hrelated
  rw [Session.outcome_issue, Session.outcome_issue, hrelated.supply]
  exact ⟨rfl, hrelated.store, by simp [Session.withIssued, hrelated.supply], hrelated.progress⟩

theorem agrees_newEntry (puzzle : Puzzle) (used : Bool) :
    Agrees (Related related) (Session.newEntry puzzle used) (Session.newEntry puzzle used) :=
  agrees_issue.bind fun _ => .pure _

theorem Agrees.counted {x : AllocationM σ α} {y : AllocationM τ α}
    (h : Agrees (Related related) x y) :
    Agrees (Related related) (Session.counted x) (Session.counted y) := by
  intro s t hrelated
  obtain ⟨hanswer, hnext⟩ := h s t hrelated
  rw [Session.outcome_counted, Session.outcome_counted, hanswer]
  exact ⟨rfl, hnext.store, hnext.supply, congrArg (· + 1) hnext.progress⟩

namespace Allocator

theorem agrees_generateMany (generator : Generator) (count : Nat) :
    Agrees (Related related) (generateMany generator count) (generateMany generator count) := by
  induction count with
  | zero => exact .pure _
  | succ count ih =>
      exact (agrees_generate generator).counted.bind fun puzzle => ih.bind fun _ => .pure _

theorem agrees_newEntries (seen : Std.HashSet Equation) (puzzles : List Puzzle) :
    Agrees (Related related) (newEntries seen puzzles) (newEntries seen puzzles) := by
  induction puzzles generalizing seen with
  | nil => exact .pure _
  | cons puzzle rest ih =>
      unfold newEntries
      split
      · exact ih seen
      · exact (agrees_newEntry puzzle false).bind fun _ => (ih _).bind fun _ => .pure _

variable [Store σ] [Store τ]

theorem agrees_claimEntry (hagree : Store.Agree related) (patience : Nat) :
    Agrees (Related related) (claimEntry patience) (claimEntry patience) := by
  induction patience with
  | zero => exact .throw _
  | succ patience ih =>
      refine hagree.findUnused.require.bind fun found => ?_
      cases found with
      | none => exact .pure _
      | some candidate =>
          refine (hagree.markUsed candidate.id).require.bind fun marked => ?_
          cases marked with
          | none => exact ih
          | some entry => exact .pure _

theorem agrees_generateEntry (hagree : Store.Agree related) (generator : Generator)
    (existing : Std.HashSet Equation) (attempts : Nat) :
    Agrees (Related related) (generateEntry generator existing attempts)
      (generateEntry generator existing attempts) := by
  induction attempts with
  | zero => exact .throw _
  | succ attempts ih =>
      refine (agrees_generate generator).bind fun puzzle => ?_
      split
      · exact ih
      · refine (agrees_newEntry puzzle true).bind fun entry => ?_
        refine (hagree.insertPool [entry]).call.bind fun answer => ?_
        split
        · exact .pure _
        · exact ih
        · exact .throw _

theorem agrees_assign (hagree : Store.Agree related) (date : Day) (entry : PoolEntry) :
    Agrees (Related related) (assign date entry) (assign date entry) := by
  refine agrees_issue.bind fun issued => ?_
  exact (hagree.insertDaily _).require.bind fun _ => .pure _

theorem agrees_resolve (hagree : Store.Agree related) (allocator : Allocator) (date : Day) :
    Agrees (Related related) (allocator.resolve date) (allocator.resolve date) := by
  refine (hagree.findDaily date).require.bind fun found => ?_
  cases found with
  | some existing => exact .pure _
  | none =>
      refine (agrees_claimEntry hagree _).bind fun claimed => ?_
      cases claimed with
      | some entry => exact (Agrees.pure entry).bind fun _ => agrees_assign hagree date _
      | none =>
          refine hagree.poolEquations.require.bind fun existing => ?_
          refine (agrees_generateEntry hagree _ _ _).bind fun entry => ?_
          exact agrees_assign hagree date entry

theorem agrees_insertBatch (hagree : Store.Agree related) (duplicates : Nat)
    (batch : List PoolEntry) (tries : Nat) :
    Agrees (Related related) (insertBatch duplicates batch tries)
      (insertBatch duplicates batch tries) := by
  induction tries generalizing duplicates batch with
  | zero => exact .throw _
  | succ tries ih =>
      refine (hagree.insertPool batch).call.bind fun answer => ?_
      split
      · exact .pure _
      · exact ih _ _
      · exact .throw _

theorem agrees_fill (hagree : Store.Agree related) (allocator : Allocator) (days : Nat) :
    Agrees (Related related) (allocator.fill days) (allocator.fill days) := by
  refine (agrees_generateMany _ days).bind fun puzzles => ?_
  refine hagree.poolEquations.require.bind fun seen => ?_
  refine (agrees_newEntries seen puzzles).bind fun entries => ?_
  exact (agrees_insertBatch hagree _ entries _).bind fun _ => .pure _

theorem agrees_pregenerate (hagree : Store.Agree related) (allocator : Allocator)
    (first last : Day) :
    Agrees (Related related) (allocator.pregenerate first last)
      (allocator.pregenerate first last) := by
  rw [pregenerate_eq, pregenerate_eq]
  split
  · exact .throw _
  · exact agrees_fill hagree allocator _

theorem agrees_serve (hagree : Store.Agree related) (allocator : Allocator) (request : Request) :
    Agrees (Related related) (allocator.serve request) (allocator.serve request) := by
  cases request with
  | resolve date => exact (agrees_resolve hagree allocator date).map _
  | pregenerate first last => exact (agrees_pregenerate hagree allocator first last).map _
  | pregenerateYear year =>
      refine Agrees.map _ ?_
      rw [pregenerateYear_eq, pregenerateYear_eq]
      cases Day.boundsOfYear? year with
      | none => exact .throw _
      | some bounds => exact agrees_pregenerate hagree allocator bounds.1 bounds.2
  | practice => exact (agrees_generate allocator.generator).map _

theorem related_serveAll (hagree : Store.Agree related) (requests : List (Allocator × Request))
    {s : Session σ} {t : Session τ} (hrelated : Related related s t) :
    Related related (serveAll requests s) (serveAll requests t) := by
  induction requests generalizing s t with
  | nil => exact hrelated
  | cons request rest ih => exact ih (agrees_serve hagree request.1 request.2 s t hrelated).2

end Allocator

end Agreement

end EquationPuzzle
