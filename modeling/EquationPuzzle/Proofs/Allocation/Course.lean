import EquationPuzzle.Proofs.Allocation.Requests
import EquationPuzzle.Proofs.Store.Recorded

/-!
# The course of a request

A request to an allocator runs through calls of its store and attempts to generate a puzzle, one
after the other.  This file says which courses the parts of a request can take, whatever the store
answers to its calls.
-/

namespace EquationPuzzle

open Store (Call Answer Exchange)

/-- What happens in the course of a request. -/
inductive Event where
  | asked (exchange : Exchange)
  | drew (made : Except GenerationExhausted Puzzle)

def Event.exchange? : Event → Option Exchange
  | asked exchange => some exchange
  | drew _ => none

namespace Session

variable {σ α β : Type} [Store σ]

/-- Events lead from one session to another.  The identifiers and times that are issued meanwhile
are not among them. -/
inductive Path : Session σ → List Event → Session σ → Prop
  | done (session : Session σ) : Path session [] session
  | ask {session next : Session σ} {events : List Event} {call : Call}
      {reply : Except StoreError Answer} {store : σ}
      (hreply : outcome (Store.answer call) session.store = (reply, store))
      (hrest : Path { session with store } events next) :
      Path session (.asked ⟨call, reply⟩ :: events) next
  | draw {session next : Session σ} {events : List Event} {generator : Generator}
      {made : Except GenerationExhausted Puzzle} {words : WordSource}
      (hmade : generator.generate.run session.supply.words = (made, words))
      (hrest : Path (session.withWords words) events next) :
      Path session (.drew made :: events) next
  | issue {session next : Session σ} {events : List Event}
      (hrest : Path session.withIssued events next) : Path session events next

theorem Path.append {session middle next : Session σ} {events more : List Event}
    (hfirst : session.Path events middle) (hrest : middle.Path more next) :
    session.Path (events ++ more) next := by
  induction hfirst with
  | done => exact hrest
  | ask hreply _ ih => exact .ask hreply (ih hrest)
  | draw hmade _ ih => exact .draw hmade (ih hrest)
  | issue _ ih => exact .issue (ih hrest)

/-- Puzzles are made from words that are drawn, and from nothing else. -/
theorem Path.words_eq {session next : Session σ} {events : List Event}
    (hpath : session.Path events next) (hdraws : ∀ made, .drew made ∉ events) :
    next.supply.words = session.supply.words := by
  induction hpath with
  | done => rfl
  | ask hreply _ ih => exact ih fun made hmem => hdraws made (List.mem_cons_of_mem _ hmem)
  | draw hmade _ ih => exact (hdraws _ (List.mem_cons_self ..)).elim
  | issue _ ih => exact ih hdraws

/-- The session over the same store, of which a transcript is kept. -/
def recorded (session : Session σ) : Session (Store.Recorded σ) where
  store := ⟨session.store, []⟩
  supply := session.supply
  progress := session.progress

/-- The transcript has the calls among the events. -/
theorem Path.transcript_eq {session next : Session (Store.Recorded σ)} {events : List Event}
    (hpath : session.Path events next) :
    next.store.transcript = session.store.transcript ++ events.filterMap Event.exchange? := by
  induction hpath with
  | done => simp
  | ask hreply _ ih =>
      rw [Store.Recorded.outcome_answer] at hreply
      obtain ⟨rfl, rfl⟩ := Prod.mk.inj hreply
      rw [ih]
      simp [Event.exchange?]
  | draw hmade _ ih =>
      exact ih
  | issue _ ih => exact ih

end Session

/-! ## Courses of computations -/

section Runs

variable {σ α β : Type} [Store σ]

/-- Whatever session the computation is run in, its events and its answer stand in the relation. -/
def Runs (x : AllocationM σ α) (course : List Event → Except AllocationError α → Prop) : Prop :=
  ∀ session : Session σ, Yields x session fun answer next =>
    ∃ events, session.Path events next ∧ course events answer

theorem Runs.pure {course : List Event → Except AllocationError α → Prop} {a : α}
    (h : course [] (.ok a)) : Runs (pure a : AllocationM σ α) course :=
  fun session => ⟨[], .done session, h⟩

theorem Runs.throw {course : List Event → Except AllocationError α → Prop} {e : AllocationError}
    (h : course [] (.error e)) : Runs (throw e : AllocationM σ α) course :=
  fun session => ⟨[], .done session, h⟩

theorem Runs.imp {x : AllocationM σ α}
    {course weaker : List Event → Except AllocationError α → Prop} (hruns : Runs x course)
    (himp : ∀ events answer, course events answer → weaker events answer) : Runs x weaker := by
  intro session
  refine (hruns session).imp ?_
  rintro answer next ⟨events, hpath, hcourse⟩
  exact ⟨events, hpath, himp events answer hcourse⟩

variable {course : List Event → Except AllocationError β → Prop}

theorem Runs.bind {x : AllocationM σ α} {f : α → AllocationM σ β}
    {first : List Event → Except AllocationError α → Prop} (hfirst : Runs x first)
    (herror : ∀ events cause, first events (.error cause) → course events (.error cause))
    (hok : ∀ events a, first events (.ok a) →
      Runs (f a) fun more answer => course (events ++ more) answer) : Runs (x >>= f) course := by
  intro session
  refine (hfirst session).bind ?_ ?_
  · rintro cause next ⟨events, hpath, hevents⟩
    exact ⟨events, hpath, herror events cause hevents⟩
  · rintro a middle ⟨events, hpath, hevents⟩
    refine (hok events a hevents middle).imp ?_
    rintro answer next ⟨more, hmore, hcourse⟩
    exact ⟨events ++ more, hpath.append hmore, hcourse⟩

theorem Runs.call (call : Call) (wrap : α → Answer) {operation : StoreM σ α}
    (hcall : Store.answer call = wrap <$> operation)
    {f : Except StoreError α → AllocationM σ β}
    (hreply : ∀ reply, Runs (f reply) fun more answer =>
      course (.asked ⟨call, reply.map wrap⟩ :: more) answer) :
    Runs (Session.call operation >>= f) course := by
  intro session
  refine Yields.of_outcome (Session.outcome_call session operation) ?_
  refine (hreply _ _).imp ?_
  rintro answer next ⟨more, hmore, hcourse⟩
  exact ⟨_, .ask (by rw [hcall, outcome_map]) hmore, hcourse⟩

theorem Runs.require (call : Call) (wrap : α → Answer) {operation : StoreM σ α}
    (hcall : Store.answer call = wrap <$> operation) {f : α → AllocationM σ β}
    (herror : ∀ cause, course [.asked ⟨call, .error cause⟩] (.error (.store cause)))
    (hok : ∀ a, Runs (f a) fun more answer =>
      course (.asked ⟨call, .ok (wrap a)⟩ :: more) answer) :
    Runs (Session.require operation >>= f) course := by
  rw [Session.require, bind_assoc]
  refine Runs.call call wrap hcall fun reply => ?_
  cases reply with
  | error cause => exact Runs.throw (herror cause)
  | ok a => exact hok a

theorem Runs.generate {generator : Generator} {f : Puzzle → AllocationM σ β}
    (herror : ∀ cause, course [.drew (.error cause)] (.error (.exhausted cause)))
    (hok : ∀ puzzle, Runs (f puzzle) fun more answer =>
      course (.drew (.ok puzzle) :: more) answer) :
    Runs (Session.generate generator >>= f) course := by
  intro session
  unfold Yields
  rw [outcome_bind, Session.outcome_generate]
  rcases hmade : generator.generate.run session.supply.words with ⟨cause | puzzle, words⟩
  · exact ⟨_, .draw hmade (.done _), herror cause⟩
  · obtain ⟨more, hmore, hcourse⟩ := hok puzzle (session.withWords words)
    exact ⟨_, .draw hmade hmore, hcourse⟩

theorem Runs.issue {f : Identifier × Timestamp → AllocationM σ β}
    (hok : ∀ issued, Runs (f issued) course) : Runs (Session.issue >>= f) course := by
  intro session
  refine Yields.of_outcome (Session.outcome_issue session) ?_
  refine (hok _ _).imp ?_
  rintro answer next ⟨more, hmore, hcourse⟩
  exact ⟨more, .issue hmore, hcourse⟩

end Runs

namespace Course

/-! ## The courses of the parts of a request -/

/-- Entries are offered until one can be marked, or none is left. -/
inductive Claims : List Event → Except AllocationError (Option PoolEntry) → Prop
  | unsettled : Claims [] (.error .unsettled)
  | unread (cause : StoreError) :
      Claims [.asked ⟨.findUnused, .error cause⟩] (.error (.store cause))
  | empty : Claims [.asked ⟨.findUnused, .ok (.entry none)⟩] (.ok none)
  | unmarked (candidate : PoolEntry) (cause : StoreError) :
      Claims [.asked ⟨.findUnused, .ok (.entry (some candidate))⟩,
        .asked ⟨.markUsed candidate.id, .error cause⟩] (.error (.store cause))
  | claimed (candidate entry : PoolEntry) :
      Claims [.asked ⟨.findUnused, .ok (.entry (some candidate))⟩,
        .asked ⟨.markUsed candidate.id, .ok (.entry (some entry))⟩] (.ok (some entry))
  | late {events : List Event} {answer : Except AllocationError (Option PoolEntry)}
      (candidate : PoolEntry) (hrest : Claims events answer) :
      Claims (.asked ⟨.findUnused, .ok (.entry (some candidate))⟩ ::
        .asked ⟨.markUsed candidate.id, .ok (.entry none)⟩ :: events) answer

/-- Puzzles are drawn until one with a new equation can be put into the pool. -/
inductive Generates (existing : Std.HashSet Equation) :
    List Event → Except AllocationError PoolEntry → Prop
  | exhausted (cause : GenerationExhausted) : Generates existing [] (.error (.exhausted cause))
  | undrawn (cause : GenerationExhausted) :
      Generates existing [.drew (.error cause)] (.error (.exhausted cause))
  | known {events : List Event} {answer : Except AllocationError PoolEntry} (puzzle : Puzzle)
      (hrest : Generates existing events answer) :
      Generates existing (.drew (.ok puzzle) :: events) answer
  | refused (puzzle : Puzzle) {entry : PoolEntry} (hnew : entry.equation ∉ existing)
      (hused : entry.used = true) (cause : StoreError) :
      Generates existing [.drew (.ok puzzle), .asked ⟨.insertPool [entry], .error cause⟩]
        (.error (.store cause))
  | late {events : List Event} {answer : Except AllocationError PoolEntry} (puzzle : Puzzle)
      {entry : PoolEntry} (hnew : entry.equation ∉ existing) (hused : entry.used = true)
      (equation : Equation) (hrest : Generates existing events answer) :
      Generates existing (.drew (.ok puzzle) ::
        .asked ⟨.insertPool [entry], .error (.duplicateEquation equation)⟩ :: events) answer
  | added (puzzle : Puzzle) {entry : PoolEntry} (hnew : entry.equation ∉ existing)
      (hused : entry.used = true) (count : Nat) :
      Generates existing [.drew (.ok puzzle), .asked ⟨.insertPool [entry], .ok (.count count)⟩]
        (.ok entry)

/-- An entry is claimed, or else generated. -/
inductive Obtains : List Event → Except AllocationError PoolEntry → Prop
  | unclaimed {events : List Event} {cause : AllocationError}
      (hclaims : Claims events (.error cause)) : Obtains events (.error cause)
  | claimed {events : List Event} {entry : PoolEntry} (hclaims : Claims events (.ok (some entry))) :
      Obtains events (.ok entry)
  | unlisted {events : List Event} (hclaims : Claims events (.ok none)) (cause : StoreError) :
      Obtains (events ++ [.asked ⟨.poolEquations, .error cause⟩]) (.error (.store cause))
  | generated {events more : List Event} {existing : Std.HashSet Equation}
      {answer : Except AllocationError PoolEntry} (hclaims : Claims events (.ok none))
      (hgenerates : Generates existing more answer) :
      Obtains (events ++ .asked ⟨.poolEquations, .ok (.equations existing)⟩ :: more) answer

/-- The day is looked up, and if it has no equation, it is given that of an entry. -/
inductive Resolves (date : Day) : List Event → Except AllocationError DailyEquation → Prop
  | unread (cause : StoreError) :
      Resolves date [.asked ⟨.findDaily date, .error cause⟩] (.error (.store cause))
  | known (daily : DailyEquation) :
      Resolves date [.asked ⟨.findDaily date, .ok (.daily (some daily))⟩] (.ok daily)
  | unobtained {events : List Event} {cause : AllocationError}
      (hobtains : Obtains events (.error cause)) :
      Resolves date (.asked ⟨.findDaily date, .ok (.daily none)⟩ :: events) (.error cause)
  | unassigned {events : List Event} {entry : PoolEntry} (hobtains : Obtains events (.ok entry))
      (id : Identifier) (created : Timestamp) (cause : StoreError) :
      Resolves date (.asked ⟨.findDaily date, .ok (.daily none)⟩ :: (events ++
          [.asked ⟨.insertDaily (.ofEntry id created date entry), .error cause⟩]))
        (.error (.store cause))
  | assigned {events : List Event} {entry : PoolEntry} (hobtains : Obtains events (.ok entry))
      (id : Identifier) (created : Timestamp) :
      Resolves date (.asked ⟨.findDaily date, .ok (.daily none)⟩ :: (events ++
          [.asked ⟨.insertDaily (.ofEntry id created date entry), .ok .done⟩]))
        (.ok (.ofEntry id created date entry))

end Course

namespace Allocator

open Course

variable {σ : Type} [Store σ]

theorem runs_claimEntry (patience : Nat) :
    Runs (claimEntry patience : AllocationM σ (Option PoolEntry)) Claims := by
  induction patience with
  | zero => exact .throw .unsettled
  | succ patience ih =>
      unfold claimEntry
      refine Runs.require .findUnused .entry rfl .unread fun found => ?_
      cases found with
      | none => exact .pure .empty
      | some candidate =>
          refine Runs.require (.markUsed candidate.id) .entry rfl (.unmarked candidate)
            fun marked => ?_
          cases marked with
          | none => exact ih.imp fun events answer hclaims => .late candidate hclaims
          | some entry => exact .pure (.claimed candidate entry)

theorem runs_generateEntry (generator : Generator) (existing : Std.HashSet Equation)
    (attempts : Nat) :
    Runs (generateEntry generator existing attempts : AllocationM σ PoolEntry)
      (Generates existing) := by
  induction attempts with
  | zero => exact .throw (.exhausted _)
  | succ attempts ih =>
      unfold generateEntry
      refine Runs.generate .undrawn fun puzzle => ?_
      split
      · exact ih.imp fun events answer hgenerates => .known puzzle hgenerates
      · next hnew =>
          rw [Session.newEntry, bind_assoc]
          refine Runs.issue fun issued => ?_
          obtain ⟨id, created⟩ := issued
          have hunknown : (PoolEntry.ofPuzzle id created puzzle true).equation ∉ existing := hnew
          rw [pure_bind]
          refine Runs.call (.insertPool _) .count rfl fun reply => ?_
          cases reply with
          | ok count => exact .pure (.added puzzle hunknown rfl count)
          | error cause =>
              cases cause with
              | duplicateEquation equation =>
                  exact ih.imp fun events answer hgenerates =>
                    .late puzzle hunknown rfl equation hgenerates
              | _ => exact .throw (.refused puzzle hunknown rfl _)

theorem runs_assign {date : Day} {events : List Event} {entry : PoolEntry}
    (hobtains : Obtains events (.ok entry)) :
    Runs (assign date entry : AllocationM σ DailyEquation) fun more answer =>
      Resolves date (.asked ⟨.findDaily date, .ok (.daily none)⟩ :: (events ++ more)) answer := by
  unfold assign
  refine Runs.issue fun issued => ?_
  obtain ⟨id, created⟩ := issued
  refine Runs.require (.insertDaily (.ofEntry id created date entry)) (fun _ => .done) rfl
    (.unassigned hobtains id created) fun _ => ?_
  exact .pure (.assigned hobtains id created)

theorem runs_resolve (allocator : Allocator) (date : Day) :
    Runs (allocator.resolve date : AllocationM σ DailyEquation) (Resolves date) := by
  unfold resolve
  refine Runs.require (.findDaily date) .daily rfl .unread fun found => ?_
  cases found with
  | some daily => exact .pure (.known daily)
  | none =>
      refine (runs_claimEntry _).bind (fun _ _ hclaims => .unobtained (.unclaimed hclaims)) ?_
      intro events found hclaims
      cases found with
      | some entry =>
          change Runs (pure entry >>= assign date) _
          rw [pure_bind]
          exact runs_assign (.claimed hclaims)
      | none =>
          refine Runs.require .poolEquations .equations rfl
            (fun cause => .unobtained (.unlisted hclaims cause)) fun existing => ?_
          refine (runs_generateEntry _ _ _).bind
            (fun _ _ hgenerates => .unobtained (.generated hclaims hgenerates)) ?_
          intro more entry hgenerates
          refine (runs_assign (.generated hclaims hgenerates)).imp fun last answer hresolves => ?_
          simpa using hresolves

end Allocator

end EquationPuzzle
