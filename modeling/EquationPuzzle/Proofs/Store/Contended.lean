import EquationPuzzle.Proofs.Store.Contract

/-!
# Stores with other clients

A contended store is shared with other clients, who make calls of their own between those of the
client that is looked at.  What they call is arbitrary.  Each turn of the client is noted with what
the store was right before and right after it, so that one can tell what the client itself has done.
-/

namespace EquationPuzzle

namespace Store

/-- A call of the client, its reply, and the store right before and right after it. -/
structure Turn (σ : Type) where
  call : Call
  before : σ
  reply : Except StoreError Answer
  after : σ

structure Contended (σ : Type) where
  store : σ
  /-- What the others call before each of the client's next calls. -/
  others : List (List Call)
  /-- The turns of the client so far, the first one first. -/
  turns : List (Turn σ)

/-- The batch that a turn was to insert into the pool. -/
def Turn.batch? {σ : Type} (turn : Turn σ) : Option (List PoolEntry) :=
  match turn.call with
  | .insertPool batch => some batch
  | _ => none

namespace Contended

variable {σ α : Type} [Store σ]

/-- A call that is made after those of the others. -/
def take (call : Call) (wrap : α → Answer) (operation : StoreM σ α) : StoreM (Contended σ) α :=
  ExceptT.mk fun state =>
    let before := (converse (state.others.headD []) state.store).2
    let (reply, after) := outcome operation before
    (reply, ⟨after, state.others.tail, state.turns ++ [⟨call, before, reply.map wrap, after⟩]⟩)

instance : Store (Contended σ) where
  findDaily date := take (.findDaily date) .daily (findDaily date)
  insertDaily daily := take (.insertDaily daily) (fun _ => .done) (insertDaily daily)
  findUnused := take .findUnused .entry findUnused
  markUsed id := take (.markUsed id) .entry (markUsed id)
  insertPool batch := take (.insertPool batch) .count (insertPool batch)
  poolEquations := take .poolEquations .equations poolEquations
  countPool := take .countPool .count countPool
  countUsed := take .countUsed .count countUsed
  countDaily := take .countDaily .count countDaily

/-- What is left to a client that has taken a turn. -/
def took (state : Contended σ) (turn : Turn σ) : Contended σ :=
  ⟨turn.after, state.others.tail, state.turns ++ [turn]⟩

theorem outcome_take (call : Call) (wrap : α → Answer) (operation : StoreM σ α)
    (state : Contended σ) :
    outcome (take call wrap operation) state =
      ((outcome operation (converse (state.others.headD []) state.store).2).1,
        state.took ⟨call, (converse (state.others.headD []) state.store).2,
          (outcome operation (converse (state.others.headD []) state.store).2).1.map wrap,
          (outcome operation (converse (state.others.headD []) state.store).2).2⟩) := rfl

end Contended

/-- The turn is taken right after the others have made their calls, and the store is then what its
call makes of it. -/
structure Turn.Follows {σ : Type} [Store σ] (start : σ) (others : List Call) (turn : Turn σ) :
    Prop where
  before_eq : turn.before = (converse others start).2
  after_eq : turn.after = (outcome (answer turn.call) turn.before).2

section Turns

variable {σ α : Type} [Store σ] (contract : Contract σ)

/-- The turn has failed, and not for an equation that is in the pool already. -/
structure Turn.Fails (cause : StoreError) (turn : Turn σ) : Prop where
  reply_eq : turn.reply = .error cause
  ne_duplicateEquation : ∀ equation, cause ≠ .duplicateEquation equation

/-- The client has not changed the records by the turn. -/
def Turn.Idle (turn : Turn σ) : Prop :=
  contract.records turn.after = contract.records turn.before

/-- By the turn the client has added the batch to the pool, whose equations were new there, and has
changed nothing else. -/
structure Turn.Adds (batch : List PoolEntry) (turn : Turn σ) : Prop where
  call_eq : turn.call = .insertPool batch
  reply_eq : turn.reply = .ok (.count batch.length)
  fresh : (contract.records turn.before).Fresh batch
  pool_eq : (contract.records turn.after).pool = (contract.records turn.before).pool + batch
  daily_eq : (contract.records turn.after).daily = (contract.records turn.before).daily

variable {contract}

/-- The turn does what is promised, whatever the others have done before it. -/
theorem Contract.yields_take {call : Call} {wrap : α → Answer} {operation : StoreM σ α}
    (hcall : answer call = wrap <$> operation) {state : Contended σ}
    (hvalid : contract.valid state.store) :
    Yields (Contended.take call wrap operation) state fun answer next =>
      contract.valid next.store ∧ ∃ turn, next.turns = state.turns ++ [turn] ∧ turn.call = call ∧
        turn.reply = answer.map wrap ∧
          (contract.records turn.before).Permits call turn.reply (contract.records turn.after) := by
  have hothers := contract.valid_converse (state.others.headD []) hvalid
  have hkeeps := contract.keeps call _ hothers
  rw [Yields, hcall, outcome_map] at hkeeps
  exact ⟨hkeeps.1, _, rfl, rfl, rfl, hkeeps.2⟩

theorem Contract.yields_poolEquations {state : Contended σ} (hvalid : contract.valid state.store) :
    Yields poolEquations state fun answer next =>
      contract.valid next.store ∧ ∃ turn, next.turns = state.turns ++ [turn] ∧
        turn.batch? = none ∧ turn.Idle contract ∧
          ∀ cause, answer = .error cause → turn.Fails cause := by
  refine (Contract.yields_take rfl hvalid).imp fun answer next hnext => ?_
  obtain ⟨hvalid, turn, hturns, hcall, hreply, hpermits⟩ := hnext
  obtain ⟨hidle, hcause⟩ := hpermits.of_poolEquations
  refine ⟨hvalid, turn, hturns, by simp [Turn.batch?, hcall], hidle, ?_⟩
  rintro cause rfl
  exact ⟨hreply, fun equation h => hcause equation (by rw [hreply, ← h]; rfl)⟩

/-- An insertion that is answered has added the batch.  Any other has done nothing, and if it is
refused for an equation, then for one of the batch. -/
theorem Contract.yields_insertPool {state : Contended σ} (hvalid : contract.valid state.store)
    (batch : List PoolEntry) :
    Yields (insertPool batch) state fun answer next =>
      contract.valid next.store ∧ ∃ turn, next.turns = state.turns ++ [turn] ∧
        turn.batch? = some batch ∧
          (∀ count, answer = .ok count → count = batch.length ∧ turn.Adds contract batch) ∧
            ∀ cause, answer = .error cause → turn.Idle contract ∧
              (turn.Fails cause ∨ ∃ equation ∈ batch.map (·.equation),
                cause = .duplicateEquation equation) := by
  refine (Contract.yields_take rfl hvalid).imp fun answer next hnext => ?_
  obtain ⟨hvalid, turn, hturns, hcall, hreply, hpermits⟩ := hnext
  refine ⟨hvalid, turn, hturns, by simp [Turn.batch?, hcall], ?_, ?_⟩
  · rintro count rfl
    rw [hreply] at hpermits
    obtain ⟨hcount, hfresh, hafter⟩ := hpermits.of_insertPool_ok
    obtain rfl : count = batch.length := by simpa using hcount
    exact ⟨rfl, hcall, hreply, hfresh, by rw [hafter], by rw [hafter]⟩
  · rintro cause rfl
    have hidle := hreply ▸ hpermits
    refine ⟨hidle.eq_of_error, ?_⟩
    by_cases hcause : ∃ equation, cause = .duplicateEquation equation
    · obtain ⟨equation, rfl⟩ := hcause
      exact Or.inr ⟨equation, hidle.mem_of_duplicateEquation, rfl⟩
    · exact Or.inl ⟨hreply, fun equation h => hcause ⟨equation, h⟩⟩

end Turns

end Store

end EquationPuzzle
