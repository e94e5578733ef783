import EquationPuzzle.Proofs.Store.Outcome

/-!
# Stores that agree

Two stores agree along a relation of their states if every call, made in related states, answers
alike and leads to related states again.  No sequence of calls tells such stores apart.
-/

namespace EquationPuzzle

section Agrees

variable {ε σ τ α β : Type} {related : σ → τ → Prop}

/-- In related states the computations answer alike, and they keep the states related. -/
def Agrees (related : σ → τ → Prop) (x : ExceptT ε (StateM σ) α) (y : ExceptT ε (StateM τ) α) :
    Prop :=
  ∀ s t, related s t →
    (outcome x s).1 = (outcome y t).1 ∧ related (outcome x s).2 (outcome y t).2

theorem Agrees.pure (a : α) :
    Agrees related (pure a : ExceptT ε (StateM σ) α) (pure a) :=
  fun _ _ hrelated => ⟨rfl, hrelated⟩

theorem Agrees.throw (e : ε) :
    Agrees related (throw e : ExceptT ε (StateM σ) α) (throw e) :=
  fun _ _ hrelated => ⟨rfl, hrelated⟩

theorem Agrees.bind {x : ExceptT ε (StateM σ) α} {y : ExceptT ε (StateM τ) α}
    {f : α → ExceptT ε (StateM σ) β} {g : α → ExceptT ε (StateM τ) β}
    (hfirst : Agrees related x y) (hrest : ∀ a, Agrees related (f a) (g a)) :
    Agrees related (x >>= f) (y >>= g) := by
  intro s t hrelated
  obtain ⟨hanswer, hnext⟩ := hfirst s t hrelated
  rw [outcome_bind, outcome_bind]
  rcases hx : outcome x s with ⟨answer, s'⟩
  rcases hy : outcome y t with ⟨answer', t'⟩
  rw [hx, hy] at hanswer hnext
  obtain rfl : answer = answer' := hanswer
  cases answer with
  | error cause => exact ⟨rfl, hnext⟩
  | ok a => exact hrest a s' t' hnext

theorem Agrees.map {x : ExceptT ε (StateM σ) α} {y : ExceptT ε (StateM τ) α} (f : α → β)
    (h : Agrees related x y) : Agrees related (f <$> x) (f <$> y) := by
  rw [map_eq_pure_bind, map_eq_pure_bind]
  exact h.bind fun a => .pure (f a)

end Agrees

/-! ## Sequences of calls -/

namespace Store

inductive Call where
  | findDaily (date : Day)
  | insertDaily (daily : DailyEquation)
  | findUnused
  | markUsed (id : Identifier)
  | insertPool (batch : List PoolEntry)
  | poolEquations
  | countPool
  | countUsed
  | countDaily

inductive Answer where
  | done
  | daily (found : Option DailyEquation)
  | entry (found : Option PoolEntry)
  | equations (known : Std.HashSet Equation)
  | count (number : Nat)

def answer {σ : Type} [Store σ] : Call → StoreM σ Answer
  | .findDaily date => .daily <$> findDaily date
  | .insertDaily daily => (fun _ => .done) <$> insertDaily daily
  | .findUnused => .entry <$> findUnused
  | .markUsed id => .entry <$> markUsed id
  | .insertPool batch => .count <$> insertPool batch
  | .poolEquations => .equations <$> poolEquations
  | .countPool => .count <$> countPool
  | .countUsed => .count <$> countUsed
  | .countDaily => .count <$> countDaily

/-- The answers to calls made one after the other, whether they fail or not, and the state in the
end. -/
def converse {σ : Type} [Store σ] : List Call → σ → List (Except StoreError Answer) × σ
  | [], s => ([], s)
  | call :: rest, s =>
    let (reply, next) := outcome (answer call) s
    let (replies, last) := converse rest next
    (reply :: replies, last)

variable {σ τ : Type} [Store σ] [Store τ]

/-- Every call of one store agrees with the same call of the other. -/
structure Agree (related : σ → τ → Prop) : Prop where
  findDaily : ∀ date, Agrees related (Store.findDaily date) (Store.findDaily date)
  insertDaily : ∀ daily, Agrees related (Store.insertDaily daily) (Store.insertDaily daily)
  findUnused : Agrees related Store.findUnused Store.findUnused
  markUsed : ∀ id, Agrees related (Store.markUsed id) (Store.markUsed id)
  insertPool : ∀ batch, Agrees related (Store.insertPool batch) (Store.insertPool batch)
  poolEquations : Agrees related Store.poolEquations Store.poolEquations
  countPool : Agrees related Store.countPool Store.countPool
  countUsed : Agrees related Store.countUsed Store.countUsed
  countDaily : Agrees related Store.countDaily Store.countDaily

variable {related : σ → τ → Prop}

theorem Agree.answer (hagree : Agree related) (call : Call) :
    Agrees related (answer call) (answer call) := by
  cases call with
  | findDaily date => exact (hagree.findDaily date).map _
  | insertDaily daily => exact (hagree.insertDaily daily).map _
  | findUnused => exact hagree.findUnused.map _
  | markUsed id => exact (hagree.markUsed id).map _
  | insertPool batch => exact (hagree.insertPool batch).map _
  | poolEquations => exact hagree.poolEquations.map _
  | countPool => exact hagree.countPool.map _
  | countUsed => exact hagree.countUsed.map _
  | countDaily => exact hagree.countDaily.map _

theorem Agree.stats (hagree : Agree related) : Agrees related stats stats :=
  hagree.countPool.bind fun _ => hagree.countUsed.bind fun _ => hagree.countDaily.bind fun _ =>
    .pure _

theorem Agree.converse (hagree : Agree related) (calls : List Call) {s : σ} {t : τ}
    (hrelated : related s t) :
    (converse calls s).1 = (converse calls t).1 ∧
      related (converse calls s).2 (converse calls t).2 := by
  induction calls generalizing s t with
  | nil => exact ⟨rfl, hrelated⟩
  | cons call rest ih =>
      obtain ⟨hreply, hnext⟩ := hagree.answer call s t hrelated
      obtain ⟨hreplies, hlast⟩ := ih hnext
      simp only [Store.converse]
      exact ⟨by rw [hreply, hreplies], hlast⟩

end Store

end EquationPuzzle
