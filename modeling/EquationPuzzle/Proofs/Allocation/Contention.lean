import EquationPuzzle.Proofs.Inventory.Claimed
import EquationPuzzle.Proofs.Store.Contended

/-!
# How an entry is claimed beside other clients

An unused entry is searched for by one call and claimed by another, and in between others may have
claimed it.  The claim then comes too late, and the search starts again.  Nothing that the client
does itself brings this loop closer to its end.  But a late claim costs the others one of theirs,
since the search and the claim agree on which entries are unused, and so there are no more late
claims than claims of the others.  An entry that is won in the end has never been used by anybody.
-/

namespace EquationPuzzle

open Store (Call Contended Turn claimedBy converse)

namespace Store

section Rivals

variable {σ : Type} [Store σ]

/-- The identifiers that the others have claimed before the turns of the client, the first of which
starts from a state. -/
def rivals : σ → List (List Call) → List (Turn σ) → List Identifier
  | _, _, [] => []
  | start, others, turn :: rest =>
    claimedBy (others.headD []) start ++ rivals turn.after others.tail rest

/-- The others have claimed no more than they have called for. -/
theorem length_rivals_le (start : σ) (others : List (List Call)) (turns : List (Turn σ)) :
    (rivals start others turns).length ≤ (others.flatten.filterMap Call.wanted?).length := by
  induction turns generalizing start others with
  | nil => exact Nat.zero_le _
  | cons turn rest ih =>
      have hrest := ih turn.after others.tail
      have hfirst := length_claimedBy_le (others.headD []) start
      unfold rivals
      rw [List.length_append]
      cases others with
      | nil => simpa [claimedBy] using hrest
      | cons calls more =>
          rw [List.flatten_cons, List.filterMap_append, List.length_append]
          exact Nat.add_le_add hfirst hrest

end Rivals

/-! ## Single turns -/

/-- The turn is a search for an unused entry. -/
structure Turn.Searches (start : Inventory) (others : List Call) (found? : Option PoolEntry)
    (turn : Turn Inventory) : Prop extends turn.Follows start others where
  call_eq : turn.call = .findUnused
  reply_eq : turn.reply = .ok (.entry found?)
  found_eq : turn.before.firstUnused? = found?

/-- The turn is a claim of an entry. -/
structure Turn.Attempts (start : Inventory) (others : List Call) (id : Identifier)
    (claimed? : Option PoolEntry) (turn : Turn Inventory) : Prop
    extends turn.Follows start others where
  call_eq : turn.call = .markUsed id
  reply_eq : turn.reply = .ok (.entry claimed?)
  claim_eq : (turn.before.claim? id).map Prod.fst = claimed?

theorem Turn.Searches.call_ne_markUsed {start : Inventory} {others : List Call}
    {found? : Option PoolEntry} {turn : Turn Inventory}
    (hfound : turn.Searches start others found?) {id : Identifier} : turn.call ≠ .markUsed id := by
  rw [hfound.call_eq]
  exact nofun

/-- A search and a claim, in between which the others have claimed the entry that was found. -/
structure Turn.Overtaken (found : Turn Inventory) (others : List Call) (id : Identifier)
    (marked : Turn Inventory) : Prop where
  found_call : found.call = .findUnused
  found_reply : ∃ candidate, candidate.id = id ∧ found.reply = .ok (.entry (some candidate))
  before_eq : marked.before = (converse others found.after).2
  mem_claimedBy : id ∈ claimedBy others found.after

/-- The turn has claimed the entry, which was unused, and nobody claims it any more. -/
structure Turn.Wins (turn : Turn Inventory) (entry : PoolEntry) : Prop where
  call_eq : turn.call = .markUsed entry.id
  reply_eq : turn.reply = .ok (.entry (some entry))
  unused : ∃ known ∈ turn.before.pool, known.used = false ∧ entry = { known with used := true }
  not_mem_claimedBy : ∀ calls, entry.id ∉ claimedBy calls turn.after

/-- The turn is a search, and all entries are used. -/
structure Turn.FindsNone (turn : Turn Inventory) : Prop where
  call_eq : turn.call = .findUnused
  reply_eq : turn.reply = .ok (.entry none)
  used : ∀ entry ∈ turn.before.pool, entry.used

namespace Contended

variable (state : Contended Inventory)

theorem exists_outcome_findUnused :
    ∃ found? turn, Turn.Searches state.store (state.others.headD []) found? turn ∧
      outcome findUnused state = (.ok found?, state.took turn) := by
  have htake : outcome findUnused state = _ := outcome_take .findUnused .entry findUnused state
  rw [Inventory.outcome_findUnused] at htake
  refine ⟨_, _, ?_, htake⟩
  exact ⟨⟨rfl, rfl⟩, rfl, rfl, rfl⟩

theorem exists_outcome_markUsed (id : Identifier) :
    ∃ claimed? turn, Turn.Attempts state.store (state.others.headD []) id claimed? turn ∧
      outcome (markUsed id) state = (.ok claimed?, state.took turn) := by
  have htake : outcome (markUsed id) state = _ := outcome_take (.markUsed id) .entry _ state
  rw [Inventory.outcome_markUsed_eq] at htake
  refine ⟨_, _, ?_, htake⟩
  refine ⟨⟨rfl, ?_⟩, rfl, rfl, rfl⟩
  rw [answer, outcome_map, Inventory.outcome_markUsed_eq]

end Contended

section WellFormed

variable {start : Inventory} (hwell : start.WellFormed) {others : List Call} {id : Identifier}
  {turn : Turn Inventory}

include hwell

theorem Turn.Follows.before_wellFormed (hfollows : turn.Follows start others) :
    turn.before.WellFormed := by
  rw [hfollows.before_eq]
  exact hwell.converse others

theorem Turn.Follows.wellFormed (hfollows : turn.Follows start others) : turn.after.WellFormed := by
  rw [hfollows.after_eq]
  exact (hfollows.before_wellFormed hwell).answer _

/-- What is not used before the turn, the others have not claimed. -/
theorem Turn.Follows.of_not_hasUsed_before (hfollows : turn.Follows start others)
    (hunused : ¬turn.before.HasUsed id) : ¬start.HasUsed id ∧ id ∉ claimedBy others start := by
  rw [hfollows.before_eq] at hunused
  exact hwell.of_not_hasUsed_converse hunused

theorem Turn.Follows.of_not_hasUsed (hfollows : turn.Follows start others)
    (hunused : ¬turn.after.HasUsed id) : ¬start.HasUsed id ∧ id ∉ claimedBy others start := by
  apply hfollows.of_not_hasUsed_before hwell
  intro hused
  rw [hfollows.after_eq] at hunused
  exact hunused (((hfollows.before_wellFormed hwell).grows_answer _).hasUsed hused)

theorem Turn.Searches.findsNone (hfound : turn.Searches start others none) : turn.FindsNone where
  call_eq := hfound.call_eq
  reply_eq := hfound.reply_eq
  used := (hfound.before_wellFormed hwell).firstUnused?_eq_none_iff.mp hfound.found_eq

/-- A claim that comes too late has been overtaken. -/
theorem Turn.Searches.overtaken {found marked : Turn Inventory} {candidate : PoolEntry}
    {between : List Call} (hfound : found.Searches start others (some candidate))
    (hmarked : marked.Attempts found.after between candidate.id none) :
    found.Overtaken between candidate.id marked where
  found_call := hfound.call_eq
  found_reply := ⟨candidate, rfl, hfound.reply_eq⟩
  before_eq := hmarked.before_eq
  mem_claimedBy := by
    have hsame : found.after = found.before := by
      rw [hfound.after_eq, hfound.call_eq]
      rfl
    apply (hfound.wellFormed hwell).mem_claimedBy_of_late
    · rw [hsame]
      exact hfound.found_eq
    · rw [← hmarked.before_eq]
      exact Option.map_eq_none_iff.mp hmarked.claim_eq

theorem Turn.Attempts.wins {entry : PoolEntry}
    (hmarked : turn.Attempts start others id (some entry)) :
    turn.Wins entry ∧ ¬turn.before.HasUsed entry.id := by
  have hbefore := hmarked.before_wellFormed hwell
  obtain ⟨result, hclaim, hentry⟩ := Option.map_eq_some_iff.mp hmarked.claim_eq
  obtain ⟨position, known, hknown, hid, hunused, hclaimed, _⟩ :=
    (hbefore.claim?_eq_some_iff id result.1 result.2).mp hclaim
  have hentry : entry = known.claimed := hentry.symm.trans hclaimed
  have hsame : entry.id = id := by
    rw [hentry]
    exact hid
  have hgranted : turn.before.granted? (.claim id) = some entry.id := by
    simp [Inventory.granted?, hclaim, hsame]
  obtain ⟨hused, hnew⟩ := hbefore.of_granted hgranted
  have hafter : turn.after = turn.before.update (.claim id) := by
    rw [hmarked.after_eq, hmarked.call_eq, (turn.before.outcome_answer _).1]
    rfl
  refine ⟨⟨?_, hmarked.reply_eq, ?_, ?_⟩, hnew⟩
  · rw [hsame]
    exact hmarked.call_eq
  · exact ⟨known, Array.mem_of_getElem? hknown, hunused, hentry⟩
  · intro calls
    rw [← hafter] at hused
    exact (hmarked.wellFormed hwell).not_mem_claimedBy hused calls

end WellFormed

end Store

namespace Allocator

open Store (rivals)

/-! ## The loop -/

/-- The turns in which an entry is searched for and claimed, and what is answered then. -/
inductive Contends : Inventory → List (List Call) → Nat → List (Turn Inventory) →
    Except AllocationError (Option PoolEntry) → Prop
  | unsettled {start : Inventory} {others : List (List Call)} :
      Contends start others 0 [] (.error .unsettled)
  | empty {start : Inventory} {others : List (List Call)} {patience : Nat} {found : Turn Inventory}
      (hfound : found.Searches start (others.headD []) none) :
      Contends start others (patience + 1) [found] (.ok none)
  | won {start : Inventory} {others : List (List Call)} {patience : Nat}
      {found marked : Turn Inventory} {candidate entry : PoolEntry}
      (hfound : found.Searches start (others.headD []) (some candidate))
      (hmarked : marked.Attempts found.after (others.tail.headD []) candidate.id (some entry)) :
      Contends start others (patience + 1) [found, marked] (.ok (some entry))
  | late {start : Inventory} {others : List (List Call)} {patience : Nat}
      {found marked : Turn Inventory} {candidate : PoolEntry} {turns : List (Turn Inventory)}
      {answer : Except AllocationError (Option PoolEntry)}
      (hfound : found.Searches start (others.headD []) (some candidate))
      (hmarked : marked.Attempts found.after (others.tail.headD []) candidate.id none)
      (hrest : Contends marked.after others.tail.tail patience turns answer) :
      Contends start others (patience + 1) (found :: marked :: turns) answer

theorem yields_claimEntry_contended (patience : Nat) (session : Session (Contended Inventory)) :
    Yields (claimEntry patience) session fun answer next =>
      ∃ turns, next.store.turns = session.store.turns ++ turns ∧
        Contends session.store.store session.store.others patience turns answer := by
  induction patience generalizing session with
  | zero => exact ⟨[], (List.append_nil _).symm, .unsettled⟩
  | succ patience ih =>
      unfold claimEntry
      obtain ⟨found?, found, hfound, hfind⟩ := session.store.exists_outcome_findUnused
      have hsearch := session.outcome_require (Store.findUnused : StoreM (Contended Inventory) _)
      rw [hfind] at hsearch
      refine Yields.of_outcome hsearch ?_
      cases found? with
      | none => exact ⟨[found], rfl, .empty hfound⟩
      | some candidate =>
          obtain ⟨claimed?, marked, hmarked, hmark⟩ :=
            (session.store.took found).exists_outcome_markUsed candidate.id
          have hattempt := Session.outcome_require
            { session with store := session.store.took found } (Store.markUsed candidate.id)
          rw [hmark] at hattempt
          refine Yields.of_outcome hattempt ?_
          cases claimed? with
          | some entry =>
              refine ⟨[found, marked], ?_, .won hfound hmarked⟩
              exact List.append_assoc _ [found] [marked]
          | none =>
              refine (ih _).imp ?_
              intro answer next hnext
              rcases hnext with ⟨turns, hturns, hrest⟩
              refine ⟨found :: marked :: turns, hturns.trans ?_, .late hfound hmarked hrest⟩
              simp [Contended.took]

section Contends

variable {start : Inventory} (hwell : start.WellFormed) {others : List (List Call)}
  {patience : Nat} {turns : List (Turn Inventory)}
  {answer : Except AllocationError (Option PoolEntry)}

/-- A claim that comes too late uses up one of the others. -/
theorem length_rivals_late {found marked : Turn Inventory} {id : Identifier}
    (hovertaken : found.Overtaken (others.tail.headD []) id marked) :
    (rivals marked.after others.tail.tail turns).length <
      (rivals start others (found :: marked :: turns)).length := by
  have hpos := List.length_pos_of_mem hovertaken.mem_claimedBy
  simp only [rivals, List.length_append]
  omega

include hwell

theorem Contends.marks_length_le (hcontends : Contends start others patience turns answer) :
    (turns.filterMap (·.call.wanted?)).length ≤ (rivals start others turns).length + 1 := by
  induction hcontends with
  | unsettled => exact Nat.zero_le _
  | empty hfound => simp [hfound.call_eq, Call.wanted?]
  | won hfound hmarked => simp [hfound.call_eq, hmarked.call_eq, Call.wanted?]
  | late hfound hmarked hrest ih =>
      have hmarks := ih (hmarked.wellFormed (hfound.wellFormed hwell))
      simp only [List.filterMap_cons, hfound.call_eq, hmarked.call_eq, Call.wanted?,
        List.length_cons]
      apply Nat.succ_le_succ
      exact Nat.le_trans hmarks (length_rivals_late (hfound.overtaken hwell hmarked))

theorem Contends.error_cases (hcontends : Contends start others patience turns answer)
    {cause : AllocationError} (hanswer : answer = .error cause) :
    cause = .unsettled ∧ patience ≤ (rivals start others turns).length := by
  induction hcontends with
  | unsettled => exact ⟨(Except.error.inj hanswer).symm, Nat.zero_le _⟩
  | empty hfound => contradiction
  | won hfound hmarked => contradiction
  | late hfound hmarked hrest ih =>
      obtain ⟨hcause, hpatience⟩ := ih (hmarked.wellFormed (hfound.wellFormed hwell)) hanswer
      refine ⟨hcause, ?_⟩
      exact Nat.lt_of_le_of_lt hpatience (length_rivals_late (hfound.overtaken hwell hmarked))

theorem Contends.overtaken (hcontends : Contends start others patience turns answer) {i : Nat}
    {marked : Turn Inventory} {id : Identifier} (hturn : turns[i]? = some marked)
    (hcall : marked.call = .markUsed id) (hreply : marked.reply = .ok (.entry none)) :
    ∃ j found, i = j + 1 ∧ turns[j]? = some found ∧
      found.Overtaken (others.getD i []) id marked := by
  induction hcontends generalizing i with
  | unsettled => contradiction
  | empty hfound =>
      rcases i with _ | i
      · cases hturn
        exact absurd hcall hfound.call_ne_markUsed
      · contradiction
  | won hfound hmarked =>
      rcases i with _ | _ | i
      · cases hturn
        exact absurd hcall hfound.call_ne_markUsed
      · cases hturn
        rw [hmarked.reply_eq] at hreply
        simp at hreply
      · contradiction
  | @late start others patience found late candidate turns answer hfound hmarked hrest ih =>
      -- The first turn is a search, the second one the claim, and the others stand further back.
      rcases i with _ | _ | i
      · cases hturn
        exact absurd hcall hfound.call_ne_markUsed
      · cases hturn
        cases hmarked.call_eq.symm.trans hcall
        have hcalls : others.getD 1 [] = others.tail.headD [] := by
          simp [List.head?_eq_getElem?]
        refine ⟨0, found, rfl, rfl, ?_⟩
        rw [hcalls]
        exact hfound.overtaken hwell hmarked
      · obtain ⟨j, before, hnext, hbefore, hovertaken⟩ :=
          ih (hmarked.wellFormed (hfound.wellFormed hwell)) hturn
        have hcalls : others.getD (i + 2) [] = others.tail.tail.getD i [] := by simp
        refine ⟨j + 2, before, by rw [hnext], hbefore, ?_⟩
        rw [hcalls]
        exact hovertaken

theorem Contends.findsNone (hcontends : Contends start others patience turns answer)
    (hanswer : answer = .ok none) :
    ∃ earlier last, turns = earlier ++ [last] ∧ last.FindsNone := by
  induction hcontends with
  | unsettled => contradiction
  | empty hfound => exact ⟨[], _, rfl, hfound.findsNone hwell⟩
  | won hfound hmarked => simp at hanswer
  | late hfound hmarked hrest ih =>
      obtain ⟨earlier, last, hturns, hlast⟩ :=
        ih (hmarked.wellFormed (hfound.wellFormed hwell)) hanswer
      exact ⟨_ :: _ :: earlier, last, by rw [hturns]; rfl, hlast⟩

/-- An entry that is won was not used before, and so the others have not claimed it. -/
theorem Contends.wins (hcontends : Contends start others patience turns answer)
    {entry : PoolEntry} (hanswer : answer = .ok (some entry)) :
    (∃ earlier last, turns = earlier ++ [last] ∧ last.Wins entry) ∧
      ¬start.HasUsed entry.id ∧ entry.id ∉ rivals start others turns := by
  induction hcontends with
  | unsettled => contradiction
  | empty hfound => simp at hanswer
  | won hfound hmarked =>
      cases hanswer
      -- From the claim one goes back, past both groups of calls of the others.
      have hafter := hfound.wellFormed hwell
      obtain ⟨hwins, hnew⟩ := hmarked.wins hafter
      obtain ⟨hnew, hsecond⟩ := hmarked.of_not_hasUsed_before hafter hnew
      obtain ⟨hnew, hfirst⟩ := hfound.of_not_hasUsed hwell hnew
      refine ⟨⟨[_], _, rfl, hwins⟩, hnew, ?_⟩
      simp only [rivals, List.append_nil, List.mem_append, not_or]
      exact ⟨hfirst, hsecond⟩
  | late hfound hmarked hrest ih =>
      have hafter := hfound.wellFormed hwell
      obtain ⟨hlast, hnew, hlater⟩ := ih (hmarked.wellFormed hafter) hanswer
      obtain ⟨hnew, hsecond⟩ := hmarked.of_not_hasUsed hafter hnew
      obtain ⟨hnew, hfirst⟩ := hfound.of_not_hasUsed hwell hnew
      rcases hlast with ⟨earlier, last, hturns, hwins⟩
      refine ⟨⟨_ :: _ :: earlier, last, by rw [hturns]; rfl, hwins⟩, hnew, ?_⟩
      simp only [rivals, List.mem_append, not_or]
      exact ⟨hfirst, hsecond, hlater⟩

end Contends

/-- What comes of the turns of a client that claims an entry while others make calls. -/
structure Contested (start : Inventory) (others : List (List Call)) (patience : Nat)
    (turns : List (Turn Inventory)) (answer : Except AllocationError (Option PoolEntry)) :
    Prop where
  /-- Before a claim that comes too late, and after its own search, the others have claimed the very
  entry. -/
  overtaken : ∀ (i : Nat) (marked : Turn Inventory) (id : Identifier), turns[i]? = some marked →
    marked.call = .markUsed id → marked.reply = .ok (.entry none) →
      ∃ j found, i = j + 1 ∧ turns[j]? = some found ∧
        found.Overtaken (others.getD i []) id marked
  marks_length_le :
    (turns.filterMap (·.call.wanted?)).length ≤ (rivals start others turns).length + 1
  error_cases : ∀ cause, answer = .error cause →
    cause = .unsettled ∧ patience ≤ (rivals start others turns).length
  wins : ∀ entry, answer = .ok (some entry) →
    ∃ earlier last, turns = earlier ++ [last] ∧ last.Wins entry
  /-- The others have not claimed the entry meanwhile, and nobody has before. -/
  not_mem_rivals : ∀ entry, answer = .ok (some entry) → entry.id ∉ rivals start others turns
  not_mem_claimedBy : ∀ entry, answer = .ok (some entry) →
    ∀ (origin : Inventory) (calls : List Call), origin.WellFormed →
      (converse calls origin).2 = start → entry.id ∉ claimedBy calls origin
  findsNone : answer = .ok none → ∃ earlier last, turns = earlier ++ [last] ∧ last.FindsNone

theorem Contends.contested {start : Inventory} {others : List (List Call)} {patience : Nat}
    {turns : List (Turn Inventory)} {answer : Except AllocationError (Option PoolEntry)}
    (hcontends : Contends start others patience turns answer) (hwell : start.WellFormed) :
    Contested start others patience turns answer where
  overtaken _ _ _ hturn hcall hreply := hcontends.overtaken hwell hturn hcall hreply
  marks_length_le := hcontends.marks_length_le hwell
  error_cases _ hanswer := hcontends.error_cases hwell hanswer
  wins _ hanswer := (hcontends.wins hwell hanswer).1
  not_mem_rivals _ hanswer := (hcontends.wins hwell hanswer).2.2
  not_mem_claimedBy entry hanswer origin calls horigin hstart := by
    have hnew := (hcontends.wins hwell hanswer).2.1
    rw [← hstart] at hnew
    exact (horigin.of_not_hasUsed_converse hnew).2
  findsNone hanswer := hcontends.findsNone hwell hanswer

/-- Whatever other clients call between the turns, a claim comes too late only if since its search
the others have claimed that very entry.  So there is one claim more than theirs at the most, and
with patience for more claims than the others make the loop comes to an end.  An entry that is
answered was unused right before it was claimed, and no other claim of it is ever granted; if none
is answered, all entries were used when the pool was last searched. -/
theorem claimEntry_contended (patience : Nat) (session : Session (Contended Inventory))
    (hwell : session.store.store.WellFormed) :
    let start := session.store.store
    let others := session.store.others
    let result := outcome (claimEntry patience) session
    ∃ turns, result.2.store.turns = session.store.turns ++ turns ∧
      Contested start others patience turns result.1 ∧
        let foreign := (others.flatten.filterMap Call.wanted?).length
        (turns.filterMap (·.call.wanted?)).length ≤ foreign + 1 ∧
          (foreign < patience → ∃ found, result.1 = .ok found) := by
  intro start others result
  have hyields : Yields (claimEntry patience) session _ :=
    yields_claimEntry_contended patience session
  obtain ⟨turns, hturns, hcontends⟩ := hyields
  have hcontested : Contested start others patience turns result.1 := hcontends.contested hwell
  have hrivals := Store.length_rivals_le start others turns
  refine ⟨turns, hturns, hcontested, ?_, ?_⟩
  · exact Nat.le_trans hcontested.marks_length_le (Nat.succ_le_succ hrivals)
  · intro hpatience
    cases hanswer : result.1 with
    | ok found => exact ⟨found, rfl⟩
    | error cause =>
        have hle := (hcontested.error_cases cause hanswer).2
        omega

/-- Of two entries another client claims the first, between the search for it and its claim. -/
theorem claimEntry_contended_memory :
    let created : Timestamp := ⟨⟨2032, 2, 29, by decide⟩, 7200, 0, by decide, by decide⟩
    let first : PoolEntry := {
      id := ⟨21⟩
      equation := ⟨#v[.digit 7, .digit 0, .operator .multiply, .digit 2, .operator .add, .digit 8],
        148, by decide, by decide +kernel⟩
      targetNumber := 148
      difficulty := .hard
      used := false
      created := created }
    let second : PoolEntry := { first with
      id := ⟨22⟩
      equation := ⟨#v[.digit 8, .digit 0, .operator .multiply, .digit 2, .operator .add, .digit 8],
        168, by decide, by decide +kernel⟩
      targetNumber := 168 }
    let session : Session (Contended Inventory) :=
      { store := ⟨Inventory.empty.updates [.insertPool [first, second]], [[], [.markUsed ⟨21⟩]], []⟩
        supply := .seeded 7 11 created }
    session.store.store.WellFormed ∧
      let result := outcome (claimEntry 2) session
      ∃ turns, result.2.store.turns = session.store.turns ++ turns ∧
        Contested session.store.store session.store.others 2 turns result.1 ∧
          (turns.filterMap (·.call.wanted?)).length ≤ 2 ∧ ∃ found, result.1 = .ok found := by
  intro created first second session
  have hwell : session.store.store.WellFormed := Inventory.wellFormed_empty.updates _
  obtain ⟨turns, hturns, hcontested, hmarks, hfound⟩ := claimEntry_contended 2 session hwell
  exact ⟨hwell, turns, hturns, hcontested, hmarks, hfound (by decide)⟩

end Allocator

end EquationPuzzle
