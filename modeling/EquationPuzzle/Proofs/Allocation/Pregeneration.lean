import EquationPuzzle.Proofs.Allocation.Requests
import EquationPuzzle.Proofs.Store.Contended

/-!
# How the pool is filled beside other clients

Over any store that keeps its promises, and whatever other clients do between the calls, filling the
pool comes to an end: an insertion that is refused for an equation leaves out the one entry that has
it, so the batch gets smaller with every try and no more tries than entries can be refused.  What is
left out is counted as a duplicate, so that the numbers of a report add up.  The only turn that
changes anything is the last one of a run that is answered.
-/

namespace EquationPuzzle

open Store (Contract Contended Turn)

namespace Allocator

section Alone

variable {σ : Type}

/-- Puzzles are drawn without the store. -/
theorem yields_generate_alone (generator : Generator) (session : Session σ) :
    Yields (Session.counted (Session.generate generator)) session fun answer next =>
      next.store = session.store ∧ ∀ cause, answer = .error cause →
        ∃ reached, cause = .exhausted reached := by
  unfold Yields
  rw [Session.outcome_counted, Session.outcome_generate]
  rcases generator.generate.run session.supply.words with ⟨reached | puzzle, words⟩
  · exact ⟨rfl, fun cause hcause => ⟨reached, (Except.error.inj hcause).symm⟩⟩
  · exact ⟨rfl, by simp⟩

theorem yields_generateMany_alone (generator : Generator) (count : Nat) (session : Session σ) :
    Yields (generateMany generator count) session fun answer next =>
      next.store = session.store ∧
        (∀ cause, answer = .error cause → ∃ reached, cause = .exhausted reached) ∧
          ∀ puzzles, answer = .ok puzzles → puzzles.length = count := by
  induction count generalizing session with
  | zero =>
      refine ⟨rfl, (by rintro _ ⟨⟩), fun puzzles hpuzzles => ?_⟩
      obtain rfl := Except.ok.inj hpuzzles
      rfl
  | succ count ih =>
      unfold generateMany
      refine (yields_generate_alone generator session).bind ?_ ?_
      · rintro cause next ⟨hstore, hexhausted⟩
        refine ⟨hstore, fun other hother => ?_, nofun⟩
        exact hexhausted other (congrArg _ (Except.error.inj hother))
      · rintro puzzle drawn ⟨hdrawn, _⟩
        refine (ih _).bind ?_ ?_
        · rintro cause next ⟨hstore, hexhausted, _⟩
          refine ⟨hstore.trans hdrawn, fun other hother => ?_, nofun⟩
          exact hexhausted other (congrArg _ (Except.error.inj hother))
        · rintro rest next ⟨hstore, _, hlength⟩
          refine ⟨hstore.trans hdrawn, (by rintro _ ⟨⟩), fun puzzles hpuzzles => ?_⟩
          obtain rfl := Except.ok.inj hpuzzles
          rw [List.length_cons, hlength rest rfl]

/-- The entries are unused, and their equations differ from one another and were not seen before. -/
structure Novel (seen : Std.HashSet Equation) (entries : List PoolEntry) : Prop where
  unused : ∀ entry ∈ entries, entry.used = false
  nodup : (entries.map (·.equation)).Nodup
  unseen : ∀ entry ∈ entries, entry.equation ∉ seen

theorem novel_nil (seen : Std.HashSet Equation) : Novel seen [] := by
  constructor <;> simp

theorem Novel.cons {seen : Std.HashSet Equation} {entry : PoolEntry} {entries : List PoolEntry}
    (hnovel : Novel (seen.insert entry.equation) entries) (hunused : entry.used = false)
    (hunseen : entry.equation ∉ seen) : Novel seen (entry :: entries) := by
  have hdistinct : ∀ other ∈ entries, other.equation ≠ entry.equation ∧ other.equation ∉ seen := by
    intro other hother
    have hother := hnovel.unseen other hother
    rw [Std.HashSet.mem_insert, beq_iff_eq, not_or] at hother
    exact ⟨Ne.symm hother.1, hother.2⟩
  constructor
  · simpa [hunused] using hnovel.unused
  · rw [List.map_cons, List.nodup_cons]
    refine ⟨fun hmem => ?_, hnovel.nodup⟩
    obtain ⟨other, hother, hsame⟩ := List.mem_map.mp hmem
    exact (hdistinct other hother).1 hsame
  · intro other hother
    rcases List.mem_cons.mp hother with rfl | hother
    · exact hunseen
    · exact (hdistinct other hother).2

/-- Each new entry is one of the puzzles, and no two of them are alike. -/
theorem exists_outcome_newEntries (seen : Std.HashSet Equation) (puzzles : List Puzzle)
    (session : Session σ) :
    ∃ entries supply, outcome (newEntries seen puzzles) session =
        (.ok entries, { session with supply }) ∧
      entries.length ≤ puzzles.length ∧ Novel seen entries := by
  induction puzzles generalizing seen session with
  | nil => exact ⟨[], session.supply, rfl, le_rfl, novel_nil seen⟩
  | cons puzzle rest ih =>
      unfold newEntries
      split
      · obtain ⟨entries, supply, houtcome, hlength, hnovel⟩ := ih seen session
        exact ⟨entries, supply, houtcome, Nat.le_succ_of_le hlength, hnovel⟩
      · next hunseen =>
          obtain ⟨entries, supply, houtcome, hlength, hnovel⟩ :=
            ih (seen.insert puzzle.equation) session.withIssued
          refine ⟨.ofPuzzle (session.supply.identifier session.supply.issued)
            (session.supply.moment session.supply.issued) puzzle false :: entries, supply, ?_,
            Nat.succ_le_succ hlength, ?_⟩
          · rw [outcome_bind, Session.outcome_newEntry]
            dsimp only
            rw [outcome_bind, houtcome]
            rfl
          · refine Novel.cons hnovel rfl ?_
            rwa [Std.HashSet.contains_iff_mem] at hunseen

end Alone

/-! ## The batch -/

section Batch

variable {σ : Type}

/-- The last turn has failed, and its failure is passed on. -/
def LastFails (cause : AllocationError) (turns : List (Turn σ)) : Prop :=
  ∃ earlier last fault, turns = earlier ++ [last] ∧ last.Fails fault ∧ cause = .store fault

theorem lastFails_singleton {turn : Turn σ} {fault : StoreError} (hfails : turn.Fails fault) :
    LastFails (.store fault) [turn] :=
  ⟨[], turn, fault, rfl, hfails, rfl⟩

theorem LastFails.cons {cause : AllocationError} {turns : List (Turn σ)}
    (hlast : LastFails cause turns) (turn : Turn σ) : LastFails cause (turn :: turns) := by
  obtain ⟨earlier, last, fault, rfl, hfails⟩ := hlast
  exact ⟨turn :: earlier, last, fault, rfl, hfails⟩

variable [Store σ] {contract : Contract σ}

/-- Only the last turn has changed anything, and it has added the batch. -/
def LastAdds (contract : Contract σ) (batch : List PoolEntry) (turns : List (Turn σ)) : Prop :=
  ∃ earlier last, turns = earlier ++ [last] ∧ (∀ turn ∈ earlier, turn.Idle contract) ∧
    last.Adds contract batch

theorem lastAdds_singleton {batch : List PoolEntry} {turn : Turn σ}
    (hadds : turn.Adds contract batch) : LastAdds contract batch [turn] :=
  ⟨[], turn, rfl, by simp, hadds⟩

theorem LastAdds.cons {batch : List PoolEntry} {turns : List (Turn σ)} {turn : Turn σ}
    (hidle : turn.Idle contract) (hlast : LastAdds contract batch turns) :
    LastAdds contract batch (turn :: turns) := by
  obtain ⟨earlier, last, rfl, hearlier, hadds⟩ := hlast
  exact ⟨turn :: earlier, last, rfl, List.forall_mem_cons.mpr ⟨hidle, hearlier⟩, hadds⟩

/-- The entries of a batch that are left when one equation is left out. -/
def without (equation : Equation) (batch : List PoolEntry) : List PoolEntry :=
  batch.filter fun entry => entry.equation ≠ equation

/-- The turns in which a batch is inserted, and what is answered then. -/
inductive Settles (contract : Contract σ) :
    List PoolEntry → Nat → List (Turn σ) → Except AllocationError (Nat × Nat) → Prop
  | added {batch : List PoolEntry} {duplicates : Nat} {turn : Turn σ}
      (hbatch : turn.batch? = some batch) (hadds : turn.Adds contract batch) :
      Settles contract batch duplicates [turn] (.ok (batch.length, duplicates))
  | failed {batch : List PoolEntry} {duplicates : Nat} {turn : Turn σ}
      (hbatch : turn.batch? = some batch) (hidle : turn.Idle contract) {fault : StoreError}
      (hfails : turn.Fails fault) :
      Settles contract batch duplicates [turn] (.error (.store fault))
  | late {batch : List PoolEntry} {duplicates : Nat} {turn : Turn σ} {turns : List (Turn σ)}
      {answer : Except AllocationError (Nat × Nat)} {equation : Equation}
      (hbatch : turn.batch? = some batch) (hidle : turn.Idle contract)
      (hmem : equation ∈ batch.map (·.equation))
      (hrest : Settles contract (without equation batch) (duplicates + 1) turns answer) :
      Settles contract batch duplicates (turn :: turns) answer

section Without

variable {batch : List PoolEntry} {equation : Equation}

theorem nodup_without (hnodup : (batch.map (·.equation)).Nodup) :
    ((without equation batch).map (·.equation)).Nodup :=
  hnodup.sublist (List.filter_sublist.map _)

/-- Of entries with different equations just one has the equation that is left out. -/
theorem length_without (hnodup : (batch.map (·.equation)).Nodup)
    (hmem : equation ∈ batch.map (·.equation)) :
    (without equation batch).length + 1 = batch.length := by
  have hleft : (without equation batch).map (·.equation) =
      (batch.map (·.equation)).erase equation := by
    rw [hnodup.erase_eq_filter, List.filter_map]
    simp [without, Function.comp_def, bne, beq_eq_decide]
  have hlength := congrArg List.length hleft
  rw [List.length_map, List.length_erase_of_mem hmem, List.length_map] at hlength
  have hpos := List.length_pos_of_mem hmem
  rw [List.length_map] at hpos
  omega

end Without

/-- The tries do not run out, whatever the others do, if there are more of them than entries. -/
theorem yields_insertBatch_contended {session : Session (Contended σ)}
    (hvalid : contract.valid session.store.store) (duplicates : Nat) {batch : List PoolEntry}
    {tries : Nat} (htries : batch.length < tries) (hnodup : (batch.map (·.equation)).Nodup) :
    Yields (insertBatch duplicates batch tries) session fun answer next =>
      ∃ turns, next.store.turns = session.store.turns ++ turns ∧
        Settles contract batch duplicates turns answer := by
  induction tries generalizing session duplicates batch with
  | zero => omega
  | succ tries ih =>
      unfold insertBatch
      refine Session.yields_call_bind (Contract.yields_insertPool hvalid batch) ?_
      rintro reply store ⟨hvalid, turn, hturns, hbatch, hok, herror⟩
      cases reply with
      | ok count =>
          obtain ⟨rfl, hadds⟩ := hok count rfl
          exact ⟨[turn], hturns, .added hbatch hadds⟩
      | error cause =>
          obtain ⟨hidle, hfails | ⟨equation, hmem, rfl⟩⟩ := herror cause rfl
          · cases cause with
            | duplicateEquation equation => exact absurd rfl (hfails.ne_duplicateEquation equation)
            | _ => exact ⟨[turn], hturns, .failed hbatch hidle hfails⟩
          · have hlength := length_without hnodup hmem
            obtain ⟨turns, hmore, hrest⟩ := @ih { session with store } hvalid (duplicates + 1)
              (without equation batch) (by omega) (nodup_without hnodup)
            refine ⟨turn :: turns, hmore.trans ?_, .late hbatch hidle hmem hrest⟩
            rw [hturns, List.append_assoc]
            rfl

section Settles

variable {batch : List PoolEntry} {duplicates : Nat} {turns : List (Turn σ)}
  {answer : Except AllocationError (Nat × Nat)}

theorem Settles.lastFails (hsettles : Settles contract batch duplicates turns answer)
    {cause : AllocationError} (hanswer : answer = .error cause) : LastFails cause turns := by
  induction hsettles with
  | added hbatch hadds => contradiction
  | failed hbatch hidle hfails => exact Except.error.inj hanswer ▸ lastFails_singleton hfails
  | late hbatch hidle hmem hrest ih => exact (ih hanswer).cons _

/-- The batch is tried first, and no more tries follow than it has entries. -/
theorem Settles.exists_batches (hsettles : Settles contract batch duplicates turns answer)
    (hnodup : (batch.map (·.equation)).Nodup) :
    ∃ later, turns.filterMap Turn.batch? = batch :: later ∧ later.length ≤ batch.length := by
  induction hsettles with
  | added hbatch hadds => exact ⟨[], by simp [hbatch], by simp⟩
  | failed hbatch hidle hfails => exact ⟨[], by simp [hbatch], by simp⟩
  | late hbatch hidle hmem hrest ih =>
      obtain ⟨later, hlater, hcount⟩ := ih (nodup_without hnodup)
      have hlength := length_without hnodup hmem
      refine ⟨_, by rw [List.filterMap_cons_some hbatch, hlater], ?_⟩
      rw [List.length_cons]
      omega

theorem Settles.idle (hsettles : Settles contract batch duplicates turns answer)
    {cause : AllocationError} (hanswer : answer = .error cause) :
    ∀ turn ∈ turns, turn.Idle contract := by
  induction hsettles with
  | added hbatch hadds => contradiction
  | failed hbatch hidle hfails => simpa using hidle
  | late hbatch hidle hmem hrest ih => exact List.forall_mem_cons.mpr ⟨hidle, ih hanswer⟩

/-- Each entry of the batch is inserted in the end or is counted as a duplicate. -/
theorem Settles.adds (hsettles : Settles contract batch duplicates turns answer)
    (hnodup : (batch.map (·.equation)).Nodup) {inserted left : Nat}
    (hanswer : answer = .ok (inserted, left)) :
    inserted + left = batch.length + duplicates ∧
      ∃ kept, kept.Sublist batch ∧ kept.length = inserted ∧ LastAdds contract kept turns := by
  induction hsettles with
  | added hbatch hadds =>
      obtain ⟨rfl, rfl⟩ := Prod.mk.inj (Except.ok.inj hanswer)
      exact ⟨rfl, _, List.Sublist.refl _, rfl, lastAdds_singleton hadds⟩
  | failed hbatch hidle hfails => contradiction
  | late hbatch hidle hmem hrest ih =>
      obtain ⟨hsum, kept, hkept, hinserted, hlast⟩ := ih (nodup_without hnodup) hanswer
      have hlength := length_without hnodup hmem
      exact ⟨by omega, kept, hkept.trans List.filter_sublist, hinserted, hlast.cons hidle⟩

end Settles

end Batch

/-! ## The range -/

section Range

variable {σ : Type} [Store σ] {contract : Contract σ}

/-- What the client has done in its turns to fill the pool for a number of days. -/
structure Pregenerates (contract : Contract σ) (days : Nat) (turns : List (Turn σ))
    (answer : Except AllocationError Pregeneration) : Prop where
  /-- No puzzle was found, or the store has failed: the tries have not run out. -/
  error_cases : ∀ cause, answer = .error cause →
    (∃ reached, cause = .exhausted reached) ∨ LastFails cause turns
  batches_length_le : ∀ batch ∈ (turns.filterMap Turn.batch?).head?,
    (turns.filterMap Turn.batch?).length ≤ batch.length + 1
  idle : ∀ cause, answer = .error cause → ∀ turn ∈ turns, turn.Idle contract
  generated_eq : ∀ report, answer = .ok report →
    report.generated = days ∧ report.inserted + report.duplicates = report.generated
  adds : ∀ report, answer = .ok report →
    ∃ batch, batch.length = report.inserted ∧ (∀ entry ∈ batch, entry.used = false) ∧
      LastAdds contract batch turns

/-- A run that fails before anything is inserted. -/
theorem pregenerates_of_error {days : Nat} {turns : List (Turn σ)} {cause : AllocationError}
    (hcause : (∃ reached, cause = .exhausted reached) ∨ LastFails cause turns)
    (hturns : ∀ turn ∈ turns, turn.batch? = none ∧ turn.Idle contract) :
    Pregenerates contract days turns (.error cause) where
  error_cases other hother := Except.error.inj hother ▸ hcause
  batches_length_le := by
    have hnone : turns.filterMap Turn.batch? = [] :=
      List.filterMap_eq_nil_iff.mpr fun turn hturn => (hturns turn hturn).1
    simp [hnone]
  idle _ _ turn hturn := (hturns turn hturn).2
  generated_eq := nofun
  adds := nofun

/-- The pool is listed first, and then a batch is inserted. -/
theorem Settles.pregenerates {batch : List PoolEntry} {duplicates : Nat} {turns : List (Turn σ)}
    {answer : Except AllocationError (Nat × Nat)}
    (hsettles : Settles contract batch duplicates turns answer)
    (hnodup : (batch.map (·.equation)).Nodup) (hunused : ∀ entry ∈ batch, entry.used = false)
    {turn : Turn σ} (hlisted : turn.batch? = none) (hidle : turn.Idle contract) {days : Nat}
    (hdays : batch.length + duplicates = days) :
    Pregenerates contract days (turn :: turns)
      (answer.map fun counts => ⟨days, counts.1, counts.2⟩) where
  error_cases := by
    cases answer with
    | error cause =>
        rintro other ⟨⟩
        exact Or.inr ((hsettles.lastFails rfl).cons turn)
    | ok counts => simp [Except.map]
  batches_length_le := by
    obtain ⟨later, hlater, hcount⟩ := hsettles.exists_batches hnodup
    rw [List.filterMap_cons_none hlisted, hlater]
    simpa using hcount
  idle := by
    cases answer with
    | error cause =>
        exact fun _ _ => List.forall_mem_cons.mpr ⟨hidle, hsettles.idle rfl⟩
    | ok counts => simp [Except.map]
  generated_eq := by
    cases answer with
    | error cause => exact nofun
    | ok counts =>
        rintro report ⟨⟩
        exact ⟨rfl, (hsettles.adds hnodup rfl).1.trans hdays⟩
  adds := by
    cases answer with
    | error cause => exact nofun
    | ok counts =>
        rintro report ⟨⟩
        obtain ⟨_, kept, hkept, hinserted, hlast⟩ := hsettles.adds hnodup rfl
        exact ⟨kept, hinserted, fun entry hentry => hunused entry (hkept.subset hentry),
          hlast.cons hidle⟩

theorem yields_fill_contended {session : Session (Contended σ)}
    (hvalid : contract.valid session.store.store) (allocator : Allocator) (days : Nat) :
    Yields (allocator.fill days) session fun answer next =>
      ∃ turns, next.store.turns = session.store.turns ++ turns ∧
        Pregenerates contract days turns answer := by
  unfold fill
  refine (yields_generateMany_alone allocator.generator days session).bind ?_ ?_
  · rintro cause next ⟨hstore, hexhausted, _⟩
    exact ⟨[], by simp [hstore], pregenerates_of_error (Or.inl (hexhausted cause rfl)) (by simp)⟩
  · rintro puzzles drawn ⟨hstore, _, hlength⟩
    obtain rfl := hlength puzzles rfl
    rw [← hstore] at hvalid ⊢
    refine Session.yields_require_bind (Contract.yields_poolEquations hvalid) ?_ ?_
    · rintro cause store ⟨_, turn, hturns, hbatch, hidle, hfails⟩
      have hlast : LastFails (.store cause) [turn] := lastFails_singleton (hfails cause rfl)
      have hidles : ∀ other ∈ [turn], other.batch? = none ∧ other.Idle contract := by
        simpa using ⟨hbatch, hidle⟩
      exact ⟨[turn], hturns, pregenerates_of_error (Or.inr hlast) hidles⟩
    · rintro seen store ⟨hvalid, turn, hturns, hbatch, hidle, _⟩
      obtain ⟨entries, supply, hentries, hcount, hnovel⟩ :=
        exists_outcome_newEntries seen puzzles { drawn with store }
      have hsettles := @yields_insertBatch_contended σ _ contract
        { drawn with store, supply } hvalid (puzzles.length - entries.length) entries
        (entries.length + allocator.patience + 1) (by omega) hnovel.nodup
      have hturns (turns : List (Turn σ)) :
          store.turns ++ turns = drawn.store.turns ++ turn :: turns := by
        rw [hturns, List.append_assoc]
        rfl
      have hdays := Nat.add_sub_cancel' hcount
      refine Yields.of_outcome hentries (hsettles.bind ?_ ?_)
      · rintro cause next ⟨turns, hmore, hsettles⟩
        exact ⟨turn :: turns, hmore.trans (hturns turns),
          hsettles.pregenerates hnovel.nodup hnovel.unused hbatch hidle hdays⟩
      · rintro counts next ⟨turns, hmore, hsettles⟩
        exact ⟨turn :: turns, hmore.trans (hturns turns),
          hsettles.pregenerates hnovel.nodup hnovel.unused hbatch hidle hdays⟩

/-- Whatever words are drawn, over any store that keeps its promises, and whatever other clients
call between the turns: filling the pool for a range of days comes to an end, with one try more than
the batch has entries at the most, and fails only as the generator or the store does.  If there is a
report, its numbers add up, and the last turn has added as many unused entries as it says, whose
equations differ from one another and from those of the pool at that moment; no other turn has
changed anything.  If there is none, no turn has changed anything. -/
theorem pregenerate_contended (contract : Contract σ) (allocator : Allocator) {first last : Day}
    (hrange : first.ordinal ≤ last.ordinal) (session : Session (Contended σ))
    (hvalid : contract.valid session.store.store) :
    let result := outcome (allocator.pregenerate first last) session
    ∃ turns, result.2.store.turns = session.store.turns ++ turns ∧
      Pregenerates contract (first.span last).length turns result.1 := by
  change Yields (allocator.pregenerate first last) session fun answer next =>
    ∃ turns, next.store.turns = session.store.turns ++ turns ∧
      Pregenerates contract (first.span last).length turns answer
  rw [pregenerate_eq, if_neg (Int.not_lt.mpr hrange)]
  exact yields_fill_contended hvalid allocator _

/-- Three days are filled in memory, while another client inserts an entry after the pool was
listed. -/
theorem pregenerate_contended_memory :
    let first : Day := ⟨2031, 12, 31, by decide⟩
    let last : Day := ⟨2032, 1, 2, by decide⟩
    let created : Timestamp := ⟨first, 3600, 0, by decide, by decide⟩
    let foreign : PoolEntry := {
      id := ⟨21⟩
      equation := ⟨#v[.digit 9, .digit 0, .operator .multiply, .digit 2, .operator .add, .digit 8],
        188, by decide, by decide +kernel⟩
      targetNumber := 188
      difficulty := .hard
      used := false
      created := created }
    let session : Session (Contended Inventory) :=
      { store := ⟨Inventory.empty, [[], [.insertPool [foreign]]], []⟩
        supply := .seeded 7 11 created }
    first.ordinal ≤ last.ordinal ∧ Inventory.contract.valid session.store.store ∧
      let result := outcome ((⟨⟨1000⟩, 0⟩ : Allocator).pregenerate first last) session
      ∃ turns, result.2.store.turns = session.store.turns ++ turns ∧
        Pregenerates Inventory.contract (first.span last).length turns result.1 := by
  intro first last created foreign session
  have hrange : first.ordinal ≤ last.ordinal := by decide
  have hvalid : Inventory.contract.valid session.store.store := Inventory.wellFormed_empty
  exact ⟨hrange, hvalid,
    pregenerate_contended Inventory.contract ⟨⟨1000⟩, 0⟩ hrange session hvalid⟩

end Range

end Allocator

end EquationPuzzle
