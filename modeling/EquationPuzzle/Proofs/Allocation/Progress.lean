import EquationPuzzle.Proofs.Allocation.Requests
import EquationPuzzle.Proofs.Calendar.Succession
import EquationPuzzle.Proofs.Generator.Reach
import EquationPuzzle.Proofs.Inventory.Representation

/-!
# How many puzzles are generated for a range of days

Whoever watches a range being filled is told of every puzzle as soon as it is generated.  Nothing
else moves this count: neither the calls of the store nor the tries of an insertion do.  A run that
is answered has therefore counted, and reports, one puzzle for each day that the range lists.
-/

namespace EquationPuzzle

section Counts

variable {σ α β : Type}

/-- Started when so many puzzles have been counted, a run that is answered leaves the count there,
and its answer is of that kind. -/
def Counts (x : AllocationM σ α) (before after : Nat) (kind : α → Prop) : Prop :=
  ∀ session, session.progress = before → Yields x session fun answer next =>
    ∀ a, answer = .ok a → kind a ∧ next.progress = after

theorem Counts.pure {kind : α → Prop} {a : α} (hkind : kind a) (count : Nat) :
    Counts (Pure.pure a : AllocationM σ α) count count kind := by
  rintro session hcount _ ⟨⟩
  exact ⟨hkind, hcount⟩

theorem Counts.throw (cause : AllocationError) (before after : Nat) (kind : α → Prop) :
    Counts (MonadExcept.throw cause : AllocationM σ α) before after kind :=
  fun _ _ _ => nofun

theorem Counts.bind {x : AllocationM σ α} {f : α → AllocationM σ β} {before between after : Nat}
    {kind : α → Prop} {other : β → Prop} (hx : Counts x before between kind)
    (hf : ∀ a, kind a → Counts (f a) between after other) :
    Counts (x >>= f) before after other := by
  intro session hbefore
  refine (hx session hbefore).bind (fun _ _ _ => nofun) fun a next hfirst => ?_
  obtain ⟨hkind, hbetween⟩ := hfirst a rfl
  exact hf a hkind next hbetween

/-- A step that leaves the count alone. -/
theorem Counts.of_kept {x : AllocationM σ α}
    (hkept : ∀ session, (outcome x session).2.progress = session.progress) (count : Nat) :
    Counts x count count fun _ => True :=
  fun session hcount _ _ => ⟨trivial, (hkept session).trans hcount⟩

end Counts

/-! ## The parts of a run -/

namespace Session

variable {σ α : Type}

theorem counts_call (operation : StoreM σ α) (count : Nat) :
    Counts (call operation) count count fun _ => True :=
  .of_kept (fun _ => rfl) count

theorem counts_require (operation : StoreM σ α) (count : Nat) :
    Counts (require operation) count count fun _ => True := by
  refine .of_kept (fun session => ?_) count
  rw [outcome_require]
  rcases outcome operation session.store with ⟨cause | answer, store⟩ <;> rfl

theorem counts_generate (generator : Generator) (count : Nat) :
    Counts (generate generator : AllocationM σ Puzzle) count count fun _ => True := by
  refine .of_kept (fun session => ?_) count
  rw [outcome_generate]
  rcases generator.generate.run session.supply.words with ⟨reached | puzzle, words⟩ <;> rfl

theorem counts_newEntry (puzzle : Puzzle) (used : Bool) (count : Nat) :
    Counts (newEntry puzzle used : AllocationM σ PoolEntry) count count fun _ => True :=
  .of_kept (fun _ => rfl) count

/-- An attempt adds one to the count that it leaves. -/
theorem counts_counted {attempt : AllocationM σ α} {before after : Nat} {kind : α → Prop}
    (hattempt : Counts attempt before after kind) :
    Counts (counted attempt) before (after + 1) kind := by
  intro session hcount
  apply yields_counted
  refine (hattempt session hcount).imp fun answer next hnext a ha => ?_
  obtain ⟨hkind, hprogress⟩ := hnext a ha
  exact ⟨hkind, congrArg (· + 1) hprogress⟩

end Session

namespace Allocator

variable {σ : Type}

theorem counts_generateMany (generator : Generator) (count before : Nat) :
    Counts (generateMany generator count : AllocationM σ (List Puzzle)) before (before + count)
      fun _ => True := by
  induction count generalizing before with
  | zero => exact .pure trivial before
  | succ count ih =>
      unfold generateMany
      have hcounted := Session.counts_counted (Session.counts_generate (σ := σ) generator before)
      refine hcounted.bind fun puzzle _ => ?_
      rw [Nat.add_comm count, ← Nat.add_assoc]
      exact (ih (before + 1)).bind fun _ _ => .pure trivial _

theorem counts_newEntries (seen : Std.HashSet Equation) (puzzles : List Puzzle) (count : Nat) :
    Counts (newEntries seen puzzles : AllocationM σ (List PoolEntry)) count count
      fun _ => True := by
  induction puzzles generalizing seen with
  | nil => exact .pure trivial count
  | cons puzzle rest ih =>
      unfold newEntries
      split
      · exact ih seen
      · refine (Session.counts_newEntry puzzle false count).bind fun _ _ => ?_
        exact (ih _).bind fun _ _ => .pure trivial count

section Fill

variable [Store σ]

theorem counts_insertBatch (duplicates : Nat) (batch : List PoolEntry) (tries count : Nat) :
    Counts (insertBatch duplicates batch tries : AllocationM σ (Nat × Nat)) count count
      fun _ => True := by
  induction tries generalizing duplicates batch with
  | zero => exact .throw _ _ _ _
  | succ tries ih =>
      refine (Session.counts_call _ count).bind fun answer _ => ?_
      split
      · exact .pure trivial count
      · exact ih _ _
      · exact .throw _ _ _ _

theorem counts_fill (allocator : Allocator) (days before : Nat) :
    Counts (allocator.fill days : AllocationM σ Pregeneration) before (before + days)
      (·.generated = days) := by
  refine (counts_generateMany allocator.generator days before).bind fun puzzles _ => ?_
  refine (Session.counts_require Store.poolEquations _).bind fun seen _ => ?_
  refine (counts_newEntries seen puzzles _).bind fun entries _ => ?_
  refine (counts_insertBatch _ entries _ _).bind fun counts _ => ?_
  exact @Counts.pure σ Pregeneration (·.generated = days) ⟨days, counts.1, counts.2⟩ rfl _

end Fill

/-! ## Words on which a pool is filled -/

section Steady

variable {generator : Generator} {word : Nat → UInt32} {puzzle : Puzzle}

/-- Wherever it begins in these words, the generator finds this puzzle. -/
def Steady (generator : Generator) (word : Nat → UInt32) (puzzle : Puzzle) : Prop :=
  ∀ taken, ∃ later, generator.generate.run ⟨word, taken⟩ = (.ok puzzle, ⟨word, later⟩)

theorem Steady.yields_generateMany (hsteady : Steady generator word puzzle) (count : Nat)
    {session : Session σ} (hwords : session.supply.words.word = word) :
    Yields (generateMany generator count) session fun answer next =>
      answer = .ok (List.replicate count puzzle) ∧ next.store = session.store := by
  induction count generalizing session with
  | zero => exact ⟨rfl, rfl⟩
  | succ count ih =>
      obtain ⟨later, hmade⟩ := hsteady session.supply.words.taken
      have hgenerate : outcome (Session.generate generator) session =
          (.ok puzzle, session.withWords ⟨word, later⟩) := by
        rw [← hwords] at hmade
        rw [Session.outcome_generate, hmade, hwords]
      unfold generateMany
      have hcounted : outcome (Session.counted (Session.generate generator)) session =
          (.ok puzzle, (session.withWords ⟨word, later⟩).withCount) := by
        rw [Session.outcome_counted, hgenerate]
      refine Yields.of_outcome hcounted ?_
      refine Yields.bind (ih rfl) ?_ ?_
      · rintro cause next ⟨⟨⟩, _⟩
      · rintro rest next ⟨hrest, hstore⟩
        obtain rfl := Except.ok.inj hrest
        exact ⟨rfl, hstore⟩

theorem newEntries_replicate_seen {seen : Std.HashSet Equation}
    (hseen : seen.contains puzzle.equation) (count : Nat) :
    (newEntries seen (List.replicate count puzzle) : AllocationM σ (List PoolEntry)) = pure [] := by
  induction count with
  | zero => rfl
  | succ count ih => rw [List.replicate_succ, newEntries, if_pos hseen, ih]

/-- One puzzle makes one entry, however often it is generated. -/
theorem exists_outcome_newEntries_replicate (seen : Std.HashSet Equation) (puzzle : Puzzle)
    (count : Nat) (session : Session σ) :
    ∃ entries supply, outcome (newEntries seen (List.replicate count puzzle)) session =
      (.ok entries, { session with supply }) ∧ entries.length ≤ 1 := by
  cases count with
  | zero => exact ⟨[], session.supply, rfl, Nat.zero_le _⟩
  | succ count =>
      rw [List.replicate_succ, newEntries]
      split
      · next hseen =>
          rw [newEntries_replicate_seen hseen]
          exact ⟨[], session.supply, rfl, Nat.zero_le _⟩
      · rw [newEntries_replicate_seen Std.HashSet.contains_insert_self]
        exact ⟨_, _, rfl, le_rfl⟩

theorem exists_insertPool_empty {batch : List PoolEntry} (hlength : batch.length ≤ 1) :
    ∃ next, Inventory.empty.insertPool batch = .ok next := by
  refine ⟨_, (Inventory.insertPool_eq_ok_iff _ _ batch).mpr ⟨?_, rfl⟩⟩
  cases batch with
  | nil => exact Inventory.admits_nil _
  | cons entry rest =>
      obtain rfl : rest = [] := by simpa using hlength
      simp [Inventory.admits_cons_iff, Inventory.admits_nil, Inventory.empty]

/-- An empty pool is filled for any number of days. -/
theorem Steady.exists_outcome_pregenerate {allocator : Allocator}
    (hsteady : Steady allocator.generator word puzzle) {session : Session Inventory}
    (hstore : session.store = .empty) (hwords : session.supply.words.word = word)
    {first last : Day} (hrange : first.ordinal ≤ last.ordinal) :
    ∃ report next,
      outcome (allocator.pregenerate first last) session = (.ok report, next) := by
  suffices Yields (allocator.pregenerate first last) session fun answer _ =>
      ∃ report, answer = .ok report by
    obtain ⟨report, hreport⟩ := this
    exact ⟨report, _, Prod.ext hreport rfl⟩
  rw [pregenerate_eq, if_neg (not_lt.mpr hrange), fill]
  refine (hsteady.yields_generateMany _ hwords).bind ?_ ?_
  · rintro cause next ⟨⟨⟩, _⟩
  · rintro puzzles drawn ⟨hpuzzles, hdrawn⟩
    obtain rfl := Except.ok.inj hpuzzles
    obtain ⟨entries, supply, hentries, hlength⟩ := exists_outcome_newEntries_replicate
      drawn.store.poolEquations puzzle (first.span last).length drawn
    obtain ⟨next, hnext⟩ := exists_insertPool_empty hlength
    have hlisted : outcome (Session.require Store.poolEquations) drawn =
        (.ok drawn.store.poolEquations, drawn) := rfl
    have hinserted (duplicates tries : Nat) :
        outcome (insertBatch duplicates entries (tries + 1)) { drawn with supply } =
          (.ok (entries.length, duplicates), { drawn with store := next, supply }) := by
      rw [insertBatch, outcome_bind, Session.outcome_call, Inventory.outcome_insertPool, hdrawn,
        hstore, hnext]
      rfl
    refine Yields.of_outcome hlisted (Yields.of_outcome hentries ?_)
    exact Yields.of_outcome (hinserted _ _) ⟨_, rfl⟩

end Steady

/-- What an attempt finds that gets this word over and over. -/
theorem answers_attempt : Generator.attempt.Answers (List.replicate 5 0x20000000)
    (Generator.puzzle? #v[.digit 2, .digit 1, .operator .multiply, .digit 2, .operator .add,
      .digit 2]) := by
  have htemplate : Generator.drawTemplate.Answers [0x20000000] .productPlusDigit :=
    (@Draw.answers_below 6 (by decide) 0x20000000 0 (by decide) (by decide)).bind
      (Draw.answers_pure _)
  have hnonzero : Template.Place.nonzero.drawDigit.Answers [0x20000000] (.digit 2) :=
    (@Draw.answers_below 9 (by decide) 0x20000000 1 (by decide) (by decide)).bind
      (Draw.answers_pure _)
  have hany : Template.Place.anyDigit.drawDigit.Answers [0x20000000] (.digit 1) :=
    (@Draw.answers_below 10 (by decide) 0x20000000 1 (by decide) (by decide)).bind
      (Draw.answers_pure _)
  have hfixed (op : Operator) :
      (Template.Place.fixed op).drawDigit.Answers [] (.operator op) := Draw.answers_pure _
  have hdrafts := hnonzero.mapM_cons <| hany.mapM_cons <| (hfixed .multiply).mapM_cons <|
    hnonzero.mapM_cons <| (hfixed .add).mapM_cons <| hnonzero.mapM_cons <|
    Draw.answers_mapM_nil _
  -- The template leaves no operator open.
  have hrow : Template.productPlusDigit.instantiate.Answers (List.replicate 4 0x20000000)
      #v[.digit 2, .digit 1, .operator .multiply, .digit 2, .operator .add, .digit 2] :=
    Template.answers_instantiate (hdrafts.bind (Draw.answers_pure _))
  exact htemplate.bind (hrow.bind (Draw.answers_pure _))

/-- A generator that gets the same word over and over finds the same puzzle over and over. -/
theorem exists_steady (generator : Generator) (hbudget : 1 ≤ generator.maxAttempts) :
    ∃ puzzle, Steady generator (fun _ => 0x20000000) puzzle := by
  have hfits : (Generator.puzzle? #v[.digit 2, .digit 1, .operator .multiply, .digit 2,
      .operator .add, .digit 2]).isSome := by decide +kernel
  obtain ⟨puzzle, hpuzzle⟩ := Option.isSome_iff_exists.mp hfits
  have hanswers := answers_attempt
  rw [hpuzzle] at hanswers
  refine ⟨puzzle, fun taken => ⟨taken + 5, ?_⟩⟩
  refine Generator.generate_answers hanswers hbudget ⟨fun _ => 0x20000000, taken⟩ ?_
  intro index word hword
  exact (List.eq_of_mem_replicate (List.mem_of_getElem? hword)).symm

/-! ## Ranges and years -/

section Answered

variable [Store σ]

section Reports

variable {allocator : Allocator} {session next : Session σ} {report : Pregeneration}

/-- A run that is answered has counted and reports the days that its range lists. -/
theorem pregenerate_eq_ok {first last : Day}
    (hanswered : outcome (allocator.pregenerate first last) session = (.ok report, next)) :
    first.ordinal ≤ last.ordinal ∧ report.generated = (first.span last).length ∧
      next.progress = session.progress + report.generated := by
  rw [pregenerate_eq] at hanswered
  split at hanswered
  · simp at hanswered
  · next hrange =>
      have hcounts := counts_fill allocator (first.span last).length session.progress session rfl
      rw [Yields, hanswered] at hcounts
      obtain ⟨hgenerated, hprogress⟩ := hcounts report rfl
      exact ⟨not_lt.mp hrange, hgenerated, hgenerated ▸ hprogress⟩

theorem pregenerateYear_eq_ok {year : Int}
    (hanswered : outcome (allocator.pregenerateYear year) session = (.ok report, next)) :
    ∃ first last, Day.boundsOfYear? year = some (first, last) ∧
      outcome (allocator.pregenerate first last) session = (.ok report, next) := by
  rw [pregenerateYear_eq] at hanswered
  split at hanswered
  · next first last hbounds => exact ⟨first, last, hbounds, hanswered⟩
  · simp at hanswered

end Reports

/-- Over any store: a range that is filled is not empty, and for each of its days in the calendar
one puzzle is generated, reported and counted, only that the last day of all gets none.  A year
that is filled gets as many puzzles as the Gregorian calendar gives it days, with the same
exception in the last year of all. -/
theorem pregenerate_counts (allocator : Allocator) (session next : Session σ)
    (report : Pregeneration) :
    (∀ first last : Day,
      outcome (allocator.pregenerate first last) session = (.ok report, next) →
        ¬last.Precedes first ∧
        report.generated + (if last = Day.latest then 1 else 0) =
          (Day.between first last).ncard ∧
        next.progress = session.progress + report.generated) ∧
    ∀ year : Int, outcome (allocator.pregenerateYear year) session = (.ok report, next) →
      report.generated + (if year = Day.lastYear then 1 else 0) =
        (if isLeapYear year then 366 else 365) ∧
      next.progress = session.progress + report.generated := by
  constructor
  · intro first last hanswered
    obtain ⟨hrange, hgenerated, hprogress⟩ := pregenerate_eq_ok hanswered
    rw [Day.precedes_iff, ← Day.length_span_add hrange, hgenerated]
    exact ⟨not_lt.mpr hrange, rfl, hgenerated ▸ hprogress⟩
  · intro year hanswered
    obtain ⟨first, last, hbounds, hanswered⟩ := pregenerateYear_eq_ok hanswered
    obtain ⟨_, hgenerated, hprogress⟩ := pregenerate_eq_ok hanswered
    rw [hgenerated, Day.length_span_year hbounds]
    exact ⟨rfl, hgenerated ▸ hprogress⟩

end Answered

/-- Three days around a leap day are filled in memory, and then the whole year. -/
theorem pregenerate_counts_leapYear :
    let allocator : Allocator := ⟨⟨1000⟩, 0⟩
    let first : Day := ⟨2024, 2, 28, by decide⟩
    let last : Day := ⟨2024, 3, 1, by decide⟩
    let session : Session Inventory :=
      { store := .empty
        supply := { Supply.seeded 7 11 ⟨first, 0, 0, by decide, by decide⟩ with
          words := ⟨fun _ => 0x20000000, 0⟩ } }
    (∃ report next, outcome (allocator.pregenerate first last) session = (.ok report, next) ∧
      report.generated = 3 ∧ next.progress = 3) ∧
    ∃ report next, outcome (allocator.pregenerateYear 2024) session = (.ok report, next) ∧
      report.generated = 366 ∧ next.progress = 366 := by
  intro allocator first last session
  obtain ⟨puzzle, hsteady⟩ := exists_steady allocator.generator (by decide)
  have hfilled (first last : Day) (hrange : first.ordinal ≤ last.ordinal) :
      ∃ report next, outcome (allocator.pregenerate first last) session = (.ok report, next) :=
    hsteady.exists_outcome_pregenerate rfl rfl hrange
  have hprogress {next : Session Inventory} {report : Pregeneration} {days : Nat}
      (hgenerated : report.generated + 0 = days)
      (hcounted : next.progress = session.progress + report.generated) :
      report.generated = days ∧ next.progress = days :=
    ⟨hgenerated, hcounted.trans ((Nat.zero_add _).trans hgenerated)⟩
  constructor
  · have hrange : first.ordinal ≤ last.ordinal := by decide
    obtain ⟨report, next, hanswered⟩ := hfilled first last hrange
    obtain ⟨_, hgenerated, hcounted⟩ :=
      (pregenerate_counts allocator session next report).1 first last hanswered
    have hdays : (Day.between first last).ncard = 3 := by
      rw [← Day.length_span_add hrange]
      decide
    rw [hdays, if_neg (by decide)] at hgenerated
    exact ⟨report, next, hanswered, hprogress hgenerated hcounted⟩
  · have hyear : (allocator.pregenerateYear 2024 : AllocationM Inventory Pregeneration) =
        allocator.pregenerate ⟨2024, 1, 1, by decide⟩ ⟨2024, 12, 31, by decide⟩ := by
      rw [pregenerateYear_eq]
      rfl
    obtain ⟨report, next, hanswered⟩ :=
      hfilled ⟨2024, 1, 1, by decide⟩ ⟨2024, 12, 31, by decide⟩ (by decide)
    rw [← hyear] at hanswered
    obtain ⟨hgenerated, hcounted⟩ :=
      (pregenerate_counts allocator session next report).2 2024 hanswered
    rw [if_neg (by decide), if_pos (by decide)] at hgenerated
    exact ⟨report, next, hanswered, hprogress hgenerated hcounted⟩

/-- A range of the last day of all is not empty, but no puzzle is generated for it. -/
theorem pregenerate_latest :
    let session : Session Inventory :=
      { store := .empty, supply := .seeded 7 11 ⟨Day.latest, 0, 0, by decide, by decide⟩ }
    let result := outcome ((⟨⟨1000⟩, 0⟩ : Allocator).pregenerate Day.latest Day.latest) session
    ¬Day.latest.Precedes Day.latest ∧ (Day.between Day.latest Day.latest).ncard = 1 ∧
      result.1 = .ok ⟨0, 0, 0⟩ ∧ result.2.progress = 0 := by
  intro session result
  have hdays := Day.length_span_add (le_refl Day.latest.ordinal)
  have hspan : Day.latest.span Day.latest = [] := by decide
  rw [hspan] at hdays
  refine ⟨by rw [Day.precedes_iff]; exact lt_irrefl _, hdays.symm, ?_⟩
  have hresult : result = (.ok ⟨0, 0, 0⟩, session) := by
    change outcome (Allocator.pregenerate _ _ _) _ = _
    rw [pregenerate_eq, if_neg (lt_irrefl _), hspan]
    rfl
  rw [hresult]
  exact ⟨rfl, rfl⟩

end Allocator

end EquationPuzzle
