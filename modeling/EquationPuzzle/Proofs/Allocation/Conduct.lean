import EquationPuzzle.Proofs.Allocation.Course

/-!
# How a day is resolved over any store

Whatever a store answers to the calls of an allocator, the allocator asks for the day first, takes
one entry at most, generates a puzzle only when it has been told that no entry is left, puts the
daily equation on record last, and passes on any failure of the store that it cannot overcome.  None
of this depends on what a store is expected to do.
-/

namespace EquationPuzzle

open Store (Call Answer Exchange)

/-- The entry that an event has brought. -/
def Event.obtained? : Event → Option PoolEntry
  | asked ⟨.markUsed _, .ok (.entry found)⟩ => found
  | asked ⟨.insertPool [entry], .ok _⟩ => some entry
  | _ => none

namespace Events

/-! ## Events and what comes before and after them -/

/-- Every event stands in a relation to the events before it and to those after it. -/
def Everywhere (P : List Event → Event → List Event → Prop) (events : List Event) : Prop :=
  ∀ before event after, events = before ++ event :: after → P before event after

section Everywhere

variable {P : List Event → Event → List Event → Prop}

theorem everywhere_nil : Everywhere P [] := by
  intro before event after hsplit
  simp at hsplit

theorem everywhere_cons {first : Event} {rest : List Event} :
    Everywhere P (first :: rest) ↔
      P [] first rest ∧ Everywhere (fun before => P (first :: before)) rest := by
  constructor
  · intro hall
    exact ⟨hall [] first rest rfl, fun before event after hsplit =>
      hall (first :: before) event after (by rw [hsplit]; rfl)⟩
  · rintro ⟨hfirst, hrest⟩ before event after hsplit
    cases before with
    | nil =>
        obtain ⟨rfl, rfl⟩ := List.cons.inj hsplit
        exact hfirst
    | cons head before =>
        obtain ⟨rfl, hbehind⟩ := List.cons.inj hsplit
        exact hrest before event after hbehind

theorem everywhere_append {front back : List Event} :
    Everywhere P (front ++ back) ↔
      Everywhere (fun before event after => P before event (after ++ back)) front ∧
        Everywhere (fun before => P (front ++ before)) back := by
  -- Behind the first event the relation is another one, which sees that event before all others.
  induction front generalizing P with
  | nil => simp [everywhere_nil]
  | cons first front ih =>
      rw [List.cons_append, everywhere_cons, ih, everywhere_cons, and_assoc]
      rfl

theorem Everywhere.imp {Q : List Event → Event → List Event → Prop} {events : List Event}
    (hall : Everywhere P events)
    (himp : ∀ before event after, P before event after → Q before event after) :
    Everywhere Q events :=
  fun before event after hsplit => himp before event after (hall before event after hsplit)

theorem everywhere_of_mem {events : List Event}
    (hmem : ∀ before, ∀ event ∈ events, ∀ after, P before event after) : Everywhere P events := by
  rintro before event after rfl
  exact hmem before event (by simp) after

end Everywhere

/-- The last time the pool was listed, it had these equations. -/
def Listed (existing : Std.HashSet Equation) (before : List Event) : Prop :=
  ∃ earlier between, before =
      earlier ++ .asked ⟨.poolEquations, .ok (.equations existing)⟩ :: between ∧
    ∀ reply, .asked ⟨.poolEquations, reply⟩ ∉ between

/-- A new equation that has meanwhile entered the pool is no reason to give up. -/
def Overcome (call : Call) (cause : StoreError) : Prop :=
  ∃ batch equation, call = .insertPool batch ∧ cause = .duplicateEquation equation

/-- A puzzle is drawn only after the pool was found to have no unused entry. -/
def Draws : List Event → Prop :=
  Everywhere fun before event _ => ∀ made, event = .drew made →
    .asked ⟨.findUnused, .ok (.entry none)⟩ ∈ before

/-- Only a single entry that is used and new to the pool is ever inserted. -/
def Inserts : List Event → Prop :=
  Everywhere fun before event _ => ∀ batch reply, event = .asked ⟨.insertPool batch, reply⟩ →
    ∃ entry existing, batch = [entry] ∧ entry.used = true ∧ Listed existing before ∧
      entry.equation ∉ existing

theorem Listed.cons {existing : Std.HashSet Equation} {before : List Event}
    (hlisted : Listed existing before) (first : Event) : Listed existing (first :: before) := by
  obtain ⟨earlier, between, rfl, hbetween⟩ := hlisted
  exact ⟨first :: earlier, between, rfl, hbetween⟩

section Surround

variable {events last : List Event} {call : Call} {reply : Except StoreError Answer}

theorem Draws.surround (hdraws : Draws events) (hlast : ∀ made, .drew made ∉ last) :
    Draws (.asked ⟨call, reply⟩ :: (events ++ last)) := by
  refine everywhere_cons.mpr ⟨by simp, everywhere_append.mpr ⟨?_, everywhere_of_mem ?_⟩⟩
  · intro before event after hsplit made hdrawn
    exact List.mem_cons_of_mem _ (hdraws before event after hsplit made hdrawn)
  · rintro before event hmem after made rfl
    exact (hlast made hmem).elim

theorem Inserts.surround (hinserts : Inserts events)
    (hfirst : ∀ batch, call ≠ .insertPool batch)
    (hlast : ∀ batch reply, .asked ⟨.insertPool batch, reply⟩ ∉ last) :
    Inserts (.asked ⟨call, reply⟩ :: (events ++ last)) := by
  refine everywhere_cons.mpr ⟨?_, everywhere_append.mpr ⟨?_, everywhere_of_mem ?_⟩⟩
  · rintro batch answered ⟨⟩
    exact (hfirst batch rfl).elim
  · intro before event after hsplit batch answered hasked
    obtain ⟨entry, existing, hbatch, hused, hlisted, hnew⟩ :=
      hinserts before event after hsplit batch answered hasked
    exact ⟨entry, existing, hbatch, hused, hlisted.cons _, hnew⟩
  · rintro before event hmem after batch answered rfl
    exact (hlast batch answered hmem).elim

end Surround

/-- A failure of the store that is not overcome is the last event and the answer. -/
def Halts {α : Type} (answer : Except AllocationError α) : List Event → Prop :=
  Everywhere fun _ event after => ∀ call cause, event = .asked ⟨call, .error cause⟩ →
    Overcome call cause ∨ after = [] ∧ answer = .error (.store cause)

section Halts

variable {α β : Type} {answer : Except AllocationError α} {first : Event} {rest : List Event}

theorem halts_cons (hfirst : ∀ call cause, first = .asked ⟨call, .error cause⟩ →
      Overcome call cause ∨ rest = [] ∧ answer = .error (.store cause))
    (hrest : Halts answer rest) : Halts answer (first :: rest) :=
  everywhere_cons.mpr ⟨hfirst, hrest⟩

theorem halts_last {call : Call} {cause : StoreError} :
    Halts (.error (.store cause) : Except AllocationError α) [.asked ⟨call, .error cause⟩] := by
  refine halts_cons (fun other reason hevent => Or.inr ?_) everywhere_nil
  simp at hevent
  simp [hevent]

/-- What an answer consists of does not matter, but whether it is a failure. -/
theorem Halts.congr {events : List Event} {other : Except AllocationError β}
    (hevents : Halts answer events)
    (hsame : ∀ cause, answer = .error cause → other = .error cause) : Halts other events := by
  refine hevents.imp fun before event after hhalts call cause hevent => ?_
  rcases hhalts call cause hevent with hovercome | ⟨hlast, hanswer⟩
  · exact Or.inl hovercome
  · exact Or.inr ⟨hlast, hsame _ hanswer⟩

theorem Halts.append {a : β} {events : List Event}
    (hevents : Halts (.ok a : Except AllocationError β) events) (hrest : Halts answer rest) :
    Halts answer (events ++ rest) := by
  refine everywhere_append.mpr ⟨?_, hrest⟩
  intro before event after hsplit call cause hevent
  rcases hevents before event after hsplit call cause hevent with hovercome | ⟨_, hanswer⟩
  · exact Or.inl hovercome
  · contradiction

end Halts

end Events

namespace Course

open Events

/-! ## Claiming an entry -/

section Claims

variable {events : List Event} {answer : Except AllocationError (Option PoolEntry)}

theorem Claims.mem (hclaims : Claims events answer) {event : Event} (hmem : event ∈ events) :
    (∃ reply, event = .asked ⟨.findUnused, reply⟩) ∨
      ∃ id reply, event = .asked ⟨.markUsed id, reply⟩ := by
  induction hclaims with
  | unsettled => simp at hmem
  | unread cause => exact Or.inl ⟨_, List.mem_singleton.mp hmem⟩
  | empty => exact Or.inl ⟨_, List.mem_singleton.mp hmem⟩
  | unmarked candidate cause =>
      rcases List.mem_cons.mp hmem with rfl | hmem
      · exact Or.inl ⟨_, rfl⟩
      · exact Or.inr ⟨_, _, List.mem_singleton.mp hmem⟩
  | claimed candidate entry =>
      rcases List.mem_cons.mp hmem with rfl | hmem
      · exact Or.inl ⟨_, rfl⟩
      · exact Or.inr ⟨_, _, List.mem_singleton.mp hmem⟩
  | late candidate _ ih =>
      rcases List.mem_cons.mp hmem with rfl | hmem
      · exact Or.inl ⟨_, rfl⟩
      · rcases List.mem_cons.mp hmem with rfl | hmem
        · exact Or.inr ⟨_, _, rfl⟩
        · exact ih hmem

/-- The claims end without an entry only when no unused one is left. -/
theorem Claims.offered_none (hclaims : Claims events (.ok none)) :
    .asked ⟨.findUnused, .ok (.entry none)⟩ ∈ events := by
  generalize hanswer : (Except.ok none : Except AllocationError (Option PoolEntry)) = answer
    at hclaims
  induction hclaims with
  | empty => exact List.mem_cons_self ..
  | late candidate _ ih => exact List.mem_cons_of_mem _ (List.mem_cons_of_mem _ (ih hanswer))
  | _ => simp at hanswer

theorem Claims.obtained (hclaims : Claims events answer) :
    events.filterMap Event.obtained? = answer.toOption.join.toList := by
  induction hclaims with
  | late candidate _ ih => exact ih
  | _ => rfl

theorem Claims.halts (hclaims : Claims events answer) : Halts answer events := by
  induction hclaims with
  | unsettled => exact everywhere_nil
  | unread cause => exact halts_last
  | empty => exact halts_cons (by simp) everywhere_nil
  | unmarked candidate cause => exact halts_cons (by simp) halts_last
  | claimed candidate entry => exact halts_cons (by simp) (halts_cons (by simp) everywhere_nil)
  | late candidate _ ih => exact halts_cons (by simp) (halts_cons (by simp) ih)

theorem Claims.draws (hclaims : Claims events answer) : Draws events := by
  refine everywhere_of_mem fun before event hmem after made hevent => ?_
  rcases hclaims.mem (hevent ▸ hmem) with ⟨_, hasked⟩ | ⟨_, _, hasked⟩ <;> cases hasked

theorem Claims.inserts (hclaims : Claims events answer) : Inserts events := by
  refine everywhere_of_mem fun before event hmem after batch reply hevent => ?_
  rcases hclaims.mem (hevent ▸ hmem) with ⟨_, hasked⟩ | ⟨_, _, hasked⟩ <;> cases hasked

theorem Claims.unassigned (hclaims : Claims events answer) (daily : DailyEquation)
    (reply : Except StoreError Answer) : .asked ⟨.insertDaily daily, reply⟩ ∉ events := by
  intro hmem
  rcases hclaims.mem hmem with ⟨_, hasked⟩ | ⟨_, _, hasked⟩ <;> cases hasked

end Claims

/-! ## Generating an entry -/

section Generates

variable {existing : Std.HashSet Equation} {events : List Event}
  {answer : Except AllocationError PoolEntry}

theorem Generates.mem (hgenerates : Generates existing events answer) {event : Event}
    (hmem : event ∈ events) :
    (∃ made, event = .drew made) ∨
      ∃ entry reply, event = .asked ⟨.insertPool [entry], reply⟩ ∧ entry.used = true ∧
        entry.equation ∉ existing := by
  induction hgenerates with
  | exhausted cause => simp at hmem
  | undrawn cause => exact Or.inl ⟨_, List.mem_singleton.mp hmem⟩
  | known puzzle _ ih =>
      rcases List.mem_cons.mp hmem with rfl | hmem
      · exact Or.inl ⟨_, rfl⟩
      · exact ih hmem
  | refused puzzle hnew hused cause =>
      rcases List.mem_cons.mp hmem with rfl | hmem
      · exact Or.inl ⟨_, rfl⟩
      · exact Or.inr ⟨_, _, List.mem_singleton.mp hmem, hused, hnew⟩
  | late puzzle hnew hused equation _ ih =>
      rcases List.mem_cons.mp hmem with rfl | hmem
      · exact Or.inl ⟨_, rfl⟩
      · rcases List.mem_cons.mp hmem with rfl | hmem
        · exact Or.inr ⟨_, _, rfl, hused, hnew⟩
        · exact ih hmem
  | added puzzle hnew hused count =>
      rcases List.mem_cons.mp hmem with rfl | hmem
      · exact Or.inl ⟨_, rfl⟩
      · exact Or.inr ⟨_, _, List.mem_singleton.mp hmem, hused, hnew⟩

theorem Generates.obtained (hgenerates : Generates existing events answer) :
    events.filterMap Event.obtained? = answer.toOption.toList := by
  induction hgenerates with
  | known puzzle _ ih => exact ih
  | late puzzle hnew hused equation _ ih => exact ih
  | _ => rfl

theorem Generates.halts (hgenerates : Generates existing events answer) : Halts answer events := by
  induction hgenerates with
  | exhausted cause => exact everywhere_nil
  | undrawn cause => exact halts_cons (by simp) everywhere_nil
  | known puzzle _ ih => exact halts_cons (by simp) ih
  | refused puzzle hnew hused cause => exact halts_cons (by simp) halts_last
  | late puzzle hnew hused equation _ ih =>
      refine halts_cons (by simp) (halts_cons (fun call cause hevent => Or.inl ?_) ih)
      simp at hevent
      exact ⟨_, equation, hevent.1.symm, hevent.2.symm⟩
  | added puzzle hnew hused count =>
      exact halts_cons (by simp) (halts_cons (by simp) everywhere_nil)

end Generates

/-! ## Obtaining an entry -/

/-- What is said of the events by which an entry is obtained. -/
structure Orderly (events : List Event) (answer : Except AllocationError PoolEntry) : Prop where
  draws : Draws events
  inserts : Inserts events
  obtained : events.filterMap Event.obtained? = answer.toOption.toList
  halts : Halts answer events
  unassigned : ∀ daily reply, .asked ⟨.insertDaily daily, reply⟩ ∉ events

theorem Claims.orderly {events : List Event} {answer : Except AllocationError PoolEntry}
    (hclaims : Claims events (answer.map some)) : Orderly events answer where
  draws := hclaims.draws
  inserts := hclaims.inserts
  obtained := by
    rw [hclaims.obtained]
    cases answer <;> rfl
  halts := hclaims.halts.congr fun cause hanswer => by
    cases answer with
    | error reason => exact congrArg _ (Except.error.inj hanswer)
    | ok entry => cases hanswer
  unassigned := hclaims.unassigned

theorem Claims.orderly_unlisted {events : List Event} (hclaims : Claims events (.ok none))
    (cause : StoreError) :
    Orderly (events ++ [.asked ⟨.poolEquations, .error cause⟩]) (.error (.store cause)) where
  draws := everywhere_append.mpr ⟨hclaims.draws, everywhere_of_mem (by simp)⟩
  inserts := everywhere_append.mpr ⟨hclaims.inserts, everywhere_of_mem (by simp)⟩
  obtained := by
    rw [List.filterMap_append, hclaims.obtained]
    rfl
  halts := hclaims.halts.append halts_last
  unassigned := by
    intro daily reply hmem
    rcases List.mem_append.mp hmem with hmem | hmem
    · exact hclaims.unassigned daily reply hmem
    · simp at hmem

/-- A puzzle is drawn, and an entry inserted, after the pool has been listed. -/
theorem Generates.orderly {existing : Std.HashSet Equation} {claims events : List Event}
    {answer : Except AllocationError PoolEntry} (hclaims : Claims claims (.ok none))
    (hgenerates : Generates existing events answer) :
    Orderly (claims ++ .asked ⟨.poolEquations, .ok (.equations existing)⟩ :: events) answer where
  draws := by
    refine everywhere_append.mpr ⟨hclaims.draws, everywhere_of_mem ?_⟩
    intro before event _ after made _
    exact List.mem_append_left _ hclaims.offered_none
  inserts := by
    refine everywhere_append.mpr ⟨hclaims.inserts, everywhere_cons.mpr ⟨by simp, ?_⟩⟩
    rintro before event after rfl batch reply rfl
    rcases hgenerates.mem (List.mem_append_right _ (List.mem_cons_self ..)) with
      ⟨made, hdrawn⟩ | ⟨entry, answered, hasked, hused, hnew⟩
    · cases hdrawn
    · cases hasked
      refine ⟨entry, existing, rfl, hused, ⟨claims, before, rfl, fun reply hlisted => ?_⟩, hnew⟩
      rcases hgenerates.mem (List.mem_append_left _ hlisted) with ⟨_, hdrawn⟩ | ⟨_, _, hasked, _⟩
      · cases hdrawn
      · cases hasked
  obtained := by
    rw [List.filterMap_append, hclaims.obtained]
    exact hgenerates.obtained
  halts := hclaims.halts.append (halts_cons (by simp) hgenerates.halts)
  unassigned := by
    intro daily reply hmem
    rcases List.mem_append.mp hmem with hmem | hmem
    · exact hclaims.unassigned daily reply hmem
    · rcases List.mem_cons.mp hmem with hlisted | hmem
      · cases hlisted
      · rcases hgenerates.mem hmem with ⟨_, hdrawn⟩ | ⟨_, _, hasked, _⟩
        · cases hdrawn
        · cases hasked

theorem Obtains.orderly {events : List Event} {answer : Except AllocationError PoolEntry}
    (hobtains : Obtains events answer) : Orderly events answer := by
  cases hobtains with
  | unclaimed hclaims => exact Claims.orderly hclaims
  | claimed hclaims => exact Claims.orderly hclaims
  | unlisted hclaims cause => exact hclaims.orderly_unlisted cause
  | generated hclaims hgenerates => exact hgenerates.orderly hclaims

/-! ## Resolving a day -/

/-- A daily equation is put on record last, for the day, and from the only entry obtained. -/
def Assigns (date : Day) : List Event → Prop :=
  Everywhere fun before event after => ∀ daily reply, event = .asked ⟨.insertDaily daily, reply⟩ →
    after = [] ∧ ∃ entry, before.filterMap Event.obtained? = [entry] ∧ daily.date = date ∧
      daily.equation = entry.equation ∧ daily.targetNumber = entry.targetNumber ∧
      daily.difficulty = entry.difficulty

/-- What is said of the events by which a day is resolved, and of the answer. -/
structure Conduct (date : Day) (events : List Event)
    (answer : Except AllocationError DailyEquation) : Prop where
  first : ∃ reply rest, events = .asked ⟨.findDaily date, reply⟩ :: rest
  /-- An equation that the day has is the answer, and nothing else is asked. -/
  known : ∀ daily rest, events = .asked ⟨.findDaily date, .ok (.daily (some daily))⟩ :: rest →
    rest = [] ∧ answer = .ok daily
  draws : Draws events
  inserts : Inserts events
  /-- One entry is obtained at most. -/
  obtains : (events.filterMap Event.obtained?).length ≤ 1
  assigns : Assigns date events
  /-- What is answered is on record. -/
  answers : ∀ daily, answer = .ok daily →
    events = [.asked ⟨.findDaily date, .ok (.daily (some daily))⟩] ∨
      ∃ before, events = before ++ [.asked ⟨.insertDaily daily, .ok .done⟩]
  halts : Halts answer events

section Resolves

variable {date : Day} {events : List Event} {obtained : Except AllocationError PoolEntry}
  {entry : PoolEntry}

theorem Orderly.assigns_none (horderly : Orderly events obtained)
    {reply : Except StoreError Answer} :
    Assigns date (.asked ⟨.findDaily date, reply⟩ :: events) := by
  refine everywhere_cons.mpr ⟨by simp, everywhere_of_mem ?_⟩
  rintro before event hmem after daily answered rfl
  exact (horderly.unassigned daily answered hmem).elim

theorem Orderly.assigns_last (horderly : Orderly events (.ok entry)) (id : Identifier)
    (created : Timestamp) {found reply : Except StoreError Answer} :
    Assigns date (.asked ⟨.findDaily date, found⟩ ::
      (events ++ [.asked ⟨.insertDaily (.ofEntry id created date entry), reply⟩])) := by
  refine everywhere_cons.mpr ⟨by simp, everywhere_append.mpr ⟨everywhere_of_mem ?_,
    everywhere_cons.mpr ⟨?_, everywhere_nil⟩⟩⟩
  · rintro before event hmem after daily answered rfl
    exact (horderly.unassigned daily answered hmem).elim
  · rintro daily answered ⟨⟩
    have honly : (.asked ⟨.findDaily date, found⟩ :: (events ++ [])).filterMap Event.obtained? =
        [entry] := by
      rw [List.append_nil]
      exact horderly.obtained
    exact ⟨rfl, entry, honly, rfl, rfl, rfl, rfl⟩

/-- The conduct when the day has no equation: what comes last depends on whether an entry has been
obtained. -/
theorem Orderly.conduct (horderly : Orderly events obtained) (last : List Event)
    {answer : Except AllocationError DailyEquation}
    (hlast : ∀ event ∈ last, ∃ daily reply, event = .asked ⟨.insertDaily daily, reply⟩)
    (hassigns : Assigns date
      (.asked ⟨.findDaily date, .ok (.daily none)⟩ :: (events ++ last)))
    (hanswers : ∀ daily, answer = .ok daily → last = [.asked ⟨.insertDaily daily, .ok .done⟩])
    (hhalts : Halts answer (events ++ last)) :
    Conduct date (.asked ⟨.findDaily date, .ok (.daily none)⟩ :: (events ++ last)) answer where
  first := ⟨_, _, rfl⟩
  known := by simp
  draws := by
    refine horderly.draws.surround fun made hmem => ?_
    obtain ⟨_, _, hasked⟩ := hlast _ hmem
    cases hasked
  inserts := by
    refine horderly.inserts.surround (by simp) fun batch reply hmem => ?_
    obtain ⟨_, _, hasked⟩ := hlast _ hmem
    cases hasked
  obtains := by
    have hnone : last.filterMap Event.obtained? = [] := by
      refine List.filterMap_eq_nil_iff.mpr fun event hmem => ?_
      obtain ⟨daily, reply, rfl⟩ := hlast event hmem
      rfl
    change ((events ++ last).filterMap Event.obtained?).length ≤ 1
    rw [List.filterMap_append, hnone, List.append_nil, horderly.obtained]
    cases obtained.toOption <;> simp
  assigns := hassigns
  answers := by
    intro daily hanswer
    rw [hanswers daily hanswer]
    exact Or.inr ⟨_ :: events, rfl⟩
  halts := halts_cons (by simp) hhalts

theorem conduct_alone {reply : Except StoreError Answer}
    {answer : Except AllocationError DailyEquation}
    (hknown : ∀ daily, reply = .ok (.daily (some daily)) ↔ answer = .ok daily)
    (hhalts : Halts answer [.asked ⟨.findDaily date, reply⟩]) :
    Conduct date [.asked ⟨.findDaily date, reply⟩] answer where
  first := ⟨_, _, rfl⟩
  known := by
    rintro daily rest ⟨⟩
    exact ⟨rfl, (hknown daily).mp rfl⟩
  draws := everywhere_of_mem (by simp)
  inserts := everywhere_of_mem (by simp)
  obtains := Nat.zero_le _
  assigns := everywhere_of_mem (by simp)
  answers := fun daily hanswer => Or.inl (by rw [(hknown daily).mpr hanswer])
  halts := hhalts

theorem Resolves.conduct {answer : Except AllocationError DailyEquation}
    (hresolves : Resolves date events answer) : Conduct date events answer := by
  cases hresolves with
  | unread cause => exact conduct_alone (by simp) halts_last
  | known daily =>
      exact conduct_alone (by simp) (halts_cons (by simp) everywhere_nil)
  | @unobtained events cause hobtains =>
      rw [← List.append_nil events]
      refine hobtains.orderly.conduct [] (by simp) ?_ (by simp) ?_
      · rw [List.append_nil]
        exact hobtains.orderly.assigns_none
      · rw [List.append_nil]
        exact hobtains.orderly.halts.congr (by simp)
  | unassigned hobtains id created cause =>
      exact hobtains.orderly.conduct _ (by simp) (hobtains.orderly.assigns_last id created)
        (by simp) (hobtains.orderly.halts.append halts_last)
  | assigned hobtains id created =>
      exact hobtains.orderly.conduct _ (by simp) (hobtains.orderly.assigns_last id created)
        (by simp) (hobtains.orderly.halts.append (halts_cons (by simp) everywhere_nil))

end Resolves

/-- No word is drawn either, unless the pool was found to have no unused entry. -/
theorem Conduct.words_eq {σ : Type} [Store σ] {session next : Session σ} {date : Day}
    {events : List Event} {answer : Except AllocationError DailyEquation}
    (hconduct : Conduct date events answer) (hpath : session.Path events next) :
    next.supply.words = session.supply.words ∨
      .asked ⟨.findUnused, .ok (.entry none)⟩ ∈ events := by
  by_cases hdraws : ∃ made, .drew made ∈ events
  · obtain ⟨made, hmem⟩ := hdraws
    obtain ⟨before, after, rfl⟩ := List.append_of_mem hmem
    exact Or.inr (List.mem_append_left _ (hconduct.draws before _ after rfl made rfl))
  · exact Or.inl (hpath.words_eq fun made hmem => hdraws ⟨made, hmem⟩)

end Course

namespace Allocator

/-- Whatever a store answers, a day is resolved as `Conduct` says.  The calls among the events are
those of a transcript, and keeping it changes neither the answer nor the store. -/
theorem resolve_conduct {σ : Type} [Store σ] (allocator : Allocator) (date : Day)
    (session : Session σ) :
    ∃ (next : Session (Store.Recorded σ)) (events : List Event),
      outcome (allocator.resolve date) session.recorded =
          ((outcome (allocator.resolve date) session).1, next) ∧
        next.Related (fun state store => state.store = store)
          (outcome (allocator.resolve date) session).2 ∧
        session.recorded.Path events next ∧
        next.store.transcript = events.filterMap Event.exchange? ∧
        (next.supply.words = session.supply.words ∨
          .asked ⟨.findUnused, .ok (.entry none)⟩ ∈ events) ∧
        Course.Conduct date events (outcome (allocator.resolve date) session).1 := by
  obtain ⟨hanswer, hrelated⟩ := agrees_resolve Store.Recorded.agree_recorded allocator date
    session.recorded session ⟨rfl, rfl, rfl⟩
  obtain ⟨events, hpath, hresolves⟩ := runs_resolve allocator date session.recorded
  rw [hanswer] at hresolves
  refine ⟨_, events, Prod.ext hanswer rfl, hrelated, hpath, hpath.transcript_eq,
    hresolves.conduct.words_eq hpath, hresolves.conduct⟩

end Allocator

end EquationPuzzle
