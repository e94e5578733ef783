import EquationPuzzle.Calendar.Day
import Mathlib.Data.Set.Card
import Mathlib.Tactic.SplitIfs

/-!
# The succession of days

The number of a day grows with its year, its month and its day, in this order, and each day but the
last one of all is followed by the day with the next number.  Hence the days from one day to
another, one after the other, are just those that the calendar has between them, each of them once;
only the last day of all is left out, since no day follows it.
-/

namespace EquationPuzzle

theorem daysInMonth_pos (year : Int) (month : Nat) : 0 < daysInMonth year month := by
  unfold daysInMonth
  split_ifs <;> decide

def daysInYear (year : Int) : Nat :=
  if isLeapYear year then 366 else 365

namespace Day

/-! ## The numbers of days -/

theorem daysBeforeMonth_succ (year : Int) {month : Nat} (hmonth : 1 ≤ month) :
    daysBeforeMonth year (month + 1) = daysBeforeMonth year month + daysInMonth year month := by
  obtain ⟨earlier, rfl⟩ := Nat.exists_eq_add_of_le' hmonth
  simp [daysBeforeMonth, List.range_succ]

theorem daysBeforeMonth_december (year : Int) :
    daysBeforeMonth year 12 + 31 = daysInYear year := by
  cases hleap : isLeapYear year <;>
    simp [daysBeforeMonth, daysInYear, daysInMonth, List.range_succ, hleap]

theorem daysBeforeYear_succ (year : Int) :
    daysBeforeYear (year + 1) = daysBeforeYear year + daysInYear year := by
  simp only [daysBeforeYear, daysInYear, isLeapYear, Bool.and_eq_true, Bool.or_eq_true,
    decide_eq_true_eq, ne_eq]
  split_ifs <;> omega

/-- A month ends before a later one of the same year begins. -/
theorem daysBeforeMonth_add_le (year : Int) {month later : Nat} (hmonth : 1 ≤ month)
    (hlater : month < later) :
    daysBeforeMonth year month + daysInMonth year month ≤ daysBeforeMonth year later := by
  induction later, hlater using Nat.le_induction with
  | base => exact (daysBeforeMonth_succ year hmonth).ge
  | succ later hlater ih =>
      rw [daysBeforeMonth_succ year (by omega)]
      omega

/-- A year ends before a later one begins. -/
theorem daysBeforeYear_add_le {year later : Int} (hlater : year < later) :
    daysBeforeYear year + daysInYear year ≤ daysBeforeYear later := by
  induction later, Int.add_one_le_of_lt hlater using Int.leInduction with
  | base => exact (daysBeforeYear_succ year).ge
  | succ later hlater ih =>
      rw [daysBeforeYear_succ later]
      omega

variable (d : Day)

/-- How far into its year a day stands. -/
def dayOfYear : Nat :=
  daysBeforeMonth d.year d.month + d.day

theorem ordinal_eq : d.ordinal = daysBeforeYear d.year + d.dayOfYear := by
  rw [ordinal, dayOfYear]
  omega

theorem dayOfYear_pos : 0 < d.dayOfYear :=
  Nat.add_pos_right _ d.valid.2.2.2.2.1

theorem dayOfYear_le : d.dayOfYear ≤ daysInYear d.year := by
  obtain ⟨_, _, hfirst, hlast, _, hday⟩ := d.valid
  rw [← daysBeforeMonth_december, dayOfYear]
  rcases Nat.lt_or_eq_of_le hlast with hbefore | hlast
  · have hmonth := daysBeforeMonth_add_le d.year hfirst hbefore
    omega
  · rw [hlast] at hday ⊢
    exact Nat.add_le_add_left hday _

/-! ## The order of the calendar -/

/-- A day precedes another by its year, then by its month, then by its day. -/
def Precedes (a b : Day) : Prop :=
  a.year < b.year ∨
    a.year = b.year ∧ (a.month < b.month ∨ a.month = b.month ∧ a.day < b.day)

variable {a b : Day}

theorem Precedes.ordinal_lt (hprecedes : a.Precedes b) : a.ordinal < b.ordinal := by
  rw [ordinal_eq, ordinal_eq]
  rcases hprecedes with hyear | ⟨hyear, hrest⟩
  · have hbefore := daysBeforeYear_add_le hyear
    have hends := a.dayOfYear_le
    have hbegins := b.dayOfYear_pos
    omega
  · rw [hyear]
    suffices a.dayOfYear < b.dayOfYear by omega
    rw [dayOfYear, dayOfYear, hyear]
    rcases hrest with hmonth | ⟨hmonth, hday⟩
    · obtain ⟨_, _, hfirst, _, _, hends⟩ := a.valid
      have hbefore := daysBeforeMonth_add_le b.year hfirst hmonth
      have hbegins := b.valid.2.2.2.2.1
      rw [hyear] at hends
      omega
    · rw [hmonth]
      exact Nat.add_lt_add_left hday _

theorem precedes_trichotomous (a b : Day) : a.Precedes b ∨ a = b ∨ b.Precedes a := by
  rcases a with ⟨year, month, day, _⟩
  rcases b with ⟨year', month', day', _⟩
  simp only [Precedes, mk.injEq]
  omega

theorem precedes_iff : a.Precedes b ↔ a.ordinal < b.ordinal := by
  refine ⟨Precedes.ordinal_lt, fun hlt => ?_⟩
  rcases precedes_trichotomous a b with hprecedes | rfl | hprecedes
  · exact hprecedes
  · exact absurd hlt (lt_irrefl _)
  · exact absurd hprecedes.ordinal_lt hlt.asymm

theorem ordinal_injective : Function.Injective ordinal := by
  intro a b heq
  rcases precedes_trichotomous a b with hprecedes | rfl | hprecedes
  · exact absurd heq hprecedes.ordinal_lt.ne
  · rfl
  · exact absurd heq hprecedes.ordinal_lt.ne'

/-! ## The day after -/

/-- The last day of all. -/
def latest : Day :=
  ⟨lastYear, 12, 31, by decide⟩

theorem ofParts?_eq_some {year : Int} {month day : Nat} (valid : Valid year month day) :
    ofParts? year month day = some ⟨year, month, day, valid⟩ :=
  dif_pos valid

/-- Each day is the last one of all, or is followed by the day with the next number. -/
theorem next?_cases (d : Day) :
    d.next? = none ∧ d = latest ∨
      ∃ following, d.next? = some following ∧ following.ordinal = d.ordinal + 1 := by
  rcases d with ⟨year, month, day, hfirst, hlast, hmonth, hmonths, hday, hdays⟩
  unfold next?
  dsimp only
  split_ifs with hwithin hearlier
  · refine Or.inr ⟨_, ofParts?_eq_some ⟨hfirst, hlast, hmonth, hmonths, by omega, hwithin⟩, ?_⟩
    simp only [ordinal]
    omega
  · have hbegins := daysInMonth_pos year (month + 1)
    refine Or.inr ⟨_, ofParts?_eq_some ⟨hfirst, hlast, by omega, by omega, le_rfl, hbegins⟩, ?_⟩
    simp only [ordinal, daysBeforeMonth_succ year hmonth]
    omega
  · -- The last day of a year, behind which the calendar may end.
    obtain rfl : month = 12 := by omega
    obtain rfl : day = 31 := by
      have hdecember : daysInMonth year 12 = 31 := by simp [daysInMonth]
      omega
    by_cases hend : year = lastYear
    · subst hend
      exact Or.inl ⟨by decide, rfl⟩
    · have hvalid : Valid (year + 1) 1 1 := by
        refine ⟨by omega, by omega, le_rfl, by decide, le_rfl, daysInMonth_pos _ _⟩
      refine Or.inr ⟨_, ofParts?_eq_some hvalid, ?_⟩
      have hyear := daysBeforeMonth_december year
      have hjanuary : daysBeforeMonth (year + 1) 1 = 0 := rfl
      simp only [ordinal, daysBeforeYear_succ, hjanuary]
      omega

theorem ordinal_le_latest (d : Day) : d.ordinal ≤ latest.ordinal := by
  obtain ⟨_, hlast, _, hmonths, _, hdays⟩ := d.valid
  refine not_lt.mp fun hlater => ?_
  rcases precedes_iff.mpr hlater with hyear | ⟨hyear, hmonth | ⟨hmonth, hday⟩⟩
  · exact absurd hyear (not_lt.mpr hlast)
  · exact absurd hmonth (not_lt.mpr hmonths)
  · rw [← hyear, ← hmonth] at hdays
    exact absurd hday (not_lt.mpr hdays)

/-! ## Days one after the other -/

theorem length_consecutive (d : Day) (count : Nat) :
    ((d.consecutive count).length : Int) = min (count : Int) (latest.ordinal - d.ordinal) := by
  induction count generalizing d with
  | zero =>
      have hlatest := d.ordinal_le_latest
      simp only [consecutive, List.length_nil]
      omega
  | succ count ih =>
      unfold consecutive
      rcases d.next?_cases with ⟨hnext, rfl⟩ | ⟨following, hnext, hordinal⟩
      · simp only [hnext, List.length_nil]
        omega
      · have hrest := ih following
        simp only [hnext, List.length_cons]
        omega

theorem mem_consecutive_iff {d other : Day} {count : Nat} :
    other ∈ d.consecutive count ↔
      d.ordinal ≤ other.ordinal ∧ other.ordinal < d.ordinal + count ∧ other ≠ latest := by
  induction count generalizing d with
  | zero =>
      simp only [consecutive, List.not_mem_nil, false_iff]
      omega
  | succ count ih =>
      unfold consecutive
      rcases d.next?_cases with ⟨hnext, rfl⟩ | ⟨following, hnext, hordinal⟩
      · simp only [hnext, List.not_mem_nil, false_iff]
        rintro ⟨hafter, _, hne⟩
        exact hne (ordinal_injective (le_antisymm other.ordinal_le_latest hafter))
      · have hearlier : d ≠ latest := by
          rintro rfl
          have hlatest := following.ordinal_le_latest
          omega
        simp only [hnext, List.mem_cons, ih, ← @ordinal_injective.eq_iff _ _ _ other d]
        constructor
        · rintro (hsame | ⟨hafter, hbefore, hne⟩)
          · obtain rfl := ordinal_injective hsame
            exact ⟨le_rfl, by omega, hearlier⟩
          · exact ⟨by omega, by omega, hne⟩
        · rintro ⟨hafter, hbefore, hne⟩
          rcases hafter.eq_or_lt with hsame | hlater
          · exact Or.inl hsame.symm
          · exact Or.inr ⟨by omega, by omega, hne⟩

theorem nodup_consecutive (d : Day) (count : Nat) : (d.consecutive count).Nodup := by
  induction count generalizing d with
  | zero => exact List.nodup_nil
  | succ count ih =>
      unfold consecutive
      rcases d.next?_cases with ⟨hnext, _⟩ | ⟨following, hnext, hordinal⟩
      · simp [hnext]
      · simp only [hnext, List.nodup_cons, mem_consecutive_iff]
        exact ⟨by omega, ih following⟩

/-! ## The days of a range -/

/-- The days of the calendar from the first to the last, both included. -/
def between (first last : Day) : Set Day :=
  {d | ¬d.Precedes first ∧ ¬last.Precedes d}

theorem mem_between_iff {first last d : Day} :
    d ∈ between first last ↔ first.ordinal ≤ d.ordinal ∧ d.ordinal ≤ last.ordinal := by
  simp [between, precedes_iff]

variable {first last : Day}

/-- A range lists the days between its ends, save the last one of all. -/
theorem mem_span_iff {d : Day} :
    d ∈ first.span last ↔ d ∈ between first last ∧ d ≠ latest := by
  rw [span, mem_consecutive_iff, mem_between_iff]
  constructor
  · rintro ⟨hafter, hbefore, hne⟩
    exact ⟨⟨hafter, by omega⟩, hne⟩
  · rintro ⟨⟨hafter, hbefore⟩, hne⟩
    exact ⟨hafter, by omega, hne⟩

theorem nodup_span (first last : Day) : (first.span last).Nodup :=
  nodup_consecutive _ _

theorem length_span (hrange : first.ordinal ≤ last.ordinal) :
    ((first.span last).length : Int) + (if last = latest then 1 else 0) =
      last.ordinal - first.ordinal + 1 := by
  have hbound := last.ordinal_le_latest
  have hlisted := first.length_consecutive (last.ordinal - first.ordinal + 1).toNat
  rw [← span, Int.toNat_of_nonneg (by omega)] at hlisted
  split_ifs with hlast
  · rw [hlast] at hlisted ⊢
    omega
  · have hbefore := ordinal_injective.ne hlast
    omega

theorem finite_between (first last : Day) : (between first last).Finite := by
  refine ((first.span last).finite_toSet.insert latest).subset fun d hd => ?_
  by_cases hlatest : d = latest
  · exact Or.inl hlatest
  · exact Or.inr (mem_span_iff.mpr ⟨hd, hlatest⟩)

theorem length_span_eq_ncard (first last : Day) :
    (first.span last).length = (between first last \ {latest}).ncard := by
  classical
  have hlisted : between first last \ {latest} = ((first.span last).toFinset : Set Day) := by
    ext d
    simp [mem_span_iff]
  rw [hlisted, Set.ncard_coe_finset, List.toFinset_card_of_nodup (nodup_span first last)]

/-- A range lists as many days as there are between its ends, or one less if it ends with the last
day of all. -/
theorem length_span_add (hrange : first.ordinal ≤ last.ordinal) :
    (first.span last).length + (if last = latest then 1 else 0) = (between first last).ncard := by
  rw [length_span_eq_ncard]
  split_ifs with hlast
  · refine Set.ncard_sdiff_singleton_add_one ?_ (finite_between first last)
    exact mem_between_iff.mpr ⟨hlast ▸ hrange, hlast ▸ le_rfl⟩
  · have habsent : latest ∉ between first last := by
      intro hmem
      have hafter := (mem_between_iff.mp hmem).2
      exact hlast (ordinal_injective (le_antisymm last.ordinal_le_latest hafter))
    rw [Set.sdiff_singleton_eq_self habsent, Nat.add_zero]

/-! ## Whole years -/

/-- The first and the last day of a year, if the calendar has that year. -/
theorem boundsOfYear?_eq_some {year : Int}
    (hbounds : boundsOfYear? year = some (first, last)) :
    first.year = year ∧ first.dayOfYear = 1 ∧
      last.year = year ∧ last.dayOfYear = daysInYear year := by
  simp only [boundsOfYear?, ofParts?, Option.bind_eq_bind, Option.bind_eq_some_iff,
    Option.dite_none_right_eq_some, Option.pure_def, Option.some.injEq, Prod.mk.injEq] at hbounds
  obtain ⟨_, ⟨_, rfl⟩, _, ⟨_, rfl⟩, rfl, rfl⟩ := hbounds
  exact ⟨rfl, rfl, rfl, daysBeforeMonth_december year⟩

/-- A year has 365 days, or 366 if it is a leap year. -/
theorem length_span_year {year : Int} (hbounds : boundsOfYear? year = some (first, last)) :
    (first.span last).length + (if year = lastYear then 1 else 0) = daysInYear year := by
  obtain ⟨hfirst, hbegins, hlast, hends⟩ := boundsOfYear?_eq_some hbounds
  have hopens : first.ordinal = daysBeforeYear year + 1 := by
    rw [ordinal_eq, hfirst, hbegins]
    rfl
  have hcloses : last.ordinal = daysBeforeYear year + daysInYear year := by
    rw [ordinal_eq, hlast, hends]
  have hpos : 0 < daysInYear year := by
    rw [← hends]
    exact last.dayOfYear_pos
  have hlatest : last = latest ↔ year = lastYear := by
    have hordinal : latest.ordinal = daysBeforeYear lastYear + daysInYear lastYear := by decide
    constructor
    · rintro rfl
      exact hlast.symm
    · rintro rfl
      exact ordinal_injective (hcloses.trans hordinal.symm)
  have hlength := length_span (show first.ordinal ≤ last.ordinal by omega)
  rw [hopens, hcloses, if_congr hlatest rfl rfl] at hlength
  split_ifs at hlength ⊢ <;> omega

end Day

end EquationPuzzle
