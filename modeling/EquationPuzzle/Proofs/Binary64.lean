import EquationPuzzle.Binary64
import Mathlib.Algebra.Order.Field.Power
import Mathlib.Data.Rat.Cast.Order
import Mathlib.Tactic.Linarith
import Mathlib.Tactic.Positivity
import Mathlib.Tactic.Ring

/-!
# Rounding to binary floating point

Rounding takes a number to the grid of the format's values.  A number that is on the grid is its own
rounding, and a bound that is on the grid is kept by what is rounded below it.  So whole numbers of
up to 53 bits are computed with exactly as long as the results are whole numbers of that kind, and
adding zero changes no value.
-/

namespace EquationPuzzle

namespace Binary64

/-! ## Powers of two -/

theorem two_zpow_pos (place : Int) : (0 : Rat) < 2 ^ place := by positivity

theorem shifted_pos {number : Nat} (hnumber : 0 < number) (zeros : Int) :
    0 < shifted number zeros :=
  Nat.mul_pos hnumber (Nat.pow_pos (by decide))

theorem cast_shifted (number : Nat) (zeros : Int) :
    (shifted number zeros : Rat) = number * 2 ^ zeros.toNat := by
  rw [shifted, Nat.pow_eq]
  push_cast
  rfl

/-- Zeros behind the one and zeros behind the other number move the quotient by powers of two. -/
theorem shifted_div_shifted (numerator denominator : Nat) (place : Int) :
    (shifted numerator (-place) : Rat) / shifted denominator place =
      numerator / denominator / 2 ^ place := by
  rw [cast_shifted, cast_shifted]
  rcases Int.le_total 0 place with hplace | hplace
  · have hpower : (2 : Rat) ^ place = 2 ^ place.toNat := by
      rw [← zpow_natCast, Int.toNat_of_nonneg hplace]
    rw [hpower, Int.toNat_of_nonpos (by omega), pow_zero, mul_one, div_div]
  · have hpower : (2 : Rat) ^ place = (2 ^ (-place).toNat)⁻¹ := by
      rw [← zpow_natCast, ← zpow_neg, Int.toNat_of_nonneg (by omega), neg_neg]
    rw [hpower, Int.toNat_of_nonpos hplace, pow_zero, mul_one, div_inv_eq_mul]
    ring

theorem scaled_eq (units : Nat) (place : Int) : scaled units place = units * 2 ^ place := by
  have hquotient := shifted_div_shifted units 1 (-place)
  rw [neg_neg, zpow_neg, div_inv_eq_mul, Nat.cast_one, div_one] at hquotient
  rw [scaled, Rat.mkRat_eq_div, ← hquotient]
  rfl

theorem shifted_le_shifted_iff {numerator denominator : Nat} (hdenominator : 0 < denominator)
    (place : Int) :
    shifted denominator place ≤ shifted numerator (-place) ↔
      (2 : Rat) ^ place ≤ numerator / denominator := by
  have hshifted : (0 : Rat) < shifted denominator place :=
    Nat.cast_pos.mpr (shifted_pos hdenominator place)
  rw [← Nat.cast_le (α := Rat), ← one_le_div hshifted, shifted_div_shifted,
    one_le_div (two_zpow_pos place)]

theorem two_zpow_log2_le {number : Nat} (hnumber : 0 < number) :
    (2 : Rat) ^ (Nat.log2 number : Int) ≤ number := by
  rw [zpow_natCast]
  exact_mod_cast Nat.log2_self_le (by omega)

theorem lt_two_zpow_log2 (number : Nat) : (number : Rat) < 2 ^ (Nat.log2 number + 1 : Int) := by
  rw [← Nat.cast_one, ← Nat.cast_add, zpow_natCast]
  exact_mod_cast Nat.lt_log2_self

section Quotient

variable {numerator denominator : Nat} (hnumerator : 0 < numerator) (hdenominator : 0 < denominator)

include hnumerator hdenominator

/-- The binary exponent of a quotient is the difference of those of its parts or one less. -/
theorem binaryExponent_bounds :
    (2 : Rat) ^ binaryExponent numerator denominator ≤ numerator / denominator ∧
      (numerator : Rat) / denominator < 2 ^ (binaryExponent numerator denominator + 1) := by
  have hpositive : (0 : Rat) < denominator := Nat.cast_pos.mpr hdenominator
  have hlower := two_zpow_log2_le hnumerator
  have hupper := lt_two_zpow_log2 numerator
  have hlower' := two_zpow_log2_le hdenominator
  have hupper' := lt_two_zpow_log2 denominator
  set up : Int := (Nat.log2 numerator : Int) with hup
  set down : Int := (Nat.log2 denominator : Int) with hdown
  unfold binaryExponent
  simp only [← hup, ← hdown]
  by_cases hfits : shifted denominator (up - down) ≤ shifted numerator (-(up - down))
  · rw [if_pos hfits]
    refine ⟨(shifted_le_shifted_iff hdenominator _).mp hfits, ?_⟩
    rw [div_lt_iff₀ hpositive]
    calc (numerator : Rat) < 2 ^ (up + 1) := hupper
      _ = 2 ^ (up - down + 1) * 2 ^ down := by
        rw [← zpow_add₀ two_ne_zero]
        congr 1
        ring
      _ ≤ 2 ^ (up - down + 1) * denominator :=
        mul_le_mul_of_nonneg_left hlower' (two_zpow_pos _).le
  · rw [if_neg hfits, Int.sub_add_cancel]
    refine ⟨?_, lt_of_not_ge fun hle => hfits ((shifted_le_shifted_iff hdenominator _).mpr hle)⟩
    rw [le_div_iff₀ hpositive]
    calc (2 : Rat) ^ (up - down - 1) * denominator
        ≤ 2 ^ (up - down - 1) * 2 ^ (down + 1) :=
          mul_le_mul_of_nonneg_left hupper'.le (two_zpow_pos _).le
      _ = 2 ^ up := by
        rw [← zpow_add₀ two_ne_zero]
        congr 1
        ring
      _ ≤ numerator := hlower

end Quotient

/-! ## The grid -/

/-- Not negative, with at most 53 bits and a last place no lower than that of the subnormal
numbers. -/
def OnGrid (magnitude : Rat) : Prop :=
  ∃ units : Nat, ∃ place : Int, units < 2 ^ 53 ∧ -1074 ≤ place ∧ magnitude = units * 2 ^ place

/-- A number that is a finite value of the format. -/
structure Representable (value : Rat) : Prop where
  onGrid : OnGrid |value|
  lt_limit : |value| < limit

theorem onGrid_natCast {number : Nat} (hnumber : number < 2 ^ 53) : OnGrid number :=
  ⟨number, 0, hnumber, by decide, by simp⟩

/-- The units of a place may come to one more than 53 bits can hold. -/
theorem onGrid_of_le {units : Nat} {place : Int} (hunits : units ≤ 2 ^ 53)
    (hplace : -1074 ≤ place) : OnGrid (units * 2 ^ place) := by
  rcases hunits.lt_or_eq with hlt | rfl
  · exact ⟨units, place, hlt, hplace, rfl⟩
  · refine ⟨2 ^ 52, place + 1, by decide, by omega, ?_⟩
    rw [zpow_add_one₀ two_ne_zero]
    push_cast
    ring

theorem roundQuotient_le {numerator denominator bound : Nat} (hdenominator : 0 < denominator)
    (hbound : numerator ≤ bound * denominator) : roundQuotient numerator denominator ≤ bound := by
  have hquotient : numerator / denominator ≤ bound := by
    rw [Nat.div_le_iff_le_mul hdenominator]
    omega
  unfold roundQuotient
  rcases hquotient.lt_or_eq with hlt | heq
  · dsimp only
    split
    · omega
    · split <;> omega
  · have hsplit := Nat.div_add_mod numerator denominator
    rw [heq, Nat.mul_comm] at hsplit
    have hexact : numerator % denominator = 0 := by omega
    simp [hexact, hdenominator, heq]

theorem le_roundQuotient {numerator denominator bound : Nat} (hdenominator : 0 < denominator)
    (hbound : bound * denominator ≤ numerator) : bound ≤ roundQuotient numerator denominator := by
  have hquotient := (Nat.le_div_iff_mul_le hdenominator).mpr hbound
  unfold roundQuotient
  dsimp only
  split
  · exact hquotient
  · split <;> omega

section Magnitude

variable {numerator denominator : Nat}

theorem roundMagnitude_eq (hnumerator : 0 < numerator) :
    roundMagnitude numerator denominator =
      roundQuotient (shifted numerator (-lastPlace numerator denominator))
        (shifted denominator (lastPlace numerator denominator)) *
          2 ^ lastPlace numerator denominator := by
  rw [roundMagnitude, if_neg (by omega), scaled_eq]

theorem shifted_le_mul_iff (hdenominator : 0 < denominator) (units : Nat) (place : Int) :
    shifted numerator (-place) ≤ units * shifted denominator place ↔
      (numerator : Rat) / denominator ≤ units * 2 ^ place := by
  have hshifted : (0 : Rat) < shifted denominator place :=
    Nat.cast_pos.mpr (shifted_pos hdenominator place)
  rw [← Nat.cast_le (α := Rat), Nat.cast_mul, ← div_le_iff₀ hshifted, shifted_div_shifted,
    div_le_iff₀ (two_zpow_pos place)]

theorem mul_le_shifted_iff (hdenominator : 0 < denominator) (units : Nat) (place : Int) :
    units * shifted denominator place ≤ shifted numerator (-place) ↔
      units * 2 ^ place ≤ (numerator : Rat) / denominator := by
  have hshifted : (0 : Rat) < shifted denominator place :=
    Nat.cast_pos.mpr (shifted_pos hdenominator place)
  rw [← Nat.cast_le (α := Rat), Nat.cast_mul, ← le_div_iff₀ hshifted, shifted_div_shifted,
    le_div_iff₀ (two_zpow_pos place)]

variable (hnumerator : 0 < numerator) (hdenominator : 0 < denominator)

include hnumerator hdenominator

/-- A number on the grid is a multiple of the last place of every smaller one. -/
theorem exists_eq_mul_of_le {bound : Rat} (hbound : OnGrid bound)
    (hle : (numerator : Rat) / denominator ≤ bound) :
    ∃ units : Nat, bound = units * 2 ^ lastPlace numerator denominator := by
  obtain ⟨units, place, hunits, hplace, rfl⟩ := hbound
  obtain ⟨hlower, _⟩ := binaryExponent_bounds hnumerator hdenominator
  have hexponent : binaryExponent numerator denominator < place + 53 := by
    refine (zpow_lt_zpow_iff_right₀ (one_lt_two : (1 : Rat) < 2)).mp ?_
    calc (2 : Rat) ^ binaryExponent numerator denominator ≤ units * 2 ^ place := hlower.trans hle
      _ < 2 ^ (53 : Int) * 2 ^ place :=
        mul_lt_mul_of_pos_right (by exact_mod_cast hunits) (two_zpow_pos place)
      _ = 2 ^ (place + 53) := by rw [← zpow_add₀ two_ne_zero, add_comm]
  have hlast : lastPlace numerator denominator ≤ place := by
    unfold lastPlace
    omega
  refine ⟨units * 2 ^ (place - lastPlace numerator denominator).toNat, ?_⟩
  push_cast
  rw [← zpow_natCast, Int.toNat_of_nonneg (by omega), mul_assoc, ← zpow_add₀ two_ne_zero,
    Int.sub_add_cancel]

theorem roundMagnitude_le {bound : Rat} (hbound : OnGrid bound)
    (hle : (numerator : Rat) / denominator ≤ bound) :
    roundMagnitude numerator denominator ≤ bound := by
  obtain ⟨units, rfl⟩ := exists_eq_mul_of_le hnumerator hdenominator hbound hle
  rw [roundMagnitude_eq hnumerator]
  refine mul_le_mul_of_nonneg_right (Nat.cast_le.mpr ?_) (two_zpow_pos _).le
  exact roundQuotient_le (shifted_pos hdenominator _)
    ((shifted_le_mul_iff hdenominator units _).mpr hle)

/-- A bound that is finer than the last place of the number is below the least number with that
last place. -/
theorem le_roundMagnitude {bound : Rat} (hbound : OnGrid bound)
    (hle : bound ≤ numerator / denominator) : bound ≤ roundMagnitude numerator denominator := by
  obtain ⟨units, place, hunits, hplace, rfl⟩ := hbound
  rw [roundMagnitude_eq hnumerator]
  have hround : ∀ count : Nat, (count : Rat) * 2 ^ lastPlace numerator denominator ≤
      numerator / denominator → (count : Rat) * 2 ^ lastPlace numerator denominator ≤
        roundQuotient (shifted numerator (-lastPlace numerator denominator))
          (shifted denominator (lastPlace numerator denominator)) *
            2 ^ lastPlace numerator denominator := by
    intro count hcount
    refine mul_le_mul_of_nonneg_right (Nat.cast_le.mpr ?_) (two_zpow_pos _).le
    exact le_roundQuotient (shifted_pos hdenominator _)
      ((mul_le_shifted_iff hdenominator count _).mpr hcount)
  rcases le_or_gt (lastPlace numerator denominator) place with hcoarse | hfine
  · have hsame : (units : Rat) * 2 ^ place =
        (units * 2 ^ (place - lastPlace numerator denominator).toNat : Nat) *
          2 ^ lastPlace numerator denominator := by
      push_cast
      rw [← zpow_natCast, Int.toNat_of_nonneg (by omega), mul_assoc, ← zpow_add₀ two_ne_zero,
        Int.sub_add_cancel]
    rw [hsame] at hle ⊢
    exact hround _ hle
  · have hlast : lastPlace numerator denominator = binaryExponent numerator denominator - 52 := by
      unfold lastPlace at hfine ⊢
      omega
    obtain ⟨hexponent, _⟩ := binaryExponent_bounds hnumerator hdenominator
    have hleast : ((2 ^ 52 : Nat) : Rat) * 2 ^ lastPlace numerator denominator =
        2 ^ binaryExponent numerator denominator := by
      have hexponent : binaryExponent numerator denominator =
          52 + lastPlace numerator denominator := by omega
      rw [hexponent, zpow_add₀ two_ne_zero]
      norm_cast
    calc (units : Rat) * 2 ^ place ≤ 2 ^ (53 : Int) * 2 ^ place :=
          mul_le_mul_of_nonneg_right (by exact_mod_cast hunits.le) (two_zpow_pos place).le
      _ = 2 ^ (53 + place) := (zpow_add₀ two_ne_zero _ _).symm
      _ ≤ 2 ^ binaryExponent numerator denominator :=
          zpow_le_zpow_right₀ one_le_two (by omega)
      _ = (2 ^ 52 : Nat) * 2 ^ lastPlace numerator denominator := hleast.symm
      _ ≤ _ := hround _ (hleast.trans_le hexponent)

theorem roundMagnitude_of_onGrid (hgrid : OnGrid (numerator / denominator)) :
    roundMagnitude numerator denominator = numerator / denominator :=
  le_antisymm (roundMagnitude_le hnumerator hdenominator hgrid le_rfl)
    (le_roundMagnitude hnumerator hdenominator hgrid le_rfl)

theorem onGrid_roundMagnitude : OnGrid (roundMagnitude numerator denominator) := by
  rw [roundMagnitude_eq hnumerator]
  refine onGrid_of_le (roundQuotient_le (shifted_pos hdenominator _) ?_) (le_max_right _ _)
  rw [shifted_le_mul_iff hdenominator]
  obtain ⟨_, hupper⟩ := binaryExponent_bounds hnumerator hdenominator
  have hplace : binaryExponent numerator denominator + 1 ≤
      53 + lastPlace numerator denominator := by
    unfold lastPlace
    omega
  calc (numerator : Rat) / denominator ≤ 2 ^ (binaryExponent numerator denominator + 1) := hupper.le
    _ ≤ 2 ^ (53 + lastPlace numerator denominator) :=
      zpow_le_zpow_right₀ one_le_two hplace
    _ = (2 ^ 53 : Nat) * 2 ^ lastPlace numerator denominator := by
      rw [zpow_add₀ two_ne_zero]
      norm_cast

end Magnitude

/-! ## Rounding -/

theorem abs_eq_div (value : Rat) : |value| = value.num.natAbs / value.den := by
  conv_lhs => rw [← Rat.num_div_den value]
  rw [abs_div, Nat.abs_cast, Nat.cast_natAbs, Int.cast_abs]

theorem two_zpow_lt_limit {place : Int} (hplace : place < 1024) : (2 : Rat) ^ place < limit := by
  rw [limit, scaled_eq, Nat.cast_one, one_mul]
  exact zpow_lt_zpow_right₀ one_lt_two hplace

section Round

variable {exact value bound : Rat}

theorem onGrid_magnitude (exact : Rat) : OnGrid (roundMagnitude exact.num.natAbs exact.den) := by
  rcases Nat.eq_zero_or_pos exact.num.natAbs with hzero | hpositive
  · rw [roundMagnitude, if_pos hzero]
    exact_mod_cast onGrid_natCast (show 0 < 2 ^ 53 by decide)
  · exact onGrid_roundMagnitude hpositive exact.den_pos

theorem magnitude_le (hbound : OnGrid bound) (hle : |exact| ≤ bound) :
    roundMagnitude exact.num.natAbs exact.den ≤ bound := by
  rcases Nat.eq_zero_or_pos exact.num.natAbs with hzero | hpositive
  · rw [roundMagnitude, if_pos hzero]
    exact (abs_nonneg exact).trans hle
  · rw [abs_eq_div] at hle
    exact roundMagnitude_le hpositive exact.den_pos hbound hle

theorem le_magnitude (hbound : OnGrid bound) (hle : bound ≤ |exact|) :
    bound ≤ roundMagnitude exact.num.natAbs exact.den := by
  rcases Nat.eq_zero_or_pos exact.num.natAbs with hzero | hpositive
  · rw [abs_eq_div, hzero, Nat.cast_zero, zero_div] at hle
    rwa [roundMagnitude, if_pos hzero]
  · rw [abs_eq_div] at hle
    exact le_roundMagnitude hpositive exact.den_pos hbound hle

theorem magnitude_eq_abs (hgrid : OnGrid |exact|) :
    roundMagnitude exact.num.natAbs exact.den = |exact| := by
  rcases Nat.eq_zero_or_pos exact.num.natAbs with hzero | hpositive
  · rw [roundMagnitude, if_pos hzero, abs_eq_div, hzero, Nat.cast_zero, zero_div]
  · rw [abs_eq_div] at hgrid ⊢
    exact roundMagnitude_of_onGrid hpositive exact.den_pos hgrid

theorem OnGrid.nonneg {magnitude : Rat} (hgrid : OnGrid magnitude) : 0 ≤ magnitude := by
  obtain ⟨units, place, _, _, rfl⟩ := hgrid
  positivity

/-- What is rounded is no larger than a bound on the grid that the number keeps. -/
theorem exists_round_eq (hbound : OnGrid bound) (hlimit : bound < limit) (hle : |exact| ≤ bound) :
    ∃ value, round exact = finite value ∧ |value| ≤ bound := by
  have hmagnitude := magnitude_le hbound hle
  have hnonneg := (onGrid_magnitude exact).nonneg
  unfold round
  simp only [not_le.mpr (hmagnitude.trans_lt hlimit), if_false]
  split
  · exact ⟨_, rfl, by rwa [abs_neg, abs_of_nonneg hnonneg]⟩
  · exact ⟨_, rfl, by rwa [abs_of_nonneg hnonneg]⟩

/-- Rounding does not leave an interval between two values of the format. -/
theorem exists_round_between {lower upper : Rat} (hlower : Representable lower)
    (hupper : Representable upper) (hle : lower ≤ exact) (hge : exact ≤ upper) :
    ∃ value, round exact = finite value ∧ lower ≤ value ∧ value ≤ upper := by
  have hnonneg := (onGrid_magnitude exact).nonneg
  rcases lt_or_ge exact 0 with hnegative | hpositive
  · have hbelow : lower < 0 := hle.trans_lt hnegative
    have hlowerGrid := hlower.onGrid
    have hlowerLimit := hlower.lt_limit
    rw [abs_of_neg hbelow] at hlowerGrid hlowerLimit
    have hmagnitude := magnitude_le hlowerGrid
      ((abs_of_neg hnegative).trans_le (neg_le_neg hle))
    refine ⟨-roundMagnitude exact.num.natAbs exact.den, ?_, le_neg.mp hmagnitude, ?_⟩
    · unfold round
      simp only [not_le.mpr (hmagnitude.trans_lt hlowerLimit), hnegative, if_false, if_true]
    · rcases lt_or_ge upper 0 with habove | habove
      · have hupperGrid := hupper.onGrid
        rw [abs_of_neg habove] at hupperGrid
        exact neg_le.mp (le_magnitude hupperGrid
          ((neg_le_neg hge).trans_eq (abs_of_neg hnegative).symm))
      · exact (neg_nonpos.mpr hnonneg).trans habove
  · have habove : 0 ≤ upper := hpositive.trans hge
    have hupperGrid := hupper.onGrid
    have hupperLimit := hupper.lt_limit
    rw [abs_of_nonneg habove] at hupperGrid hupperLimit
    have hmagnitude := magnitude_le hupperGrid ((abs_of_nonneg hpositive).trans_le hge)
    refine ⟨roundMagnitude exact.num.natAbs exact.den, ?_, ?_, hmagnitude⟩
    · unfold round
      simp only [not_le.mpr (hmagnitude.trans_lt hupperLimit), not_lt.mpr hpositive, if_false]
    · rcases lt_or_ge lower 0 with hbelow | hbelow
      · exact hbelow.le.trans hnonneg
      · have hlowerGrid := hlower.onGrid
        rw [abs_of_nonneg hbelow] at hlowerGrid
        exact le_magnitude hlowerGrid (hle.trans_eq (abs_of_nonneg hpositive).symm)

/-- A value of the format is its own rounding. -/
theorem Representable.round_eq (h : Representable value) : round value = finite value := by
  unfold round
  simp only [magnitude_eq_abs h.onGrid, not_le.mpr h.lt_limit, if_false]
  split
  · next hnegative => rw [abs_of_neg hnegative, neg_neg]
  · next hnonneg => rw [abs_of_nonneg (not_lt.mp hnonneg)]

theorem representable_of_round (hround : round exact = finite value) : Representable value := by
  have hgrid := onGrid_magnitude exact
  unfold round at hround
  dsimp only at hround
  split at hround
  · contradiction
  · next hlimit =>
      have habs : |value| = roundMagnitude exact.num.natAbs exact.den := by
        split at hround
        · rw [← finite.inj hround, abs_neg, abs_of_nonneg hgrid.nonneg]
        · rw [← finite.inj hround, abs_of_nonneg hgrid.nonneg]
      exact ⟨habs ▸ hgrid, habs ▸ not_le.mp hlimit⟩

theorem natCast_lt_limit {number : Nat} (hnumber : number < 2 ^ 53) : (number : Rat) < limit := by
  have hpower : (number : Rat) < 2 ^ (53 : Int) := by exact_mod_cast hnumber
  exact hpower.trans (two_zpow_lt_limit (by decide))

/-- Whole numbers of units are values of the format, be they of one or of a fraction. -/
theorem representable_mul_zpow {units place : Int} (hunits : |units| < 2 ^ 53)
    (hplace : -1074 ≤ place) (hsmall : place ≤ 0) : Representable ((units : Rat) * 2 ^ place) := by
  have hnatAbs : units.natAbs < 2 ^ 53 := by
    rw [Int.abs_eq_natAbs] at hunits
    omega
  have habs : |(units : Rat) * 2 ^ place| = units.natAbs * 2 ^ place := by
    rw [abs_mul, abs_of_pos (two_zpow_pos place), Nat.cast_natAbs, Int.cast_abs]
  refine ⟨habs ▸ ⟨units.natAbs, place, hnatAbs, hplace, rfl⟩, ?_⟩
  calc |(units : Rat) * 2 ^ place| = units.natAbs * 2 ^ place := habs
    _ ≤ units.natAbs * 1 :=
      mul_le_mul_of_nonneg_left (zpow_le_one_of_nonpos₀ one_le_two hsmall) (Nat.cast_nonneg _)
    _ < limit := by
      rw [mul_one]
      exact natCast_lt_limit hnatAbs

/-- The first power of two with more than 53 bits is a value of the format, too. -/
theorem representable_intCast_of_le {number : Int} (hnumber : |number| ≤ 2 ^ 53) :
    Representable number := by
  have hunits : number.natAbs ≤ 2 ^ 53 := by
    rw [Int.abs_eq_natAbs] at hnumber
    omega
  have habs : |(number : Rat)| = number.natAbs := by rw [Nat.cast_natAbs, Int.cast_abs]
  have hgrid := onGrid_of_le hunits (show -1074 ≤ (0 : Int) by decide)
  rw [zpow_zero, mul_one] at hgrid
  have hpower : (number.natAbs : Rat) ≤ 2 ^ (53 : Int) := by exact_mod_cast hunits
  exact ⟨habs ▸ hgrid, habs ▸ hpower.trans_lt (two_zpow_lt_limit (by decide))⟩

theorem representable_intCast {number : Int} (hnumber : |number| < 2 ^ 53) :
    Representable number :=
  representable_intCast_of_le hnumber.le

theorem representable_natCast_of_le {number : Nat} (hnumber : number ≤ 2 ^ 53) :
    Representable number := by
  have habs : |(number : Int)| ≤ 2 ^ 53 := by
    rw [Nat.abs_cast]
    exact_mod_cast hnumber
  exact_mod_cast representable_intCast_of_le habs

theorem representable_natCast {number : Nat} (hnumber : number < 2 ^ 53) :
    Representable number :=
  representable_natCast_of_le hnumber.le

end Round

/-! ## Values that arise -/

/-- A value that is the result of an operation. -/
def Proper : Binary64 → Prop
  | finite value => Representable value
  | infinite _ => True
  | nan => True

theorem proper_round (exact : Rat) : (round exact).Proper := by
  cases hround : round exact with
  | finite value => exact representable_of_round hround
  | infinite negative => trivial
  | nan => trivial

theorem proper_natCast {number : Nat} (hnumber : number < 2 ^ 53) :
    (finite (number : Rat)).Proper :=
  representable_natCast hnumber

theorem proper_add (a b : Binary64) : (a.add b).Proper := by
  fun_cases add a b with
  | case1 a b => exact proper_round (a + b)
  | _ => trivial

theorem proper_multiply (a b : Binary64) : (a.multiply b).Proper := by
  fun_cases multiply a b with
  | case1 a b => exact proper_round (a * b)
  | _ => trivial

theorem proper_divide (a b : Binary64) : (a.divide b).Proper := by
  fun_cases divide a b with
  | case1 a b => exact proper_round (a / b)
  | case6 => exact @proper_natCast 0 (by decide)
  | _ => trivial

/-- Zero is neutral for what arises in a computation. -/
theorem zero_add_of_proper {a : Binary64} (h : a.Proper) : (finite 0).add a = a := by
  cases a with
  | finite value => rw [add, zero_add, Representable.round_eq h]
  | infinite negative => rfl
  | nan => rfl

end Binary64

end EquationPuzzle
