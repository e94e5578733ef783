import EquationPuzzle.Proofs.Evaluation.Exact
import Mathlib.Algebra.Order.Floor.Ring
import Mathlib.Data.Rat.Floor

/-!
# Rounding errors

Each rounding moves a number by a small part of its size, and the errors of a row add up to no more
than a small part of the power of ten that bounds its values.  The exact value is a fraction whose
denominator keeps the same bound.  In a short row the error is therefore smaller than the distance
of a fraction from a whole number: what is computed comes to a whole number only if the exact value
is that number.
-/

namespace EquationPuzzle

namespace Binary64

/-- A number between two neighbours on a grid is rounded to one of them or to something between. -/
theorem exists_round_near_cell {exact : Rat} {place : Int} (hplace : -1074 ≤ place)
    (hsmall : place ≤ 0) (hexact : |exact| ≤ 2 ^ 52 * 2 ^ place) :
    ∃ value, round exact = finite value ∧ |value - exact| ≤ 2 ^ place := by
  have hcell := two_zpow_pos place
  have hfloor := Int.floor_le (exact / 2 ^ place)
  have hceil := Int.lt_floor_add_one (exact / 2 ^ place)
  rw [← div_le_iff₀ hcell, ← abs_of_pos hcell, ← abs_div] at hexact
  obtain ⟨hleast, hmost⟩ := abs_le.mp hexact
  generalize ⌊exact / 2 ^ place⌋ = units at hfloor hceil
  have hunits : -(2 ^ 52) - 1 < units ∧ units ≤ 2 ^ 52 := by
    constructor
    · have hlower : ((-(2 ^ 52) - 1 : Int) : Rat) < units := by
        push_cast
        linarith
      exact_mod_cast hlower
    · have hupper : (units : Rat) ≤ (2 ^ 52 : Int) := by
        push_cast
        linarith
      exact_mod_cast hupper
  have hbelow : Representable (units * 2 ^ place) := by
    apply representable_mul_zpow _ hplace hsmall
    rw [abs_lt]
    omega
  have habove : Representable ((units + 1 : Int) * 2 ^ place) := by
    apply representable_mul_zpow _ hplace hsmall
    rw [abs_lt]
    omega
  rw [le_div_iff₀ hcell] at hfloor
  rw [div_lt_iff₀ hcell] at hceil
  push_cast at habove
  obtain ⟨value, hround, hlower, hupper⟩ := exists_round_between hbelow habove hfloor hceil.le
  refine ⟨value, hround, abs_le.mpr ?_⟩
  constructor <;> linarith

/-- Rounding moves a number by a small part of a bound of its size. -/
theorem exists_round_near {exact : Rat} {size : Nat} (hpositive : 0 < size)
    (hsize : size < 2 ^ 50) (hexact : |exact| ≤ size) :
    ∃ value, round exact = finite value ∧ |value - exact| ≤ size / 2 ^ 50 := by
  have hlog : Nat.log2 size < 50 := (Nat.log2_lt (by omega)).mpr hsize
  have hcell : (2 : Rat) ^ ((Nat.log2 size : Int) - 50) = 2 ^ (Nat.log2 size : Int) / 2 ^ 50 := by
    rw [zpow_sub₀ two_ne_zero]
    rfl
  have hlower := two_zpow_log2_le hpositive
  have hupper := lt_two_zpow_log2 size
  rw [zpow_add_one₀ two_ne_zero] at hupper
  obtain ⟨value, hround, hnear⟩ :=
    @exists_round_near_cell exact ((Nat.log2 size : Int) - 50) (by omega) (by omega) (by
      rw [hcell]
      linarith)
  refine ⟨value, hround, hnear.trans ?_⟩
  rw [hcell]
  exact div_le_div_of_nonneg_right hlower (by positivity)

/-- What has been computed is close to the exact value, which is a fraction with a small
denominator. -/
structure Approximates (zeros : Nat) (exact value : Rat) : Prop where
  bound : |value| ≤ 10 ^ zeros
  error : |value - exact| ≤ 10 ^ zeros / 2 ^ 50
  fraction : ∃ parts : Nat, 0 < parts ∧ parts ≤ 10 ^ zeros ∧ ∃ whole : Int, exact * parts = whole

section Approximates

variable {exact value : Rat} {zeros : Nat}

theorem approximates_natCast {number : Nat} (hnumber : number < 10 ^ zeros) :
    Approximates zeros number number := by
  constructor
  · rw [Nat.abs_cast]
    exact_mod_cast hnumber.le
  · rw [sub_self, abs_zero]
    positivity
  · exact ⟨1, one_pos, Nat.one_le_pow _ _ (by decide), number, by push_cast; ring⟩

/-- One operation more rounds what has been computed with the errors so far. -/
theorem exists_round_approximates {computed : Rat} (hzeros : zeros < 15)
    (hbound : |computed| ≤ 10 ^ zeros) (herror : |computed - exact| ≤ 10 ^ zeros / 2 ^ 50)
    (hfraction : ∃ parts : Nat, 0 < parts ∧ parts ≤ 10 ^ zeros ∧
      ∃ whole : Int, exact * parts = whole) :
    ∃ value, round computed = finite value ∧ Approximates (zeros + 1) exact value := by
  have hpower : 10 ^ zeros < 2 ^ 50 :=
    (Nat.pow_le_pow_right (by decide) hzeros.le).trans_lt (by decide : 10 ^ 15 < 2 ^ 50)
  obtain ⟨value, hround, hnear⟩ :=
    @exists_round_near computed (10 ^ zeros) (by positivity) hpower (by exact_mod_cast hbound)
  obtain ⟨other, hother, hwithin⟩ := within_round hzeros.le hbound
  have hsame : value = other := finite.inj (hround.symm.trans hother)
  subst other
  push_cast at hnear
  have hpositive : (0 : Rat) < 10 ^ zeros := by positivity
  refine ⟨value, hround, ?_, ?_, ?_⟩
  · rw [pow_succ]
    linarith
  · have htriangle := abs_sub_le value computed exact
    have hnonneg : (0 : Rat) ≤ 10 ^ zeros / 2 ^ 50 := by positivity
    rw [pow_succ, mul_comm, mul_div_assoc]
    linarith
  · obtain ⟨parts, hparts, hmost, hwhole⟩ := hfraction
    exact ⟨parts, hparts, hmost.trans (Nat.pow_le_pow_right (by decide) (by omega)), hwhole⟩

theorem Approximates.multiply (hvalue : Approximates zeros exact value) {number more : Nat}
    (hnumber : number < 10 ^ more) (hzeros : zeros + more < 15) :
    ∃ product, (finite value).multiply (finite number) = finite product ∧
      Approximates (zeros + more + 1) (exact * number) product := by
  have hfactor : (number : Rat) ≤ 10 ^ more := by exact_mod_cast hnumber.le
  apply exists_round_approximates hzeros
  · rw [abs_mul, Nat.abs_cast, pow_add]
    exact mul_le_mul hvalue.bound hfactor (Nat.cast_nonneg _) (by positivity)
  · rw [← sub_mul, abs_mul, Nat.abs_cast, pow_add, mul_div_right_comm]
    exact mul_le_mul hvalue.error hfactor (Nat.cast_nonneg _) (by positivity)
  · obtain ⟨parts, hparts, hmost, whole, hwhole⟩ := hvalue.fraction
    refine ⟨parts, hparts, hmost.trans (Nat.pow_le_pow_right (by decide) (by omega)),
      whole * number, ?_⟩
    push_cast
    rw [← hwhole]
    ring

theorem Approximates.divide (hvalue : Approximates zeros exact value) {number more : Nat}
    (hpositive : 0 < number) (hnumber : number < 10 ^ more) (hzeros : zeros + more < 15) :
    ∃ quotient, (finite value).divide (finite number) = finite quotient ∧
      Approximates (zeros + more + 1) (exact / number) quotient := by
  have hone : (1 : Rat) ≤ number := by exact_mod_cast hpositive
  have hpower : (10 : Rat) ^ zeros ≤ 10 ^ (zeros + more) :=
    pow_le_pow_right₀ (by norm_num) (by omega)
  apply exists_round_approximates hzeros
  · rw [abs_div, Nat.abs_cast]
    exact (div_le_self (abs_nonneg value) hone).trans (hvalue.bound.trans hpower)
  · rw [← sub_div, abs_div, Nat.abs_cast]
    refine (div_le_self (abs_nonneg _) hone).trans (hvalue.error.trans ?_)
    exact div_le_div_of_nonneg_right hpower (by positivity)
  · obtain ⟨parts, hparts, hmost, whole, hwhole⟩ := hvalue.fraction
    refine ⟨parts * number, Nat.mul_pos hparts hpositive, ?_, whole, ?_⟩
    · rw [pow_add]
      exact Nat.mul_le_mul hmost hnumber.le
    · rw [← hwhole]
      push_cast
      field_simp

theorem Approximates.negate (hvalue : Approximates zeros exact value) :
    Approximates zeros (-exact) (-value) := by
  constructor
  · rw [abs_neg]
    exact hvalue.bound
  · rw [neg_sub_neg, abs_sub_comm]
    exact hvalue.error
  · obtain ⟨parts, hparts, hmost, whole, hwhole⟩ := hvalue.fraction
    refine ⟨parts, hparts, hmost, -whole, ?_⟩
    rw [neg_mul, hwhole, Int.cast_neg]

theorem Approximates.add {other otherExact : Rat} {more : Nat}
    (hvalue : Approximates zeros exact value) (hother : Approximates more otherExact other)
    (hfirst : 0 < zeros) (hsecond : 0 < more) (hzeros : zeros + more < 15) :
    ∃ sum, (finite value).add (finite other) = finite sum ∧
      Approximates (zeros + more + 1) (exact + otherExact) sum := by
  have hsizes : (10 : Rat) ^ zeros + 10 ^ more ≤ 10 ^ (zeros + more) := by
    have hten : (10 : Rat) ≤ 10 ^ zeros := le_self_pow₀ (by norm_num) hfirst.ne'
    have hten' : (10 : Rat) ≤ 10 ^ more := le_self_pow₀ (by norm_num) hsecond.ne'
    rw [pow_add]
    nlinarith
  apply exists_round_approximates hzeros
  · have htriangle := abs_add_le value other
    linarith [hvalue.bound, hother.bound]
  · have htriangle := abs_add_le (value - exact) (other - otherExact)
    have hsplit : value + other - (exact + otherExact) =
        value - exact + (other - otherExact) := by ring
    have hparts :
        (10 : Rat) ^ zeros / 2 ^ 50 + 10 ^ more / 2 ^ 50 ≤ 10 ^ (zeros + more) / 2 ^ 50 := by
      rw [← add_div]
      exact div_le_div_of_nonneg_right hsizes (by positivity)
    rw [hsplit]
    linarith [hvalue.error, hother.error]
  · obtain ⟨parts, hparts, hmost, whole, hwhole⟩ := hvalue.fraction
    obtain ⟨parts', hparts', hmost', whole', hwhole'⟩ := hother.fraction
    refine ⟨parts * parts', Nat.mul_pos hparts hparts', ?_, whole * parts' + whole' * parts, ?_⟩
    · rw [pow_add]
      exact Nat.mul_le_mul hmost hmost'
    · push_cast
      rw [← hwhole, ← hwhole']
      ring

/-- The error is too small to bridge the distance of a fraction from a whole number. -/
theorem Approximates.exact_eq {whole : Int} (hvalue : Approximates zeros exact whole)
    (hzeros : zeros ≤ 7) : exact = whole := by
  obtain ⟨parts, hparts, hmost, numerator, hnumerator⟩ := hvalue.fraction
  have hpositive : (0 : Rat) < parts := by exact_mod_cast hparts
  have hpower : (10 : Rat) ^ zeros ≤ 10 ^ 7 := pow_le_pow_right₀ (by norm_num) hzeros
  have hcast : (parts : Rat) ≤ 10 ^ zeros := by exact_mod_cast hmost
  -- Counted in parts of the fraction the distance is a whole number, and smaller than one.
  have hdistance : |((whole * parts - numerator : Int) : Rat)| < 1 := by
    have hfactor : ((whole * parts - numerator : Int) : Rat) = (whole - exact) * parts := by
      push_cast
      rw [← hnumerator]
      ring
    rw [hfactor, abs_mul, Nat.abs_cast]
    calc |whole - exact| * parts ≤ 10 ^ zeros / 2 ^ 50 * 10 ^ zeros :=
          mul_le_mul hvalue.error hcast hpositive.le (by positivity)
      _ ≤ 10 ^ 7 / 2 ^ 50 * 10 ^ 7 :=
          mul_le_mul (div_le_div_of_nonneg_right hpower (by positivity)) hpower (by positivity)
            (by positivity)
      _ < 1 := by norm_num
  have hsame : whole * parts - numerator = 0 := by
    rw [← Int.abs_lt_one_iff]
    exact_mod_cast hdistance
  have hproduct : exact * parts = whole * parts := by
    rw [hnumerator]
    exact_mod_cast (sub_eq_zero.mp hsame).symm
  exact mul_right_cancel₀ hpositive.ne' hproduct

end Approximates

end Binary64

/-! ## Trees -/

namespace Expression

open Binary64 (Approximates)

theorem bind_eq_ok {ε α β : Type} {first : Except ε α} {rest : α → Except ε β} {result : β}
    (hresult : first >>= rest = .ok result) :
    ∃ found, first = .ok found ∧ rest found = .ok result := by
  cases first with
  | error cause => contradiction
  | ok found => exact ⟨found, rfl, hresult⟩

namespace Term

/-- A quotient that has a value has a divisor other than zero. -/
theorem value_divide_eq_ok {left : Term} {right : Number} {value : Binary64}
    (hlength : right.val.length ≤ 15) (hvalue : (divide left right).value = .ok value) :
    0 < right.val.natural ∧ ∃ dividend, left.value = .ok dividend ∧
      dividend.divide (.finite right.val.natural) = value := by
  rw [Term.value, Digits.value_eq hlength] at hvalue
  obtain ⟨dividend, hdividend, hquotient⟩ := bind_eq_ok hvalue
  simp only [Operator.apply] at hquotient
  split at hquotient
  · contradiction
  · next hzero =>
      have hdivisor : right.val.natural ≠ 0 := by
        intro hnatural
        simp [hnatural, Binary64.isZero] at hzero
      exact ⟨Nat.pos_of_ne_zero hdivisor, dividend, hdividend, Except.ok.inj hquotient⟩

theorem value_multiply_eq_ok {left : Term} {right : Number} {value : Binary64}
    (hlength : right.val.length ≤ 15) (hvalue : (multiply left right).value = .ok value) :
    ∃ factor, left.value = .ok factor ∧
      factor.multiply (.finite right.val.natural) = value := by
  rw [Term.value, Digits.value_eq hlength] at hvalue
  obtain ⟨factor, hfactor, hproduct⟩ := bind_eq_ok hvalue
  exact ⟨factor, hfactor, Except.ok.inj hproduct⟩

theorem approximates {term : Term} {value : Binary64} (hvalue : term.value = .ok value)
    (hlength : term.symbols.length ≤ 15) :
    ∃ computed, value = .finite computed ∧
      Approximates term.symbols.length term.exact computed := by
  induction term generalizing value with
  | number only =>
      have hdigits := Digits.value_eq (only.length_symbols ▸ hlength)
      refine ⟨only.val.natural, ?_, Binary64.approximates_natCast only.natural_lt⟩
      rw [← hdigits]
      exact (Except.ok.inj hvalue).symm
  | multiply left right ih =>
      rw [length_symbols_multiply] at hlength ⊢
      obtain ⟨factor, hfactor, hproduct⟩ :=
        value_multiply_eq_ok (by rw [← right.length_symbols]; omega) hvalue
      obtain ⟨computed, hcomputed, hleft⟩ := ih hfactor (by omega)
      subst hcomputed
      rw [← hproduct]
      exact hleft.multiply right.natural_lt (by omega)
  | divide left right ih =>
      rw [length_symbols_divide] at hlength ⊢
      obtain ⟨hpositive, dividend, hdividend, hquotient⟩ :=
        value_divide_eq_ok (by rw [← right.length_symbols]; omega) hvalue
      obtain ⟨computed, hcomputed, hleft⟩ := ih hdividend (by omega)
      subst hcomputed
      rw [← hquotient]
      exact hleft.divide hpositive right.natural_lt (by omega)

end Term

namespace Sum

theorem value_add_eq_ok {left : Sum} {right : Term} {value : Binary64}
    (hvalue : (add left right).value = .ok value) :
    ∃ total term, left.value = .ok total ∧ right.value = .ok term ∧ total.add term = value := by
  rw [Sum.value] at hvalue
  obtain ⟨total, htotal, hrest⟩ := bind_eq_ok hvalue
  obtain ⟨term, hterm, hresult⟩ := bind_eq_ok hrest
  exact ⟨total, term, htotal, hterm, Except.ok.inj hresult⟩

theorem value_subtract_eq_ok {left : Sum} {right : Term} {value : Binary64}
    (hvalue : (subtract left right).value = .ok value) :
    ∃ total term, left.value = .ok total ∧ right.value = .ok term ∧
      total.add term.negate = value := by
  rw [Sum.value] at hvalue
  obtain ⟨total, htotal, hrest⟩ := bind_eq_ok hvalue
  obtain ⟨term, hterm, hresult⟩ := bind_eq_ok hrest
  exact ⟨total, term, htotal, hterm, Except.ok.inj hresult⟩

theorem approximates {sum : Sum} {value : Binary64} (hvalue : sum.value = .ok value)
    (hlength : sum.symbols.length ≤ 15) :
    ∃ computed, value = .finite computed ∧
      Approximates sum.symbols.length sum.exact computed := by
  induction sum generalizing value with
  | term only => exact Term.approximates hvalue hlength
  | add left right ih =>
      rw [length_symbols_add] at hlength ⊢
      obtain ⟨total, term, htotal, hterm, hsum⟩ := value_add_eq_ok hvalue
      obtain ⟨computed, hcomputed, hleft⟩ := ih htotal (by omega)
      obtain ⟨other, hother, hright⟩ := Term.approximates hterm (by omega)
      subst hcomputed hother
      rw [← hsum]
      exact hleft.add hright left.length_symbols_pos right.length_symbols_pos (by omega)
  | subtract left right ih =>
      rw [length_symbols_subtract] at hlength ⊢
      obtain ⟨total, term, htotal, hterm, hsum⟩ := value_subtract_eq_ok hvalue
      obtain ⟨computed, hcomputed, hleft⟩ := ih htotal (by omega)
      obtain ⟨other, hother, hright⟩ := Term.approximates hterm (by omega)
      subst hcomputed hother
      rw [← hsum, exact, sub_eq_add_neg]
      exact hleft.add hright.negate left.length_symbols_pos right.length_symbols_pos (by omega)

/-- A short row comes to a whole number only if that is its exact value. -/
theorem exact_eq_of_value {sum : Sum} {whole : Int} (hvalue : sum.value = .ok (.finite whole))
    (hlength : sum.symbols.length ≤ 7) : sum.exact = whole := by
  obtain ⟨computed, hcomputed, happroximates⟩ := approximates hvalue (by omega)
  have hsame : (whole : Rat) = computed := Binary64.finite.inj hcomputed
  subst computed
  exact happroximates.exact_eq hlength

end Sum

end Expression

end EquationPuzzle
